import LdkSample.Machine.Basic

/-!
# Machines with a log

`M.logged note` is `M` with a log that each step extends by `note` and no step reads. It takes the
steps of `M` (`logged_step`), so it has the runs of `M` (`run_of_logged`, `exists_logged_run`).
-/

namespace LdkSample

namespace Machine

universe u v

structure Logged (σ γ : Type u) where
  state : σ
  log : γ
  deriving DecidableEq

variable {σ γ : Type u} {ℓ : Type v}

def logged (M : Machine σ ℓ) (note : σ → ℓ → γ → γ) : Machine (Logged σ γ) ℓ where
  step w l := (M.step w.state l).map fun s => ⟨s, note w.state l w.log⟩

variable {M : Machine σ ℓ} {note : σ → ℓ → γ → γ} {w w' : Logged σ γ} {s : σ} {l : ℓ} {ls : List ℓ}

theorem logged_step : (M.logged note).step w l = some w' ↔
    M.step w.state l = some w'.state ∧ w'.log = note w.state l w.log := by
  constructor
  · intro h
    obtain ⟨s, hs, rfl⟩ := Option.map_eq_some_iff.mp h
    exact ⟨hs, rfl⟩
  · rintro ⟨hs, hlog⟩
    refine Option.map_eq_some_iff.mpr ⟨w'.state, hs, ?_⟩
    rw [← hlog]

theorem run_of_logged (h : (M.logged note).run w ls = some w') : M.run w.state ls = some w'.state := by
  induction ls generalizing w with
  | nil =>
    cases h
    rfl
  | cons l ls ih =>
    obtain ⟨w₁, h₁, h₂⟩ := run_cons_inv h
    exact (run_cons (logged_step.mp h₁).1).trans (ih h₂)

theorem exists_logged_run (h : M.run w.state ls = some s) :
    ∃ g, (M.logged note).run w ls = some ⟨s, g⟩ := by
  induction ls generalizing w with
  | nil =>
    cases h
    exact ⟨w.log, rfl⟩
  | cons l ls ih =>
    obtain ⟨s₁, h₁, h₂⟩ := run_cons_inv h
    obtain ⟨g, hg⟩ := ih (w := ⟨s₁, note w.state l w.log⟩) h₂
    exact ⟨g, (run_cons (logged_step.mpr ⟨h₁, rfl⟩)).trans hg⟩

end Machine

end LdkSample
