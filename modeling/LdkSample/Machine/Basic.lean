import Mathlib.Data.List.Basic

/-!
# Labelled machines

`M.step s l` is the state after the label `l`, or `none` when `l` is not enabled
in `s`. `M.run` follows a list of labels; `M.Along ok s ls` says that every step
of that run meets `ok` in the state before it. An invariant of the steps that meet
`ok` is an invariant of the runs along `ok` (`inv_run`), and a refinement carries runs
of the concrete machine to runs of the abstract one (`Refines.run`). `M.Follows s R w`
matches a state of something else, such as a program, with a run.
-/

namespace LdkSample

universe u v

structure Machine (σ : Type u) (ℓ : Type v) where
  step : σ → ℓ → Option σ

namespace Machine

variable {σ : Type u} {ℓ : Type v}

def run (M : Machine σ ℓ) : σ → List ℓ → Option σ
  | s, [] => some s
  | s, l :: ls =>
    match M.step s l with
    | some s' => M.run s' ls
    | none => none

/-- Every step of the run from `s` along `ls` meets `ok` in the state before it. -/
def Along (M : Machine σ ℓ) (ok : σ → ℓ → Prop) : σ → List ℓ → Prop
  | _, [] => True
  | s, l :: ls => ok s l ∧
    match M.step s l with
    | some s' => M.Along ok s' ls
    | none => True

variable {M : Machine σ ℓ} {ok : σ → ℓ → Prop} {s s' t : σ} {l : ℓ} {ls ks : List ℓ}

theorem run_cons (h : M.step s l = some s') : M.run s (l :: ls) = M.run s' ls := by
  simp only [run, h]

theorem run_cons_inv (h : M.run s (l :: ls) = some t) :
    ∃ s', M.step s l = some s' ∧ M.run s' ls = some t := by
  simp only [run] at h
  split at h
  · next s' hs => exact ⟨s', hs, h⟩
  · cases h

theorem run_single : M.run s [l] = M.step s l := by
  simp only [run]
  split
  · next h => exact h.symm
  · next h => exact h.symm

theorem run_append (h : M.run s ls = some s') : M.run s (ls ++ ks) = M.run s' ks := by
  induction ls generalizing s with
  | nil => cases h; rfl
  | cons l ls ih =>
    obtain ⟨s₁, h₁, h₂⟩ := run_cons_inv h
    rw [List.cons_append, run_cons h₁, ih h₂]

theorem run_append_inv (h : M.run s (ls ++ ks) = some t) :
    ∃ s', M.run s ls = some s' ∧ M.run s' ks = some t := by
  induction ls generalizing s with
  | nil => exact ⟨s, rfl, h⟩
  | cons l ls ih =>
    obtain ⟨s₁, h₁, h₂⟩ := run_cons_inv h
    obtain ⟨s₂, h₃, h₄⟩ := ih h₂
    exact ⟨s₂, by rw [run_cons h₁, h₃], h₄⟩

@[simp] theorem along_nil : M.Along ok s [] := trivial

theorem along_cons (h : M.step s l = some s') :
    M.Along ok s (l :: ls) ↔ ok s l ∧ M.Along ok s' ls := by
  simp only [Along, h]

theorem along_append (h : M.run s ls = some s') :
    M.Along ok s (ls ++ ks) ↔ M.Along ok s ls ∧ M.Along ok s' ks := by
  induction ls generalizing s with
  | nil => cases h; simp
  | cons l ls ih =>
    obtain ⟨s₁, h₁, h₂⟩ := run_cons_inv h
    rw [List.cons_append, along_cons h₁, along_cons h₁, ih h₂, and_assoc]

/-- A run all of whose splits meet `ok` at the split meets it along the way. -/
theorem along_of_splits
    (h : ∀ as l bs s', ls = as ++ l :: bs → M.run s as = some s' → ok s' l) :
    M.Along ok s ls := by
  induction ls generalizing s with
  | nil => trivial
  | cons l ls ih =>
    refine ⟨h [] l ls s rfl rfl, ?_⟩
    split
    · next s₁ h₁ =>
      exact ih fun as k bs s' he hr => h (l :: as) k bs s' (by rw [he, List.cons_append])
        (by rw [run_cons h₁, hr])
    · trivial

/-- **The invariant rule**: what every step that meets `ok` preserves, every run along `ok`
preserves. -/
theorem inv_run (ok : σ → ℓ → Prop) {I : σ → Prop}
    (hstep : ∀ s l s', I s → ok s l → M.step s l = some s' → I s')
    (hI : I s) (ha : M.Along ok s ls) (hr : M.run s ls = some s') : I s' := by
  induction ls generalizing s with
  | nil => cases hr; exact hI
  | cons l ls ih =>
    obtain ⟨s₁, h₁, h₂⟩ := run_cons_inv hr
    have ha' := (along_cons h₁).mp ha
    exact ih (hstep s l s₁ hI ha'.1 h₁) ha'.2 h₂

/-- Where `ok` keeps an invariant that implies `good`, every run along `ok` is along `good`. -/
theorem Along.of_inv {I : σ → Prop} {good : σ → ℓ → Prop} (ha : M.Along ok s ls)
    (hstep : ∀ s l s', I s → ok s l → M.step s l = some s' → I s')
    (hgood : ∀ s l, I s → ok s l → good s l) (hI : I s) : M.Along good s ls := by
  induction ls generalizing s with
  | nil => trivial
  | cons l ls ih =>
    refine ⟨hgood s l hI ha.1, ?_⟩
    split
    · next s₁ h₁ => exact ih ((along_cons h₁).mp ha).2 (hstep s l s₁ hI ha.1 h₁)
    · trivial

theorem along_true : M.Along (fun _ _ => True) s ls := by
  induction ls generalizing s with
  | nil => trivial
  | cons l ls ih =>
    refine ⟨trivial, ?_⟩
    split
    · exact ih
    · trivial

/-- The invariant rule for unrestricted runs. -/
theorem inv_run_all {I : σ → Prop} (hstep : ∀ s l s', I s → M.step s l = some s' → I s')
    (hI : I s) (hr : M.run s ls = some s') : I s' :=
  inv_run (fun _ _ => True) (fun s l s' h _ => hstep s l s' h) hI along_true hr

theorem Along.and_forall {P : ℓ → Prop} (ha : M.Along ok s ls) (hP : ∀ l ∈ ls, P l) :
    M.Along (fun s l => ok s l ∧ P l) s ls := by
  induction ls generalizing s with
  | nil => trivial
  | cons l ls ih =>
    refine ⟨⟨ha.1, hP l List.mem_cons_self⟩, ?_⟩
    have h2 := ha.2
    split
    · next s₁ h₁ => rw [h₁] at h2; exact ih h2 fun k hk => hP k (List.mem_cons_of_mem _ hk)
    · trivial

theorem along_of_forall {P : ℓ → Prop} (hP : ∀ l ∈ ls, P l) : M.Along (fun _ => P) s ls := by
  induction ls generalizing s with
  | nil => trivial
  | cons l ls ih =>
    rw [List.forall_mem_cons] at hP
    refine ⟨hP.1, ?_⟩
    split
    · exact ih hP.2
    · trivial

/-! ## Refinement -/

/-- `N` refines `M`: `abs` maps states, and each step of `N` is a run of `M`. -/
structure Refines {τ : Type u} {κ : Type v} (N : Machine τ κ) (M : Machine σ ℓ) where
  abs : τ → σ
  lab : τ → κ → List ℓ
  sim : ∀ t k t', N.step t k = some t' → M.run (abs t) (lab t k) = some (abs t')

namespace Refines

variable {τ : Type u} {κ : Type v} {N : Machine τ κ}

/-- The labels of the abstract run. -/
def labs (R : N.Refines M) : τ → List κ → List ℓ
  | _, [] => []
  | t, k :: ks => R.lab t k ++
    match N.step t k with
    | some t' => R.labs t' ks
    | none => []

theorem run (R : N.Refines M) {t t' : τ} {ks : List κ} (h : N.run t ks = some t') :
    M.run (R.abs t) (R.labs t ks) = some (R.abs t') := by
  induction ks generalizing t with
  | nil => cases h; rfl
  | cons k ks ih =>
    obtain ⟨t₁, h₁, h₂⟩ := run_cons_inv h
    simp only [labs, h₁]
    rw [run_append (R.sim t k t₁ h₁), ih h₂]

/-- Each of them is of some step of the concrete run. -/
theorem mem_labs (R : N.Refines M) {t : τ} {ks : List κ} {l : ℓ} (h : l ∈ R.labs t ks) :
    ∃ x, ∃ k ∈ ks, l ∈ R.lab x k := by
  induction ks generalizing t with
  | nil => cases h
  | cons k ks ih =>
    rcases List.mem_append.mp h with h | h
    · exact ⟨t, k, List.mem_cons_self, h⟩
    · split at h
      · obtain ⟨x, k', hk', hl⟩ := ih h
        exact ⟨x, k', List.mem_cons_of_mem _ hk', hl⟩
      · cases h

/-- A run whose steps from `a` are none of the abstract machine stays there. -/
theorem stays (R : N.Refines M) {a : σ} {t t' : τ} {ks : List κ} (ha : R.abs t = a)
    (hlab : ∀ k ∈ ks, ∀ x, R.abs x = a → R.lab x k = []) (h : N.run t ks = some t') :
    R.abs t' = a := by
  induction ks generalizing t with
  | nil =>
    cases h
    exact ha
  | cons k ks ih =>
    obtain ⟨t₁, h₁, h₂⟩ := run_cons_inv h
    rw [List.forall_mem_cons] at hlab
    have hsim := R.sim t k t₁ h₁
    rw [hlab.1 t ha] at hsim
    exact ih ((Option.some.inj hsim).symm.trans ha) hlab.2 h₂

end Refines

/-! ## States matched by runs -/

/-- Some run of `M` from `s` ends in a state that `R` relates to `w`. -/
def Follows {τ : Type v} (M : Machine σ ℓ) (s : σ) (R : σ → τ → Prop) (w : τ) : Prop :=
  ∃ ls t, M.run s ls = some t ∧ R t w

section Follows

variable {τ κ : Type v} {R : σ → τ → Prop} {R' : σ → κ → Prop} {w : τ} {w' : κ}

theorem follows_refl (h : R s w) : M.Follows s R w := ⟨[], s, rfl, h⟩

theorem Follows.mono (h : M.Follows s R w) (hr : ∀ t, R t w → R' t w') : M.Follows s R' w' := by
  obtain ⟨ls, t, hrun, ht⟩ := h
  exact ⟨ls, t, hrun, hr t ht⟩

/-- One more step of the machine. -/
theorem Follows.next (h : M.Follows s R w) (l : ℓ)
    (hl : ∀ t, R t w → ∃ t', M.step t l = some t' ∧ R' t' w') : M.Follows s R' w' := by
  obtain ⟨ls, t, hrun, ht⟩ := h
  obtain ⟨t', hstep, ht'⟩ := hl t ht
  refine ⟨ls ++ [l], t', ?_, ht'⟩
  rw [run_append hrun, run_single, hstep]

/-- A run to `s'`, and on from there. -/
theorem Follows.trans (h : M.Follows s' R w) (hr : M.run s ls = some s') : M.Follows s R w := by
  obtain ⟨ks, t, hrun, ht⟩ := h
  exact ⟨ls ++ ks, t, by rw [run_append hr, hrun], ht⟩

end Follows

end Machine

end LdkSample
