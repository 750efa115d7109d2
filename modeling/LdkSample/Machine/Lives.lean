import LdkSample.Machine.Basic
import LdkSample.Machine.Crash

/-!
# Lives of a machine

A `Service` is a machine that can be killed at any time and is started again from what the kill
left: `crash s` are the durable states a kill in `s` may leave, `start e` is the program that runs
before the machine does. `V.lives` alternates the two without end. What a step, a kill and a
start keep, every number of lives keeps (`lives_inv`).
-/

namespace LdkSample

/-- Where an element of a list with one more element is, from the `i`-th on. -/
theorem mem_drop_concat {α : Type} {xs : List α} {x y : α} {i : Nat}
    (h : x ∈ (xs ++ [y]).drop i) : x ∈ xs.drop i ∨ x = y := by
  rw [List.drop_append] at h
  rcases List.mem_append.mp h with h | h
  · exact .inl h
  · exact .inr (List.mem_singleton.mp (List.mem_of_mem_drop h))

namespace Machine

variable {σ ℓ δ ε α : Type}

structure Service (σ ℓ δ ε α : Type) where
  machine : Machine σ ℓ
  crash : σ → List δ
  /-- `none` where the start returns early. -/
  start : ε → Crash δ (Option α)
  /-- The machine as a start leaves it. -/
  up : α → δ → σ

inductive Phase (σ δ : Type) where
  | up (s : σ)
  | down (d : δ)

/-- What holds while the machine is up, and of what a kill leaves. -/
def Phase.Holds (U : σ → Prop) (D : δ → Prop) : Phase σ δ → Prop
  | .up s => U s
  | .down d => D d

inductive LifeLabel (ℓ ε : Type) where
  | step (l : ℓ)
  /-- A kill that leaves the `n`-th of the states it may leave. -/
  | kill (n : Nat)
  | start (e : ε)
  /-- A start killed after its `n`-th step, or one that panics there. -/
  | startKilled (e : ε) (n : Nat)

/-- Where the label is a start, its environment meets `P`. -/
def LifeLabel.StartsWith (P : ε → Prop) : LifeLabel ℓ ε → Prop
  | .start e | .startKilled e _ => P e
  | _ => True

namespace Service

variable (V : Service σ ℓ δ ε α)

def lives : Machine (Phase σ δ) (LifeLabel ℓ ε) where
  step
    | .up s, .step l => (V.machine.step s l).map .up
    | .up s, .kill n => (V.crash s)[n]?.map .down
    | .down d, .start e =>
      match (V.start e).exec d with
      | some (some a, d') => some (.up (V.up a d'))
      | some (none, d') => some (.down d')
      | none => none
    | .down d, .startKilled e n => ((V.start e).steps d)[n]?.map .down
    | _, _ => none

/-- Every way a step can go. -/
inductive LifeStep : Phase σ δ → LifeLabel ℓ ε → Phase σ δ → Prop where
  | step {s s' : σ} {l : ℓ} : V.machine.step s l = some s' → LifeStep (.up s) (.step l) (.up s')
  | kill {s : σ} {n : Nat} {d : δ} : d ∈ V.crash s → LifeStep (.up s) (.kill n) (.down d)
  | started {d d' : δ} {e : ε} {a : α} : (V.start e).exec d = some (some a, d') →
      LifeStep (.down d) (.start e) (.up (V.up a d'))
  | returned {d d' : δ} {e : ε} : (V.start e).exec d = some (none, d') →
      LifeStep (.down d) (.start e) (.down d')
  | startKilled {d d' : δ} {e : ε} {n : Nat} : d' ∈ (V.start e).steps d →
      LifeStep (.down d) (.startKilled e n) (.down d')

variable {V}

theorem lives_step_cases {x x' : Phase σ δ} {k : LifeLabel ℓ ε}
    (h : V.lives.step x k = some x') : V.LifeStep x k x' := by
  unfold lives at h
  cases x with
  | up s =>
    cases k with
    | step l =>
      obtain ⟨s', hs, rfl⟩ := Option.map_eq_some_iff.mp h
      exact .step hs
    | kill n =>
      obtain ⟨d, hd, rfl⟩ := Option.map_eq_some_iff.mp h
      exact .kill (List.mem_of_getElem? hd)
    | start e => cases h
    | startKilled e n => cases h
  | down d =>
    cases k with
    | step l => cases h
    | kill n => cases h
    | start e =>
      dsimp only at h
      split at h
      · next a d' he => cases h; exact .started he
      · next d' he => cases h; exact .returned he
      · cases h
    | startKilled e n =>
      obtain ⟨d', hd, rfl⟩ := Option.map_eq_some_iff.mp h
      exact .startKilled (List.mem_of_getElem? hd)

theorem lives_started {d d' : δ} {e : ε} {a : α} (h : (V.start e).exec d = some (some a, d')) :
    V.lives.step (.down d) (.start e) = some (.up (V.up a d')) := by
  unfold lives
  dsimp only
  rw [h]

theorem lives_returned {d d' : δ} {e : ε} (h : (V.start e).exec d = some (none, d')) :
    V.lives.step (.down d) (.start e) = some (.down d') := by
  unfold lives
  dsimp only
  rw [h]

/-- How a start may end: up and in `U`, or early with `D`. -/
def Starts (V : Service σ ℓ δ ε α) (U : σ → Prop) (D : δ → Prop) : Option α → δ → Prop
  | some a, d => U (V.up a d)
  | none, d => D d

variable {U : σ → Prop} {D : δ → Prop} {x t : Phase σ δ} {ks : List (LifeLabel ℓ ε)}

/-- **The rule of lives**: an invariant of the steps, the kills and the starts that meet `ok` holds
whenever every step of the lives meets it. -/
theorem lives_inv (ok : Phase σ δ → LifeLabel ℓ ε → Prop)
    (hstep : ∀ s l s', U s → ok (.up s) (.step l) → V.machine.step s l = some s' → U s')
    (hkill : ∀ s n, U s → ok (.up s) (.kill n) → ∀ d ∈ V.crash s, D d)
    (hstart : ∀ e, Crash.Triple
      (fun d => D d ∧ (ok (.down d) (.start e) ∨ ∃ n, ok (.down d) (.startKilled e n)))
      (V.start e) (V.Starts U D) D)
    (hx : Phase.Holds U D x) (ha : V.lives.Along ok x ks) (hr : V.lives.run x ks = some t) :
    Phase.Holds U D t := by
  refine inv_run ok (fun y k y' hy hok hs => ?_) hx ha hr
  cases lives_step_cases hs with
  | step hl => exact hstep _ _ _ hy hok hl
  | kill hd => exact hkill _ _ hy hok _ hd
  | started he => exact (hstart _ _ ⟨hy, .inl hok⟩).2 _ _ he
  | returned he => exact (hstart _ _ ⟨hy, .inl hok⟩).2 _ _ he
  | startKilled hd => exact (hstart _ _ ⟨hy, .inr ⟨_, hok⟩⟩).1 _ hd

/-- The rule for an invariant that needs something of the environment of each start only. -/
theorem lives_inv_of (okStart : ε → Prop)
    (hstep : ∀ s l s', U s → V.machine.step s l = some s' → U s')
    (hkill : ∀ s, U s → ∀ d ∈ V.crash s, D d)
    (hstart : ∀ e, okStart e → Crash.Triple D (V.start e) (V.Starts U D) D)
    (hx : Phase.Holds U D x) (hok : ∀ k ∈ ks, k.StartsWith okStart)
    (hr : V.lives.run x ks = some t) : Phase.Holds U D t := by
  refine lives_inv (fun _ k => k.StartsWith okStart) (fun s l s' h _ => hstep s l s' h)
    (fun s _ h _ => hkill s h) (fun e => .exact fun d ⟨hd, hok⟩ => ?_) hx (along_of_forall hok) hr
  refine (hstart e (hok.elim id fun ⟨_, h⟩ => h)).pre ?_
  rintro d' rfl
  exact hd

/-- The rule for an invariant that needs nothing of the environment. -/
theorem lives_inv_all (hstep : ∀ s l s', U s → V.machine.step s l = some s' → U s')
    (hkill : ∀ s, U s → ∀ d ∈ V.crash s, D d)
    (hstart : ∀ e, Crash.Triple D (V.start e) (V.Starts U D) D)
    (hx : Phase.Holds U D x) (hr : V.lives.run x ks = some t) : Phase.Holds U D t :=
  lives_inv (fun _ _ => True) (fun s l s' h _ => hstep s l s' h) (fun s _ h _ => hkill s h)
    (fun e => (hstart e).pre fun _ h => h.1) hx along_true hr

end Service

end Machine

end LdkSample
