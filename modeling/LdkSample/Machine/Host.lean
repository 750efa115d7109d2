import LdkSample.Machine.Lives
import Mathlib.Logic.Function.Basic

/-!
# Services side by side

A host has a durable state for every key. Its `Router` says what a start is: a start of the service
for the state of one key, or one that goes no further. One instance is up at a time, and touches the
state of its key only. Seen at one key, the lives of the host are lives of the service
(`hostedRefines`), and nothing has happened where no start was routed to (`untouched`).
-/

namespace LdkSample

namespace Machine

variable {σ ℓ δ ε α κ ε' : Type} [DecidableEq κ]

/-- A start of the instance of one key. -/
def startAt (k : κ) (m : Crash δ (Option α)) : Crash (κ → δ) (Option (κ × α)) := do
  match ← Crash.within (fun host => host k) (fun d host => Function.update host k d) m with
  | none => pure none
  | some a => pure (some (k, a))

theorem steps_startAt (k : κ) (m : Crash δ (Option α)) (host : κ → δ) :
    (startAt k m).steps host = (m.steps (host k)).map fun d => Function.update host k d := by
  refine Crash.steps_bind_of_nil (fun a t => ?_) host
  cases a <;> rfl

theorem exec_startAt (k : κ) (m : Crash δ (Option α)) (host : κ → δ) :
    (startAt k m).exec host = (m.exec (host k)).map fun r =>
      (r.1.map fun a => (k, a), Function.update host k r.2) := by
  unfold startAt
  rw [Crash.exec_bind]
  show ((m.exec (host k)).map fun r => (r.1, Function.update host k r.2)).bind _ = _
  cases m.exec (host k) with
  | none => rfl
  | some r =>
    obtain ⟨a, d⟩ := r
    cases a <;> rfl

namespace Service

variable (V : Service σ ℓ δ ε α)

structure Router (κ ε' : Type) [DecidableEq κ] where
  start : ε' → Crash (κ → δ) (Option (κ × α))
  /-- The key and the environment of the start, `none` where it goes no further. -/
  route : ε' → Option (κ × ε)
  goes : ∀ e k e₀, route e = some (k, e₀) → start e = startAt k (V.start e₀)
  stays : ∀ e, route e = none → start e = pure none ∨ start e = Crash.abort

/-- The instance of `key`; what stands in `host` for its own key is out of date. -/
structure Hosted (κ σ δ : Type) where
  host : κ → δ
  key : κ
  state : σ

variable {V}

def hosted (R : V.Router κ ε') : Service (Hosted κ σ δ) ℓ (κ → δ) ε' (κ × α) where
  machine := ⟨fun s l => (V.machine.step s.state l).map fun t => { s with state := t }⟩
  crash s := (V.crash s.state).map fun d => Function.update s.host s.key d
  start := R.start
  up r host := ⟨host, r.1, V.up r.2 (host r.1)⟩

/-- The phase of one instance. -/
def Hosted.phaseAt (k : κ) : Phase (Hosted κ σ δ) (κ → δ) → Phase σ δ
  | .up s => if s.key = k then .up s.state else .down (s.host k)
  | .down host => .down (host k)

/-- The environment of a start of this instance. -/
def startsAt (R : V.Router κ ε') (k : κ) (e : ε') : Option ε :=
  match R.route e with
  | some (k', e₀) => if k' = k then some e₀ else none
  | none => none

/-- What a label is to one instance. -/
def labelAt (R : V.Router κ ε') (k : κ) :
    Phase (Hosted κ σ δ) (κ → δ) → LifeLabel ℓ ε' → List (LifeLabel ℓ ε)
  | .up s, .step l => if s.key = k then [.step l] else []
  | .up s, .kill n => if s.key = k then [.kill n] else []
  | .down _, .start e => (startsAt R k e).toList.map .start
  | .down _, .startKilled e n => (startsAt R k e).toList.map fun e₀ => .startKilled e₀ n
  | _, _ => []

variable {R : V.Router κ ε'} {k : κ} {e : ε'} {e₀ : ε} {host host' : κ → δ} {r : Option (κ × α)}

theorem route_of_startsAt (h : startsAt R k e = some e₀) : R.route e = some (k, e₀) := by
  unfold startsAt at h
  split at h
  · next k' e₁ hr =>
    obtain ⟨rfl, heq⟩ := Option.ite_none_right_eq_some.mp h
    cases heq
    exact hr
  · cases h

/-- A start of another instance, or of none, leaves this one alone. -/
theorem exec_other (h : startsAt R k e = none) (he : (R.start e).exec host = some (r, host')) :
    host' k = host k ∧ ∀ a, r ≠ some (k, a) := by
  unfold startsAt at h
  split at h
  · next k' e₁ hr =>
    have hk : k' ≠ k := fun hk => by
      rw [if_pos hk] at h
      cases h
    rw [R.goes e k' e₁ hr, exec_startAt] at he
    obtain ⟨⟨a, d⟩, -, heq⟩ := Option.map_eq_some_iff.mp he
    cases heq
    refine ⟨Function.update_of_ne (Ne.symm hk) .., fun a' ha => ?_⟩
    obtain ⟨_, -, heq⟩ := Option.map_eq_some_iff.mp ha
    cases heq
    exact hk rfl
  · next hr =>
    rcases R.stays e hr with hs | hs
    · rw [hs] at he
      cases he
      exact ⟨rfl, fun _ ha => by cases ha⟩
    · rw [hs] at he
      cases he

theorem steps_other (h : startsAt R k e = none) (hd : host' ∈ (R.start e).steps host) :
    host' k = host k := by
  unfold startsAt at h
  split at h
  · next k' e₁ hr =>
    have hk : k' ≠ k := fun hk => by
      rw [if_pos hk] at h
      cases h
    rw [R.goes e k' e₁ hr, steps_startAt] at hd
    obtain ⟨d, -, rfl⟩ := List.mem_map.mp hd
    exact Function.update_of_ne (Ne.symm hk) ..
  · next hr =>
    rcases R.stays e hr with hs | hs
    · rw [hs] at hd
      cases hd
    · rw [hs] at hd
      cases hd

/-- A start of this instance. -/
theorem start_eq (h : startsAt R k e = some e₀) : R.start e = startAt k (V.start e₀) :=
  R.goes e k e₀ (route_of_startsAt h)

theorem phaseAt_up {s : Hosted κ σ δ} (h : s.key ≠ k) :
    Hosted.phaseAt k (.up s) = (.down (s.host k) : Phase σ δ) := if_neg h

/-- A start that has ended, seen at one key. -/
theorem start_at {x : Phase (Hosted κ σ δ) (κ → δ)}
    (h : (hosted R).lives.step (.down host) (.start e) = some x) :
    V.lives.run (.down (host k)) (labelAt R k (.down host) (.start e)) =
      some (Hosted.phaseAt k x) := by
  show V.lives.run _ ((startsAt R k e).toList.map .start) = _
  cases hs : startsAt R k e with
  | none =>
    cases lives_step_cases h with
    | @started _ host' _ r he =>
      obtain ⟨hkeep, hother⟩ := exec_other hs he
      rw [phaseAt_up fun hk => hother r.2 (by rw [← hk]; rfl)]
      exact congrArg some (congrArg Phase.down hkeep.symm)
    | returned he => exact congrArg some (congrArg Phase.down (exec_other hs he).1.symm)
  | some e₀ =>
    have hexec : ((hosted R).start e).exec host = _ :=
      (congrArg (fun m => Crash.exec m host) (start_eq hs)).trans (exec_startAt k _ host)
    refine run_single.trans ?_
    cases lives_step_cases h with
    | @started _ host' _ r he =>
      obtain ⟨⟨a, d⟩, hd, heq⟩ := Option.map_eq_some_iff.mp (hexec.symm.trans he)
      cases a with
      | none => cases heq
      | some a =>
        cases heq
        refine (lives_started hd).trans ?_
        unfold Hosted.phaseAt hosted
        dsimp only
        rw [if_pos rfl, Function.update_self]
    | @returned _ host' _ he =>
      obtain ⟨⟨a, d⟩, hd, heq⟩ := Option.map_eq_some_iff.mp (hexec.symm.trans he)
      cases a with
      | some a => cases heq
      | none =>
        cases heq
        refine (lives_returned hd).trans ?_
        unfold Hosted.phaseAt
        dsimp only
        rw [Function.update_self]

theorem startKilled_at {n : Nat} {x : Phase (Hosted κ σ δ) (κ → δ)}
    (h : (hosted R).lives.step (.down host) (.startKilled e n) = some x) :
    V.lives.run (.down (host k)) (labelAt R k (.down host) (.startKilled e n)) =
      some (Hosted.phaseAt k x) := by
  obtain ⟨host', hn, rfl⟩ := Option.map_eq_some_iff.mp h
  have hn' : ((R.start e).steps host)[n]? = some host' := hn
  show V.lives.run _ ((startsAt R k e).toList.map fun e₀ => .startKilled e₀ n) = _
  cases hs : startsAt R k e with
  | none =>
    have hkeep := steps_other hs (List.mem_of_getElem? hn')
    exact congrArg some (congrArg Phase.down hkeep.symm)
  | some e₀ =>
    rw [start_eq hs, steps_startAt, List.getElem?_map, Option.map_eq_some_iff] at hn'
    obtain ⟨d, hd, rfl⟩ := hn'
    refine run_single.trans ?_
    unfold lives Hosted.phaseAt
    dsimp only
    rw [hd, Function.update_self]
    rfl

/-- **At one key, the lives of a host are lives of the service.** -/
def hostedRefines (R : V.Router κ ε') (k : κ) : (hosted R).lives.Refines V.lives where
  abs := Hosted.phaseAt k
  lab := labelAt R k
  sim x l x' h := by
    cases x with
    | up s =>
      cases l with
      | step l =>
        obtain ⟨s', hs, rfl⟩ := Option.map_eq_some_iff.mp h
        obtain ⟨t, ht, rfl⟩ := Option.map_eq_some_iff.mp hs
        unfold labelAt Hosted.phaseAt
        dsimp only
        by_cases hk : s.key = k
        · rw [if_pos hk, if_pos hk, if_pos hk, run_single]
          unfold lives
          dsimp only
          rw [ht]
          rfl
        · rw [if_neg hk, if_neg hk, if_neg hk]
          rfl
      | kill n =>
        obtain ⟨host, hh, rfl⟩ := Option.map_eq_some_iff.mp h
        have hh' : ((V.crash s.state).map fun d => Function.update s.host s.key d)[n]? = some host := hh
        rw [List.getElem?_map, Option.map_eq_some_iff] at hh'
        obtain ⟨d, hd, rfl⟩ := hh'
        unfold labelAt Hosted.phaseAt
        dsimp only
        by_cases hk : s.key = k
        · subst hk
          rw [if_pos rfl, if_pos rfl, run_single, Function.update_self]
          unfold lives
          dsimp only
          rw [hd]
          rfl
        · rw [if_neg hk, if_neg hk, Function.update_of_ne (Ne.symm hk)]
          rfl
      | start e => cases h
      | startKilled e n => cases h
    | down host =>
      cases l with
      | step l => cases h
      | kill n => cases h
      | start e => exact start_at h
      | startKilled e n => exact startKilled_at h

/-- A start seen at a key is one that is routed to it. -/
theorem startsWith_labelAt {Q : ε → Prop} {x : Phase (Hosted κ σ δ) (κ → δ)}
    {l' : LifeLabel ℓ ε'} {l : LifeLabel ℓ ε} (hl : l ∈ labelAt R k x l')
    (hQ : ∀ e e₀, l' = .start e ∨ (∃ n, l' = .startKilled e n) → startsAt R k e = some e₀ → Q e₀) :
    l.StartsWith Q := by
  cases x with
  | up s =>
    cases l' with
    | step l' =>
      have hmem : l ∈ if s.key = k then [LifeLabel.step l'] else [] := hl
      split at hmem
      · rw [List.mem_singleton.mp hmem]
        trivial
      · cases hmem
    | kill n =>
      have hmem : l ∈ if s.key = k then [LifeLabel.kill n] else [] := hl
      split at hmem
      · rw [List.mem_singleton.mp hmem]
        trivial
      · cases hmem
    | start e => cases hl
    | startKilled e n => cases hl
  | down host =>
    cases l' with
    | step l' => cases hl
    | kill n => cases hl
    | start e =>
      obtain ⟨e₀, he₀, rfl⟩ := List.mem_map.mp hl
      exact hQ e e₀ (.inl rfl) (Option.mem_toList.mp he₀)
    | startKilled e n =>
      obtain ⟨e₀, he₀, rfl⟩ := List.mem_map.mp hl
      exact hQ e e₀ (.inr ⟨n, rfl⟩) (Option.mem_toList.mp he₀)

/-- **Where no start is routed to, nothing happens.** -/
theorem untouched {ks : List (LifeLabel ℓ ε')} {t : Phase (Hosted κ σ δ) (κ → δ)}
    (hno : ∀ l ∈ ks, l.StartsWith fun e => startsAt R k e = none)
    (hr : (hosted R).lives.run (.down host) ks = some t) :
    Hosted.phaseAt k t = .down (host k) := by
  refine (hostedRefines R k).stays rfl (fun l hl x hx => ?_) hr
  have hok := hno l hl
  show labelAt R k x l = []
  have hx : Hosted.phaseAt k x = .down (host k) := hx
  cases x with
  | up s =>
    have hk : s.key ≠ k := fun hk => by
      unfold Hosted.phaseAt at hx
      dsimp only at hx
      rw [if_pos hk] at hx
      cases hx
    cases l with
    | step l => exact if_neg hk
    | kill n => exact if_neg hk
    | start e => rfl
    | startKilled e n => rfl
  | down host =>
    cases l with
    | step l => rfl
    | kill n => rfl
    | start e => exact congrArg (fun o => (Option.toList o).map LifeLabel.start) hok
    | startKilled e n => exact congrArg (fun o => (Option.toList o).map _) hok

end Service

end Machine

end LdkSample
