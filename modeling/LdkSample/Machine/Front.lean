import LdkSample.Machine.Lives

/-!
# What comes before a start

A `Front` of a service is a program that comes before its starts, over a state that has the
service's own in it and leaves that alone: it ends with the environment of the start, or with none.
The lives of the service behind it are lives of the service (`frontedRefines`), and nothing has
happened to its state where no start got past the front (`kept_of_front`).
-/

namespace LdkSample

namespace Machine

namespace Service

variable {σ ℓ δ ε α δ' ε' : Type}

structure Front (V : Service σ ℓ δ ε α) (δ' ε' : Type) where
  view : δ' → δ
  put : δ → δ' → δ'
  view_put : ∀ d x, view (put d x) = d
  before : ε' → Crash δ' (Option ε)
  keeps : ∀ e d, Crash.Keeps (fun x => view x = d) (before e)

/-- The service, with the state around its own, which is out of date in it. -/
structure Fronted (σ δ' : Type) where
  around : δ'
  state : σ

variable {V : Service σ ℓ δ ε α} (F : V.Front δ' ε')

/-- A start behind the front. -/
def startBehind : Option ε → Crash δ' (Option α)
  | none => pure none
  | some e₀ => Crash.within F.view F.put (V.start e₀)

def fronted : Service (Fronted σ δ') ℓ δ' ε' α where
  machine := ⟨fun s l => (V.machine.step s.state l).map fun t => { s with state := t }⟩
  crash s := (V.crash s.state).map fun d => F.put d s.around
  start e := F.before e >>= startBehind F
  up a x := ⟨x, V.up a (F.view x)⟩

/-- The phase of the service itself. -/
def phaseBehind : Phase (Fronted σ δ') δ' → Phase σ δ
  | .up s => .up s.state
  | .down x => .down (F.view x)

/-- The environment of the start that gets past the front. -/
def getsPast (e : ε') (x : δ') : Option ε := ((F.before e).exec x).bind (·.1)

/-- What a label is to the service itself. -/
def labelBehind : Phase (Fronted σ δ') δ' → LifeLabel ℓ ε' → List (LifeLabel ℓ ε)
  | .up _, .step l => [.step l]
  | .up _, .kill n => [.kill n]
  | .down x, .start e => (getsPast F e x).toList.map .start
  | .down x, .startKilled e n =>
    if n < ((F.before e).steps x).length then []
    else (getsPast F e x).toList.map fun e₀ =>
      .startKilled e₀ (n - ((F.before e).steps x).length)
  | _, _ => []

variable {F} {e : ε'} {e₀ : ε} {x x' : δ'} {o : Option ε} {r : Option α}

theorem view_of_before (hb : (F.before e).exec x = some (o, x')) : F.view x' = F.view x :=
  (F.keeps e (F.view x) x rfl).2 o x' hb

theorem getsPast_eq (hb : (F.before e).exec x = some (o, x')) : getsPast F e x = o := by
  unfold getsPast
  rw [hb]
  rfl

/-- A start that ends has got past the front, or ends there. -/
theorem start_fronted (h : ((fronted F).start e).exec x = some (r, x')) :
    (getsPast F e x = none ∧ r = none ∧ F.view x' = F.view x) ∨
      ∃ e₀ d, getsPast F e x = some e₀ ∧ (V.start e₀).exec (F.view x) = some (r, d) ∧
        F.view x' = d := by
  obtain ⟨o, x₁, hb, hs⟩ := Crash.exec_bind_inv h
  cases o with
  | none =>
    cases hs
    exact .inl ⟨getsPast_eq hb, rfl, view_of_before hb⟩
  | some e₀ =>
    obtain ⟨d, hd, rfl⟩ := Crash.exec_within_inv hs
    rw [view_of_before hb] at hd
    exact .inr ⟨e₀, d, getsPast_eq hb, hd, F.view_put ..⟩

/-- A start behind the front that is killed there, or before. -/
theorem startKilled_fronted {n : Nat} (h : (((fronted F).start e).steps x)[n]? = some x') :
    (n < ((F.before e).steps x).length ∧ F.view x' = F.view x) ∨
      ∃ e₀, ((F.before e).steps x).length ≤ n ∧ getsPast F e x = some e₀ ∧
        ((V.start e₀).steps (F.view x))[n - ((F.before e).steps x).length]? =
          some (F.view x') := by
  have hkept : ∀ y, ((F.before e).steps x)[n]? = some y → F.view y = F.view x :=
    fun y hy => (F.keeps e (F.view x) x rfl).1 y (List.mem_of_getElem? hy)
  cases hb : (F.before e).exec x with
  | none =>
    have hn : ((F.before e).steps x)[n]? = some x' := (Crash.steps_bind_none hb) ▸ h
    exact .inl ⟨(List.getElem?_eq_some_iff.mp hn).1, hkept x' hn⟩
  | some out =>
    obtain ⟨o, x₁⟩ := out
    have hn : ((F.before e).steps x ++ (startBehind F o).steps x₁)[n]? = some x' :=
      (Crash.steps_bind_some hb) ▸ h
    rcases Nat.lt_or_ge n ((F.before e).steps x).length with hlt | hge
    · rw [List.getElem?_append_left hlt] at hn
      exact .inl ⟨hlt, hkept x' hn⟩
    · rw [List.getElem?_append_right hge] at hn
      cases o with
      | none => cases hn
      | some e₀ =>
        have hn' : (((V.start e₀).steps (F.view x₁)).map fun d => F.put d x₁)[n -
          ((F.before e).steps x).length]? = some x' := hn
        rw [List.getElem?_map, Option.map_eq_some_iff] at hn'
        obtain ⟨d, hd, rfl⟩ := hn'
        rw [view_of_before hb] at hd
        exact .inr ⟨e₀, hge, getsPast_eq hb, by rw [hd, F.view_put]⟩

theorem labelBehind_start (h : getsPast F e x = o) :
    labelBehind F (ℓ := ℓ) (σ := σ) (.down x) (.start e) = o.toList.map .start := by
  show (getsPast F e x).toList.map _ = _
  rw [h]

/-- **Behind a front, the lives are lives of the service.** -/
def frontedRefines (F : V.Front δ' ε') : (fronted F).lives.Refines V.lives where
  abs := phaseBehind F
  lab := labelBehind F
  sim x l x' h := by
    cases lives_step_cases h with
    | @step s s' l hs =>
      obtain ⟨t, ht, rfl⟩ := Option.map_eq_some_iff.mp hs
      show V.lives.run (.up s.state) [.step l] = some (.up t)
      rw [run_single]
      unfold lives
      dsimp only
      rw [ht]
      rfl
    | @kill s n y _ =>
      obtain ⟨y, hn, hy⟩ := Option.map_eq_some_iff.mp h
      cases hy
      have hn' : ((V.crash s.state).map fun d => F.put d s.around)[n]? = some y := hn
      rw [List.getElem?_map, Option.map_eq_some_iff] at hn'
      obtain ⟨d, hd, rfl⟩ := hn'
      show V.lives.run (.up s.state) [.kill n] = some (.down (F.view (F.put d s.around)))
      rw [run_single, F.view_put]
      unfold lives
      dsimp only
      rw [hd]
      rfl
    | @started x x' e a he =>
      rcases start_fronted he with ⟨-, hr, -⟩ | ⟨e₀, d, hpast, hd, hview⟩
      · cases hr
      · show V.lives.run (.down (F.view x)) (labelBehind F (.down x) (.start e)) =
          some (.up (V.up a (F.view x')))
        rw [labelBehind_start hpast, hview]
        exact run_single.trans (lives_started hd)
    | @returned x x' e he =>
      show V.lives.run (.down (F.view x)) (labelBehind F (.down x) (.start e)) =
        some (.down (F.view x'))
      rcases start_fronted he with ⟨hpast, -, hview⟩ | ⟨e₀, d, hpast, hd, hview⟩
      · rw [labelBehind_start hpast, hview]
        rfl
      · rw [labelBehind_start hpast, hview]
        exact run_single.trans (lives_returned hd)
    | @startKilled x x' e n _ =>
      obtain ⟨y, hn, hy⟩ := Option.map_eq_some_iff.mp h
      cases hy
      show V.lives.run (.down (F.view x)) (if _ then _ else _) = some (.down (F.view x'))
      rcases startKilled_fronted hn with ⟨hlt, hview⟩ | ⟨e₀, hge, hpast, hd⟩
      · rw [if_pos hlt, hview]
        rfl
      · rw [if_neg (Nat.not_lt.mpr hge), hpast]
        refine run_single.trans ?_
        unfold lives
        dsimp only
        rw [hd]
        rfl

/-- A start of the service is one that has got past the front. -/
theorem startsWith_labelBehind {Q : ε → Prop} {x : Phase (Fronted σ δ') δ'} {l' : LifeLabel ℓ ε'}
    {l : LifeLabel ℓ ε} (hl : l ∈ labelBehind F x l')
    (hQ : l'.StartsWith fun e => ∀ x e₀, getsPast F e x = some e₀ → Q e₀) : l.StartsWith Q := by
  cases x with
  | up s =>
    cases l' with
    | step l' =>
      rw [List.mem_singleton.mp hl]
      trivial
    | kill n =>
      rw [List.mem_singleton.mp hl]
      trivial
    | start e => cases hl
    | startKilled e n => cases hl
  | down x =>
    cases l' with
    | step l' => cases hl
    | kill n => cases hl
    | start e =>
      obtain ⟨e₀, he₀, rfl⟩ := List.mem_map.mp hl
      exact hQ x e₀ (Option.mem_toList.mp he₀)
    | startKilled e n =>
      have hmem : l ∈ if _ then [] else _ := hl
      split at hmem
      · cases hmem
      · obtain ⟨e₀, he₀, rfl⟩ := List.mem_map.mp hmem
        exact hQ x e₀ (Option.mem_toList.mp he₀)

/-- **Where no start gets past the front, the state of the service is kept.** -/
theorem kept_of_front {ks : List (LifeLabel ℓ ε')} {d : δ} {t : Phase (Fronted σ δ') δ'}
    (hx : F.view x = d) (hno : ∀ l ∈ ks, l.StartsWith fun e => ∀ x, getsPast F e x = none)
    (hr : (fronted F).lives.run (.down x) ks = some t) : phaseBehind F t = .down d := by
  have habs : (frontedRefines F).abs (.down x) = .down d := congrArg Phase.down hx
  refine (frontedRefines F).stays habs (fun l hl y hy => ?_) hr
  have hok := hno l hl
  cases y with
  | up s => cases (hy : Phase.up s.state = Phase.down d)
  | down y =>
    cases l with
    | step l => rfl
    | kill n => rfl
    | start e => exact labelBehind_start (hok y)
    | startKilled e n =>
      show (if _ then _ else _) = _
      rw [hok y]
      exact ite_self _

end Service

end Machine

end LdkSample
