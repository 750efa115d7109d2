import LdkSample.Machine.Basic

/-!
# Shutting down

`start_ldk` (`main.rs`) from its `select!` to its end, next to the two tasks it waits
for. The background processor ends in two steps: its future is dropped, which closes
the exit channel, and then its result is ready. The log of the main task is whether it
has called the last-ditch write of the `ChannelManager` and which result of the
processor it has taken.
-/

namespace LdkSample

namespace Shutdown

/-- The nested result of the background processor's task. -/
inductive BgExit where
  /-- `Ok(Ok(()))` -/
  | ok
  /-- `Ok(Err(_))`: a write to the store failed. -/
  | ioError
  /-- `Err(_)` -/
  | joinError
  deriving DecidableEq, Repr

inductive Bg where
  | running
  | dropped (res : BgExit)
  | ready (res : BgExit)
  deriving DecidableEq, Repr

inductive Main where
  | selecting
  | selected (bgRes : BgExit)
  | stored (bgRes : BgExit)
  | testing (bgRes : BgExit)
  | writing
  | closing
  | sending
  | joining
  | returned
  | panicked
  deriving DecidableEq, Repr

structure State where
  main : Main
  cliEnded : Bool
  bg : Bg
  attempted : Bool
  observed : Option BgExit
  deriving DecidableEq, Repr

inductive Label where
  | cliEnd
  | bgDrop (res : BgExit)
  | bgReady
  | selectCli
  | selectBg
  | storeStop
  | disconnectAllPeers
  | testBgRes
  | writeDone
  | checkClosed
  | send
  | join
  deriving DecidableEq, Repr

def init : State where
  main := .selecting
  cliEnded := false
  bg := .running
  attempted := false
  observed := none

def step (s : State) : Label → Option State
  | .cliEnd => if s.cliEnded then none else some { s with cliEnded := true }
  | .bgDrop res =>
    match s.bg with
    | .running => some { s with bg := .dropped res }
    | _ => none
  | .bgReady =>
    match s.bg with
    | .dropped res => some { s with bg := .ready res }
    | _ => none
  | .selectCli =>
    match s.main with
    -- `bg_res` keeps its initial `Ok(Ok(()))`
    | .selecting => if s.cliEnded then some { s with main := .selected .ok } else none
    | _ => none
  | .selectBg =>
    match s.main, s.bg with
    | .selecting, .ready res => some { s with main := .selected res, observed := some res }
    | _, _ => none
  | .storeStop =>
    match s.main with
    | .selected bgRes => some { s with main := .stored bgRes }
    | _ => none
  | .disconnectAllPeers =>
    match s.main with
    | .stored bgRes => some { s with main := .testing bgRes }
    | _ => none
  | .testBgRes =>
    match s.main with
    -- `if let Err(e) = bg_res` looks at the outer result only
    | .testing .joinError => some { s with main := .writing, attempted := true }
    | .testing .ok | .testing .ioError => some { s with main := .closing }
    | _ => none
  | .writeDone =>
    match s.main with
    | .writing => some { s with main := .panicked }
    | _ => none
  | .checkClosed =>
    match s.main, s.bg with
    | .closing, .running => some { s with main := .sending }
    | .closing, _ => some { s with main := .returned }
    | _, _ => none
  | .send =>
    match s.main, s.bg with
    | .sending, .running => some { s with main := .joining }
    -- a send without receivers fails, and the `unwrap` panics
    | .sending, _ => some { s with main := .panicked }
    | _, _ => none
  | .join =>
    match s.main, s.bg with
    | .joining, .ready .ok => some { s with main := .returned, observed := some .ok }
    | .joining, .ready res => some { s with main := .panicked, observed := some res }
    | _, _ => none

def machine : Machine State Label := ⟨step⟩

/-- Every way a step can go. -/
inductive Step (s : State) : Label → State → Prop where
  | cliEnd : s.cliEnded = false → Step s .cliEnd { s with cliEnded := true }
  | bgDrop {res : BgExit} : s.bg = .running → Step s (.bgDrop res) { s with bg := .dropped res }
  | bgReady {res : BgExit} : s.bg = .dropped res → Step s .bgReady { s with bg := .ready res }
  | selectCli : s.main = .selecting → s.cliEnded = true →
      Step s .selectCli { s with main := .selected .ok }
  | selectBg {res : BgExit} : s.main = .selecting → s.bg = .ready res →
      Step s .selectBg { s with main := .selected res, observed := some res }
  | storeStop {res : BgExit} : s.main = .selected res →
      Step s .storeStop { s with main := .stored res }
  | disconnectAllPeers {res : BgExit} : s.main = .stored res →
      Step s .disconnectAllPeers { s with main := .testing res }
  | lastDitch : s.main = .testing .joinError →
      Step s .testBgRes { s with main := .writing, attempted := true }
  | noError {res : BgExit} : s.main = .testing res → res ≠ .joinError →
      Step s .testBgRes { s with main := .closing }
  | writeDone : s.main = .writing → Step s .writeDone { s with main := .panicked }
  | isOpen : s.main = .closing → s.bg = .running →
      Step s .checkClosed { s with main := .sending }
  | isClosed : s.main = .closing → s.bg ≠ .running →
      Step s .checkClosed { s with main := .returned }
  | sent : s.main = .sending → s.bg = .running → Step s .send { s with main := .joining }
  | sendFailed : s.main = .sending → s.bg ≠ .running →
      Step s .send { s with main := .panicked }
  | joined : s.main = .joining → s.bg = .ready .ok →
      Step s .join { s with main := .returned, observed := some .ok }
  | joinFailed {res : BgExit} : s.main = .joining → s.bg = .ready res → res ≠ .ok →
      Step s .join { s with main := .panicked, observed := some res }

theorem step_cases {s s' : State} {l : Label} (h : machine.step s l = some s') : Step s l s' := by
  unfold machine step at h
  cases l with
  | cliEnd =>
    obtain ⟨hc, ⟨⟩⟩ := Option.ite_none_left_eq_some.mp h
    exact .cliEnd (Bool.eq_false_iff.mpr hc)
  | bgDrop res | bgReady | storeStop | disconnectAllPeers | writeDone =>
    dsimp only at h
    split at h <;> cases h
    constructor
    assumption
  | selectCli =>
    dsimp only at h
    split at h
    · next hm =>
      obtain ⟨hc, ⟨⟩⟩ := Option.ite_none_right_eq_some.mp h
      exact .selectCli hm hc
    · cases h
  | selectBg =>
    dsimp only at h
    split at h
    · next hm hb => cases h; exact .selectBg hm hb
    · cases h
  | testBgRes =>
    dsimp only at h
    split at h
    · next hm => cases h; exact .lastDitch hm
    · next hm => cases h; exact .noError hm (by decide)
    · next hm => cases h; exact .noError hm (by decide)
    · cases h
  | checkClosed =>
    dsimp only at h
    split at h
    · next hm hb => cases h; exact .isOpen hm hb
    · next hm hb => cases h; exact .isClosed hm hb
    · cases h
  | send =>
    dsimp only at h
    split at h
    · next hm hb => cases h; exact .sent hm hb
    · next hm hb => cases h; exact .sendFailed hm hb
    · cases h
  | join =>
    dsimp only at h
    split at h
    · next hm hb => cases h; exact .joined hm hb
    · next hne hm hb => cases h; exact .joinFailed hm hb hne
    · cases h

/-! ## Failures of the background processor -/

def State.Ended (s : State) : Prop := s.main = .returned ∨ s.main = .panicked

/-- The last-ditch write has been called, or the processor was seen to end well. -/
def State.Heeded (s : State) : Prop := s.attempted = true ∨ s.observed = some .ok

/-- No result is ignored at this step: the `select!` does not take an error of the inner
result, and after the CLI task's end the processor is still running when it is told to
exit and then ends well. -/
def Sound (s : State) : Label → Prop
  | .selectBg => s.bg ≠ .ready .ioError
  | .checkClosed => s.observed = none → s.bg = .running
  | .send => s.bg = .running
  | .join => s.bg = .ready .ok
  | _ => True

/-- What the main task has taken and called at each point. -/
def Inv (s : State) : Prop :=
  match s.main with
  | .selecting | .sending | .joining => s.attempted = false ∧ s.observed = none
  | .selected res | .stored res | .testing res => s.attempted = false ∧
    (res = .ok ∧ s.observed = none ∨ s.observed = some res ∧ s.bg = .ready res)
  | .writing => s.attempted = true
  | .closing => s.attempted = false ∧
    (s.observed = none ∨ ∃ res, res ≠ .joinError ∧ s.observed = some res ∧ s.bg = .ready res)
  | .returned | .panicked => True

theorem inv_init : Inv init := ⟨rfl, rfl⟩

/-- A step of the background processor keeps a result that is ready. -/
theorem Inv.bg {s : State} {b : Bg} (hi : Inv s) (hb : ∀ res, s.bg ≠ .ready res) :
    Inv { s with bg := b } := by
  unfold Inv at hi ⊢
  cases hm : s.main with
  | selected res | stored res | testing res =>
    rw [hm] at hi
    obtain ⟨ha, h⟩ := hi
    exact ⟨ha, .inl (h.resolve_right fun h => hb _ h.2)⟩
  | closing =>
    rw [hm] at hi
    obtain ⟨ha, h⟩ := hi
    exact ⟨ha, .inl (h.resolve_right fun ⟨res, _, _, h⟩ => hb res h)⟩
  | _ =>
    rw [hm] at hi
    exact hi

theorem inv_step {s s' : State} {l : Label} (hi : Inv s) (h : machine.step s l = some s') :
    Inv s' := by
  cases step_cases h with
  | cliEnd _ => exact hi
  | bgDrop hb => exact hi.bg fun res hr => by rw [hb] at hr; cases hr
  | bgReady hb => exact hi.bg fun res hr => by rw [hb] at hr; cases hr
  | selectCli hm _ =>
    unfold Inv at hi
    rw [hm] at hi
    exact ⟨hi.1, .inl ⟨rfl, hi.2⟩⟩
  | selectBg hm hb =>
    unfold Inv at hi
    rw [hm] at hi
    exact ⟨hi.1, .inr ⟨rfl, hb⟩⟩
  | storeStop hm | disconnectAllPeers hm =>
    unfold Inv at hi
    rw [hm] at hi
    exact hi
  | lastDitch _ => exact rfl
  | @noError res hm hne =>
    unfold Inv at hi
    rw [hm] at hi
    obtain ⟨ha, ⟨-, ho⟩ | ⟨ho, hb⟩⟩ := hi
    · exact ⟨ha, .inl ho⟩
    · exact ⟨ha, .inr ⟨res, hne, ho, hb⟩⟩
  | isOpen hm hb =>
    unfold Inv at hi
    rw [hm] at hi
    obtain ⟨ha, ho | ⟨res, -, -, hr⟩⟩ := hi
    · exact ⟨ha, ho⟩
    · rw [hb] at hr
      cases hr
  | sent hm _ =>
    unfold Inv at hi
    rw [hm] at hi
    exact hi
  | writeDone _ | isClosed _ _ | sendFailed _ _ | joined _ _ | joinFailed _ _ _ => exact trivial

/-! ## Sound runs -/

/-- A sound run takes no error of the inner result, and ends heeded. -/
structure SoundInv (s : State) : Prop where
  inv : Inv s
  observed : s.observed ≠ some .ioError
  heeded : s.Ended → s.Heeded

theorem soundInv_step {s s' : State} {l : Label} (hi : SoundInv s) (hs : Sound s l)
    (h : machine.step s l = some s') : SoundInv s' := by
  obtain ⟨hi, ho, he⟩ := hi
  have hi' := inv_step hi h
  unfold Inv at hi
  have hrun : ∀ {s : State}, s.main ≠ .returned → s.main ≠ .panicked → s.Ended → s.Heeded :=
    fun hr hp he => absurd he (not_or.mpr ⟨hr, hp⟩)
  cases step_cases h with
  | cliEnd _ | bgDrop _ | bgReady _ => exact ⟨hi', ho, he⟩
  | selectBg hm hb => exact ⟨hi', fun hr => hs (by cases hr; exact hb), hrun (by simp) (by simp)⟩
  | selectCli _ _ | storeStop _ | disconnectAllPeers _ | lastDitch _ | noError _ _ | isOpen _ _
  | sent _ _ => exact ⟨hi', ho, hrun (by simp) (by simp)⟩
  | writeDone hm =>
    rw [hm] at hi
    exact ⟨hi', ho, fun _ => .inl hi⟩
  | isClosed hm hb =>
    rw [hm] at hi
    obtain ⟨-, hn | ⟨res, hj, hr, -⟩⟩ := hi
    · exact absurd (hs hn) hb
    · refine ⟨hi', ho, fun _ => .inr ?_⟩
      cases res with
      | ok => exact hr
      | ioError => exact absurd hr ho
      | joinError => exact absurd rfl hj
  | sendFailed _ hb => exact absurd hs hb
  | joined _ _ => exact ⟨hi', fun hr => (nomatch hr), fun _ => .inr rfl⟩
  | joinFailed _ hb hne =>
    have hok : s.bg = .ready .ok := hs
    rw [hb] at hok
    cases hok
    exact absurd rfl hne

/-! ## Runs that are not sound -/

/-- The end will not be heeded. -/
structure Lost (s : State) : Prop where
  inv : Inv s
  attempted : s.attempted = false
  observed : s.observed ≠ some .ok
  cause : s.observed = some .ioError ∨ s.Ended

theorem lost_step {s s' : State} {l : Label} (hl : Lost s) (h : machine.step s l = some s') :
    Lost s' := by
  obtain ⟨hi, ha, ho, hc⟩ := hl
  have hi' := inv_step hi h
  unfold Inv at hi
  have hio : ∀ {m : Main}, s.main = m → m ≠ .returned → m ≠ .panicked →
      s.observed = some .ioError :=
    fun hm hr hp => hc.resolve_right (by rw [State.Ended, hm]; exact not_or.mpr ⟨hr, hp⟩)
  cases step_cases h with
  | cliEnd _ | bgDrop _ | bgReady _ => exact ⟨hi', ha, ho, hc⟩
  | selectCli hm _ | selectBg hm _ | sent hm _ | sendFailed hm _ | joined hm _ | joinFailed hm _ _ =>
    have hne := hio hm (by simp) (by simp)
    rw [hm] at hi
    rw [hi.2] at hne
    cases hne
  | storeStop hm | disconnectAllPeers hm | noError hm _ =>
    exact ⟨hi', ha, ho, .inl (hio hm (by simp) (by simp))⟩
  | lastDitch hm =>
    have hne := hio hm (by simp) (by simp)
    rw [hm] at hi
    obtain ⟨-, ⟨hj, -⟩ | ⟨hj, -⟩⟩ := hi
    · cases hj
    · rw [hj] at hne
      cases hne
  | writeDone hm =>
    rw [hm] at hi
    rw [show s.attempted = true from hi] at ha
    cases ha
  | isOpen hm _ => exact ⟨hi', ha, ho, .inl (hio hm (by simp) (by simp))⟩
  | isClosed _ _ => exact ⟨hi', ha, ho, .inr (.inl rfl)⟩

theorem Lost.not_heeded {s : State} (hl : Lost s) : ¬ s.Heeded := by
  rintro (ha | ho)
  · rw [hl.attempted] at ha
    cases ha
  · exact hl.observed ho

theorem lost_of_unsound {s s' : State} {l : Label} (hi : Inv s) (hs : ¬ Sound s l)
    (h : machine.step s l = some s') : Lost s' := by
  have hi' := inv_step hi h
  unfold Inv at hi
  cases step_cases h with
  | selectBg hm hb =>
    rw [hm] at hi
    have hr := not_not.mp hs
    rw [hb] at hr
    cases hr
    exact ⟨hi', hi.1, by simp, .inl rfl⟩
  | isOpen _ hb => exact absurd (fun _ => hb) hs
  | isClosed hm _ =>
    rw [hm] at hi
    obtain ⟨hn, -⟩ := Classical.not_imp.mp hs
    exact ⟨hi', hi.1, by simp [hn], .inr (.inl rfl)⟩
  | sent _ hb => exact absurd hb hs
  | sendFailed hm _ =>
    rw [hm] at hi
    exact ⟨hi', hi.1, by simp [hi.2], .inr (.inr rfl)⟩
  | joined _ hb => exact absurd hb hs
  | joinFailed hm _ hne =>
    rw [hm] at hi
    exact ⟨hi', hi.1, by simpa using hne, .inr (.inr rfl)⟩
  | _ => exact absurd trivial hs

/-- **A failing background processor is heeded** at the end of a run exactly when every step
of the run is sound. -/
theorem heeded_iff (ls : List Label) (s : State) (hr : machine.run init ls = some s)
    (he : s.Ended) : s.Heeded ↔ machine.Along Sound init ls := by
  constructor
  · intro hh
    refine Machine.along_of_splits fun as l bs s₁ hls h₁ => ?_
    by_contra hs
    rw [hls] at hr
    obtain ⟨s₁', h₁', hr⟩ := Machine.run_append_inv hr
    rw [h₁] at h₁'
    cases h₁'
    obtain ⟨s₂, h₂, hr⟩ := Machine.run_cons_inv hr
    have hi : Inv s₁ := Machine.inv_run_all (fun _ _ _ hi h => inv_step hi h) inv_init h₁
    have hl : Lost s :=
      Machine.inv_run_all (fun _ _ _ hl h => lost_step hl h) (lost_of_unsound hi hs h₂) hr
    exact hl.not_heeded hh
  · intro ha
    have h₀ : SoundInv init :=
      ⟨inv_init, fun h => (nomatch h), fun h => by rcases h with h | h <;> cases h⟩
    exact (Machine.inv_run Sound (fun _ _ _ hi hs h => soundInv_step hi hs h) h₀ ha hr).heeded he

/-- The CLI task ends, the processor is told to exit and ends well. -/
theorem heeded_run :
    let ls : List Label := [.cliEnd, .selectCli, .storeStop, .disconnectAllPeers, .testBgRes,
      .checkClosed, .send, .bgDrop .ok, .bgReady, .join]
    ∃ s, machine.run init ls = some s ∧ s.Heeded ∧ machine.Along Sound init ls := by
  intro ls
  have h := heeded_iff ls _ rfl (.inl rfl)
  exact ⟨_, rfl, .inr rfl, h.mp (.inr rfl)⟩

/-- A write of the background processor fails, and `start_ldk` returns. -/
theorem failure_ignored :
    ¬ ∀ ls s, machine.run init ls = some s → s.Ended → s.Heeded := by
  intro h
  have hh := h [.bgDrop .ioError, .bgReady, .selectBg, .storeStop, .disconnectAllPeers, .testBgRes,
    .checkClosed] _ rfl (.inl rfl)
  rcases hh with hh | hh <;> cases hh

end Shutdown

end LdkSample
