import LdkSample.Lives.Sent
import LdkSample.Payment.InFlight

/-!
# Payments in flight across lives

The lives of a node beside `ChannelManager` and its channels, which outlive the process: the ids in
flight, and the events that are generated but not handled. After a kill fewer payments may be in
flight, and events may come back that were handled before; a start knows of all that are in flight.
A payment in flight is on record and is not shown as failed, in memory and in every file a crash may
leave, in every life (`in_flight_recorded`): neither a kill nor the loop at startup fails one.
-/

namespace LdkSample

namespace Lives

open Startup Outbound

structure Network where
  phase : Phase
  inFlight : List PaymentId
  queue : List OutboundEvent

inductive NetworkLabel where
  /-- A step of the life other than a kill or the delivery of an event. -/
  | life (k : LifeLabel)
  | finish (id : PaymentId) (outcome : Option PaymentPreimage)
  | deliver
  /-- A kill, with what `ChannelManager` comes back with. -/
  | kill (n : Nat) (inFlight : List PaymentId) (queue : List OutboundEvent)

/-- The id of a pay call that is due. -/
def Network.callId (s : Network) : Option PaymentId :=
  match s.phase with
  | .up n => Ldk.callId n.outbound
  | .down _ => none

/-- What is in flight after a step of the life, `none` where there is no such step. -/
def Network.after (s : Network) : LifeLabel → Option (List PaymentId)
  | .kill _ => none
  | .step (.outbound (.event _)) => none
  | .step (.outbound (.call true)) =>
    match s.callId with
    | some id => if id ∈ s.inFlight then none else some (id :: s.inFlight)
    | none => none
  | .start e | .startKilled e _ =>
    if ∀ id ∈ s.inFlight, id ∈ e.env.recentPaymentsPaymentIds then some s.inFlight else none
  | .step _ => some s.inFlight

variable {L : Lightning} {s s' t : Network} {id : PaymentId}

def network (L : Lightning) : Machine Network NetworkLabel where
  step s
    | .life k =>
      match s.after k with
      | some inFlight => ((lives L).step s.phase k).map fun x => { s with phase := x, inFlight }
      | none => none
    | .finish id outcome =>
      if id ∈ s.inFlight then
        some { s with
          inFlight := s.inFlight.filter (· ≠ id)
          queue := s.queue ++ [Ldk.outcomeEvent id outcome] }
      else none
    | .deliver =>
      match s.queue with
      | e :: q =>
        ((lives L).step s.phase (.step (.outbound (.event e)))).map fun x =>
          { s with phase := x, queue := q }
      | [] => none
    | .kill n inFlight queue =>
      if ∀ id ∈ inFlight, id ∈ s.inFlight then
        ((lives L).step s.phase (.kill n)).map fun x => ⟨x, inFlight, queue⟩
      else none

/-- Every way a step can go. -/
inductive NetworkStep (L : Lightning) (s : Network) : NetworkLabel → Network → Prop where
  | accept {n : Node} {x : Phase} {path : SendPath} {id : PaymentId} : s.phase = .up n →
      n.outbound.cli = .calling path id → id ∉ s.inFlight →
      (lives L).step s.phase (.step (.outbound (.call true))) = some x →
      NetworkStep L s (.life (.step (.outbound (.call true))))
        { s with phase := x, inFlight := id :: s.inFlight }
  | step {l : Label} {x : Phase} : l ≠ .outbound (.call true) → (∀ e, l ≠ .outbound (.event e)) →
      (lives L).step s.phase (.step l) = some x →
      NetworkStep L s (.life (.step l)) { s with phase := x }
  | start {k : LifeLabel} {e : StartEnv} {x : Phase} :
      k = .start e ∨ (∃ n, k = .startKilled e n) →
      (∀ id ∈ s.inFlight, id ∈ e.env.recentPaymentsPaymentIds) →
      (lives L).step s.phase k = some x → NetworkStep L s (.life k) { s with phase := x }
  | finish {id : PaymentId} {outcome : Option PaymentPreimage} : id ∈ s.inFlight →
      NetworkStep L s (.finish id outcome) { s with
        inFlight := s.inFlight.filter (· ≠ id)
        queue := s.queue ++ [Ldk.outcomeEvent id outcome] }
  | deliver {e : OutboundEvent} {q : List OutboundEvent} {x : Phase} : s.queue = e :: q →
      (lives L).step s.phase (.step (.outbound (.event e))) = some x →
      NetworkStep L s .deliver { s with phase := x, queue := q }
  | kill {n : Nat} {inFlight : List PaymentId} {queue : List OutboundEvent} {x : Phase} :
      (∀ id ∈ inFlight, id ∈ s.inFlight) → (lives L).step s.phase (.kill n) = some x →
      NetworkStep L s (.kill n inFlight queue) ⟨x, inFlight, queue⟩

theorem callId_some (h : s.callId = some id) :
    ∃ n path, s.phase = .up n ∧ n.outbound.cli = .calling path id := by
  unfold Network.callId at h
  split at h
  · next n hn =>
    obtain ⟨path, hc⟩ := Ldk.callId_some h
    exact ⟨n, path, hn, hc⟩
  · cases h

/-- The steps of the life. -/
theorem life_cases {k : LifeLabel} {inFlight : List PaymentId} {x : Phase}
    (ha : s.after k = some inFlight) (hs : (lives L).step s.phase k = some x) :
    NetworkStep L s (.life k) { s with phase := x, inFlight } := by
  unfold Network.after at ha
  split at ha
  · cases ha
  · cases ha
  · split at ha
    · next id hid =>
      obtain ⟨n, path, hn, hc⟩ := callId_some hid
      split at ha
      · cases ha
      · next hm =>
        cases ha
        exact .accept hn hc hm hs
    · cases ha
  · next e =>
    obtain ⟨hrec, heq⟩ := Option.ite_none_right_eq_some.mp ha
    cases heq
    exact .start (.inl rfl) hrec hs
  · next e n =>
    obtain ⟨hrec, heq⟩ := Option.ite_none_right_eq_some.mp ha
    cases heq
    exact .start (.inr ⟨n, rfl⟩) hrec hs
  · next hev hcall =>
    cases ha
    refine .step (fun h => hcall ?_) (fun e h => hev e ?_) hs
    · rw [h]
    · rw [h]

theorem network_cases {k : NetworkLabel} (h : (network L).step s k = some s') :
    NetworkStep L s k s' := by
  unfold network at h
  cases k with
  | life k =>
    dsimp only at h
    split at h
    · next inFlight ha =>
      obtain ⟨x, hx, rfl⟩ := Option.map_eq_some_iff.mp h
      exact life_cases ha hx
    · cases h
  | finish id outcome =>
    obtain ⟨hm, heq⟩ := Option.ite_none_right_eq_some.mp h
    cases heq
    exact .finish hm
  | deliver =>
    dsimp only at h
    split at h
    · next e q hq =>
      obtain ⟨x, hx, rfl⟩ := Option.map_eq_some_iff.mp h
      exact .deliver hq hx
    · cases h
  | kill n inFlight queue =>
    obtain ⟨hsub, heq⟩ := Option.ite_none_right_eq_some.mp h
    obtain ⟨x, hx, rfl⟩ := Option.map_eq_some_iff.mp heq
    exact .kill hsub hx

/-- Without what is in flight, the lives of the node. -/
def networkRefines (L : Lightning) : (network L).Refines (lives L) where
  abs := Network.phase
  lab s
    | .life k => [k]
    | .finish .. => []
    | .deliver => s.queue.head?.toList.map fun e => .step (.outbound (.event e))
    | .kill n _ _ => [.kill n]
  sim s k s' h := by
    cases network_cases h with
    | accept _ _ _ hx => exact Machine.run_single.trans hx
    | step _ _ hx => exact Machine.run_single.trans hx
    | start _ _ hx => exact Machine.run_single.trans hx
    | finish => rfl
    | deliver hq hx =>
      rw [hq]
      exact Machine.run_single.trans hx
    | kill _ hx => exact Machine.run_single.trans hx

/-! ## What is kept -/

def NotFailed (info : PaymentInfo) : Prop := info.status ≠ .failed

/-- The payment is shown as failed, in memory or in a file a crash may leave. -/
def MayShowFailed (id : PaymentId) (n : Node) : Prop :=
  Holds id (·.status = .failed) n.outbound.outbound ∨
    ∃ b ∈ n.outbound.crashFiles, IsOf (Holds id (·.status = .failed)) b

/-- A pay call is accepted only when no earlier failure of the id is to be delivered or is still
shown, and refused on a path that records it only when the id is not in flight; a kill brings back
no failure of a payment in flight; and a start can open the file. -/
def Fresh (s : Network) : NetworkLabel → Prop
  | .life (.step (.outbound (.call true))) => ∀ n path id, s.phase = .up n →
      n.outbound.cli = .calling path id → .paymentFailed id ∉ s.queue ∧ ¬ MayShowFailed id n
  | .life (.step (.outbound (.call false))) => ∀ n path id, s.phase = .up n →
      n.outbound.cli = .calling path id → path.guarded = true → id ∉ s.inFlight
  | .life k => OpensSent k
  | .kill _ inFlight queue => ∀ id ∈ inFlight, .paymentFailed id ∉ queue
  | _ => True

/-- A payment in flight is on record, and not as failed. -/
def KeptPhase (id : PaymentId) : Phase → Prop :=
  Machine.Phase.Holds (KeptUp (Holds id NotFailed)) (KeptIn (Holds id NotFailed))

structure FlightInv (s : Network) : Prop where
  queue : ∀ id ∈ s.inFlight, .paymentFailed id ∉ s.queue
  store : ∀ id ∈ s.inFlight, KeptPhase id s.phase
  refused : ∀ n path id, s.phase = .up n → n.outbound.cli = .refused path id → id ∉ s.inFlight

theorem notFailed_of_holds {o : OutboundPaymentInfoStorage} (hm : Holds id (fun _ => True) o)
    (hf : ¬ Holds id (·.status = .failed) o) : Holds id NotFailed o := by
  obtain ⟨info, hi, -⟩ := hm
  exact ⟨info, hi, fun h => hf ⟨info, hi, h⟩⟩

/-- An id whose call is due, and which is not shown as failed. -/
theorem kept_of_calling {n : Node} {path : SendPath} (hw : WriteAhead n.outbound)
    (hfit : Fits n.outbound) (hc : n.outbound.cli = .calling path id) (hf : ¬ MayShowFailed id n) :
    KeptUp (Holds id NotFailed) n := by
  have hk := hw.keptFrom (.inr ⟨path, hc⟩)
  refine ⟨⟨notFailed_of_holds hk.mem fun h => hf (.inl h), fun b hb => ?_, ?_⟩, hfit⟩
  · obtain ⟨o, rfl, ho⟩ := hk.writes b hb
    exact ⟨o, rfl, notFailed_of_holds ho fun h => hf (.inr ⟨_, hb, o, rfl, h⟩)⟩
  · intro path' id' b hb
    rw [hc] at hb
    cases hb

/-- **One step of the store**: only a recorded refusal and `PaymentFailed` fail an entry. -/
theorem notFailed_step {o o' : Outbound.State} {l : Outbound.Label}
    (h : Holds id NotFailed o.outbound) (hr : ∀ path, o.cli ≠ .refused path id)
    (hl : l ≠ .event (.paymentFailed id)) (hs : Outbound.machine.step o l = some o') :
    Holds id NotFailed o'.outbound := by
  obtain ⟨info, hi, hp⟩ := h
  have ht := touch_step id hs
  rw [hi] at ht
  unfold Holds
  generalize o'.outbound.payments.lookup id = r at ht ⊢
  cases ht with
  | same => exact ⟨info, rfl, hp⟩
  | @insert cmd info' _ he =>
    refine ⟨info', rfl, fun hf => ?_⟩
    rw [(SendCmd.entry_status he).1] at hf
    cases hf
  | refused hc => exact absurd hc (hr _)
  | @event e _ he =>
    refine ⟨_, rfl, ?_⟩
    cases e with
    | paymentSent p id' => exact fun hf => by cases hf
    | paymentFailed id' =>
      cases he
      exact absurd rfl hl

theorem refused_step {o o' : Outbound.State} {l : Outbound.Label} {path : SendPath}
    (hs : Outbound.machine.step o l = some o') (hc : o'.cli = .refused path id) :
    o.cli = .refused path id ∨
      l = .call false ∧ o.cli = .calling path id ∧ path.guarded = true := by
  cases Outbound.step_cases hs with
  | refused hcall hg =>
    cases hc
    exact .inr ⟨rfl, hcall, hg⟩
  | returned | event | eventWritten => exact .inl hc
  | _ => cases hc

/-- One step of the node. -/
theorem kept_step {n n' : Node} {l : Label} (h : KeptUp (Holds id NotFailed) n)
    (hr : ∀ path, n.outbound.cli ≠ .refused path id)
    (hl : l ≠ .outbound (.event (.paymentFailed id))) (hs : machine.step n l = some n') :
    KeptUp (Holds id NotFailed) n' := by
  cases step_cases hs with
  | inbound => exact h
  | outbound ho hfit =>
    exact h.step (notFailed_step h.1.mem hr (fun he => hl (congrArg _ he)) ho) ho hfit
  | persistManager => exact h

/-- A start that knows of the payment. -/
theorem settles_notFailed {recent : List PaymentId} (h : id ∈ recent) :
    Settles (Holds id NotFailed) recent := by
  refine settles_holds fun info hi => ?_
  unfold settle
  rw [if_neg fun hp => hp.2 h]
  exact hi

theorem kept_start {x x' : Phase} {k : LifeLabel} {e : StartEnv} (h : KeptPhase id x)
    (hk : k = .start e ∨ ∃ n, k = .startKilled e n) (hopen : OpensSent k)
    (hid : id ∈ e.env.recentPaymentsPaymentIds) (hs : (lives L).step x k = some x') :
    KeptPhase id x' := by
  have hspec (he : e.env.outboundFault = none) :=
    start_kept (L := L) e (settles_notFailed hid) he
  cases Machine.Service.lives_step_cases hs with
  | step | kill => rcases hk with hk | ⟨_, hk⟩ <;> cases hk
  | started he =>
    rcases hk with hk | ⟨_, hk⟩
    · cases hk
      exact (hspec hopen _ h).2 _ _ he
    · cases hk
  | returned he =>
    rcases hk with hk | ⟨_, hk⟩
    · cases hk
      exact (hspec hopen _ h).2 _ _ he
    · cases hk
  | startKilled hd =>
    rcases hk with hk | ⟨_, hk⟩
    · cases hk
    · cases hk
      exact (hspec hopen _ h).1 _ hd

/-! ## Payments in flight -/

theorem inFlight_step {k : NetworkLabel} (h : FlightInv s) (hf : Fresh s k)
    (hw : ∀ n, s.phase = .up n → WriteAhead n.outbound ∧ Fits n.outbound)
    (hs : (network L).step s k = some s') : FlightInv s' := by
  cases network_cases hs with
  | @accept n x path id hn hc hm hx =>
    obtain ⟨hq, hshown⟩ := hf n path id hn hc
    obtain ⟨hahead, hfit⟩ := hw n hn
    rw [hn] at hx
    cases Machine.Service.lives_step_cases hx with
    | @step _ n' _ hstep =>
      have hkept {id' : PaymentId} (hk : KeptUp (Holds id' NotFailed) n) :
          KeptUp (Holds id' NotFailed) n' :=
        kept_step hk (fun path' hr => by rw [hc] at hr; cases hr) (fun he => by cases he) hstep
      refine ⟨List.forall_mem_cons.mpr ⟨hq, h.queue⟩, List.forall_mem_cons.mpr ⟨?_, fun id' hid' => ?_⟩,
        fun n₁ path' id' hn₁ hr => ?_⟩
      · exact hkept (kept_of_calling hahead hfit hc hshown)
      · have hold := h.store id' hid'
        rw [hn] at hold
        exact hkept hold
      · cases hn₁
        cases step_cases hstep with
        | outbound ho =>
          rcases refused_step ho hr with hr | ⟨he, -⟩
          · rw [hc] at hr
            cases hr
          · cases he
  | @step l x hcall hev hx =>
    generalize hphase : s.phase = y at hx
    cases Machine.Service.lives_step_cases hx with
    | @step n n' _ hstep =>
      refine ⟨h.queue, fun id hid => ?_, fun n₁ path id hn₁ hr hid => ?_⟩
      · have hold := h.store id hid
        rw [hphase] at hold
        exact kept_step hold (fun path hr => h.refused n path id hphase hr hid)
          (fun he => hev _ he) hstep
      · cases hn₁
        cases step_cases hstep with
        | inbound => exact h.refused n path id hphase hr hid
        | persistManager => exact h.refused n path id hphase hr hid
        | outbound ho =>
          rcases refused_step ho hr with hr | ⟨rfl, hc, hg⟩
          · exact h.refused n path id hphase hr hid
          · exact hf n path id hphase hc hg hid
  | @start k e x hk hrec hx =>
    refine ⟨h.queue, fun id hid => ?_, fun n path id hn hr => ?_⟩
    · refine kept_start (h.store id hid) hk ?_ (hrec id hid) hx
      rcases hk with rfl | ⟨n, rfl⟩
      · exact hf
      · exact hf
    · -- a node that has just started is between two commands
      cases hn
      generalize s.phase = y at hx
      cases Machine.Service.lives_step_cases hx with
      | step => rcases hk with hk | ⟨_, hk⟩ <;> cases hk
      | started => cases hr
  | @finish id outcome hm =>
    refine ⟨fun id' hid' hq => ?_, fun id' hid' => ?_, fun n path id' hn hr hid' => ?_⟩
    · rw [List.mem_filter, decide_eq_true_eq] at hid'
      rcases List.mem_append.mp hq with hq | hq
      · exact h.queue id' hid'.1 hq
      · exact Ldk.outcomeEvent_ne hid'.2 (List.mem_singleton.mp hq).symm
    · exact h.store id' (List.mem_of_mem_filter hid')
    · exact h.refused n path id' hn hr (List.mem_of_mem_filter hid')
  | @deliver e q x hq hx =>
    generalize hphase : s.phase = y at hx
    cases Machine.Service.lives_step_cases hx with
    | @step n n' _ hstep =>
      refine ⟨fun id hid hm => h.queue id hid (by rw [hq]; exact List.mem_cons_of_mem _ hm),
        fun id hid => ?_, fun n₁ path id hn₁ hr hid => ?_⟩
      · have hold := h.store id hid
        rw [hphase] at hold
        refine kept_step hold (fun path hr => h.refused n path id hphase hr hid) (fun he => ?_) hstep
        cases he
        exact h.queue id hid (by rw [hq]; exact List.mem_cons_self)
      · cases hn₁
        cases step_cases hstep with
        | outbound ho =>
          rcases refused_step ho hr with hr | ⟨he, -⟩
          · exact h.refused n path id hphase hr hid
          · cases he
  | @kill n inFlight queue x hsub hx =>
    generalize hphase : s.phase = y at hx
    cases Machine.Service.lives_step_cases hx with
    | @kill n₀ _ d hd =>
      refine ⟨hf, fun id hid => ?_, fun n₁ path id hn₁ => by cases hn₁⟩
      have hold := h.store id (hsub id hid)
      rw [hphase] at hold
      exact KeptUp.crash hold hd

/-- **A payment in flight is on record, and not as failed**, in memory and in every file a crash may
leave, over any number of lives. -/
theorem in_flight_recorded (d : Disk) (ks : List NetworkLabel) (t : Network)
    (hr : (network L).run ⟨.down d, [], []⟩ ks = some t)
    (hf : (network L).Along Fresh ⟨.down d, [], []⟩ ks) :
    ∀ id ∈ t.inFlight, Recorded (Holds id NotFailed) t.phase := by
  have hinv : (∃ as, (lives L).run (.down d) as = some t.phase) ∧ FlightInv t := by
    have hinit : FlightInv ⟨.down d, [], []⟩ :=
      ⟨fun _ hid => (by cases hid), fun _ hid => (by cases hid), fun _ _ _ hn => (by cases hn)⟩
    refine Machine.inv_run Fresh (I := fun s => (∃ as, (lives L).run (.down d) as = some s.phase) ∧
      FlightInv s) (fun s k s' h hok hs => ?_) ⟨⟨[], rfl⟩, hinit⟩ hf hr
    obtain ⟨⟨as, has⟩, hflight⟩ := h
    refine ⟨⟨as ++ (networkRefines L).lab s k, ?_⟩, inFlight_step hflight hok (fun n hn => ?_) hs⟩
    · rw [Machine.run_append has]
      exact (networkRefines L).sim s k s' hs
    · rw [hn] at has
      exact writeAhead_lives has
  exact fun id hid => recorded_of_kept (hinv.2.store id hid)

/-- Equal files are of equal stores. -/
theorem lookup_of_encode_eq {o o' : OutboundPaymentInfoStorage} (h : o.encode = o'.encode)
    (hv : (toVec o.encode).isSome) (id : PaymentId) : o.payments.lookup id = o'.payments.lookup id := by
  let e : Env := { noFault with recentPayments := [.pending id] }
  have hsettle : settle e.recentPaymentsPaymentIds id = fun info => info := by
    funext info
    exact if_neg fun hp => hp.2 List.mem_cons_self
  have ho := lookup_loadedOutbound (e := e) rfl hv id
  have ho' := lookup_loadedOutbound (e := e) rfl (h ▸ hv) id
  rw [hsettle, Option.map_id_fun'] at ho ho'
  rw [h] at ho
  exact ho.symm.trans ho'

section Examples

/-- A start that knows of one payment. -/
def knowsOne : StartEnv :=
  { noStartFault with env := { noFault with recentPayments := [.pending offerId] } }

/-- A payment is accepted, and the node killed and started again. -/
def acceptOne : List NetworkLabel :=
  sendOne.map .life ++ [.life (.step (.outbound (.call true))), .kill 0 [offerId] [],
    .life (.start knowsOne)]

end Examples

set_option maxRecDepth 4096 in
/-- The payment is still in flight and pending after the second start. -/
theorem in_flight_recorded_run : ∃ t, (network storedAtOld).run ⟨.down seeded, [], []⟩ acceptOne = some t ∧
    offerId ∈ t.inFlight ∧ Recorded (Holds offerId NotFailed) t.phase := by
  refine ⟨_, rfl, List.mem_cons_self, in_flight_recorded (L := storedAtOld) seeded acceptOne _ rfl ?_
    offerId List.mem_cons_self⟩
  refine ⟨rfl, trivial, trivial, ?_, ?_, rfl, trivial⟩
  · intro n path id hn hc
    cases hn
    cases hc
    refine ⟨fun h => (by cases h), fun hf => ?_⟩
    rcases hf with ⟨info, hi, hf⟩ | ⟨b, hb, o, hbo, info, hi, hf⟩
    · cases hi
      cases hf
    · obtain rfl := List.mem_singleton.mp hb
      rw [← lookup_of_encode_eq hbo (by decide) offerId] at hi
      cases hi
      cases hf
  · intro id _ h
    cases h

end Lives

end LdkSample
