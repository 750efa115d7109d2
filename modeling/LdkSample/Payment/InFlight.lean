import LdkSample.Payment.OutboundDisk

/-!
# Statuses and payments in flight

`ChannelManager` next to the sending machine: the ids in flight, and the queue of
events that are generated but not delivered. A pay call either adds an id that was not
in flight or refuses; a payment leaves the set when its `PaymentSent` or
`PaymentFailed` is queued. No payment in flight is shown as failed in the runs in
which every pay call meets `CallsFresh` (`failed_not_in_flight`), and every other pay
call can go on to such a payment (`failed_in_flight_of_call`): a second send of an
invoice in flight, or a new attempt before the failure of the old one is handled.
-/

namespace LdkSample

namespace Outbound

namespace Ldk

structure State where
  base : Outbound.State
  inFlight : List PaymentId
  queue : List OutboundEvent
  deriving DecidableEq

inductive Label where
  | cli (l : Outbound.Label)
  /-- The payment is over, with the preimage of a success. -/
  | finish (id : PaymentId) (outcome : Option PaymentPreimage)
  | deliver
  deriving DecidableEq

def outcomeEvent (id : PaymentId) : Option PaymentPreimage → OutboundEvent
  | some p => .paymentSent p (some id)
  | none => .paymentFailed id

/-- The id of a pay call that is due. -/
def callId (s : Outbound.State) : Option PaymentId :=
  match s.cli with
  | .calling _ id => some id
  | _ => none

def step (s : State) : Label → Option State
  | .cli (.event _) => none
  | .cli (.call true) =>
    match callId s.base with
    | some id =>
      if id ∈ s.inFlight then none
      else (machine.step s.base (.call true)).map fun b =>
        { s with base := b, inFlight := id :: s.inFlight }
    | none => none
  | .cli l => (machine.step s.base l).map fun b => { s with base := b }
  | .finish id outcome =>
    if id ∈ s.inFlight then
      some { s with
        inFlight := s.inFlight.filter (· ≠ id)
        queue := s.queue ++ [outcomeEvent id outcome] }
    else none
  | .deliver =>
    match s.queue with
    | e :: q => (machine.step s.base (.event e)).map fun b => { s with base := b, queue := q }
    | [] => none

def ldk : Machine State Label := ⟨step⟩

def FailedNotInFlight (s : State) : Prop :=
  ∀ id ∈ s.inFlight, ∀ info, s.base.outbound.payments.lookup id = some info →
    info.status ≠ .failed

/-- No send command is between its insert and its last update of the store. -/
def AtRest (s : State) : Prop :=
  match s.base.cli with
  | .idle | .marking _ => True
  | _ => False

/-- A pay call is accepted only when no earlier failure of the id is in the queue or was handled
since the insert, and refused on a path that records it only when the id is not in flight. -/
def CallsFresh (s : State) : Label → Prop
  | .cli (.call true) => ∀ path id, s.base.cli = .calling path id →
      .paymentFailed id ∉ s.queue ∧
        ∀ info, s.base.outbound.payments.lookup id = some info → info.status ≠ .failed
  | .cli (.call false) => ∀ path id, s.base.cli = .calling path id → path.guarded = true →
      id ∉ s.inFlight
  | _ => True

/-- A start of the node: no failed payment in flight, and no failure of one to be delivered. -/
structure Start where
  outbound : OutboundPaymentInfoStorage
  inFlight : List PaymentId
  queue : List OutboundEvent
  queue_ids : ∀ e ∈ queue, e.paymentId?.isSome
  fresh : ∀ id ∈ inFlight, .paymentFailed id ∉ queue ∧
    ∀ info, outbound.payments.lookup id = some info → info.status ≠ .failed

def Start.init (st : Start) : State := ⟨Outbound.init st.outbound, st.inFlight, st.queue⟩

/-! ## The steps -/

inductive Step (s : State) : Label → State → Prop where
  | accept {path : SendPath} {id : PaymentId} : s.base.cli = .calling path id →
      id ∉ s.inFlight →
      Step s (.cli (.call true))
        ⟨{ s.base with handed := id :: s.base.handed, cli := .idle }, id :: s.inFlight, s.queue⟩
  | cli {l : Outbound.Label} {b : Outbound.State} : l ≠ .call true → (∀ e, l ≠ .event e) →
      machine.step s.base l = some b → Step s (.cli l) { s with base := b }
  | finish {id : PaymentId} {outcome : Option PaymentPreimage} : id ∈ s.inFlight →
      Step s (.finish id outcome) { s with
        inFlight := s.inFlight.filter (· ≠ id)
        queue := s.queue ++ [outcomeEvent id outcome] }
  | deliver {e : OutboundEvent} {q : List OutboundEvent} {o : OutboundPaymentInfoStorage} :
      s.queue = e :: q → handleOutbound s.base.outbound e = some o →
      Step s .deliver ⟨s.base.store o, s.inFlight, q⟩

theorem callId_some {s : Outbound.State} {id : PaymentId} (h : callId s = some id) :
    ∃ path, s.cli = .calling path id := by
  unfold callId at h
  split at h
  · next path id' hc => cases h; exact ⟨path, hc⟩
  · cases h

theorem step_call {s : Outbound.State} {path : SendPath} {id : PaymentId} (ok : Bool)
    (h : s.cli = .calling path id) :
    machine.step s (.call ok) = some { s with
      handed := id :: s.handed
      cli := if !ok && path.guarded then .refused path id else .idle } := by
  simp only [machine, Outbound.step, h]

theorem step_cases {s s' : State} {l : Label} (h : ldk.step s l = some s') : Step s l s' := by
  cases l with
  | finish id outcome =>
    simp only [ldk, step] at h
    split at h
    · next hm => cases h; exact .finish hm
    · cases h
  | deliver =>
    simp only [ldk, step] at h
    split at h
    · next e q hq =>
      rw [Option.map_eq_some_iff] at h
      obtain ⟨b, hb, rfl⟩ := h
      cases Outbound.step_cases hb with
      | event ho => exact .deliver hq ho
    · cases h
  | cli l =>
    simp only [ldk] at h
    unfold step at h
    split at h
    · cases h
    · next heq =>
      cases heq
      split at h
      · next id hc =>
        obtain ⟨path, hc⟩ := callId_some hc
        split at h
        · cases h
        · next hm =>
          simp only [step_call true hc, Bool.not_true, Bool.false_and, Bool.false_eq_true,
            if_false, Option.map_some, Option.some.injEq] at h
          subst h
          exact .accept hc hm
      · cases h
    · next l' hev hne heq =>
      cases heq
      rw [Option.map_eq_some_iff] at h
      obtain ⟨b, hb, rfl⟩ := h
      exact .cli hne hev hb
    · next h' => cases h'
    · next h' => cases h'

/-! ## No failed payment in flight -/

structure FlightInv (s : State) : Prop where
  queue : ∀ id ∈ s.inFlight, .paymentFailed id ∉ s.queue
  status : FailedNotInFlight s
  refused : ∀ path id, s.base.cli = .refused path id → id ∉ s.inFlight

theorem FlightInv.init (st : Start) : FlightInv st.init where
  queue id hid := (st.fresh id hid).1
  status id hid := (st.fresh id hid).2
  refused _ _ h := by cases h

/-- A step of the CLI task that leaves the entry of `id` alone, or makes it pending. -/
theorem status_of_lookup {o o' : OutboundPaymentInfoStorage} {id : PaymentId}
    (h : ∀ info, o.payments.lookup id = some info → info.status ≠ .failed)
    (hl : o'.payments.lookup id = o.payments.lookup id ∨
      ∃ info, o'.payments.lookup id = some info ∧ info.status = .pending) :
    ∀ info, o'.payments.lookup id = some info → info.status ≠ .failed := by
  intro info hi
  rcases hl with hl | ⟨info', hi', hst⟩
  · exact h info (hl ▸ hi)
  · rw [hi] at hi'
    cases hi'
    rw [hst]
    nofun

theorem lookup_insertEntry_pending {o : OutboundPaymentInfoStorage} {cmd : SendCmd}
    {id' : PaymentId} {info : PaymentInfo} (he : cmd.entry = some (id', info)) (id : PaymentId) :
    (insertEntry o id' info).payments.lookup id = o.payments.lookup id ∨
      ∃ i, (insertEntry o id' info).payments.lookup id = some i ∧ i.status = .pending := by
  rw [lookup_insertEntry]
  split
  · exact .inr ⟨info, rfl, (SendCmd.entry_status he).1⟩
  · exact .inl rfl

theorem FlightInv.cli {s : State} (h : FlightInv s) {l : Outbound.Label} {b : Outbound.State}
    (hl : l ≠ .call true) (hev : ∀ e, l ≠ .event e) (hf : CallsFresh s (.cli l))
    (hb : machine.step s.base l = some b) : FlightInv { s with base := b } := by
  have keep {b : Outbound.State} (ho : b.outbound = s.base.outbound)
      (hr : ∀ path id, b.cli = .refused path id → id ∉ s.inFlight) :
      FlightInv { s with base := b } :=
    ⟨h.queue, fun id hid => by dsimp only; rw [ho]; exact h.status id hid, hr⟩
  cases Outbound.step_cases hb with
  | returned => exact h
  | insertWrite _ he =>
    exact ⟨h.queue, fun id hid => status_of_lookup (h.status id hid)
      (lookup_insertEntry_pending he id), fun _ _ hc => by cases hc⟩
  | insert _ he =>
    exact ⟨h.queue, fun id hid => status_of_lookup (h.status id hid)
      (lookup_insertEntry_pending he id), fun _ _ hc => by cases hc⟩
  | encode => exact keep rfl fun _ _ hc => by cases hc
  | write => exact keep rfl fun _ _ hc => by cases hc
  | written => exact keep rfl fun _ _ hc => by cases hc
  | refused hc hg =>
    exact keep rfl fun path id hc' => by cases hc'; exact hf _ _ hc hg
  | called => exact keep rfl fun _ _ hc => by cases hc
  | @mark path id o hc ho =>
    -- the refused id is not in flight, so no status in flight changes
    have hid := h.refused path id hc
    refine ⟨h.queue, fun id' hid' => status_of_lookup (h.status id' hid') (.inl ?_),
      fun _ _ hc => by cases hc⟩
    exact lookup_handleOutbound_ne (markFailed_some ho)
      fun e => hid (Option.some.inj e ▸ hid')
  | markPanic => exact keep rfl fun _ _ hc => by cases hc
  | marked => exact keep rfl fun _ _ hc => by cases hc
  | event => exact absurd rfl (hev _)
  | eventWritten => exact keep rfl h.refused

theorem outcomeEvent_ne {id id' : PaymentId} {outcome : Option PaymentPreimage} (h : id' ≠ id) :
    outcomeEvent id outcome ≠ .paymentFailed id' := by
  cases outcome with
  | some p => nofun
  | none => intro e; cases e; exact h rfl

theorem flightInv_step {s s' : State} {l : Label} (h : FlightInv s) (hf : CallsFresh s l)
    (hs : ldk.step s l = some s') : FlightInv s' := by
  cases step_cases hs with
  | accept hc hm =>
    obtain ⟨hq, hst⟩ := hf _ _ hc
    refine ⟨fun id hid => ?_, fun id hid => ?_, fun _ _ hc => by cases hc⟩
    · rcases List.mem_cons.mp hid with rfl | hid
      · exact hq
      · exact h.queue id hid
    · rcases List.mem_cons.mp hid with rfl | hid
      · exact hst
      · exact h.status id hid
  | cli hl hev hb => exact h.cli hl hev hf hb
  | finish hm =>
    refine ⟨fun id hid => ?_, fun id hid => ?_, fun path id hc hid => ?_⟩
    · rw [List.mem_filter, decide_eq_true_eq] at hid
      intro hq
      rcases List.mem_append.mp hq with hq | hq
      · exact h.queue id hid.1 hq
      · exact outcomeEvent_ne hid.2 (List.mem_singleton.mp hq).symm
    · exact h.status id (List.mem_of_mem_filter hid)
    · exact h.refused path id hc (List.mem_of_mem_filter hid)
  | @deliver e q o hq ho =>
    refine ⟨fun id hid hm => h.queue id hid (by rw [hq]; exact List.mem_cons_of_mem _ hm),
      fun id hid => ?_, h.refused⟩
    by_cases hp : e.paymentId? = some id
    · -- the event of a payment in flight is a success
      intro info hi
      obtain ⟨info', -, rfl⟩ := update_of_lookup ho hp hi
      cases e with
      | paymentSent p id' => nofun
      | paymentFailed id' =>
        cases hp
        exact absurd (by rw [hq]; exact List.mem_cons_self) (h.queue id hid)
    · exact status_of_lookup (h.status id hid) (.inl (lookup_handleOutbound_ne ho hp))

/-! ## Every other pay call can fail -/

/-- Without the queue, the sending machine with the delivered events. -/
def refines : ldk.Refines machine where
  abs := State.base
  lab s l :=
    match l with
    | .cli l => [l]
    | .finish .. => []
    | .deliver =>
      match s.queue with
      | e :: _ => [.event e]
      | [] => []
  sim s l s' h := by
    cases step_cases h with
    | accept hc hm => rw [Machine.run_single, step_call true hc]; simp
    | cli _ _ hb => rw [Machine.run_single, hb]
    | finish => rfl
    | deliver hq ho => simp only [hq]; rw [Machine.run_single]; simp [machine, Outbound.step, ho]

def QueueIds (s : State) : Prop := ∀ e ∈ s.queue, e.paymentId?.isSome

theorem queueIds_step {s s' : State} {l : Label} (h : QueueIds s) (hs : ldk.step s l = some s') :
    QueueIds s' := by
  cases step_cases hs with
  | accept => exact h
  | cli => exact h
  | @finish id outcome =>
    intro e he
    rcases List.mem_append.mp he with he | he
    · exact h e he
    · rw [List.mem_singleton.mp he]
      cases outcome <;> rfl
  | deliver hq => exact fun e he => h e (by rw [hq]; exact List.mem_cons_of_mem _ he)

theorem step_deliver {s : State} {e : OutboundEvent} {q : List OutboundEvent}
    {o : OutboundPaymentInfoStorage} (hq : s.queue = e :: q)
    (ho : handleOutbound s.base.outbound e = some o) :
    ldk.step s .deliver = some ⟨s.base.store o, s.inFlight, q⟩ := by
  simp [ldk, step, hq, machine, Outbound.step, ho]

/-- The entry of `id` is failed. -/
def ShownFailed (s : State) (id : PaymentId) : Prop :=
  ∃ info, s.base.outbound.payments.lookup id = some info ∧ info.status = .failed

/-- A failure in the queue is delivered after the events before it. -/
theorem deliver_failure {pre post : List OutboundEvent} {s : State} {id : PaymentId}
    (hq : s.queue = pre ++ .paymentFailed id :: post) (hi : QueueIds s)
    (hm : id ∈ s.base.outbound.payments) :
    ∃ ks t, ldk.run s ks = some t ∧ t.inFlight = s.inFlight ∧ t.base.cli = s.base.cli ∧
      ShownFailed t id := by
  induction pre generalizing s with
  | nil =>
    refine ⟨[.deliver], _, (Machine.run_single).trans (step_deliver hq rfl), rfl, rfl, ?_⟩
    obtain ⟨info, hl⟩ := HashMap.lookup_of_mem hm
    exact ⟨{ info with status := .failed },
      (lookup_handleOutbound_self (e := .paymentFailed id) rfl rfl).trans (by rw [hl]; rfl), rfl⟩
  | cons e pre ih =>
    obtain ⟨pid, hp⟩ := Option.isSome_iff_exists.mp (hi e (by rw [hq]; exact List.mem_cons_self))
    obtain ⟨o, ho, -⟩ := lookup_handleOutbound s.base.outbound hp
    have hd := step_deliver hq ho
    obtain ⟨ks, t, hr, h⟩ := ih (s := ⟨s.base.store o, s.inFlight,
      pre ++ .paymentFailed id :: post⟩) rfl (queueIds_step hi hd) ((mem_handleOutbound ho).mpr hm)
    exact ⟨.deliver :: ks, t, (Machine.run_cons hd).trans hr, h⟩

theorem not_failedNotInFlight {s : State} {id : PaymentId} (hid : id ∈ s.inFlight)
    (h : ShownFailed s id) : ¬ FailedNotInFlight s := by
  obtain ⟨info, hi, hst⟩ := h
  exact fun hf => hf id hid info hi hst

theorem mem_of_calling {s : State} (hw : WriteAhead s.base) {path : SendPath} {id : PaymentId}
    (hc : s.base.cli = .calling path id) : id ∈ s.base.outbound.payments := by
  have hcli := hw.cli
  simp only [CliInv, hc] at hcli
  exact hcli.mem

/-- An accepted call, with an earlier failure of the id in the queue or already handled. -/
theorem failed_in_flight_of_accept {s s₁ : State} (hw : WriteAhead s.base) (hi : QueueIds s)
    (hs : ldk.step s (.cli (.call true)) = some s₁) (hf : ¬ CallsFresh s (.cli (.call true))) :
    ∃ ks t, ldk.run s₁ ks = some t ∧ AtRest t ∧ ¬ FailedNotInFlight t := by
  simp only [CallsFresh, not_forall] at hf
  obtain ⟨path, id, hc, hf⟩ := hf
  have hm := mem_of_calling hw hc
  cases step_cases hs with
  | cli h => exact absurd rfl h
  | accept hc' =>
    rw [hc] at hc'
    cases hc'
    by_cases hq : .paymentFailed id ∈ s.queue
    · -- the old failure is still to be delivered
      obtain ⟨pre, post, hq⟩ := List.append_of_mem hq
      obtain ⟨ks, t, hr, hfl, hcl, hsh⟩ := deliver_failure
        (s := ⟨{ s.base with handed := id :: s.base.handed, cli := .idle }, id :: s.inFlight,
          s.queue⟩) hq hi hm
      refine ⟨ks, t, hr, ?_, not_failedNotInFlight (by rw [hfl]; exact List.mem_cons_self) hsh⟩
      simp [AtRest, hcl]
    · -- it was handled after the insert
      have hst : ∃ info, s.base.outbound.payments.lookup id = some info ∧
          info.status = .failed := by
        by_contra hno
        exact hf ⟨hq, fun info hi hst => hno ⟨info, hi, hst⟩⟩
      exact ⟨[], _, rfl, trivial, not_failedNotInFlight List.mem_cons_self hst⟩

/-- A refused call of a payment in flight, on a path that records the refusal. -/
theorem failed_in_flight_of_refusal {s s₁ : State} (hw : WriteAhead s.base)
    (hs : ldk.step s (.cli (.call false)) = some s₁) (hf : ¬ CallsFresh s (.cli (.call false))) :
    ∃ ks t, ldk.run s₁ ks = some t ∧ AtRest t ∧ ¬ FailedNotInFlight t := by
  simp only [CallsFresh, not_forall, not_not] at hf
  obtain ⟨path, id, hc, hg, hid⟩ := hf
  have hm := mem_of_calling hw hc
  have hs₁ : s₁ = ⟨{ s.base with handed := id :: s.base.handed, cli := .refused path id },
      s.inFlight, s.queue⟩ := by
    cases step_cases hs with
    | cli _ _ hb =>
      rw [step_call false hc] at hb
      simp only [Bool.not_false, hg, Bool.and_self, if_true, Option.some.injEq] at hb
      rw [← hb]
  obtain ⟨o, ho⟩ := Option.ne_none_iff_exists'.mp fun h => markFailed_none.mp h hm
  subst hs₁
  refine ⟨[.cli .mark], ⟨{ s.base.store o with
      handed := id :: s.base.handed
      cli := .marking s.base.writes.length }, s.inFlight, s.queue⟩,
    (Machine.run_single).trans ?_, trivial, not_failedNotInFlight hid ?_⟩
  · simp [ldk, step, machine, Outbound.step, ho, Outbound.State.store]
  · obtain ⟨info, hl⟩ := HashMap.lookup_of_mem hm
    refine ⟨{ info with status := .failed }, ?_, rfl⟩
    exact (lookup_handleOutbound_self (markFailed_some ho) rfl).trans (by rw [hl]; rfl)

/-- From a pay call that does not meet `CallsFresh` the node can come to rest with a failed
payment in flight. -/
theorem failed_in_flight_of_call {s s₁ : State} {ok : Bool} (hw : WriteAhead s.base)
    (hi : QueueIds s) (hs : ldk.step s (.cli (.call ok)) = some s₁)
    (hf : ¬ CallsFresh s (.cli (.call ok))) :
    ∃ ks t, ldk.run s₁ ks = some t ∧ AtRest t ∧ ¬ FailedNotInFlight t := by
  cases ok with
  | true => exact failed_in_flight_of_accept hw hi hs hf
  | false => exact failed_in_flight_of_refusal hw hs hf

/-- **No failed payment is in flight** in the runs whose pay calls meet `CallsFresh`; from every
other pay call of a run the node can come to rest with a failed payment in flight. -/
theorem failed_not_in_flight (st : Start) :
    (∀ ls s, ldk.run st.init ls = some s → ldk.Along CallsFresh st.init ls →
      FailedNotInFlight s) ∧
    ∀ ls s s₁ ok, ldk.run st.init ls = some s → ldk.step s (.cli (.call ok)) = some s₁ →
      ¬ CallsFresh s (.cli (.call ok)) →
      ∃ ks t, ldk.run s₁ ks = some t ∧ AtRest t ∧ ¬ FailedNotInFlight t := by
  refine ⟨fun ls s hr ha => ?_, fun ls s s₁ ok hr hs hf => ?_⟩
  · exact (Machine.inv_run CallsFresh (fun _ _ _ h hf hs => flightInv_step h hf hs)
      (FlightInv.init st) ha hr).status
  · have hw : WriteAhead s.base := Machine.inv_run_all
      (fun _ _ _ h hs => writeAhead_step h hs) (writeAhead_init st.outbound) (refines.run hr)
    have hi : QueueIds s := Machine.inv_run_all (s := st.init)
      (fun _ _ _ h hs => queueIds_step h hs) st.queue_ids hr
    exact failed_in_flight_of_call hw hi hs hf

section Examples

def invoiceA : Bolt11Invoice := ⟨⟨Vector.replicate 32 5⟩, ⟨Vector.replicate 32 6⟩, some 1000⟩

def invoiceIdA : PaymentId := ⟨invoiceA.paymentHash.bytes⟩

def emptyStart : Start := ⟨⟨∅⟩, [], [], nofun, nofun⟩

def sendA (ok : Bool) : List Label :=
  [.cli (.start (.bolt11 invoiceA none)), .cli .written, .cli (.call ok)]

end Examples

/-- An invoice that fails, is sent again after the failure is handled, and is in flight. -/
theorem failed_not_in_flight_run : ∃ s, ldk.run emptyStart.init
      (sendA true ++ [.finish invoiceIdA none, .deliver] ++ sendA true) = some s ∧
      invoiceIdA ∈ s.inFlight ∧ FailedNotInFlight s := by
  refine ⟨_, rfl, List.mem_cons_self, (failed_not_in_flight emptyStart).1
    (sendA true ++ [.finish invoiceIdA none, .deliver] ++ sendA true) _ rfl ?_⟩
  refine ⟨trivial, trivial, ?_, trivial, trivial, trivial, trivial, ?_, trivial⟩
  · intro path id hc
    cases hc
    exact ⟨nofun, fun info hi => by cases hi; nofun⟩
  · intro path id hc
    cases hc
    exact ⟨nofun, fun info hi => by cases hi; nofun⟩

/-- **A payment in flight shown as failed**: the invoice is sent again while it is in flight,
`ChannelManager` refuses the duplicate and the command records the refusal. -/
theorem failed_in_flight : ¬ ∀ (st : Start) (ls : List Label) (s : State),
    ldk.run st.init ls = some s → AtRest s → FailedNotInFlight s := by
  intro h
  have hr := h emptyStart (sendA true ++ sendA false ++ [.cli .mark]) _ rfl
  exact hr trivial invoiceIdA List.mem_cons_self _ rfl rfl

end Ldk

end Outbound

end LdkSample
