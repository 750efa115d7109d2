import LdkSample.Lives.Node

/-!
# Sent payments across lives

What a life records of a payment, later lives read back, as long as their starts can open the
file: an id that has reached `ChannelManager` stays on record (`handed_recorded`), and a payment
whose `PaymentSent` has been handled stays a success with its preimage (`success_recorded`), in
memory and in every file a crash may leave.
-/

namespace LdkSample

namespace Lives

open Startup Outbound

variable {L : Lightning} {id : PaymentId} {Q : PaymentInfo → Prop}
  {R : OutboundPaymentInfoStorage → Prop}

/-- The store meets `R`, in memory and in every file a crash may leave. -/
def Recorded (R : OutboundPaymentInfoStorage → Prop) : Phase → Prop
  | .up n => R n.outbound.outbound ∧ ∀ b ∈ n.outbound.crashFiles, IsOf R b
  | .down d => ∃ b, d.world.outboundPayments = some b ∧ IsOf R b

/-- A start can open the file of sent payments, if there is one. -/
def OpensSent (k : LifeLabel) : Prop := k.StartsWith fun e => e.env.outboundFault = none

/-! ## What is kept -/

/-- What the loop at startup keeps. -/
def Settles (R : OutboundPaymentInfoStorage → Prop) (recent : List PaymentId) : Prop :=
  ∀ o o', (∀ id, o'.payments.lookup id = (o.payments.lookup id).map (settle recent id)) → R o → R o'

theorem settles_holds {recent : List PaymentId} (hQ : ∀ info, Q info → Q (settle recent id info)) :
    Settles (Holds id Q) recent := by
  rintro o o' hl ⟨info, hi, hq⟩
  refine ⟨settle recent id info, ?_, hQ info hq⟩
  rw [hl, hi]
  rfl

/-- The file of a store that meets `R`, which can be read back. -/
def KeptIn (R : OutboundPaymentInfoStorage → Prop) (d : Disk) : Prop :=
  ∃ b, d.world.outboundPayments = some b ∧ IsOf R b ∧ (toVec b).isSome

def KeptUp (R : OutboundPaymentInfoStorage → Prop) (n : Node) : Prop :=
  KeptFrom R n.outbound.durable n.outbound ∧ Fits n.outbound

theorem recorded_of_kept {t : Phase} (h : Machine.Phase.Holds (KeptUp R) (KeptIn R) t) :
    Recorded R t := by
  cases t with
  | up n => exact ⟨h.1.mem, h.1.writes⟩
  | down d =>
    obtain ⟨b, hb, hold, -⟩ := h
    exact ⟨b, hb, hold⟩

/-- What is read of the file of a store is the store, settled. -/
theorem lookup_loadedOutbound {e : Env} {o : OutboundPaymentInfoStorage}
    (hopen : e.outboundFault = none) (hv : (toVec o.encode).isSome) (id : PaymentId) :
    (loadedOutbound e (some o.encode)).payments.lookup id =
      (o.payments.lookup id).map (settle e.recentPaymentsPaymentIds id) := by
  obtain ⟨bytes, hbytes⟩ := Option.isSome_iff_exists.mp hv
  obtain ⟨-, rfl⟩ := toVec_eq_some hbytes
  have hread : readOutboundPaymentInfo (openFile e.outboundFault (some o.encode)).toOption =
      ⟨insertAll o.payments.entries ∅⟩ :=
    read_decoded (w := { noFiles with outboundPayments := some o.encode }) rfl hopen
      (reads_outbound o hbytes).apply
  unfold loadedOutbound
  rw [hread, lookup_reconcile]
  dsimp only
  rw [← Finmap.lookup_toFinmap, toFinmap_insertAll, Finmap.lookup_toFinmap]

theorem kept_of_isFileOf {o : OutboundPaymentInfoStorage} {d : Disk} (h : R o)
    (hf : IsFileOf o d.world.outboundPayments) : KeptIn R d := by
  obtain ⟨bytes, hv, hfile⟩ := hf
  obtain ⟨-, rfl⟩ := toVec_eq_some hv
  refine ⟨_, hfile, ⟨o, rfl, h⟩, ?_⟩
  rw [hv]
  rfl

/-- A node whose loaded store meets `R`. -/
theorem keptUp_up {e : StartEnv} {d d' : Disk} {loaded : Loaded} (h : LoadedIn e d loaded d')
    (hR : R loaded.2) : KeptUp R (up loaded d') := by
  obtain ⟨bytes, hbytes, -⟩ := h.file
  refine ⟨keptFrom_init hR, fun c hc => ?_⟩
  rw [List.mem_singleton.mp hc, hbytes]
  rfl

theorem KeptUp.step {n : Node} {s : Outbound.State} {l : Outbound.Label} (h : KeptUp R n)
    (hm : R s.outbound) (ho : Outbound.machine.step n.outbound l = some s) (hfit : Fits s) :
    KeptUp R { n with outbound := s } :=
  ⟨(keptFrom_step h.1 hm ho).mono (durable_step ho), hfit⟩

theorem KeptUp.crash {n : Node} {d : Disk} (h : KeptUp R n) (hd : d ∈ n.crash) : KeptIn R d := by
  obtain ⟨⟨b, hb, hfile⟩, -⟩ := mem_crash hd
  exact ⟨b, hfile, h.1.writes b hb, h.2 b (List.mem_of_mem_drop hb)⟩

theorem start_kept (e : StartEnv) (hR : Settles R e.env.recentPaymentsPaymentIds)
    (hopen : e.env.outboundFault = none) :
    Crash.Triple (KeptIn R) (start L e) ((service L).Starts (KeptUp R) (KeptIn R)) (KeptIn R) := by
  refine .exact fun d ⟨b, hfile, hold, hv⟩ => ?_
  have hload : R (loadedOutbound e.env d.world.outboundPayments) := by
    obtain ⟨o, rfl, ho⟩ := hold
    rw [hfile]
    exact hR _ _ (lookup_loadedOutbound hopen hv) ho
  have hkept {d' : Disk} (h : Started e d d') : KeptIn R d' := by
    rcases h.outbound with heq | hf
    · exact ⟨b, heq.trans hfile, hold, hv⟩
    · exact kept_of_isFileOf hload hf
  refine (start_spec e d).post (fun r d' h => ?_) fun d' h => hkept h
  cases r with
  | none => exact hkept h
  | some loaded => exact keptUp_up h (h.snd ▸ hload)

/-- **The rule for the outbound store**: what the steps keep of it in memory, and the loop at startup
keeps, is kept in every life. -/
theorem kept_lives (ok : Phase → LifeLabel → Prop) (hR : ∀ recent, Settles R recent)
    (hopens : ∀ x k, ok x k → OpensSent k)
    (hmem : ∀ n l n', R n.outbound.outbound → ok (.up n) (.step (.outbound l)) →
      Outbound.machine.step n.outbound l = some n' → R n'.outbound)
    {x t : Phase} {ks : List LifeLabel} (hx : Machine.Phase.Holds (KeptUp R) (KeptIn R) x)
    (ha : (lives L).Along ok x ks) (hr : (lives L).run x ks = some t) :
    Machine.Phase.Holds (KeptUp R) (KeptIn R) t := by
  refine Machine.Service.lives_inv ok (fun n l n' hn hok hs => ?_) (fun n _ hn _ d hd => ?_)
    (fun e => ?_) hx ha hr
  · cases step_cases hs with
    | inbound => exact hn
    | outbound ho hfit => exact hn.step (hmem n _ _ hn.1.mem hok ho) ho hfit
    | persistManager => exact hn
  · exact hn.crash hd
  · refine .exact fun d ⟨hd, hok⟩ => ?_
    have hopen : e.env.outboundFault = none := by
      rcases hok with hok | ⟨n, hok⟩
      · exact hopens _ _ hok
      · exact hopens _ _ hok
    refine (start_kept e (hR _) hopen).pre ?_
    rintro d' rfl
    exact hd

/-! ## Payments that have been handed over -/

theorem writeAhead_lives {d : Disk} {ks : List LifeLabel} {n : Node}
    (hr : (lives L).run (.down d) ks = some (.up n)) : WriteAhead n.outbound ∧ Fits n.outbound := by
  have h : Machine.Phase.Holds (fun n : Node => WriteAhead n.outbound ∧ Fits n.outbound)
      (fun _ => True) (.up n : Phase) := by
    refine Machine.Service.lives_inv_all (V := service L) (x := .down d) (fun n l n' hn hs => ?_)
      (fun _ _ _ _ => trivial) (fun e => ?_) trivial hr
    · cases step_cases hs with
      | inbound => exact hn
      | outbound ho hfit => exact ⟨writeAhead_step hn.1 ho, hfit⟩
      | persistManager => exact hn
    · refine .exact fun d' _ => (start_spec e d').post (fun r d₁ hend => ?_) fun _ _ => trivial
      cases r with
      | none => trivial
      | some loaded =>
        obtain ⟨-, -, -, bytes, hbytes, -⟩ := hend
        refine ⟨writeAhead_init _, fun b hb => ?_⟩
        rw [List.mem_singleton.mp hb, hbytes]
        rfl
  exact h

/-- **A payment handed over stays on record**, in the life that sent it and in every later one. -/
theorem handed_recorded (d : Disk) (as bs : List LifeLabel) {n : Node} {t : Phase}
    (h₁ : (lives L).run (.down d) as = some (.up n)) (hid : Handed n.outbound id)
    (h₂ : (lives L).run (.up n) bs = some t) (hopen : ∀ k ∈ bs, OpensSent k) :
    Recorded (Holds id fun _ => True) t := by
  obtain ⟨hw, hfit⟩ := writeAhead_lives h₁
  have hx : Machine.Phase.Holds (KeptUp (Holds id fun _ => True)) (KeptIn (Holds id fun _ => True))
    (.up n) := ⟨hw.keptFrom hid, hfit⟩
  refine recorded_of_kept (kept_lives (fun _ => OpensSent) (fun _ => settles_holds fun _ _ => trivial)
    (fun _ _ hk => hk) (fun m l m' hm _ hs => ?_) hx (Machine.along_of_forall hopen) h₂)
  exact holds_iff_mem.mpr (mem_step (holds_iff_mem.mp hm) hs)

section Examples

/-- The first life sends one payment. -/
def sendOne : List LifeLabel :=
  [.start noStartFault, .step (.outbound (.start (.keysend offerId 7))), .step (.outbound .written)]

theorem opensSent_killAndStart : ∀ k ∈ killAndStart, OpensSent k :=
  List.forall_mem_cons.mpr ⟨trivial, List.forall_mem_cons.mpr ⟨rfl, List.forall_mem_nil _⟩⟩

end Examples

/-- The node is killed before it calls `send_spontaneous_payment`, and starts again. -/
theorem handed_recorded_run : ∃ n t,
    (lives storedAtOld).run (.down seeded) sendOne = some (.up n) ∧
    (lives storedAtOld).run (.up n) killAndStart = some t ∧ Recorded (Holds offerId fun _ => True) t := by
  refine ⟨_, _, rfl, rfl, ?_⟩
  exact handed_recorded (L := storedAtOld) seeded sendOne killAndStart rfl (.inr ⟨_, rfl⟩) rfl
    opensSent_killAndStart

/-! ## Payments that have succeeded -/

/-- A label of a node that does not write over the success of `id`. -/
def LeavesSent (id : PaymentId) (p : PaymentPreimage) (n : Node) : Label → Prop
  | .outbound l => LeavesSuccess id p n.outbound l
  | _ => True

/-- The same of a life, whose starts can open the file. -/
def LeavesSentInLife (id : PaymentId) (p : PaymentPreimage) : Phase → LifeLabel → Prop
  | .up n, .step l => LeavesSent id p n l
  | _, k => OpensSent k

theorem success_settle (p : PaymentPreimage) (recent : List PaymentId) (info : PaymentInfo)
    (h : IsSuccess p info) : IsSuccess p (settle recent id info) := by
  unfold settle
  rw [if_neg fun hp => by rw [h.1] at hp; cases hp.1]
  exact h

/-- In the life of the event, once its write has completed. -/
theorem kept_after_event {p : PaymentPreimage} {n n' : Node} {ls : List Label}
    (hmem : id ∈ n.outbound.outbound.payments)
    (hheld : ∀ path id' b, n.outbound.cli ≠ .encoded path id' b)
    (hr : machine.run n (.outbound (.event (.paymentSent p (some id))) :: ls) = some n')
    (ha : machine.Along (LeavesSent id p) n (.outbound (.event (.paymentSent p (some id))) :: ls))
    (hdur : n.outbound.writes.length ≤ n'.outbound.durable) : KeptUp (Holds id (IsSuccess p)) n' := by
  obtain ⟨n₁, he, hr⟩ := Machine.run_cons_inv hr
  have h₁ : KeptFrom (Holds id (IsSuccess p)) n.outbound.writes.length n₁.outbound ∧ Fits n₁.outbound := by
    cases step_cases he with
    | outbound ho hfit' => exact ⟨.of_paymentSent hmem hheld ho, hfit'⟩
  have h₂ : KeptFrom (Holds id (IsSuccess p)) n.outbound.writes.length n'.outbound ∧ Fits n'.outbound := by
    refine Machine.inv_run (LeavesSent id p) (I := fun m =>
      KeptFrom (Holds id (IsSuccess p)) n.outbound.writes.length m.outbound ∧ Fits m.outbound)
      (fun m l m' hm hok hs => ?_) h₁ ((Machine.along_cons he).mp ha).2 hr
    cases step_cases hs with
    | inbound => exact hm
    | outbound ho hfit' => exact ⟨keptFrom_step hm.1 (success_step hm.1.mem hok ho) ho, hfit'⟩
    | persistManager => exact hm
  exact ⟨h₂.1.mono hdur, h₂.2⟩

/-- **A handled success stays on record**, with its preimage: from the time the write that
`PaymentSent` causes has completed, in that life and in every later one. -/
theorem success_recorded {p : PaymentPreimage} (n : Node) (ls : List Label) (bs : List LifeLabel)
    {n' : Node} {t : Phase} (hmem : id ∈ n.outbound.outbound.payments)
    (hheld : ∀ path id' b, n.outbound.cli ≠ .encoded path id' b)
    (h₁ : machine.run n (.outbound (.event (.paymentSent p (some id))) :: ls) = some n')
    (hls : machine.Along (LeavesSent id p) n (.outbound (.event (.paymentSent p (some id))) :: ls))
    (hdur : n.outbound.writes.length ≤ n'.outbound.durable)
    (h₂ : (lives L).run (.up n') bs = some t)
    (hbs : (lives L).Along (LeavesSentInLife id p) (.up n') bs) : Recorded (Holds id (IsSuccess p)) t := by
  have hx : Machine.Phase.Holds (KeptUp (Holds id (IsSuccess p))) (KeptIn (Holds id (IsSuccess p)))
      (.up n') := kept_after_event hmem hheld h₁ hls hdur
  refine recorded_of_kept (kept_lives (LeavesSentInLife id p) (fun _ => settles_holds (success_settle p _))
    (fun x k hk => ?_) (fun m l m' hm hok hs => success_step hm hok hs) hx hbs h₂)
  unfold LeavesSentInLife at hk
  split at hk
  · trivial
  · exact hk

section Examples

/-- A node with one payment in flight. -/
def inFlightNode : Node := up (⟨∅⟩, oneInFlight) seeded

end Examples

set_option maxRecDepth 4096 in
/-- The payment succeeds, the node is killed and starts again without knowing of it. -/
theorem success_recorded_run : ∃ n t,
    machine.run inFlightNode [.outbound (.event (.paymentSent preimageA (some inFlightId))),
      .outbound (.eventWritten 1)] = some n ∧
    (lives storedAtOld).run (.up n) killAndStart = some t ∧
    Recorded (Holds inFlightId (IsSuccess preimageA)) t := by
  refine ⟨_, _, rfl, rfl, success_recorded (L := storedAtOld) inFlightNode
    [.outbound (.eventWritten 1)] killAndStart ?_ ?_ rfl ?_ ?_ rfl ?_⟩
  · decide
  · exact fun _ _ _ h => by cases h
  · exact ⟨fun _ => rfl, trivial, trivial⟩
  · decide
  · exact ⟨trivial, rfl, trivial⟩

end Lives

end LdkSample
