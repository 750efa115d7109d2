import LdkSample.Payment.Outbound
import LdkSample.Startup.Boot

/-!
# Outbound payments at start

The outbound store read, reconciled with the recent payments of `ChannelManager` and written
back. A file that decodes keeps its payments: only one that is pending and unknown to
`ChannelManager` changes, to failed (`outbound_reconciled`). A file that cannot be opened or does
not decode is replaced by that of an empty store unless the write fails (`history_kept_iff`).
-/

namespace LdkSample

namespace Startup

/-! ## The loop -/

/-- What the loop makes of one entry. -/
def settle (recent : List PaymentId) (id : PaymentId) (payment : PaymentInfo) : PaymentInfo :=
  if payment.status = .pending ∧ id ∉ recent then { payment with status := .failed } else payment

theorem lookup_reconcile (o : OutboundPaymentInfoStorage) (recent : List PaymentId)
    (id : PaymentId) :
    (reconcile o recent).payments.lookup id = (o.payments.lookup id).map (settle recent id) :=
  HashMap.lookup_iterMut ..

theorem settle_mem {recent : List PaymentId} {id : PaymentId} (h : id ∈ recent) (p : PaymentInfo) :
    settle recent id p = p := by
  unfold settle
  rw [if_neg fun hp => hp.2 h]

theorem settle_settle (recent : List PaymentId) (id : PaymentId) (p : PaymentInfo) :
    settle recent id (settle recent id p) = settle recent id p := by
  unfold settle
  split
  · rw [if_neg fun hp => (nomatch hp.1)]
  · rfl

/-- A payment keeps its preimage, secret and amount, and its status by the rule. -/
theorem settle_spec (recent : List PaymentId) (id : PaymentId) (p : PaymentInfo) :
    (settle recent id p).preimage = p.preimage ∧ (settle recent id p).secret = p.secret ∧
      (settle recent id p).amtMsat = p.amtMsat ∧
      (settle recent id p).status =
        (if p.status = .pending ∧ id ∉ recent then .failed else p.status) ∧
      ((settle recent id p).status = .pending → id ∈ recent) := by
  unfold settle
  split
  · exact ⟨rfl, rfl, rfl, rfl, fun h => (nomatch h)⟩
  · next hp =>
    refine ⟨rfl, rfl, rfl, rfl, fun hst => ?_⟩
    by_contra hid
    exact hp ⟨hst, hid⟩

theorem lookup_reconcile_mem {recent : List PaymentId} {id : PaymentId} (h : id ∈ recent)
    (o : OutboundPaymentInfoStorage) :
    (reconcile o recent).payments.lookup id = o.payments.lookup id := by
  rw [lookup_reconcile]
  cases o.payments.lookup id with
  | none => rfl
  | some p => rw [Option.map_some, settle_mem h]

theorem mem_reconcile (o : OutboundPaymentInfoStorage) (recent : List PaymentId) (id : PaymentId) :
    id ∈ (reconcile o recent).payments ↔ id ∈ o.payments := by
  rw [AList.mem_keys, AList.mem_keys]
  unfold reconcile
  rw [HashMap.keys_iterMut]

theorem toFinmap_reconcile {o o' : OutboundPaymentInfoStorage} {recent : List PaymentId}
    (h : o'.payments.toFinmap = (reconcile o recent).payments.toFinmap) :
    (reconcile o' recent).payments.toFinmap = o'.payments.toFinmap := by
  have hlookup : ∀ id, o'.payments.lookup id = (reconcile o recent).payments.lookup id := by
    intro id
    rw [← Finmap.lookup_toFinmap, h, Finmap.lookup_toFinmap]
  apply HashMap.toFinmap_ext
  intro id
  rw [lookup_reconcile, hlookup, lookup_reconcile, Option.map_map]
  congr 1
  funext p
  exact settle_settle recent id p

/-! ## A start -/

variable {e : Env} {w w' : World}

theorem outboundPayments_inv {o : OutboundPaymentInfoStorage}
    (h : (outboundPayments e).exec w = some (o, w')) :
    o = reconcile (readOutboundPaymentInfo (openFile e.outboundFault w.outboundPayments).toOption)
      e.recentPaymentsPaymentIds ∧
    ∃ bytes, toVec o.encode = some bytes ∧ w'.outboundPayments = some bytes := by
  obtain ⟨_, _, hget, h₁⟩ := Crash.exec_bind_inv h
  cases hget
  obtain ⟨bytes, w₁, hvec, h₂⟩ := Crash.exec_bind_inv h₁
  obtain ⟨hvec, rfl⟩ := Crash.exec_unwrap_inv hvec
  split at h₂
  · cases h₂
  · obtain ⟨_, w₂, hact, h₃⟩ := Crash.exec_bind_inv h₂
    cases hact
    cases h₃
    exact ⟨rfl, bytes, hvec, rfl⟩

/-- The program, given what it reads. -/
theorem outboundPayments_eq {m : OutboundPaymentInfoStorage} {bytes : Bytes}
    (hread : readOutboundPaymentInfo (openFile e.outboundFault w.outboundPayments).toOption = m)
    (hvec : toVec (reconcile m e.recentPaymentsPaymentIds).encode = some bytes) :
    outboundPayments e w =
      if e.outboundWriteFault = none then
        ([{ w with outboundPayments := some bytes }],
          some (reconcile m e.recentPaymentsPaymentIds, { w with outboundPayments := some bytes }))
      else ([], none) := by
  unfold outboundPayments
  rw [Crash.get_bind, hread, hvec]
  cases e.outboundWriteFault with
  | none => rfl
  | some kind => rfl

/-- What is opened and decodes is what is reconciled. -/
theorem read_decoded {bytes rest : Bytes} {m : OutboundPaymentInfoStorage}
    (hfile : w.outboundPayments = some bytes) (hopen : e.outboundFault = none)
    (hread : OutboundPaymentInfoStorage.read bytes = some (m, rest)) :
    readOutboundPaymentInfo (openFile e.outboundFault w.outboundPayments).toOption = m := by
  rw [hfile, hopen]
  unfold openFile readOutboundPaymentInfo
  dsimp only [Except.toOption]
  rw [hread]

/-- The file decodes to the map of `o`, with nothing left over. -/
def FileHolds (w : World) (o : OutboundPaymentInfoStorage) : Prop :=
  ∃ bytes m, w.outboundPayments = some bytes ∧ OutboundPaymentInfoStorage.read bytes = some (m, []) ∧
    m.payments.toFinmap = o.payments.toFinmap

/-- `o` is `m`, its pending payments that are not in `recent` failed. -/
structure Reconciled (m : OutboundPaymentInfoStorage) (recent : List PaymentId)
    (o : OutboundPaymentInfoStorage) : Prop where
  keys : ∀ id, id ∈ o.payments ↔ id ∈ m.payments
  entry : ∀ id payment, o.payments.lookup id = some payment →
    ∃ old, m.payments.lookup id = some old ∧ payment.preimage = old.preimage ∧
      payment.secret = old.secret ∧ payment.amtMsat = old.amtMsat ∧
      payment.status = if old.status = .pending ∧ id ∉ recent then .failed else old.status
  pending : ∀ id payment, o.payments.lookup id = some payment → payment.status = .pending →
    id ∈ recent

theorem reconciled_reconcile (m : OutboundPaymentInfoStorage) (recent : List PaymentId) :
    Reconciled m recent (reconcile m recent) := by
  have hentry : ∀ id payment, (reconcile m recent).payments.lookup id = some payment →
      ∃ old, m.payments.lookup id = some old ∧ settle recent id old = payment := by
    intro id payment hp
    rw [lookup_reconcile] at hp
    exact Option.map_eq_some_iff.mp hp
  refine ⟨mem_reconcile m recent, fun id payment hp => ?_, fun id payment hp hst => ?_⟩
  · obtain ⟨old, hold, rfl⟩ := hentry id payment hp
    obtain ⟨hpre, hsec, hamt, hst, -⟩ := settle_spec recent id old
    exact ⟨old, hold, hpre, hsec, hamt, hst⟩
  · obtain ⟨old, hold, rfl⟩ := hentry id payment hp
    exact (settle_spec recent id old).2.2.2.2 hst

theorem fileHolds_of_written {o : OutboundPaymentInfoStorage} {bytes : Bytes}
    (hvec : toVec o.encode = some bytes) (hw : w.outboundPayments = some bytes) : FileHolds w o :=
  ⟨bytes, _, hw, (reads_outbound o hvec).apply, toFinmap_insertAll o.payments⟩

/-- No event is about the payment. -/
theorem sendsOf_map_nil {id : PaymentId} {es : List OutboundEvent}
    (h : ∀ ev ∈ es, ev.paymentId? ≠ some id) : sendsOf id (es.map .outbound) = [] := by
  unfold sendsOf
  rw [List.filterMap_eq_nil_iff]
  intro ev hev
  obtain ⟨ev', hev', rfl⟩ := List.mem_map.mp hev
  exact if_neg (h ev' hev')

/-- Events of recent payments come to the same after the loop as before it. -/
theorem reconcile_events (inbound : InboundPaymentInfoStorage) (m : OutboundPaymentInfoStorage)
    (recent : List PaymentId) {es : List OutboundEvent}
    (hes : ∀ ev ∈ es, ∃ id ∈ recent, ev.paymentId? = some id) :
    ∃ s₁ s₂, handleLdkEvents ⟨inbound, m⟩ (es.map .outbound) = some s₁ ∧
      handleLdkEvents ⟨inbound, reconcile m recent⟩ (es.map .outbound) = some s₂ ∧
      s₂.outbound.payments.toFinmap = (reconcile s₁.outbound recent).payments.toFinmap ∧
      ∀ id ∈ recent, s₂.outbound.payments.lookup id = s₁.outbound.payments.lookup id := by
  have hids : ∀ ev ∈ es.map Event.outbound, ev.HasPaymentId := by
    intro ev hev
    obtain ⟨ev', hev', rfl⟩ := List.mem_map.mp hev
    obtain ⟨id, -, hid⟩ := hes ev' hev'
    show ev'.paymentId?.isSome
    rw [hid]
    rfl
  obtain ⟨s₁, hs₁, -, h₁⟩ := handleLdkEvents_spec hids ⟨inbound, m⟩
  obtain ⟨s₂, hs₂, -, h₂⟩ := handleLdkEvents_spec hids ⟨inbound, reconcile m recent⟩
  have hrecent : ∀ id ∈ recent,
      s₂.outbound.payments.lookup id = s₁.outbound.payments.lookup id := by
    intro id hid
    rw [h₂ id, h₁ id, lookup_reconcile_mem hid]
  refine ⟨s₁, s₂, hs₁, hs₂, ?_, hrecent⟩
  apply HashMap.toFinmap_ext
  intro id
  by_cases hid : id ∈ recent
  · rw [hrecent id hid, lookup_reconcile_mem hid]
  · have hnone : sendsOf id (es.map .outbound) = [] := by
      refine sendsOf_map_nil fun ev hev hev' => hid ?_
      obtain ⟨id', hid', heq⟩ := hes ev hev
      rw [hev'] at heq
      cases heq
      exact hid'
    have hold : s₁.outbound.payments.lookup id = m.payments.lookup id := by
      rw [h₁ id, hnone]
      rfl
    rw [h₂ id, hnone, lookup_reconcile s₁.outbound, hold]
    exact lookup_reconcile m recent id

/-- **Outbound payments are reconciled at start**: memory and file hold the decoded map with its
unknown pending payments failed, a second start changes nothing, and events of the payments
`ChannelManager` knows come to the same as without the start. -/
theorem outbound_reconciled {bytes rest : Bytes} {m o : OutboundPaymentInfoStorage}
    (hfile : w.outboundPayments = some bytes) (hopen : e.outboundFault = none)
    (hread : OutboundPaymentInfoStorage.read bytes = some (m, rest))
    (hrun : (outboundPayments e).exec w = some (o, w')) :
    FileHolds w' o ∧ Reconciled m e.recentPaymentsPaymentIds o ∧
    (∀ e' o' w'', e'.recentPayments = e.recentPayments → e'.outboundFault = none →
      (outboundPayments e').exec w' = some (o', w'') →
      o'.payments.toFinmap = o.payments.toFinmap ∧ FileHolds w'' o) ∧
    ∀ (inbound : InboundPaymentInfoStorage) (es : List OutboundEvent),
      (∀ ev ∈ es, ∃ id ∈ e.recentPaymentsPaymentIds, ev.paymentId? = some id) →
      ∃ s₁ s₂, handleLdkEvents ⟨inbound, m⟩ (es.map .outbound) = some s₁ ∧
        handleLdkEvents ⟨inbound, o⟩ (es.map .outbound) = some s₂ ∧
        s₂.outbound.payments.toFinmap =
          (reconcile s₁.outbound e.recentPaymentsPaymentIds).payments.toFinmap ∧
        ∀ id ∈ e.recentPaymentsPaymentIds,
          s₂.outbound.payments.lookup id = s₁.outbound.payments.lookup id := by
  obtain ⟨ho, file, hvec, hw'⟩ := outboundPayments_inv hrun
  rw [read_decoded hfile hopen hread] at ho
  refine ⟨fileHolds_of_written hvec hw', ho ▸ reconciled_reconcile m _, ?_, ?_⟩
  · intro e' o' w'' hrecent hopen' hrun'
    obtain ⟨ho', file', hvec', hw''⟩ := outboundPayments_inv hrun'
    rw [read_decoded hw' hopen' (reads_outbound o hvec).apply] at ho'
    have hids : e'.recentPaymentsPaymentIds = e.recentPaymentsPaymentIds := by
      unfold Env.recentPaymentsPaymentIds
      rw [hrecent]
    have hsame : (insertAll o.payments.entries ∅).toFinmap = o.payments.toFinmap :=
      toFinmap_insertAll o.payments
    have heq : o'.payments.toFinmap = o.payments.toFinmap := by
      rw [ho', hids, ← hsame]
      exact toFinmap_reconcile (hsame.trans (by rw [ho]))
    obtain ⟨bytes', m', hb, hr, hm⟩ := fileHolds_of_written hvec' hw''
    exact ⟨heq, bytes', m', hb, hr, hm.trans heq⟩
  · intro inbound es hes
    rw [ho]
    exact reconcile_events inbound m _ hes

section Examples

/-- One pending payment. -/
def onePending : OutboundPaymentInfoStorage :=
  ⟨AList.singleton ⟨Vector.replicate 32 1⟩
    { preimage := none, secret := none, status := .pending, amtMsat := ⟨some 7⟩ }⟩

def onePendingFile : World := { noFiles with outboundPayments := some onePending.encode }

end Examples

/-- The payment is unknown to `ChannelManager`. -/
theorem outbound_reconciled_one :
    ∃ o w', (outboundPayments noFault).exec onePendingFile = some (o, w') ∧ FileHolds w' o ∧
      Reconciled onePending noFault.recentPaymentsPaymentIds o := by
  have hvec : toVec onePending.encode = some onePending.encode := by decide
  have hread : OutboundPaymentInfoStorage.read onePending.encode = some (onePending, []) :=
    (reads_outbound onePending hvec).apply
  have hprog : outboundPayments noFault onePendingFile = _ :=
    outboundPayments_eq (read_decoded rfl rfl hread) rfl
  have hrun := congrArg Prod.snd hprog
  have h := outbound_reconciled rfl rfl hread hrun
  exact ⟨_, _, hrun, h.1, h.2.1⟩

/-! ## An unreadable file -/

/-- The file cannot be opened, or does not decode. -/
def Unreadable (e : Env) (bytes : Bytes) : Prop :=
  e.outboundFault ≠ none ∨ OutboundPaymentInfoStorage.read bytes = none

theorem read_unreadable {bytes : Bytes} (hfile : w.outboundPayments = some bytes)
    (hbad : Unreadable e bytes) :
    readOutboundPaymentInfo (openFile e.outboundFault w.outboundPayments).toOption = ⟨∅⟩ := by
  rcases hbad with hfault | hnone
  · obtain ⟨kind, hkind⟩ := Option.ne_none_iff_exists'.mp hfault
    rw [hkind]
    rfl
  · cases hfault : e.outboundFault with
    | some kind => rfl
    | none =>
      rw [hfile]
      unfold openFile readOutboundPaymentInfo
      dsimp only [Except.toOption]
      rw [hnone]

/-- The store that stands for an unreadable file. -/
theorem toVec_empty (recent : List PaymentId) :
    toVec (reconcile ⟨∅⟩ recent).encode = some (OutboundPaymentInfoStorage.encode ⟨∅⟩) := by
  show toVec (OutboundPaymentInfoStorage.encode ⟨∅⟩) = _
  decide

/-- **An unreadable payment history** is left as it is exactly if the write fails, or the file
held what it is replaced with. -/
theorem history_kept_iff {bytes : Bytes} (hfile : w.outboundPayments = some bytes)
    (hbad : Unreadable e bytes) :
    (∀ t, Crash.Leaves (outboundPayments e) w t → t.outboundPayments = some bytes) ↔
      e.outboundWriteFault ≠ none ∨ bytes = OutboundPaymentInfoStorage.encode ⟨∅⟩ := by
  have hprog := outboundPayments_eq (read_unreadable hfile hbad) (toVec_empty _)
  unfold Crash.Leaves Crash.steps Crash.exec
  rw [hprog]
  by_cases hfault : e.outboundWriteFault = none
  · rw [if_pos hfault]
    constructor
    · intro h
      have heq := h _ (.inr (.inl List.mem_cons_self))
      exact .inr (Option.some.inj heq).symm
    · rintro (hno | rfl) t (rfl | ht | ⟨o, ht⟩)
      · exact absurd hfault hno
      · exact absurd hfault hno
      · exact absurd hfault hno
      · exact hfile
      · rw [List.mem_singleton.mp ht]
      · cases ht
        rfl
  · rw [if_neg hfault]
    refine ⟨fun _ => .inl hfault, fun _ t ht => ?_⟩
    rcases ht with rfl | ht | ⟨o, ht⟩
    · exact hfile
    · cases ht
    · cases ht

/-- The file holds a pending payment and cannot be opened. -/
theorem history_kept_one :
    (∀ t, Crash.Leaves (outboundPayments { noFault with outboundFault := some .other }) onePendingFile t →
      t.outboundPayments = some onePending.encode) ↔
    noFault.outboundWriteFault ≠ none ∨
      onePending.encode = OutboundPaymentInfoStorage.encode ⟨∅⟩ :=
  history_kept_iff rfl (.inl (by decide))

/-- **A payment history is destroyed** by a start that cannot open its file. -/
theorem history_destroyed : ¬ ∀ (e : Env) (w : World) (bytes : Bytes),
    w.outboundPayments = some bytes → Unreadable e bytes →
    ∀ t, Crash.Leaves (outboundPayments e) w t → t.outboundPayments = some bytes := by
  intro h
  have heq := h { noFault with outboundFault := some .other } onePendingFile onePending.encode rfl
    (.inl (by decide)) { noFiles with outboundPayments := some (OutboundPaymentInfoStorage.encode ⟨∅⟩) }
    (.inr (.inl List.mem_cons_self))
  revert heq
  decide

end Startup

end LdkSample
