import LdkSample.Payment.Outbound

/-!
# The outbound store on disk

Two results about the file the outbound store is written to. The last write called
is the store in memory whenever the CLI task is not between an insert and its write,
provided no event changes the store while the offer or the name branch holds an
encoded snapshot (`disk_in_sync`); without the proviso an older snapshot overwrites a
status update (`disk_stale`). And the entry of a payment is on disk before its id
reaches `ChannelManager`, whatever file a crash leaves (`handed_on_disk`).
-/

namespace LdkSample

namespace Outbound

/-! ## Memory and the last write called -/

/-- The CLI task is not between its insert and the matching `write` call. -/
def Settled (s : State) : Prop :=
  match s.cli with
  | .inserted .. | .encoded .. => False
  | _ => True

def InSync (s : State) : Prop := s.writes.getLast? = some s.outbound.encode

/-- An event that comes while the CLI task holds a snapshot leaves the store as it is. -/
def KeepsSnapshot (s : State) : Label → Prop
  | .event e =>
    match s.cli with
    | .encoded .. => handleOutbound s.outbound e = some s.outbound
    | _ => True
  | _ => True

instance (s : State) : Decidable (Settled s) := by
  unfold Settled
  split <;> infer_instance

instance (s : State) : Decidable (InSync s) := inferInstanceAs (Decidable (_ = _))

/-- The store in memory is the last write called, or about to be. -/
def SyncInv (s : State) : Prop :=
  match s.cli with
  | .inserted .. => True
  | .encoded _ _ snapshot => snapshot = s.outbound.encode
  | _ => InSync s

theorem SyncInv.inSync {s : State} (h : SyncInv s) (hs : Settled s) : InSync s := by
  unfold SyncInv at h
  unfold Settled at hs
  split at h
  · next hc => rw [hc] at hs; exact hs.elim
  · next hc => rw [hc] at hs; exact hs.elim
  · exact h

theorem inSync_append (o : OutboundPaymentInfoStorage) (c : Cli) (ws : List Bytes) (d : Nat)
    (hs : List PaymentId) : InSync ⟨o, c, ws ++ [o.encode], d, hs⟩ := by
  simp [InSync]

theorem syncInv_step {s s' : State} {l : Label} (h : SyncInv s) (hk : KeepsSnapshot s l)
    (hs : machine.step s l = some s') : SyncInv s' := by
  cases step_cases hs with
  | returned => exact h
  | insertWrite => exact inSync_append ..
  | insert => trivial
  | encode => rfl
  | write hc =>
    simp only [SyncInv, hc] at h
    subst h
    exact inSync_append ..
  | written hc => exact h.inSync (by simp only [Settled, hc])
  | refused hc => exact h.inSync (by simp only [Settled, hc])
  | called hc => exact h.inSync (by simp only [Settled, hc])
  | mark => exact inSync_append ..
  | markPanic hc => exact h.inSync (by simp only [Settled, hc])
  | marked hc => exact h.inSync (by simp only [Settled, hc])
  | event ho =>
    unfold SyncInv
    split
    · trivial
    · next hc =>
      -- the event may not change the store under a snapshot
      rw [State.store_cli] at hc
      simp only [KeepsSnapshot, hc] at hk
      rw [ho] at hk
      cases hk
      simpa only [SyncInv, hc, State.store_outbound] using h
    · exact inSync_append ..
  | eventWritten => exact h

theorem syncInv_init (o : OutboundPaymentInfoStorage) : SyncInv (init o) := by
  simp [SyncInv, init, InSync]

/-- **The file follows the store**, in every run in which no event changes the store between
an `encode` of the offer or the name branch and its `write` call. -/
theorem disk_in_sync (o : OutboundPaymentInfoStorage) (ls : List Label) (s : State)
    (hr : machine.run (init o) ls = some s) (ha : machine.Along KeepsSnapshot (init o) ls)
    (hs : Settled s) : InSync s :=
  (Machine.inv_run KeepsSnapshot (fun _ _ _ h hk hs => syncInv_step h hk hs) (syncInv_init o)
    ha hr).inSync hs

section Examples

/-- A payment in flight and the id of an offer. -/
def inFlightId : PaymentId := ⟨Vector.replicate 32 1⟩
def offerId : PaymentId := ⟨Vector.replicate 32 2⟩
def preimageA : PaymentPreimage := ⟨Vector.replicate 32 3⟩

def oneInFlight : OutboundPaymentInfoStorage :=
  ⟨AList.singleton inFlightId (SendCmd.pendingInfo none 1000)⟩

end Examples

/-- The event comes before the snapshot is taken. -/
theorem disk_in_sync_run : ∃ s, machine.run (init oneInFlight)
      [.start (.offer offerId 7), .event (.paymentSent preimageA (some inFlightId)), .encode,
        .write] = some s ∧ InSync s := by
  refine ⟨_, rfl, disk_in_sync oneInFlight
    [.start (.offer offerId 7), .event (.paymentSent preimageA (some inFlightId)), .encode,
      .write] _ rfl ?_ trivial⟩
  exact ⟨trivial, trivial, trivial, trivial, trivial⟩

/-- **A stale snapshot**: the offer branch encodes, `PaymentSent` for another payment updates
the store and writes it, and the offer branch writes what it had encoded. -/
theorem disk_stale : ¬ ∀ (o : OutboundPaymentInfoStorage) (ls : List Label) (s : State),
    machine.run (init o) ls = some s → Settled s → InSync s := by
  intro h
  have hs := h oneInFlight
    [.start (.offer offerId 7), .encode, .event (.paymentSent preimageA (some inFlightId)),
      .write] _ rfl trivial
  revert hs
  decide +kernel

/-! ## Write-ahead -/

/-- The bytes are those of a store with an entry for `id`. -/
def Records (id : PaymentId) (b : Bytes) : Prop :=
  ∃ o : OutboundPaymentInfoStorage, b = o.encode ∧ id ∈ o.payments

/-- `id` has reached `ChannelManager`, or is about to. -/
def Handed (s : State) (id : PaymentId) : Prop :=
  id ∈ s.handed ∨ ∃ path, s.cli = .calling path id

/-- `id` has an entry in memory and in every write from the `n`-th on. -/
structure WrittenFrom (s : State) (n : Nat) (id : PaymentId) : Prop where
  mem : id ∈ s.outbound.payments
  writes : ∀ b ∈ s.writes.drop n, Records id b

/-- What the CLI task knows of the id it sends. -/
def CliInv (s : State) : Prop :=
  match s.cli with
  | .idle => True
  | .inserted _ id => id ∈ s.outbound.payments
  | .encoded _ id b => id ∈ s.outbound.payments ∧ Records id b ∧ ∀ id' ∈ s.handed, Records id' b
  | .writing _ id n => n < s.writes.length ∧ WrittenFrom s n id
  | .calling _ id => WrittenFrom s s.durable id
  | .refused _ id => id ∈ s.outbound.payments
  | .marking n => n < s.writes.length
  | .panicked => False

structure WriteAhead (s : State) : Prop where
  durable : s.durable < s.writes.length
  handed : ∀ id ∈ s.handed, WrittenFrom s s.durable id
  cli : CliInv s

theorem WrittenFrom.mono {s : State} {n k : Nat} {id : PaymentId} (h : WrittenFrom s n id)
    (hk : n ≤ k) : WrittenFrom s k id :=
  ⟨h.mem, fun b hb => h.writes b (by
    rw [← Nat.add_sub_cancel' hk, ← List.drop_drop] at hb
    exact List.mem_of_mem_drop hb)⟩

/-- One more write that records `id`, of a store that keeps it. -/
theorem WrittenFrom.append {s s' : State} {n : Nat} {id : PaymentId} {b : Bytes}
    (h : WrittenFrom s n id) (hm : id ∈ s'.outbound.payments) (hw : s'.writes = s.writes ++ [b])
    (hb : Records id b) : WrittenFrom s' n id := by
  refine ⟨hm, fun c hc => ?_⟩
  rw [hw] at hc
  rcases Nat.lt_or_ge s.writes.length n with hn | hn
  · rw [List.drop_eq_nil_of_le (by simp; omega)] at hc
    cases hc
  · rw [List.drop_append_of_le_length hn] at hc
    rcases List.mem_append.mp hc with hc | hc
    · exact h.writes c hc
    · rw [List.mem_singleton.mp hc]
      exact hb

/-- The newest write alone. -/
theorem WrittenFrom.last {s s' : State} {id : PaymentId} {b : Bytes}
    (hm : id ∈ s'.outbound.payments) (hw : s'.writes = s.writes ++ [b]) (hb : Records id b) :
    WrittenFrom s' s.writes.length id :=
  ⟨hm, fun c hc => by
    rw [hw, List.drop_left] at hc
    rw [List.mem_singleton.mp hc]
    exact hb⟩

theorem WrittenFrom.congr {s s' : State} {n : Nat} {id : PaymentId} (h : WrittenFrom s n id)
    (ho : s'.outbound = s.outbound) (hw : s'.writes = s.writes) : WrittenFrom s' n id :=
  ⟨by rw [ho]; exact h.mem, by rw [hw]; exact h.writes⟩

theorem records_encode {o : OutboundPaymentInfoStorage} {id : PaymentId} (h : id ∈ o.payments) :
    Records id o.encode := ⟨o, rfl, h⟩

/-- A store with at least the old keys is written as the next write. -/
theorem WriteAhead.grow {s s' : State} (h : WriteAhead s) {o : OutboundPaymentInfoStorage}
    (ho : s'.outbound = o) (hw : s'.writes = s.writes ++ [o.encode])
    (hd : s'.durable = s.durable) (hh : s'.handed = s.handed)
    (hk : ∀ id, id ∈ s.outbound.payments → id ∈ o.payments) (hc : CliInv s') : WriteAhead s' where
  durable := by rw [hd, hw]; have := h.durable; simp; omega
  handed id hid := by
    rw [hh] at hid
    rw [hd]
    have hm := hk id (h.handed id hid).mem
    exact (h.handed id hid).append (by rw [ho]; exact hm) hw (records_encode hm)
  cli := hc

/-- One more write is known to have completed. -/
theorem WriteAhead.complete {s s' : State} (h : WriteAhead s) {n : Nat} (hn : n < s.writes.length)
    (ho : s'.outbound = s.outbound) (hw : s'.writes = s.writes)
    (hd : s'.durable = max s.durable n) (hh : s'.handed = s.handed) (hc : CliInv s') :
    WriteAhead s' where
  durable := by
    rw [hd, hw]
    have := h.durable
    omega
  handed id hid := by
    rw [hh] at hid
    rw [hd]
    exact ((h.handed id hid).mono (Nat.le_max_left ..)).congr ho hw
  cli := hc

/-- An id that is in every file a crash may leave is handed over. -/
theorem WriteAhead.hand {s s' : State} (h : WriteAhead s) {id : PaymentId}
    (hid : WrittenFrom s s.durable id) (ho : s'.outbound = s.outbound)
    (hw : s'.writes = s.writes) (hd : s'.durable = s.durable) (hh : s'.handed = id :: s.handed)
    (hc : CliInv s') : WriteAhead s' where
  durable := by
    rw [hd, hw]
    exact h.durable
  handed id' hid' := by
    rw [hh] at hid'
    rw [hd]
    rcases List.mem_cons.mp hid' with rfl | hid'
    · exact hid.congr ho hw
    · exact (h.handed id' hid').congr ho hw
  cli := hc

theorem CliInv.event {s : State} (h : CliInv s) {o : OutboundPaymentInfoStorage}
    (hk : ∀ id, id ∈ s.outbound.payments → id ∈ o.payments) :
    CliInv (s.store o) := by
  unfold CliInv at h ⊢
  rw [State.store_cli]
  split
  · trivial
  · next hc => rw [hc] at h; exact hk _ h
  · next hc => rw [hc] at h; exact ⟨hk _ h.1, h.2⟩
  · next hc =>
    rw [hc] at h
    have hm := hk _ h.2.mem
    exact ⟨by have := h.1; simp; omega, h.2.append hm rfl (records_encode hm)⟩
  · next hc =>
    rw [hc] at h
    have hm := hk _ h.mem
    exact h.append hm rfl (records_encode hm)
  · next hc => rw [hc] at h; exact hk _ h
  · next hc => rw [hc] at h; simp only at h ⊢; simp; omega
  · next hc => rw [hc] at h; exact h

theorem writeAhead_step {s s' : State} {l : Label} (h : WriteAhead s)
    (hs : machine.step s l = some s') : WriteAhead s' := by
  have hd := h.durable
  have hcli := h.cli
  unfold CliInv at hcli
  cases step_cases hs with
  | returned => exact h
  | @insertWrite cmd id info hc =>
    have hm : id ∈ (insertEntry s.outbound id info).payments := mem_insertEntry.mpr (.inl rfl)
    refine h.grow rfl rfl rfl rfl (fun id' hid => mem_insertEntry.mpr (.inr hid)) ?_
    exact ⟨by simp, WrittenFrom.last hm rfl (records_encode hm)⟩
  | insert hc =>
    refine ⟨hd, fun id hid => ⟨mem_insertEntry.mpr (.inr (h.handed id hid).mem),
      (h.handed id hid).writes⟩, mem_insertEntry.mpr (.inl rfl)⟩
  | encode hc =>
    rw [hc] at hcli
    exact ⟨hd, fun id hid => (h.handed id hid).congr rfl rfl,
      hcli, records_encode hcli, fun id hid => records_encode (h.handed id hid).mem⟩
  | write hc =>
    rw [hc] at hcli
    obtain ⟨hm, hb, hh⟩ := hcli
    refine ⟨?_, fun id hid => (h.handed id hid).append (h.handed id hid).mem rfl (hh id hid), ?_⟩
    · show s.durable < (s.writes ++ [_]).length
      rw [List.length_append]
      omega
    · exact ⟨by simp, WrittenFrom.last hm rfl hb⟩
  | written hc =>
    rw [hc] at hcli
    have hmono := hcli.2.mono (Nat.le_max_right s.durable _)
    exact h.complete hcli.1 rfl rfl rfl rfl (hmono.congr rfl rfl)
  | refused hc =>
    rw [hc] at hcli
    exact h.hand hcli rfl rfl rfl rfl hcli.mem
  | called hc =>
    rw [hc] at hcli
    exact h.hand hcli rfl rfl rfl rfl trivial
  | mark hc ho =>
    refine h.grow rfl rfl rfl rfl
      (fun id hid => (mem_handleOutbound (markFailed_some ho)).mpr hid) ?_
    simp [CliInv]
  | markPanic hc ho =>
    rw [hc] at hcli
    exact absurd hcli (markFailed_none.mp ho)
  | marked hc =>
    rw [hc] at hcli
    exact h.complete hcli rfl rfl rfl rfl trivial
  | event ho =>
    have hk : ∀ id, id ∈ s.outbound.payments → id ∈ _ := fun id => (mem_handleOutbound ho).mpr
    exact h.grow rfl rfl rfl rfl hk (h.cli.event hk)
  | eventWritten hn =>
    refine h.complete hn rfl rfl rfl rfl ?_
    unfold CliInv
    dsimp only
    split
    · trivial
    · next hc => rw [hc] at hcli; exact hcli
    · next hc => rw [hc] at hcli; exact hcli
    · next hc => rw [hc] at hcli; exact ⟨hcli.1, hcli.2.congr rfl rfl⟩
    · next hc => rw [hc] at hcli; exact (hcli.mono (by simp)).congr rfl rfl
    · next hc => rw [hc] at hcli; exact hcli
    · next hc => rw [hc] at hcli; exact hcli
    · next hc => rw [hc] at hcli; exact hcli

theorem writeAhead_init (o : OutboundPaymentInfoStorage) : WriteAhead (init o) :=
  ⟨by simp [init], by simp [init], trivial⟩

/-- **The entry is on disk before the id is handed over**, in whatever file a crash leaves, and
the error path finds its entry. -/
theorem handed_on_disk (o : OutboundPaymentInfoStorage) (ls : List Label) (s : State)
    (hr : machine.run (init o) ls = some s) :
    (∀ id, Handed s id → s.crashFiles ≠ [] ∧ ∀ b ∈ s.crashFiles, Records id b) ∧
    s.cli ≠ .panicked := by
  have h : WriteAhead s :=
    Machine.inv_run_all (fun _ _ _ h hs => writeAhead_step h hs) (writeAhead_init o) hr
  have hc := h.cli
  refine ⟨fun id hid => ⟨?_, ?_⟩, fun hp => ?_⟩
  · rw [State.crashFiles, ne_eq, List.drop_eq_nil_iff]
    have := h.durable
    omega
  · rcases hid with hid | ⟨path, hp⟩
    · exact (h.handed id hid).writes
    · simp only [CliInv, hp] at hc
      exact hc.writes
  · simp only [CliInv, hp] at hc

/-- An offer sent while an event handler writes. -/
theorem handed_on_disk_run : ∃ s, machine.run (init oneInFlight)
      [.start (.offer offerId 7), .encode, .event (.paymentFailed inFlightId), .write, .written,
        .call false] = some s ∧ s.crashFiles ≠ [] ∧ ∀ b ∈ s.crashFiles, Records offerId b := by
  refine ⟨_, rfl, (handed_on_disk oneInFlight
    [.start (.offer offerId 7), .encode, .event (.paymentFailed inFlightId), .write, .written,
      .call false] _ rfl).1 offerId (.inl ?_)⟩
  exact List.mem_cons_self

end Outbound

end LdkSample
