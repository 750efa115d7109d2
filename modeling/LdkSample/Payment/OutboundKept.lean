import LdkSample.Machine.Lives
import LdkSample.Payment.OutboundDisk

/-!
# What the outbound store keeps

A property of the outbound store, in memory, in every write from the `k`-th on and in a snapshot
the CLI task holds (`KeptFrom`). A step that keeps it in memory keeps it in all of them
(`keptFrom_step`), since a write is of the store in memory or of the held snapshot. `touch_step` says
what a step makes of one entry.
-/

namespace LdkSample

namespace Outbound

/-- `id` has an entry that meets `Q`. -/
def Holds (id : PaymentId) (Q : PaymentInfo → Prop) (o : OutboundPaymentInfoStorage) : Prop :=
  ∃ info, o.payments.lookup id = some info ∧ Q info

/-- The bytes are those of a store that meets `R`. -/
def IsOf (R : OutboundPaymentInfoStorage → Prop) (b : Bytes) : Prop :=
  ∃ o : OutboundPaymentInfoStorage, b = o.encode ∧ R o

structure KeptFrom (R : OutboundPaymentInfoStorage → Prop) (k : Nat) (s : State) : Prop where
  mem : R s.outbound
  writes : ∀ b ∈ s.writes.drop k, IsOf R b
  snapshot : ∀ path id b, s.cli = .encoded path id b → IsOf R b

variable {id : PaymentId} {Q : PaymentInfo → Prop} {R R' : OutboundPaymentInfoStorage → Prop}
  {k : Nat} {s s' : State} {l : Label}

theorem holds_iff_mem {o : OutboundPaymentInfoStorage} :
    Holds id (fun _ => True) o ↔ id ∈ o.payments := by
  constructor
  · rintro ⟨info, hi, -⟩
    exact HashMap.mem_of_lookup hi
  · intro h
    obtain ⟨info, hi⟩ := HashMap.lookup_of_mem h
    exact ⟨info, hi, trivial⟩

theorem isOf_of_records {b : Bytes} (h : Records id b) : IsOf (Holds id fun _ => True) b := by
  obtain ⟨o, hb, hm⟩ := h
  exact ⟨o, hb, holds_iff_mem.mpr hm⟩

theorem IsOf.imp {b : Bytes} (hR : ∀ o, R o → R' o) (h : IsOf R b) : IsOf R' b := by
  obtain ⟨o, hb, ho⟩ := h
  exact ⟨o, hb, hR o ho⟩

theorem KeptFrom.imp (hR : ∀ o, R o → R' o) (h : KeptFrom R k s) : KeptFrom R' k s :=
  ⟨hR _ h.mem, fun b hb => (h.writes b hb).imp hR, fun p i b hb => (h.snapshot p i b hb).imp hR⟩

theorem KeptFrom.mono {k' : Nat} (h : KeptFrom R k s) (hk : k ≤ k') : KeptFrom R k' s :=
  ⟨h.mem, fun b hb => h.writes b ((List.drop_sublist_drop_left _ hk).subset hb), h.snapshot⟩

theorem keptFrom_init {o : OutboundPaymentInfoStorage} (h : R o) : KeptFrom R 0 (init o) := by
  refine ⟨h, fun b hb => ?_, fun _ _ _ hb => by cases hb⟩
  rw [List.mem_singleton.mp hb]
  exact ⟨o, rfl, h⟩

/-- A block that stores, with no snapshot held after it that was not held before. -/
theorem KeptFrom.store (h : KeptFrom R k s) {o : OutboundPaymentInfoStorage} (hm : R o)
    (ho : s'.outbound = o) (hw : s'.writes = s.writes ++ [o.encode])
    (hc : ∀ path id' b, s'.cli = .encoded path id' b → s.cli = .encoded path id' b) :
    KeptFrom R k s' := by
  refine ⟨by rwa [ho], fun b hb => ?_, fun path id' b hb => h.snapshot path id' b (hc _ _ _ hb)⟩
  rw [hw] at hb
  rcases mem_drop_concat hb with hb | rfl
  · exact h.writes b hb
  · exact ⟨o, rfl, hm⟩

/-- **One step**: what stays true of the entry in memory stays true of the writes. -/
theorem keptFrom_step (h : KeptFrom R k s) (hm : R s'.outbound)
    (hs : machine.step s l = some s') : KeptFrom R k s' := by
  cases step_cases hs with
  | returned => exact h
  | insertWrite => exact h.store hm rfl rfl fun _ _ _ hb => by cases hb
  | insert => exact ⟨hm, h.writes, fun _ _ _ hb => by cases hb⟩
  | encode =>
    refine ⟨hm, h.writes, fun _ _ b hb => ?_⟩
    cases hb
    exact ⟨s.outbound, rfl, h.mem⟩
  | write hc =>
    -- the write is of the snapshot
    refine ⟨hm, fun b hb => ?_, fun _ _ _ hb => by cases hb⟩
    rcases mem_drop_concat hb with hb | rfl
    · exact h.writes b hb
    · exact h.snapshot _ _ _ hc
  | written => exact ⟨hm, h.writes, fun _ _ _ hb => by cases hb⟩
  | refused => exact ⟨hm, h.writes, fun _ _ _ hb => by cases hb⟩
  | called => exact ⟨hm, h.writes, fun _ _ _ hb => by cases hb⟩
  | mark => exact h.store hm rfl rfl fun _ _ _ hb => by cases hb
  | markPanic => exact ⟨hm, h.writes, fun _ _ _ hb => by cases hb⟩
  | marked => exact ⟨hm, h.writes, fun _ _ _ hb => by cases hb⟩
  | event => exact h.store hm rfl rfl fun _ _ _ hb => hb
  | eventWritten => exact ⟨hm, h.writes, h.snapshot⟩

theorem durable_step (hs : machine.step s l = some s') : s.durable ≤ s'.durable := by
  cases step_cases hs with
  | written | marked | eventWritten => exact Nat.le_max_left ..
  | _ => exact Nat.le_refl _

/-- No step removes an entry. -/
theorem mem_step (h : id ∈ s.outbound.payments) (hs : machine.step s l = some s') :
    id ∈ s'.outbound.payments := by
  cases step_cases hs with
  | insertWrite | insert => exact mem_insertEntry.mpr (.inr h)
  | mark _ ho => exact (mem_handleOutbound (markFailed_some ho)).mpr h
  | event ho => exact (mem_handleOutbound ho).mpr h
  | _ => exact h

/-- An id that has reached `ChannelManager` is in memory, in every file a crash may leave and in
the snapshot. -/
theorem WriteAhead.keptFrom (h : WriteAhead s) (hid : Handed s id) :
    KeptFrom (Holds id fun _ => True) s.durable s := by
  have hc := h.cli
  rcases hid with hid | ⟨path, hp⟩
  · have hw := h.handed id hid
    refine ⟨holds_iff_mem.mpr hw.mem, fun b hb => isOf_of_records (hw.writes b hb), ?_⟩
    intro path id' b hb
    simp only [CliInv, hb] at hc
    exact isOf_of_records (hc.2.2 id hid)
  · simp only [CliInv, hp] at hc
    refine ⟨holds_iff_mem.mpr hc.mem, fun b hb => isOf_of_records (hc.writes b hb), ?_⟩
    intro path' id' b hb
    rw [hp] at hb
    cases hb

/-! ## One entry -/

/-- What a step from `s` makes of the entry of `id`. -/
inductive Touch (s : State) (id : PaymentId) : Label → Option PaymentInfo → Option PaymentInfo → Prop
  where
  | same {l : Label} {o : Option PaymentInfo} : Touch s id l o o
  | insert {cmd : SendCmd} {info : PaymentInfo} {o : Option PaymentInfo} :
      cmd.entry = some (id, info) → Touch s id (.start cmd) o (some info)
  | refused {path : SendPath} {info : PaymentInfo} : s.cli = .refused path id →
      Touch s id .mark (some info) (some { info with status := .failed })
  | event {e : OutboundEvent} {info : PaymentInfo} : e.paymentId? = some id →
      Touch s id (.event e) (some info) (some (OutboundEvent.update info e))

theorem touch_step (id : PaymentId) (hs : machine.step s l = some s') :
    Touch s id l (s.outbound.payments.lookup id) (s'.outbound.payments.lookup id) := by
  have inserted {cmd : SendCmd} {id' : PaymentId} {info : PaymentInfo}
      (he : cmd.entry = some (id', info)) :
      Touch s id (.start cmd) (s.outbound.payments.lookup id)
        ((insertEntry s.outbound id' info).payments.lookup id) := by
    rw [lookup_insertEntry]
    split
    · next hid => subst hid; exact .insert he
    · exact .same
  cases step_cases hs with
  | insertWrite _ he => exact inserted he
  | insert _ he => exact inserted he
  | @mark path id' o hc ho =>
    show Touch s id .mark _ (o.payments.lookup id)
    by_cases hid : id = id'
    · subst hid
      rw [lookup_markFailed_self ho]
      cases s.outbound.payments.lookup id with
      | none => exact .same
      | some info => exact .refused hc
    · rw [lookup_markFailed_ne ho hid]
      exact .same
  | @event e o ho =>
    show Touch s id (.event e) _ (o.payments.lookup id)
    by_cases hp : e.paymentId? = some id
    · rw [lookup_handleOutbound_self ho hp]
      cases s.outbound.payments.lookup id with
      | none => exact .same
      | some info => exact .event hp
    · rw [lookup_handleOutbound_ne ho hp]
      exact .same
  | _ => exact .same

/-- A success with the preimage `p`. -/
def IsSuccess (p : PaymentPreimage) (info : PaymentInfo) : Prop :=
  info.status = .succeeded ∧ info.preimage = some p

/-- The step does not write over the success of `id`: it inserts no entry for it, records no refusal
of it and delivers no other outcome. -/
def LeavesSuccess (id : PaymentId) (p : PaymentPreimage) (s : State) : Label → Prop
  | .start cmd => ∀ info, cmd.entry ≠ some (id, info)
  | .mark => ∀ path, s.cli ≠ .refused path id
  | .event e => e.paymentId? = some id → e = .paymentSent p (some id)
  | _ => True

theorem success_step {p : PaymentPreimage} (h : Holds id (IsSuccess p) s.outbound)
    (hk : LeavesSuccess id p s l) (hs : machine.step s l = some s') :
    Holds id (IsSuccess p) s'.outbound := by
  obtain ⟨info, hi, hp⟩ := h
  have ht := touch_step id hs
  rw [hi] at ht
  unfold Holds
  generalize s'.outbound.payments.lookup id = o at ht ⊢
  cases ht with
  | same => exact ⟨info, rfl, hp⟩
  | insert he => exact absurd he (hk _)
  | refused hc => exact absurd hc (hk _)
  | event he =>
    rw [hk he]
    exact ⟨_, rfl, rfl, rfl⟩

/-- `PaymentSent` for an id in memory makes the entry and its own write a success. -/
theorem KeptFrom.of_paymentSent {p : PaymentPreimage} (hid : id ∈ s.outbound.payments)
    (hheld : ∀ path id' b, s.cli ≠ .encoded path id' b)
    (hs : machine.step s (.event (.paymentSent p (some id))) = some s') :
    KeptFrom (Holds id (IsSuccess p)) s.writes.length s' := by
  obtain ⟨info, hi⟩ := HashMap.lookup_of_mem hid
  cases step_cases hs with
  | @event _ o ho =>
    have hl := lookup_handleOutbound_self ho rfl
    rw [hi] at hl
    have hm : Holds id (IsSuccess p) o := ⟨_, hl, rfl, rfl⟩
    refine ⟨hm, fun b hb => ?_, fun path id' b hb => absurd hb (hheld path id' b)⟩
    rw [State.store_writes, List.drop_left] at hb
    rw [List.mem_singleton.mp hb]
    exact ⟨o, rfl, hm⟩

end Outbound

end LdkSample
