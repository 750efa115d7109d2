import LdkSample.Payment.Inbound

/-!
# Received amounts

After a claim the entry of its hash should be the one a claim without an invoice makes
(`Exact`). The upsert keeps the amount of an entry that is there, so this holds in the runs
in which no claim meets an entry of another amount, and in no other (`exact_iff`): an invoice
that is paid more than it asked for is listed at what it asked for (`overpaid_invoice`).
-/

namespace LdkSample

namespace Inbound

/-- The entry of a claimed hash is the one its last claim makes on its own. -/
def Exact (s : State) : Prop :=
  ∀ h e, lastClaim h s.handled = some e → s.inbound.payments.lookup h = some e.entry

/-- A claim is handled where there is no entry, or one of the claimed amount. -/
def MeetsAmount (s : State) : Label → Prop
  | .eventUpsert => ∀ e p, s.handler = .locked e → s.inbound.payments.lookup e.paymentHash = some p →
      p.amtMsat = ⟨some e.amountMsat⟩
  | _ => True

/-- `Exact` in every state of the run. -/
def ExactAlong (s : State) (ls : List Label) : Prop :=
  ∀ as bs s', ls = as ++ bs → machine.run s as = some s' → Exact s'

/-- The entry after a claim is the claim's own exactly when the entry before has its amount. -/
theorem upsert_eq_entry_iff (o : Option PaymentInfo) (e : PaymentClaimed) :
    upsert PaymentClaimed.entry PaymentClaimed.update o e = some e.entry ↔
      ∀ p, o = some p → p.amtMsat = ⟨some e.amountMsat⟩ := by
  cases o with
  | none => exact ⟨fun _ p hp => (nomatch hp), fun _ => rfl⟩
  | some p =>
    show some (PaymentClaimed.update p e) = some e.entry ↔ _
    constructor
    · rintro h p' hp
      cases hp
      exact congrArg PaymentInfo.amtMsat (Option.some.inj h)
    · intro h
      have hamt := h p rfl
      unfold PaymentClaimed.update PaymentClaimed.entry
      rw [hamt]

theorem exact_step {start : InboundPaymentInfoStorage} {s s' : State} {l : Label}
    (hi : Inv start s) (hx : Exact s) (hm : MeetsAmount s l) (hs : machine.step s l = some s') :
    Exact s' := by
  cases step_cases hs with
  | getinvoice => exact hx
  | createErr => exact hx
  | create => exact hx
  | @record invoice hc =>
    cases invoice with
    | none => exact hx
    | some i =>
      intro h e hl
      -- no claim of the invoice's hash has been handled
      have hne : h ≠ i.paymentHash := by
        rintro rfl
        have hnone := (hi.created i hc).2
        rw [hnone] at hl
        cases hl
      show (getInvoice s.inbound (some i)).payments.lookup h = some e.entry
      unfold getInvoice
      rw [AList.lookup_insert_ne hne]
      exact hx h e hl
  | write => exact hx
  | unlock => exact hx
  | written => exact hx
  | claim => exact hx
  | eventLock => exact hx
  | @eventUpsert e hc =>
    intro h e' hl
    show (handlePaymentClaimed s.inbound e).payments.lookup h = some e'.entry
    rw [lastClaim_append] at hl
    rw [lookup_handlePaymentClaimed]
    split at hl
    · next hh =>
      cases hl
      subst hh
      rw [if_pos rfl, upsert_eq_entry_iff]
      exact fun p hp => hm e p hc hp
    · next hh =>
      rw [if_neg (Ne.symm hh)]
      exact hx h e' hl
  | eventWrite => exact hx
  | eventUnlock => exact hx
  | eventWritten => exact hx

/-- A step after which the entries are exact has met the amount. -/
theorem meetsAmount_of_step {s s' : State} {l : Label} (hs : machine.step s l = some s')
    (hx : Exact s') : MeetsAmount s l := by
  have hcases := step_cases hs
  cases l with
  | eventUpsert =>
    intro e p hc hp
    cases hcases with
    | @eventUpsert e' hc' =>
      rw [hc] at hc'
      cases hc'
      have hlast : lastClaim e.paymentHash (s.handled ++ [e]) = some e := by
        rw [lastClaim_append, if_pos rfl]
      have hentry := hx e.paymentHash e hlast
      have hlookup := lookup_handlePaymentClaimed s.inbound e e.paymentHash
      rw [if_pos rfl] at hlookup
      exact (upsert_eq_entry_iff _ e).mp (hlookup.symm.trans hentry) p hp
  | _ => trivial

/-- **The received amount is on record** throughout a run exactly when no claim of it meets an
entry of another amount. -/
theorem exact_iff (start : History) (hstart : Exact (init start)) (ls : List Label) (s : State)
    (hr : machine.run (init start) ls = some s) :
    ExactAlong (init start) ls ↔ machine.Along MeetsAmount (init start) ls := by
  constructor
  · intro hx
    refine Machine.along_of_splits fun as l bs s₁ heq h₁ => ?_
    rw [heq] at hr
    obtain ⟨s₁', h₁', h₂⟩ := Machine.run_append_inv hr
    rw [h₁] at h₁'
    cases h₁'
    obtain ⟨s₂, hs, -⟩ := Machine.run_cons_inv h₂
    have hrun : machine.run (init start) (as ++ [l]) = some s₂ := by
      rw [Machine.run_append h₁, Machine.run_single, hs]
    exact meetsAmount_of_step hs (hx (as ++ [l]) bs s₂ (by rw [heq]; simp) hrun)
  · rintro ha as bs s₁ rfl h₁
    have has := ((Machine.along_append h₁).mp ha).1
    have hinv : Inv start.inbound s₁ ∧ Exact s₁ :=
      Machine.inv_run MeetsAmount (I := fun s => Inv start.inbound s ∧ Exact s)
        (fun s l s' h hm hs => ⟨inv_step h.1 hs, exact_step h.1 h.2 hm hs⟩)
        ⟨inv_init start, hstart⟩ has h₁
    exact hinv.2

section Examples

def hash : PaymentHash := ⟨Vector.replicate 32 1⟩

def secret : PaymentSecret := ⟨Vector.replicate 32 2⟩

/-- An invoice over 7 msat is issued and claimed at `amountMsat`. -/
def paidInvoice (amountMsat : UInt64) : List Label :=
  [.getinvoice 7, .create (some (hash, secret)), .record, .write, .unlock, .written,
    .claim ⟨hash, .bolt11InvoicePayment none secret, amountMsat⟩, .eventLock, .eventUpsert,
    .eventWrite, .eventUnlock, .eventWritten]

theorem exact_empty : Exact (init .empty) := fun _ _ h => (nomatch h)

end Examples

theorem exact_run : ExactAlong (init .empty) (paidInvoice 7) ↔
    machine.Along MeetsAmount (init .empty) (paidInvoice 7) :=
  exact_iff .empty exact_empty (paidInvoice 7) _ rfl

/-- **An overpaid invoice** is listed at the amount it asked for. -/
theorem overpaid_invoice : ¬ ∀ (start : History), Exact (init start) → ∀ (ls : List Label)
    (s : State), machine.run (init start) ls = some s → ExactAlong (init start) ls := by
  intro h
  have hx := h .empty exact_empty (paidInvoice 8) _ rfl (paidInvoice 8) [] _ rfl rfl hash
    ⟨hash, .bolt11InvoicePayment none secret, 8⟩ rfl
  cases hx

end Inbound

end LdkSample
