import LdkSample.Payment.Outbound

/-!
# Statuses of sent payments

A success is permanent exactly in the runs in which no send command inserts over a
succeeded entry or records a refusal on one (`success_permanent_iff`);
`send_payment` given a paid invoice again loses the success (`success_lost`).
-/

namespace LdkSample

namespace Outbound

/-! ## Success is permanent -/

def Succeeded (s : State) (id : PaymentId) (p : PaymentPreimage) : Prop :=
  ∃ info, s.outbound.payments.lookup id = some info ∧ info.status = .succeeded ∧
    info.preimage = some p

/-- The ids `PaymentSent` has been delivered for. -/
def sentIds (ls : List Label) : List PaymentId :=
  ls.filterMap fun
    | .event (.paymentSent _ id) => id
    | _ => none

/-- No `PaymentFailed` for an id that `PaymentSent` was delivered for, in the run or before it. -/
def NoFailureAfterSent (sent : List PaymentId) (ls : List Label) : Prop :=
  ∀ as id bs, ls = as ++ .event (.paymentFailed id) :: bs → id ∉ sent ++ sentIds as

theorem noFailureAfterSent_of_not_mem (sent : List PaymentId) {ls : List Label}
    (h : ∀ id, .event (.paymentFailed id) ∉ ls) : NoFailureAfterSent sent ls := by
  rintro as id bs rfl
  exact absurd (List.mem_append_right _ List.mem_cons_self) (h id)

/-- A store at startup, and the ids `PaymentSent` was delivered for before. -/
structure Start where
  outbound : OutboundPaymentInfoStorage
  sent : List PaymentId
  sent_of_succeeded : ∀ id p, Succeeded (init outbound) id p → id ∈ sent

/-- Once an entry has succeeded it stays so, with its preimage, for the rest of the run. -/
def Permanent (s : State) (ls : List Label) : Prop :=
  ∀ as bs cs s₁ s₂, ls = as ++ (bs ++ cs) → machine.run s as = some s₁ →
    machine.run s₁ bs = some s₂ → ∀ id p, Succeeded s₁ id p → Succeeded s₂ id p

/-- The step does not write over a success: no insert and no refusal at a succeeded entry, and
`PaymentSent` for one carries the preimage it has. -/
def KeepsSuccess (s : State) : Label → Prop
  | .start cmd => ∀ id info, cmd.entry = some (id, info) → ∀ p, ¬ Succeeded s id p
  | .mark => ∀ path id, s.cli = .refused path id → ∀ p, ¬ Succeeded s id p
  | .event (.paymentSent q (some id)) => ∀ p, Succeeded s id p → q = p
  | _ => True

theorem Succeeded.congr {s s' : State} {id : PaymentId} {p : PaymentPreimage}
    (h : Succeeded s id p)
    (hl : s'.outbound.payments.lookup id = s.outbound.payments.lookup id) : Succeeded s' id p := by
  obtain ⟨info, hi, h⟩ := h
  exact ⟨info, hl.trans hi, h⟩

/-- One step keeps a success. -/
theorem succeeded_step {s s' : State} {l : Label} {id : PaymentId} {p : PaymentPreimage}
    (h : Succeeded s id p) (hk : KeepsSuccess s l) (hf : l ≠ .event (.paymentFailed id))
    (hs : machine.step s l = some s') : Succeeded s' id p := by
  cases step_cases hs with
  | returned => exact h
  | @insertWrite cmd id' info _ he =>
    have hne : id ≠ id' := fun e => hk id' info he p (e ▸ h)
    exact h.congr (lookup_insertEntry_ne _ info hne)
  | @insert cmd id' info _ he =>
    have hne : id ≠ id' := fun e => hk id' info he p (e ▸ h)
    exact h.congr (lookup_insertEntry_ne _ info hne)
  | encode => exact h
  | write => exact h
  | written => exact h
  | refused => exact h
  | called => exact h
  | @mark path id' o hc ho =>
    have hne : id ≠ id' := fun e => hk path id' hc p (e ▸ h)
    exact h.congr (lookup_markFailed_ne ho hne)
  | markPanic => exact h
  | marked => exact h
  | @event e o ho =>
    by_cases hp : e.paymentId? = some id
    · obtain ⟨info, hi, hst, hpre⟩ := h
      cases e with
      | paymentFailed id' => cases hp; exact absurd rfl hf
      | paymentSent q id' =>
        cases hp
        have hq := hk p ⟨info, hi, hst, hpre⟩
        refine ⟨OutboundEvent.update info (.paymentSent q (some id)), ?_, rfl, by rw [← hq]; rfl⟩
        exact (lookup_handleOutbound_self ho rfl).trans (by rw [hi]; rfl)
    · exact h.congr (lookup_handleOutbound_ne ho hp)
  | eventWritten => exact h

/-- Only `PaymentSent` makes a success. -/
theorem succeeded_step_inv {s s' : State} {l : Label} {id : PaymentId} {p : PaymentPreimage}
    (h : Succeeded s' id p) (hs : machine.step s l = some s') :
    (∃ q, Succeeded s id q) ∨ ∃ q, l = .event (.paymentSent q (some id)) := by
  obtain ⟨info', hi', hst, hpre⟩ := h
  have old (hl : s'.outbound.payments.lookup id = s.outbound.payments.lookup id) :
      (∃ q, Succeeded s id q) ∨ ∃ q, l = .event (.paymentSent q (some id)) :=
    .inl ⟨p, info', hl.symm.trans hi', hst, hpre⟩
  have inserted {cmd : SendCmd} {id' : PaymentId} {info : PaymentInfo}
      (he : cmd.entry = some (id', info)) (ho : s'.outbound = insertEntry s.outbound id' info) :
      (∃ q, Succeeded s id q) ∨ ∃ q, l = .event (.paymentSent q (some id)) := by
    by_cases hid : id = id'
    · rw [ho, lookup_insertEntry, if_pos hid] at hi'
      cases hi'
      rw [(SendCmd.entry_status he).1] at hst
      cases hst
    · exact old (by rw [ho, lookup_insertEntry, if_neg hid])
  cases step_cases hs with
  | returned => exact old rfl
  | insertWrite _ he => exact inserted he rfl
  | insert _ he => exact inserted he rfl
  | encode => exact old rfl
  | write => exact old rfl
  | written => exact old rfl
  | refused => exact old rfl
  | called => exact old rfl
  | @mark path id' o hc ho =>
    by_cases hid : id = id'
    · subst hid
      rw [failed_of_paymentFailed (markFailed_some ho) hi'] at hst
      cases hst
    · exact old (lookup_markFailed_ne ho hid)
  | markPanic => exact old rfl
  | marked => exact old rfl
  | @event e o ho =>
    by_cases hp : e.paymentId? = some id
    · cases e with
      | paymentSent q id' => cases hp; exact .inr ⟨q, rfl⟩
      | paymentFailed id' =>
        cases hp
        rw [failed_of_paymentFailed ho hi'] at hst
        cases hst
    · exact old (lookup_handleOutbound_ne ho hp)
  | eventWritten => exact old rfl

theorem sentIds_append (as bs : List Label) : sentIds (as ++ bs) = sentIds as ++ sentIds bs :=
  List.filterMap_append

/-- What has succeeded was reported by `PaymentSent`. -/
theorem sent_of_run (sent : List PaymentId) {s s' : State} {ls : List Label}
    (h : ∀ id p, Succeeded s id p → id ∈ sent) (hr : machine.run s ls = some s')
    {id : PaymentId} {p : PaymentPreimage} (hs : Succeeded s' id p) :
    id ∈ sent ++ sentIds ls := by
  induction ls generalizing s sent with
  | nil => cases hr; simpa [sentIds] using h id p hs
  | cons l ls ih =>
    obtain ⟨s₁, h₁, h₂⟩ := Machine.run_cons_inv hr
    have := ih (sent ++ sentIds [l]) (fun id' p' hs' => by
      rcases succeeded_step_inv hs' h₁ with ⟨q, hq⟩ | ⟨q, rfl⟩
      · exact List.mem_append_left _ (h id' q hq)
      · exact List.mem_append_right _ (by simp [sentIds])) h₂
    rwa [List.append_assoc, ← sentIds_append] at this

theorem permanent_of_along (st : Start) {ls : List Label}
    (hn : NoFailureAfterSent st.sent ls)
    (ha : machine.Along KeepsSuccess (init st.outbound) ls) :
    Permanent (init st.outbound) ls := by
  rintro as bs cs s₁ s₂ rfl h₁ h₂ id p hs
  have hsent : id ∈ st.sent ++ sentIds as := sent_of_run st.sent st.sent_of_succeeded h₁ hs
  have hf : ∀ l ∈ bs, l ≠ .event (.paymentFailed id) := by
    rintro l hl rfl
    obtain ⟨b₁, b₂, rfl⟩ := List.append_of_mem hl
    refine hn (as ++ b₁) id (b₂ ++ cs) (by simp) ?_
    rw [sentIds_append, ← List.append_assoc]
    exact List.mem_append_left _ hsent
  have hb := ((Machine.along_append h₂).mp ((Machine.along_append h₁).mp ha).2).1
  exact Machine.inv_run _ (I := fun s => Succeeded s id p)
    (fun s l s' h hok hst => succeeded_step h hok.1 hok.2 hst) hs (hb.and_forall hf) h₂

/-- A step that keeps every success meets `KeepsSuccess`. -/
theorem keepsSuccess_of_step {s s' : State} {l : Label} (hs : machine.step s l = some s')
    (h : ∀ id p, Succeeded s id p → Succeeded s' id p) : KeepsSuccess s l := by
  have hcases := step_cases hs
  cases l with
  | start cmd =>
    intro id info he p hp
    obtain ⟨info', hi', hst, -⟩ := h id p hp
    have hl : s'.outbound.payments.lookup id = some info := by
      cases hcases with
      | returned _ hn => rw [hn] at he; cases he
      | insertWrite _ he' =>
        rw [he] at he'
        cases he'
        exact lookup_insertEntry_self ..
      | insert _ he' =>
        rw [he] at he'
        cases he'
        exact lookup_insertEntry_self ..
    rw [hl] at hi'
    cases hi'
    rw [(SendCmd.entry_status he).1] at hst
    cases hst
  | mark =>
    intro path id hc p hp
    obtain ⟨info', hi', hst, -⟩ := h id p hp
    cases hcases with
    | mark hc' ho =>
      rw [hc] at hc'
      cases hc'
      rw [failed_of_paymentFailed (markFailed_some ho) hi'] at hst
      cases hst
    | markPanic hc' ho =>
      rw [hc] at hc'
      cases hc'
      obtain ⟨info, hi, -⟩ := hp
      exact markFailed_none.mp ho (HashMap.mem_of_lookup hi)
  | event e =>
    cases e with
    | paymentFailed id => trivial
    | paymentSent q id =>
      cases id with
      | none => trivial
      | some id =>
        intro p hp
        obtain ⟨info', hi', -, hpre⟩ := h id p hp
        cases hcases with
        | event ho =>
          obtain ⟨info, -, rfl⟩ := update_of_lookup ho rfl hi'
          exact Option.some.inj hpre
  | encode => trivial
  | write => trivial
  | written => trivial
  | call ok => trivial
  | marked => trivial
  | eventWritten n => trivial

/-- **Success is permanent** in a run exactly when no step of it writes over a success. -/
theorem success_permanent_iff (st : Start) (ls : List Label) (s : State)
    (hr : machine.run (init st.outbound) ls = some s) (hn : NoFailureAfterSent st.sent ls) :
    Permanent (init st.outbound) ls ↔ machine.Along KeepsSuccess (init st.outbound) ls := by
  refine ⟨fun h => ?_, permanent_of_along st hn⟩
  refine Machine.along_of_splits fun as l bs s₁ he h₁ => ?_
  subst he
  obtain ⟨s₁', h₁', h₂⟩ := Machine.run_append_inv hr
  rw [h₁] at h₁'
  cases h₁'
  obtain ⟨s₂, hl, -⟩ := Machine.run_cons_inv h₂
  exact keepsSuccess_of_step hl fun id p =>
    h as [l] bs s₁ s₂ rfl h₁ (by rw [Machine.run_single, hl]) id p

section Examples

def invoice : Bolt11Invoice := ⟨⟨Vector.replicate 32 1⟩, ⟨Vector.replicate 32 2⟩, some 1000⟩

def invoiceId : PaymentId := ⟨invoice.paymentHash.bytes⟩

def preimageB : PaymentPreimage := ⟨Vector.replicate 32 4⟩

/-- A fresh node. -/
def emptyStart : Start := ⟨⟨∅⟩, [], fun _ _ ⟨_, h, _⟩ => by cases h⟩

/-- The invoice is paid. -/
def paid : List Label :=
  [.start (.bolt11 invoice none), .written, .call true,
    .event (.paymentSent preimageB (some invoiceId))]

end Examples

/-- The invoice is paid once, and the record of it is kept. -/
theorem success_permanent_run : Permanent (init emptyStart.outbound) paid ↔
    machine.Along KeepsSuccess (init emptyStart.outbound) paid :=
  success_permanent_iff emptyStart paid _ rfl (noFailureAfterSent_of_not_mem [] (by simp [paid]))

/-- **A success is lost**: the invoice is paid, and `sendpayment` is given it again. -/
theorem success_lost : ¬ ∀ (st : Start) (ls : List Label) (s : State),
    machine.run (init st.outbound) ls = some s → NoFailureAfterSent st.sent ls →
    Permanent (init st.outbound) ls := by
  intro h
  have hp := h emptyStart (paid ++ [.start (.bolt11 invoice none)]) _ rfl
    (noFailureAfterSent_of_not_mem [] (by simp [paid]))
  have hs := hp paid [.start (.bolt11 invoice none)] [] _ _ rfl rfl rfl invoiceId preimageB
    ⟨_, rfl, rfl, rfl⟩
  obtain ⟨info, hi, hst, -⟩ := hs
  cases hi
  cases hst

end Outbound

end LdkSample
