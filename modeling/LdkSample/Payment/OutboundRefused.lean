import LdkSample.Payment.Outbound

/-!
# Refused sends

What a refusal of `ChannelManager` leaves in the outbound store. `send_payment` and `keysend`
record it, in memory and in the last write; the offer and the human-readable-name branch only
print it (`refusal_recorded_iff`), so the entry of a refused offer stays pending
(`refusal_unrecorded`). No other entry changes but by its own events (`others_run`).
-/

namespace LdkSample

namespace Outbound

def HasStatus (o : OutboundPaymentInfoStorage) (id : PaymentId) (status : HTLCStatus) : Prop :=
  ∃ info, o.payments.lookup id = some info ∧ info.status = status

/-- The events delivered in a run. -/
def delivered (ls : List Label) : List Event :=
  ls.filterMap fun
    | .event e => some (.outbound e)
    | _ => none

/-- Every entry but that of `id` is what its own events made of it. -/
def OthersKept (s : State) (ls : List Label) (s' : State) (id : PaymentId) : Prop :=
  ∀ id', id' ≠ id → s'.outbound.payments.lookup id' =
    (sendsOf id' (delivered ls)).foldl (fun o e => o.map (OutboundEvent.update · e))
      (s.outbound.payments.lookup id')

/-- The refusal of `id` is on record, in memory and in the last write called. -/
structure Recorded (s : State) (ls : List Label) (s' : State) (id : PaymentId) : Prop where
  failed : HasStatus s'.outbound id .failed
  written : s'.writes.getLast? = some s'.outbound.encode
  others : OthersKept s ls s' id

/-! ## The other entries -/

/-- Only `id` is being sent. -/
def Only (id : PaymentId) : Cli → Prop
  | .inserted _ i | .encoded _ i _ | .writing _ i _ | .calling _ i | .refused _ i => i = id
  | _ => True

/-- A step of the command of `id`, or of the event handler, once the command has begun. -/
def Later (id : PaymentId) : Label → Prop
  | .start _ => False
  | .event e => e.paymentId? ≠ some id
  | _ => True

theorem only_step {s s' : State} {l : Label} {id : PaymentId} (h : Only id s.cli)
    (hl : Later id l) (hs : machine.step s l = some s') : Only id s'.cli := by
  cases step_cases hs with
  | returned => exact hl.elim
  | insertWrite => exact hl.elim
  | insert => exact hl.elim
  | encode hc => rw [hc] at h; exact h
  | write hc => rw [hc] at h; exact h
  | written hc => rw [hc] at h; exact h
  | refused hc => rw [hc] at h; exact h
  | called => trivial
  | mark => trivial
  | markPanic => trivial
  | marked => trivial
  | event => exact h
  | eventWritten => exact h

theorem othersKept_nil {s s' : State} {l : Label} {id : PaymentId} (hl : delivered [l] = [])
    (h : ∀ id', id' ≠ id → s'.outbound.payments.lookup id' = s.outbound.payments.lookup id') :
    OthersKept s [l] s' id := by
  intro id' hne
  rw [hl]
  exact h id' hne

theorem others_step {s s' : State} {l : Label} {id : PaymentId} (h : Only id s.cli)
    (hl : Later id l) (hs : machine.step s l = some s') : OthersKept s [l] s' id := by
  cases step_cases hs with
  | returned => exact hl.elim
  | insertWrite => exact hl.elim
  | insert => exact hl.elim
  | encode => exact othersKept_nil rfl fun _ _ => rfl
  | write => exact othersKept_nil rfl fun _ _ => rfl
  | written => exact othersKept_nil rfl fun _ _ => rfl
  | refused => exact othersKept_nil rfl fun _ _ => rfl
  | called => exact othersKept_nil rfl fun _ _ => rfl
  | mark hc ho =>
    rw [hc] at h
    cases h
    exact othersKept_nil rfl fun _ hne => lookup_markFailed_ne ho hne
  | markPanic => exact othersKept_nil rfl fun _ _ => rfl
  | marked => exact othersKept_nil rfl fun _ _ => rfl
  | @event e o ho =>
    intro id' _
    by_cases hp : e.paymentId? = some id'
    · have hsends : sendsOf id' (delivered [.event e]) = [e] := by simp [sendsOf, delivered, hp]
      rw [hsends]
      exact lookup_handleOutbound_self ho hp
    · have hsends : sendsOf id' (delivered [.event e]) = [] := by simp [sendsOf, delivered, hp]
      rw [hsends]
      exact lookup_handleOutbound_ne ho hp
  | eventWritten => exact othersKept_nil rfl fun _ _ => rfl

theorem OthersKept.trans {s₁ s₂ s₃ : State} {as bs : List Label} {id : PaymentId}
    (h : OthersKept s₁ as s₂ id) (h' : OthersKept s₂ bs s₃ id) :
    OthersKept s₁ (as ++ bs) s₃ id := by
  intro id' hne
  have hd : delivered (as ++ bs) = delivered as ++ delivered bs := List.filterMap_append
  rw [hd, sendsOf_append, List.foldl_append, h' id' hne, h id' hne]

theorem others_run {s s' : State} {ls : List Label} {id : PaymentId} (h : Only id s.cli)
    (hl : ∀ l ∈ ls, Later id l) (hr : machine.run s ls = some s') : OthersKept s ls s' id := by
  induction ls generalizing s with
  | nil =>
    cases hr
    exact fun _ _ => rfl
  | cons l ls ih =>
    obtain ⟨s₁, h₁, h₂⟩ := Machine.run_cons_inv hr
    rw [List.forall_mem_cons] at hl
    exact (others_step h hl.1 h₁).trans (ih (only_step h hl.1 h₁) hl.2 h₂)

/-! ## Before the call -/

/-- Where a command of `path` and `id` is before its call. -/
def Sending (path : SendPath) (id : PaymentId) : Cli → Prop
  | .inserted p i | .encoded p i _ | .writing p i _ | .calling p i => p = path ∧ i = id
  | _ => False

theorem hasStatus_event {o o' : OutboundPaymentInfoStorage} {e : OutboundEvent} {id : PaymentId}
    {status : HTLCStatus} (h : HasStatus o id status) (ho : handleOutbound o e = some o')
    (he : e.paymentId? ≠ some id) : HasStatus o' id status := by
  obtain ⟨info, hi, hst⟩ := h
  exact ⟨info, (lookup_handleOutbound_ne ho he).trans hi, hst⟩

/-- Before its call the command has a pending entry; otherwise its call has been made. -/
def BeforeCall (path : SendPath) (id : PaymentId) (s : State) : Prop :=
  (Sending path id s.cli ∧ HasStatus s.outbound id .pending) ∨ ∀ p i, ¬ Sending p i s.cli

theorem BeforeCall.congr {path : SendPath} {id : PaymentId} {s s' : State}
    (h : BeforeCall path id s) (hsame : ∀ p i, Sending p i s'.cli ↔ Sending p i s.cli)
    (hpend : HasStatus s.outbound id .pending → HasStatus s'.outbound id .pending) :
    BeforeCall path id s' := by
  rcases h with ⟨hsend, hp⟩ | hpast
  · exact .inl ⟨(hsame path id).mpr hsend, hpend hp⟩
  · exact .inr fun p i hsend => hpast p i ((hsame p i).mp hsend)

theorem beforeCall_step {path : SendPath} {s s' : State} {l : Label} {id : PaymentId}
    (h : BeforeCall path id s) (hl : Later id l) (hs : machine.step s l = some s') :
    BeforeCall path id s' := by
  cases step_cases hs with
  | returned => exact hl.elim
  | insertWrite => exact hl.elim
  | insert => exact hl.elim
  | encode hc => exact h.congr (fun p i => by rw [hc]; exact .rfl) fun hp => hp
  | write hc => exact h.congr (fun p i => by rw [hc]; exact .rfl) fun hp => hp
  | written hc => exact h.congr (fun p i => by rw [hc]; exact .rfl) fun hp => hp
  | refused => exact .inr fun _ _ hsend => hsend
  | called => exact .inr fun _ _ hsend => hsend
  | mark => exact .inr fun _ _ hsend => hsend
  | markPanic => exact .inr fun _ _ hsend => hsend
  | marked => exact .inr fun _ _ hsend => hsend
  | event ho => exact h.congr (fun _ _ => .rfl) fun hp => hasStatus_event hp ho hl
  | eventWritten => exact h.congr (fun _ _ => .rfl) fun hp => hp

/-! ## After a refusal -/

/-- A refusal that is recorded: to be marked, or marked and written. -/
def Marking (id : PaymentId) (s : State) : Prop :=
  match s.cli with
  | .refused _ i => i = id ∧ id ∈ s.outbound.payments
  | .marking _ | .idle =>
    HasStatus s.outbound id .failed ∧ s.writes.getLast? = some s.outbound.encode
  | _ => False

theorem marking_step {s s' : State} {l : Label} {id : PaymentId} (h : Marking id s)
    (hl : Later id l) (hs : machine.step s l = some s') : Marking id s' := by
  unfold Marking at h
  cases step_cases hs with
  | returned => exact hl.elim
  | insertWrite => exact hl.elim
  | insert => exact hl.elim
  | encode hc => rw [hc] at h; exact h.elim
  | write hc => rw [hc] at h; exact h.elim
  | written hc => rw [hc] at h; exact h.elim
  | refused hc => rw [hc] at h; exact h.elim
  | called hc => rw [hc] at h; exact h.elim
  | mark hc ho =>
    rw [hc] at h
    obtain ⟨rfl, hmem⟩ := h
    obtain ⟨info, hi⟩ := HashMap.lookup_of_mem hmem
    have hlookup := lookup_markFailed_self ho
    rw [hi] at hlookup
    exact ⟨⟨_, hlookup, rfl⟩, by simp⟩
  | markPanic hc ho =>
    rw [hc] at h
    obtain ⟨rfl, hmem⟩ := h
    exact absurd hmem (markFailed_none.mp ho)
  | marked hc =>
    rw [hc] at h
    exact h
  | @event e o ho =>
    show Marking id (s.store o)
    unfold Marking
    rw [State.store_cli]
    split at h
    · exact ⟨h.1, (mem_handleOutbound ho).mpr h.2⟩
    · exact ⟨hasStatus_event h.1 ho hl, by simp⟩
    · exact ⟨hasStatus_event h.1 ho hl, by simp⟩
    · exact h.elim
  | eventWritten => exact h

/-- A refusal that is printed only. -/
def Unmarked (id : PaymentId) (s : State) : Prop :=
  s.cli = .idle ∧ HasStatus s.outbound id .pending

theorem unmarked_step {s s' : State} {l : Label} {id : PaymentId} (h : Unmarked id s)
    (hl : Later id l) (hs : machine.step s l = some s') : Unmarked id s' := by
  obtain ⟨hidle, hp⟩ := h
  cases step_cases hs with
  | returned => exact hl.elim
  | insertWrite => exact hl.elim
  | insert => exact hl.elim
  | encode hc => rw [hc] at hidle; cases hidle
  | write hc => rw [hc] at hidle; cases hidle
  | written hc => rw [hc] at hidle; cases hidle
  | refused hc => rw [hc] at hidle; cases hidle
  | called hc => rw [hc] at hidle; cases hidle
  | mark hc => rw [hc] at hidle; cases hidle
  | markPanic hc => rw [hc] at hidle; cases hidle
  | marked hc => rw [hc] at hidle; cases hidle
  | event ho => exact ⟨hidle, hasStatus_event hp ho hl⟩
  | eventWritten => exact ⟨hidle, hp⟩

/-! ## A refused command -/

/-- The insert of a command. -/
theorem start_spec {s s' : State} {cmd : SendCmd} {id : PaymentId} {info : PaymentInfo}
    (he : cmd.entry = some (id, info)) (hs : machine.step s (.start cmd) = some s') :
    s'.outbound = insertEntry s.outbound id info ∧ Sending cmd.path id s'.cli := by
  cases step_cases hs with
  | returned _ hn => rw [he] at hn; cases hn
  | insertWrite _ he' =>
    rw [he] at he'
    cases he'
    exact ⟨rfl, rfl, rfl⟩
  | insert _ he' =>
    rw [he] at he'
    cases he'
    exact ⟨rfl, rfl, rfl⟩

theorem only_of_sending {path : SendPath} {id : PaymentId} {c : Cli} (h : Sending path id c) :
    Only id c := by
  cases c with
  | inserted => exact h.2
  | encoded => exact h.2
  | writing => exact h.2
  | calling => exact h.2
  | _ => exact h.elim

/-- From the insert to the refusal. -/
theorem refusal_spec {s s₁ s₂ : State} {cmd : SendCmd} {id : PaymentId} {info : PaymentInfo}
    {as : List Label} (he : cmd.entry = some (id, info)) (hl : ∀ l ∈ as, Later id l)
    (hr : machine.run s (.start cmd :: as) = some s₁)
    (hs : machine.step s₁ (.call false) = some s₂) :
    if cmd.path.guarded then Marking id s₂ else Unmarked id s₂ := by
  obtain ⟨s₀, h₀, hr⟩ := Machine.run_cons_inv hr
  obtain ⟨ho, hsend⟩ := start_spec he h₀
  have hpend : HasStatus s₀.outbound id .pending := by
    refine ⟨info, ?_, (SendCmd.entry_status he).1⟩
    rw [ho, lookup_insertEntry_self]
  have hbefore : BeforeCall cmd.path id s₁ :=
    Machine.inv_run (fun _ l => Later id l) (fun _ _ _ h hl hs => beforeCall_step h hl hs)
      (.inl ⟨hsend, hpend⟩) (Machine.along_of_splits fun as l bs _ heq _ => hl l (by simp [heq])) hr
  cases step_cases hs with
  | refused hc hg =>
    rcases hbefore with ⟨hsend, hp⟩ | hpast
    · rw [hc] at hsend
      obtain ⟨rfl, rfl⟩ := hsend
      rw [if_pos hg]
      obtain ⟨info', hi, -⟩ := hp
      exact ⟨rfl, HashMap.mem_of_lookup hi⟩
    · rw [hc] at hpast
      exact absurd ⟨rfl, rfl⟩ (hpast _ _)
  | called hc hg =>
    rcases hbefore with ⟨hsend, hp⟩ | hpast
    · rw [hc] at hsend
      obtain ⟨rfl, rfl⟩ := hsend
      have hg : cmd.path.guarded = false := hg.resolve_left (by decide)
      rw [if_neg (by rw [hg]; decide)]
      exact ⟨rfl, hp⟩
    · rw [hc] at hpast
      exact absurd ⟨rfl, rfl⟩ (hpast _ _)

/-- **A refusal is on record** when the command has finished, exactly on the two paths that
look at the error. -/
theorem refusal_recorded_iff {s s' : State} {cmd : SendCmd} {id : PaymentId} {info : PaymentInfo}
    {ls : List Label} (he : cmd.entry = some (id, info))
    (hr : machine.run s (.start cmd :: ls) = some s') (hone : ∀ cmd', .start cmd' ∉ ls)
    (hev : ∀ e, .event e ∈ ls → e.paymentId? ≠ some id) (hrefused : .call false ∈ ls)
    (hdone : s'.cli = .idle) :
    Recorded s (.start cmd :: ls) s' id ↔ cmd.path.guarded = true := by
  have hlater : ∀ l ∈ ls, Later id l := by
    intro l hl
    cases l with
    | start cmd' => exact absurd hl (hone cmd')
    | event e => exact hev e hl
    | _ => trivial
  -- the run up to the refusal, and from there to the end
  obtain ⟨as, bs, rfl⟩ := List.append_of_mem hrefused
  have hsplit := hr
  rw [← List.cons_append] at hsplit
  obtain ⟨s₁, h₁, h₂⟩ := Machine.run_append_inv hsplit
  obtain ⟨s₂, hs, h₃⟩ := Machine.run_cons_inv h₂
  have hspec := refusal_spec he (fun l hl => hlater l (List.mem_append_left _ hl)) h₁ hs
  have hrest : machine.Along (fun _ l => Later id l) s₂ bs :=
    Machine.along_of_splits fun _ l _ _ heq _ => hlater l (by simp [heq])
  constructor
  · intro hrec
    rcases Bool.eq_false_or_eq_true cmd.path.guarded with hg | hg
    · exact hg
    · rw [hg] at hspec
      have hend := Machine.inv_run _ (fun _ _ _ h hl hs => unmarked_step h hl hs) hspec hrest h₃
      obtain ⟨info₁, hi₁, hst₁⟩ := hend.2
      obtain ⟨info₂, hi₂, hst₂⟩ := hrec.failed
      rw [hi₁] at hi₂
      cases hi₂
      rw [hst₁] at hst₂
      cases hst₂
  · intro hg
    rw [hg] at hspec
    have hend := Machine.inv_run _ (fun _ _ _ h hl hs => marking_step h hl hs) hspec hrest h₃
    unfold Marking at hend
    rw [hdone] at hend
    refine ⟨hend.1, hend.2, ?_⟩
    obtain ⟨s₀, h₀, hafter⟩ := Machine.run_cons_inv hr
    obtain ⟨ho, hsend⟩ := start_spec he h₀
    have hfirst : OthersKept s [.start cmd] s₀ id :=
      othersKept_nil rfl fun id' hne => by rw [ho, lookup_insertEntry_ne _ _ hne]
    exact hfirst.trans (others_run (only_of_sending hsend) hlater hafter)

section Examples

def noPayments : OutboundPaymentInfoStorage := ⟨∅⟩

def refusedId : PaymentId := ⟨Vector.replicate 32 2⟩

/-- The way of a refused keysend. -/
def refusedKeysend : List Label := [.written, .call false, .mark, .marked]

/-- The way of a refused offer. -/
def refusedOffer : List Label := [.encode, .write, .written, .call false]

end Examples

/-- A keysend is refused, and the refusal is written. -/
theorem refusal_recorded_keysend :
    ∃ s, machine.run (init noPayments) (.start (.keysend refusedId 7) :: refusedKeysend) = some s ∧
      (Recorded (init noPayments) (.start (.keysend refusedId 7) :: refusedKeysend) s refusedId ↔
        SendPath.keysend.guarded = true) :=
  ⟨_, rfl, refusal_recorded_iff rfl rfl (by simp [refusedKeysend]) (by simp [refusedKeysend])
    (by simp [refusedKeysend]) rfl⟩

/-- **A refusal is not recorded**: an offer is refused, and its entry stays pending. -/
theorem refusal_unrecorded : ¬ ∀ (s s' : State) (cmd : SendCmd) (id : PaymentId)
    (info : PaymentInfo) (ls : List Label), cmd.entry = some (id, info) →
    id ∉ s.outbound.payments → machine.run s (.start cmd :: ls) = some s' →
    (∀ cmd', .start cmd' ∉ ls) → (∀ e, .event e ∈ ls → e.paymentId? ≠ some id) →
    .call false ∈ ls → s'.cli = .idle → Recorded s (.start cmd :: ls) s' id := by
  intro h
  have hrec := h (init noPayments) _ (.offer refusedId 7) refusedId _ refusedOffer rfl (by decide) rfl
    (by simp [refusedOffer]) (by simp [refusedOffer]) (by simp [refusedOffer]) rfl
  obtain ⟨info, hi, hst⟩ := hrec.failed
  cases hi
  cases hst

end Outbound

end LdkSample
