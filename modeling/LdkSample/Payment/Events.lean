import LdkSample.Payment.Store
import LdkSample.Replay

/-!
# Payment events

What `handle_ldk_events` (`main.rs`) does to the payment stores on `PaymentClaimed`,
`PaymentSent` and `PaymentFailed`. Each handler writes at one key, given by
`lookup_handlePaymentClaimed` and `lookup_handleOutbound`; the updates of one key
overwrite each other, so a redelivered suffix changes nothing and events of
different payments commute.
-/

namespace LdkSample

inductive PaymentPurpose where
  | bolt11InvoicePayment (paymentPreimage : Option PaymentPreimage) (paymentSecret : PaymentSecret)
  | bolt12OfferPayment (paymentPreimage : Option PaymentPreimage) (paymentSecret : PaymentSecret)
  | bolt12RefundPayment (paymentPreimage : Option PaymentPreimage) (paymentSecret : PaymentSecret)
  | spontaneousPayment (preimage : PaymentPreimage)
  deriving DecidableEq

/-- The preimage and secret a purpose carries. -/
def PaymentPurpose.secrets : PaymentPurpose → Option PaymentPreimage × Option PaymentSecret
  | bolt11InvoicePayment preimage secret => (preimage, some secret)
  | bolt12OfferPayment preimage secret => (preimage, some secret)
  | bolt12RefundPayment preimage secret => (preimage, some secret)
  | spontaneousPayment preimage => (some preimage, none)

/-- `Event::PaymentClaimed`. -/
structure PaymentClaimed where
  paymentHash : PaymentHash
  purpose : PaymentPurpose
  amountMsat : UInt64
  deriving DecidableEq

/-- `Event::PaymentSent` and `Event::PaymentFailed`. -/
inductive OutboundEvent where
  | paymentSent (paymentPreimage : PaymentPreimage) (paymentId : Option PaymentId)
  | paymentFailed (paymentId : PaymentId)
  deriving DecidableEq

inductive Event where
  | paymentClaimed (e : PaymentClaimed)
  | outbound (e : OutboundEvent)
  deriving DecidableEq

structure Stores where
  inbound : InboundPaymentInfoStorage
  outbound : OutboundPaymentInfoStorage

/-! ## Handlers -/

def handlePaymentClaimed (inbound : InboundPaymentInfoStorage) (e : PaymentClaimed) :
    InboundPaymentInfoStorage :=
  match inbound.payments.lookup e.paymentHash with
  | some _ => ⟨HashMap.modify inbound.payments e.paymentHash fun payment =>
      { payment with
        status := .succeeded
        preimage := e.purpose.secrets.1
        secret := e.purpose.secrets.2 }⟩
  | none => ⟨inbound.payments.insert e.paymentHash
      { preimage := e.purpose.secrets.1
        secret := e.purpose.secrets.2
        status := .succeeded
        amtMsat := ⟨some e.amountMsat⟩ }⟩

/-- `none` is the panic of `payment_id.unwrap()`, which the loop reaches when there is an entry. -/
def handlePaymentSent (outbound : OutboundPaymentInfoStorage) (paymentPreimage : PaymentPreimage)
    (paymentId : Option PaymentId) : Option OutboundPaymentInfoStorage :=
  match paymentId with
  | none => if outbound.payments.entries = [] then some outbound else none
  | some pid => some ⟨HashMap.iterMut outbound.payments fun id payment =>
      if id = pid then
        { payment with preimage := some paymentPreimage, status := .succeeded }
      else payment⟩

def handlePaymentFailed (outbound : OutboundPaymentInfoStorage) (paymentId : PaymentId) :
    OutboundPaymentInfoStorage :=
  if paymentId ∈ outbound.payments then
    ⟨HashMap.modify outbound.payments paymentId fun payment =>
      { payment with status := .failed }⟩
  else outbound

def handleOutbound (outbound : OutboundPaymentInfoStorage) :
    OutboundEvent → Option OutboundPaymentInfoStorage
  | .paymentSent preimage id => handlePaymentSent outbound preimage id
  | .paymentFailed id => some (handlePaymentFailed outbound id)

/-- `handle_ldk_events` on the payment events. -/
def handleLdkEvent (st : Stores) : Event → Option Stores
  | .paymentClaimed e => some { st with inbound := handlePaymentClaimed st.inbound e }
  | .outbound e => (handleOutbound st.outbound e).map fun o => { st with outbound := o }

def handleLdkEvents (st : Stores) : List Event → Option Stores
  | [] => some st
  | e :: es => (handleLdkEvent st e).bind fun st' => handleLdkEvents st' es

/-! ## What a handler does to one entry -/

/-- The entry of the event's hash after the event, when there was one. -/
def PaymentClaimed.update (payment : PaymentInfo) (e : PaymentClaimed) : PaymentInfo :=
  { payment with
    status := .succeeded
    preimage := e.purpose.secrets.1
    secret := e.purpose.secrets.2 }

/-- The entry of the event's hash after the event, when there was none. -/
def PaymentClaimed.entry (e : PaymentClaimed) : PaymentInfo :=
  { preimage := e.purpose.secrets.1
    secret := e.purpose.secrets.2
    status := .succeeded
    amtMsat := ⟨some e.amountMsat⟩ }

def OutboundEvent.paymentId? : OutboundEvent → Option PaymentId
  | paymentSent _ id => id
  | paymentFailed id => some id

def OutboundEvent.update (payment : PaymentInfo) : OutboundEvent → PaymentInfo
  | paymentSent preimage _ => { payment with preimage := some preimage, status := .succeeded }
  | paymentFailed _ => { payment with status := .failed }

theorem lookup_handlePaymentClaimed (i : InboundPaymentInfoStorage) (e : PaymentClaimed)
    (h : PaymentHash) :
    (handlePaymentClaimed i e).payments.lookup h =
      if h = e.paymentHash then
        upsert PaymentClaimed.entry PaymentClaimed.update (i.payments.lookup h) e
      else i.payments.lookup h := by
  unfold handlePaymentClaimed
  cases hl : i.payments.lookup e.paymentHash with
  | some p =>
    simp only [HashMap.lookup_modify]
    split
    · next hk => subst hk; rw [hl]; rfl
    · rfl
  | none =>
    simp only [HashMap.lookup_insert]
    split
    · next hk => subst hk; rw [hl]; rfl
    · rfl

theorem lookup_handlePaymentFailed (o : OutboundPaymentInfoStorage) (pid id : PaymentId) :
    (handlePaymentFailed o pid).payments.lookup id =
      if id = pid then (o.payments.lookup id).map (OutboundEvent.update · (.paymentFailed pid))
      else o.payments.lookup id := by
  unfold handlePaymentFailed
  split
  · rw [HashMap.lookup_modify]; rfl
  · next hm =>
    split
    · next hk => subst hk; rw [AList.lookup_eq_none.mpr hm]; rfl
    · rfl

/-- An event with a payment id is handled, and changes the entry of that id only. -/
theorem lookup_handleOutbound (o : OutboundPaymentInfoStorage) {e : OutboundEvent}
    {pid : PaymentId} (he : e.paymentId? = some pid) :
    ∃ o', handleOutbound o e = some o' ∧ ∀ id, o'.payments.lookup id =
      if id = pid then (o.payments.lookup id).map (OutboundEvent.update · e)
      else o.payments.lookup id := by
  cases e with
  | paymentSent preimage id =>
    cases he
    refine ⟨_, rfl, fun id => ?_⟩
    rw [HashMap.lookup_iterMut]
    split
    · next hk => subst hk; simp [OutboundEvent.update]
    · simp
  | paymentFailed id =>
    cases he
    exact ⟨_, rfl, lookup_handlePaymentFailed o pid⟩

/-- An event changes no entry but that of its own id. -/
theorem lookup_handleOutbound_ne {o o' : OutboundPaymentInfoStorage} {e : OutboundEvent}
    {id : PaymentId} (h : handleOutbound o e = some o') (hne : e.paymentId? ≠ some id) :
    o'.payments.lookup id = o.payments.lookup id := by
  cases hp : e.paymentId? with
  | none =>
    -- a `PaymentSent` without an id gets through an empty store only
    obtain ⟨preimage, rfl⟩ : ∃ preimage, e = .paymentSent preimage none := by
      cases e <;> simp_all [OutboundEvent.paymentId?]
    simp only [handleOutbound, handlePaymentSent] at h
    split at h <;> cases h
    rfl
  | some pid =>
    obtain ⟨o₂, h₂, hl⟩ := lookup_handleOutbound o hp
    rw [h] at h₂
    cases h₂
    have : id ≠ pid := fun e => hne (e ▸ hp)
    rw [hl id, if_neg this]

theorem lookup_handleOutbound_self {o o' : OutboundPaymentInfoStorage} {e : OutboundEvent}
    {id : PaymentId} (h : handleOutbound o e = some o') (he : e.paymentId? = some id) :
    o'.payments.lookup id = (o.payments.lookup id).map (OutboundEvent.update · e) := by
  obtain ⟨o₂, h₂, hl⟩ := lookup_handleOutbound o he
  rw [h] at h₂
  cases h₂
  rw [hl id, if_pos rfl]

/-- The entry that an event is about, as it was before. -/
theorem update_of_lookup {o o' : OutboundPaymentInfoStorage} {e : OutboundEvent} {id : PaymentId}
    {info' : PaymentInfo} (h : handleOutbound o e = some o') (he : e.paymentId? = some id)
    (hi : o'.payments.lookup id = some info') :
    ∃ info, o.payments.lookup id = some info ∧ info' = OutboundEvent.update info e := by
  rw [lookup_handleOutbound_self h he] at hi
  obtain ⟨info, hinfo, rfl⟩ := Option.map_eq_some_iff.mp hi
  exact ⟨info, hinfo, rfl⟩

theorem failed_of_paymentFailed {o o' : OutboundPaymentInfoStorage} {id : PaymentId}
    {info : PaymentInfo} (h : handleOutbound o (.paymentFailed id) = some o')
    (hi : o'.payments.lookup id = some info) : info.status = .failed := by
  obtain ⟨old, -, rfl⟩ := update_of_lookup h rfl hi
  rfl

theorem keys_handleOutbound {o o' : OutboundPaymentInfoStorage} {e : OutboundEvent}
    (h : handleOutbound o e = some o') : o'.payments.keys = o.payments.keys := by
  cases e with
  | paymentSent preimage id =>
    cases id with
    | none =>
      simp only [handleOutbound, handlePaymentSent] at h
      split at h <;> cases h
      rfl
    | some pid => cases h; exact HashMap.keys_iterMut ..
  | paymentFailed id =>
    cases h
    simp only [handlePaymentFailed]
    split
    · exact HashMap.keys_iterMut ..
    · rfl

/-! ## Lists of events -/

/-- The claims of one payment hash, in order. -/
def claimsOf (h : PaymentHash) (es : List Event) : List PaymentClaimed :=
  es.filterMap fun
    | .paymentClaimed e => if e.paymentHash = h then some e else none
    | .outbound _ => none

/-- The outbound events of one payment id, in order. -/
def sendsOf (id : PaymentId) (es : List Event) : List OutboundEvent :=
  es.filterMap fun
    | .paymentClaimed _ => none
    | .outbound e => if e.paymentId? = some id then some e else none

/-- An outbound event carries a payment id. -/
def Event.HasPaymentId : Event → Prop
  | paymentClaimed _ => True
  | outbound e => e.paymentId?.isSome

theorem claimsOf_append (h : PaymentHash) (a b : List Event) :
    claimsOf h (a ++ b) = claimsOf h a ++ claimsOf h b := List.filterMap_append

theorem sendsOf_append (id : PaymentId) (a b : List Event) :
    sendsOf id (a ++ b) = sendsOf id a ++ sendsOf id b := List.filterMap_append

/-- `st'` holds, entry by entry, what the events of that entry make of `st`. -/
def Handled (st : Stores) (es : List Event) (st' : Stores) : Prop :=
  (∀ h, st'.inbound.payments.lookup h =
    (claimsOf h es).foldl (upsert PaymentClaimed.entry PaymentClaimed.update)
      (st.inbound.payments.lookup h)) ∧
  ∀ id, st'.outbound.payments.lookup id =
    (sendsOf id es).foldl (fun o e => o.map (OutboundEvent.update · e))
      (st.outbound.payments.lookup id)

/-- One event with a payment id is handled, as `Handled` says. -/
theorem handleLdkEvent_spec (st : Stores) {e : Event} (he : e.HasPaymentId) :
    ∃ st', handleLdkEvent st e = some st' ∧ Handled st [e] st' := by
  cases e with
  | paymentClaimed e =>
    refine ⟨_, rfl, fun h => ?_, fun id => rfl⟩
    rw [lookup_handlePaymentClaimed]
    by_cases hk : e.paymentHash = h
    · simp [claimsOf, hk]
    · simp [claimsOf, hk, Ne.symm hk]
  | outbound e =>
    obtain ⟨pid, hp⟩ := Option.isSome_iff_exists.mp he
    obtain ⟨o', ho, hl⟩ := lookup_handleOutbound st.outbound hp
    refine ⟨{ st with outbound := o' }, by simp [handleLdkEvent, ho], fun h => rfl, fun id => ?_⟩
    rw [hl id]
    by_cases hk : pid = id
    · simp [sendsOf, hp, hk]
    · simp [sendsOf, hp, hk, Ne.symm hk]

theorem handleLdkEvents_spec {es : List Event} (hes : ∀ e ∈ es, e.HasPaymentId) (st : Stores) :
    ∃ st', handleLdkEvents st es = some st' ∧ Handled st es st' := by
  induction es generalizing st with
  | nil => exact ⟨st, rfl, fun h => rfl, fun id => rfl⟩
  | cons e es ih =>
    obtain ⟨st₁, h₁, hi₁, ho₁⟩ := handleLdkEvent_spec st (hes e List.mem_cons_self)
    obtain ⟨st₂, h₂, hi₂, ho₂⟩ := ih (fun f hf => hes f (List.mem_cons_of_mem _ hf)) st₁
    refine ⟨st₂, by simp [handleLdkEvents, h₁, h₂], fun h => ?_, fun id => ?_⟩
    · rw [hi₂ h, hi₁ h, ← List.foldl_append, ← claimsOf_append]; rfl
    · rw [ho₂ id, ho₁ id, ← List.foldl_append, ← sendsOf_append]; rfl

/-! ## Redelivery and reordering -/

theorem overwrites_claim : Overwrites PaymentClaimed.update where
  idem _ _ := rfl
  ker x y e f h := by
    simp only [PaymentClaimed.update, PaymentInfo.mk.injEq, true_and] at h ⊢
    exact h

theorem overwrites_send : Overwrites OutboundEvent.update where
  idem x e := by cases e <;> rfl
  ker x y e f h := by
    cases e <;> cases f <;>
      simp_all [OutboundEvent.update]

/-- The stores as maps, whatever the iteration order. -/
def Stores.maps (st : Stores) :
    (Finmap fun _ : PaymentHash => PaymentInfo) × (Finmap fun _ : PaymentId => PaymentInfo) :=
  (st.inbound.payments.toFinmap, st.outbound.payments.toFinmap)

theorem Stores.maps_ext {st st' : Stores}
    (hi : ∀ h, st.inbound.payments.lookup h = st'.inbound.payments.lookup h)
    (ho : ∀ id, st.outbound.payments.lookup id = st'.outbound.payments.lookup id) :
    st.maps = st'.maps := by
  rw [maps, maps, HashMap.toFinmap_ext hi, HashMap.toFinmap_ext ho]

/-- Handling a suffix again changes no entry. -/
theorem Handled.replay {st s₁ s₂ : Stores} {a b : List Event} (h₁ : Handled st (a ++ b) s₁)
    (h₂ : Handled s₁ b s₂) : s₂.maps = s₁.maps := by
  apply Stores.maps_ext
  · intro h
    rw [h₂.1 h, h₁.1 h, claimsOf_append, List.foldl_append,
      foldl_upsert_replay overwrites_claim fun _ => rfl]
  · intro id
    rw [h₂.2 id, h₁.2 id, sendsOf_append, List.foldl_append, foldl_map, foldl_map, Option.map_map]
    congr 1
    funext v
    exact overwrites_send.replay fun e h => h

theorem Handled.reorder {st s₁ s₂ : Stores} {es es' : List Event} (h₁ : Handled st es s₁)
    (h₂ : Handled st es' s₂) (hc : ∀ h, claimsOf h es = claimsOf h es')
    (hs : ∀ id, sendsOf id es = sendsOf id es') : s₁.maps = s₂.maps :=
  Stores.maps_ext (fun h => by rw [h₁.1 h, h₂.1 h, hc h]) fun id => by rw [h₁.2 id, h₂.2 id, hs id]

/-- An entry the event is not about stays as it is. -/
theorem handleLdkEvent_frame {st st' : Stores} {e : Event} (he : handleLdkEvent st e = some st') :
    st'.outbound.payments.keys = st.outbound.payments.keys ∧
    (∀ h, claimsOf h [e] = [] → st'.inbound.payments.lookup h = st.inbound.payments.lookup h) ∧
    ∀ id, sendsOf id [e] = [] → st'.outbound.payments.lookup id = st.outbound.payments.lookup id := by
  cases e with
  | paymentClaimed e =>
    cases he
    refine ⟨rfl, fun h hh => ?_, fun id _ => rfl⟩
    have hne : h ≠ e.paymentHash := by
      rintro rfl
      simp [claimsOf] at hh
    rw [lookup_handlePaymentClaimed, if_neg hne]
  | outbound e =>
    simp only [handleLdkEvent, Option.map_eq_some_iff] at he
    obtain ⟨o', ho, rfl⟩ := he
    refine ⟨keys_handleOutbound ho, fun h _ => rfl, fun id hid => ?_⟩
    apply lookup_handleOutbound_ne ho
    intro hp
    simp [sendsOf, hp] at hid

/-- Event handling is safe under redelivery of a suffix and under reordering across payments. -/
theorem handleLdkEvents_redelivery (st : Stores) (a b es es' : List Event)
    (hab : ∀ e ∈ a ++ b, e.HasPaymentId) (hes : ∀ e ∈ es, e.HasPaymentId)
    (hes' : ∀ e ∈ es', e.HasPaymentId) (hc : ∀ h, claimsOf h es = claimsOf h es')
    (hs : ∀ id, sendsOf id es = sendsOf id es') :
    (∃ s₁ s₂, handleLdkEvents st (a ++ b) = some s₁ ∧ handleLdkEvents s₁ b = some s₂ ∧
      s₂.maps = s₁.maps) ∧
    (∃ s s', handleLdkEvents st es = some s ∧ handleLdkEvents st es' = some s' ∧
      s.maps = s'.maps) ∧
    ∀ e st', handleLdkEvent st e = some st' →
      st'.outbound.payments.keys = st.outbound.payments.keys ∧
      (∀ h, claimsOf h [e] = [] → st'.inbound.payments.lookup h = st.inbound.payments.lookup h) ∧
      ∀ id, sendsOf id [e] = [] →
        st'.outbound.payments.lookup id = st.outbound.payments.lookup id := by
  refine ⟨?_, ?_, fun e st' he => handleLdkEvent_frame he⟩
  · obtain ⟨s₁, h₁, H₁⟩ := handleLdkEvents_spec hab st
    obtain ⟨s₂, h₂, H₂⟩ :=
      handleLdkEvents_spec (fun e he => hab e (List.mem_append_right _ he)) s₁
    exact ⟨s₁, s₂, h₁, h₂, H₁.replay H₂⟩
  · obtain ⟨s, h, H⟩ := handleLdkEvents_spec hes st
    obtain ⟨s', h', H'⟩ := handleLdkEvents_spec hes' st
    exact ⟨s, s', h, h', H.reorder H' hc hs⟩

/-- A failure and a success of one payment, with a claim before or after them. -/
theorem handleLdkEvents_redelivery_run :
    let id : PaymentId := ⟨Vector.replicate 32 1⟩
    let failed : Event := .outbound (.paymentFailed id)
    let sent : Event := .outbound (.paymentSent ⟨Vector.replicate 32 2⟩ (some id))
    let claimed : Event := .paymentClaimed
      ⟨⟨Vector.replicate 32 3⟩, .spontaneousPayment ⟨Vector.replicate 32 4⟩, 5⟩
    let st : Stores := ⟨⟨∅⟩, ⟨AList.singleton id ⟨none, none, .pending, ⟨some 6⟩⟩⟩⟩
    (∃ s₁ s₂, handleLdkEvents st ([claimed] ++ [failed, sent]) = some s₁ ∧
      handleLdkEvents s₁ [failed, sent] = some s₂ ∧ s₂.maps = s₁.maps) ∧
    ∃ s s', handleLdkEvents st [claimed, failed, sent] = some s ∧
      handleLdkEvents st [failed, sent, claimed] = some s' ∧ s.maps = s'.maps := by
  intro id failed sent claimed st
  have h := handleLdkEvents_redelivery st [claimed] [failed, sent] [claimed, failed, sent]
    [failed, sent, claimed]
    (by simp [Event.HasPaymentId, claimed, failed, sent, OutboundEvent.paymentId?])
    (by simp [Event.HasPaymentId, claimed, failed, sent, OutboundEvent.paymentId?])
    (by simp [Event.HasPaymentId, claimed, failed, sent, OutboundEvent.paymentId?])
    (fun _ => rfl) (fun _ => rfl)
  exact ⟨h.1, h.2.1⟩

end LdkSample
