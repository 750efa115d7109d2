import LdkSample.Events.Handler
import LdkSample.Machine.Observed

/-!
# The calls of the event handler

What others see of `handle_ldk_events` apart from what it prints: its calls of LDK, of the store and
of the output sweeper, and the payment stores. An event makes the call that is due for it over the
stores as they are (`callFor`), or none, and the handler goes through the events in order: what is
seen of it is `scriptAll`, at any moment and whatever its calls answer (`calls_in_order`).
-/

namespace LdkSample

namespace Events

open Crash
open Script (last)

variable {Tx B : Type}

/-! ## What is due -/

/-- What the event is to the payment stores. -/
def Event.payment? : Event B → Option LdkSample.Event
  | .paymentClaimed event => some (.paymentClaimed event)
  | .paymentSent event => some (.outbound (.paymentSent event.paymentPreimage event.paymentId))
  | .paymentFailed event => some (.outbound (.paymentFailed event.paymentId))
  | _ => none

/-- The events that a call is due for. -/
def Event.acts : Event B → Bool
  | .fundingGenerationReady _ | .paymentClaimable _ | .paymentClaimed _ | .paymentSent _
  | .openChannelRequest .. | .paymentFailed _ | .spendableOutputs .. | .bumpTransaction _
  | .connectionNeeded .. => true
  | _ => false

/-- The call of an event that leaves the stores `st`; `none` where there is nothing to call with. -/
def callFor (K : Crates Tx) (env : Env) (st : Stores) : Event B → Option (Call Tx B)
  | .fundingGenerationReady event =>
    (Bitcoind.handleFundingGenerationReady env.callMethod K.consensus K.toAddress env.fees K.network
      event).map .fundingTransactionGenerated
  | .paymentClaimable event => event.purpose.paymentPreimage.map .claimFunds
  | .paymentClaimed _ => (toVec st.inbound.encode).map .writeInbound
  | .paymentSent _ | .paymentFailed _ => (toVec st.outbound.encode).map .writeOutbound
  | .openChannelRequest temporaryChannelId counterpartyNodeId => some
    (.acceptInboundChannel temporaryChannelId counterpartyNodeId (userChannelId env.randomBytes))
  | .spendableOutputs outputs channelId =>
    some (.trackSpendableOutputs outputs channelId false none)
  | .bumpTransaction event => some (.bumpTransaction event)
  | .connectionNeeded nodeId addresses => some (.spawn nodeId addresses)
  | _ => none

/-- The call comes back without an error that the handler panics on. -/
def Event.succeeds (env : Env) : Event B → Bool
  | .paymentClaimed _ | .paymentSent _ | .paymentFailed _ => env.writeOk
  | .spendableOutputs .. => env.trackOk
  | _ => true

/-! ## What is seen -/

structure Seen (Tx B : Type) where
  stores : Stores
  log : List (Act Tx B)

def Seen.hear (x : Seen Tx B) (st : Stores) (a : Act Tx B) : Seen Tx B := ⟨st, x.log ++ [a]⟩

/-- A call that is made with the change of the stores, and its return. -/
def called (x : Seen Tx B) (st : Stores) (c : Call Tx B) (ok : Bool) : Script (Seen Tx B) :=
  if ok then ⟨[x.hear st (.call c), (x.hear st (.call c)).hear st (.returned c)], true⟩
  else ⟨[x.hear st (.call c)], false⟩

/-- A call that is due, if there is something to call with. -/
def calledWith (x : Seen Tx B) (st : Stores) (ok : Bool) : Option (Call Tx B) → Script (Seen Tx B)
  | some c => called x st c ok
  | none => .panic

/-- What is seen of one event. -/
def script (K : Crates Tx) (env : Env) (e : Event B) (x : Seen Tx B) : Script (Seen Tx B) :=
  if e.acts then
    match handleLdkEvents x.stores e.payment?.toList with
    | some st => calledWith x st (e.succeeds env) (callFor K env st e)
    | none => .panic
  else .quiet

variable {K : Crates Tx} {w : World Tx B} {st : Stores}

/-- Each call has returned. -/
def Returned : List (Act Tx B) → Prop
  | [] => True
  | .call c :: .returned c' :: acts => c' = c ∧ Returned acts
  | _ => False

theorem Returned.concat {acts : List (Act Tx B)} (h : Returned acts) (c : Call Tx B) :
    Returned (acts ++ [.call c] ++ [.returned c]) := by
  induction acts using Returned.induct with
  | case1 => exact ⟨rfl, trivial⟩
  | case2 c' c'' acts ih => exact ⟨h.1, ih h.2⟩
  | case3 acts hnil hcall =>
    unfold Returned at h
    split at h
    · exact absurd rfl hnil
    · exact absurd rfl (hcall _ _ _)
    · exact h.elim

end Events

end LdkSample
