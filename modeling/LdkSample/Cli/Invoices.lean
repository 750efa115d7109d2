import LdkSample.Cli.Poll
import LdkSample.Payment.Inbound

/-!
# Sessions and received payments

A session also follows the machine of the inbound store: `getinvoice` takes its steps, and no other
command touches the store (`Aside`). As long as `create_bolt11_invoice` returns hashes that have not
been used, a session neither loses nor makes up a received payment (`session_keeps_claims`).
-/

namespace LdkSample

namespace Cli

open Node (PublicKey SocketAddr)
open Outbound (SendCmd)

/-! ## Commands that leave the store alone -/

def Act.inboundWrite? : Act → Option Bytes
  | .writeInbound bytes => some bytes
  | _ => none

/-- The writes of the inbound store, in order. -/
def inboundWrites (log : List Act) : List Bytes := log.filterMap Act.inboundWrite?

theorem inboundWrites_other {a : Act} (ha : a.inboundWrite? = none) (log : List Act) :
    inboundWrites (log ++ [a]) = inboundWrites log := by
  unfold inboundWrites
  rw [List.filterMap_append, List.filterMap_cons_none ha]
  exact List.append_nil _

theorem inboundWrites_write (log : List Act) (bytes : Bytes) :
    inboundWrites (log ++ [.writeInbound bytes]) = inboundWrites log ++ [bytes] :=
  List.filterMap_append

/-- The inbound store, and what has been written of it. -/
def HasInbound (inbound : InboundPaymentInfoStorage) (writes : List Bytes) (w : World) : Prop :=
  w.inbound = inbound ∧ inboundWrites w.log = writes

def Aside {α : Type} (m : Crash World α) : Prop :=
  ∀ inbound writes, Crash.Keeps (HasInbound inbound writes) m

section Rules

variable {α β : Type}

theorem aside_pure (a : α) : Aside (pure a) := fun _ _ => Crash.keeps_pure a

theorem aside_abort : Aside (Crash.abort : Crash World α) := fun _ _ => Crash.keeps_abort

theorem aside_unwrap (o : Option α) : Aside (Crash.unwrap o) := fun _ _ => Crash.keeps_unwrap o

theorem aside_act {a : Act} {f : World → World} (ha : a.inboundWrite? = none)
    (hf : ∀ w, (f w).inbound = w.inbound) : Aside (act a f) :=
  fun _ _ => Crash.keeps_modify fun w ⟨hi, hw⟩ =>
    ⟨(hf w).trans hi, (inboundWrites_other ha w.log).trans hw⟩

theorem aside_note {a : Act} (ha : a.inboundWrite? = none) : Aside (note a) :=
  aside_act ha fun _ => rfl

theorem Aside.bind {m : Crash World α} {f : α → Crash World β} (hm : Aside m)
    (hf : ∀ a, Aside (f a)) : Aside (m >>= f) :=
  fun inbound writes => Crash.Keeps.bind (hm inbound writes) fun a => hf a inbound writes

theorem aside_get {f : World → Crash World α} (hf : ∀ w, Aside (f w)) : Aside (Crash.get >>= f) :=
  fun inbound writes => Crash.keeps_get fun w => hf w inbound writes

theorem aside_deliver (events : List OutboundEvent) : Aside (deliver events) := by
  refine fun inbound writes => Crash.keeps_forEach fun event => Crash.keeps_get fun w => ?_
  exact (Crash.keeps_unwrap _).bind fun outbound => Crash.keeps_modify fun _ hw => hw

end Rules

variable {K : Crates} {e : Env}

theorem connectPeerIfNecessary_aside (nodeId : PublicKey) (addr : SocketAddr) :
    Aside (connectPeerIfNecessary e nodeId addr) := by
  have hrounds : ∀ rounds, Aside (awaitConnection nodeId rounds) := by
    intro rounds
    induction rounds with
    | nil => exact aside_abort
    | cons round rounds ih =>
      cases round with
      | closed => exact aside_pure _
      | tick connected =>
        refine (aside_note rfl).bind fun _ => ?_
        split
        · exact aside_pure _
        · exact ih
  refine ((aside_note rfl).bind fun _ => aside_pure _).bind fun connected => ?_
  split
  · exact aside_pure _
  · refine Aside.bind ((aside_note rfl).bind fun _ => ?_) fun ok => ?_
    · split
      · exact hrounds _
      · exact aside_pure _
    · split
      · exact aside_pure _
      · exact (aside_note rfl).bind fun _ => aside_pure _

theorem connectpeer_aside (words : List String) : Aside (connectpeer K e words) := by
  cases words with
  | nil => exact aside_note rfl
  | cons word words =>
    simp only [connectpeer]
    split
    · exact aside_note rfl
    · refine (connectPeerIfNecessary_aside _ _).bind fun ok => ?_
      split
      · exact aside_note rfl
      · exact aside_pure _

theorem disconnectpeer_aside (words : List String) : Aside (disconnectpeer K e words) := by
  cases words with
  | nil => exact aside_note rfl
  | cons word words =>
    simp only [disconnectpeer]
    split
    · exact aside_note rfl
    · refine Aside.bind ?_ fun ok => ?_
      · unfold doDisconnectPeer
        split
        · exact (aside_note rfl).bind fun _ => aside_pure _
        · refine ((aside_note rfl).bind fun _ => aside_pure _).bind fun connected => ?_
          split
          · exact (aside_note rfl).bind fun _ => aside_pure _
          · exact (aside_note rfl).bind fun _ => aside_pure _
      · split
        · exact aside_note rfl
        · exact aside_pure _

theorem close_aside (command : CloseCommand) (words : List String) :
    Aside (close K e command words) := by
  cases words with
  | nil => exact aside_note rfl
  | cons word words =>
    simp only [close]
    split
    · exact aside_note rfl
    · split
      · split
        · exact aside_note rfl
        · split
          · exact aside_note rfl
          · refine (aside_note rfl).bind fun _ => ?_
            split
            · exact aside_note rfl
            · exact aside_note rfl
      · exact aside_note rfl

theorem readFlags_aside (flags : List String) (announceChannel withAnchors : Bool) :
    Aside (readFlags flags announceChannel withAnchors) := by
  induction flags generalizing announceChannel withAnchors with
  | nil => exact aside_pure _
  | cons word flags ih =>
    unfold readFlags
    split
    all_goals first | exact ih _ _ | exact (aside_note rfl).bind fun _ => ih _ _

theorem openchannel_aside (words : List String) : Aside (openchannel K e words) := by
  match words with
  | [] => exact aside_note rfl
  | [_] => exact aside_note rfl
  | word :: amt :: flags =>
    refine Aside.bind ?_ fun r => ?_
    · unfold reachPeer
      dsimp only
      split
      · exact (aside_note rfl).bind fun _ => aside_pure _
      · split
        · refine ((aside_note rfl).bind fun _ => aside_pure _).bind fun connected => ?_
          split
          · exact aside_pure _
          · exact (aside_note rfl).bind fun _ => aside_pure _
        · split
          · exact (aside_note rfl).bind fun _ => aside_pure _
          · refine (connectPeerIfNecessary_aside _ _).bind fun ok => ?_
            split
            · exact aside_pure _
            · exact aside_pure _
    · split
      · exact aside_pure _
      · split
        · exact aside_note rfl
        · refine (readFlags_aside flags false false).bind fun values => (aside_note rfl).bind fun _ => ?_
          split
          · exact aside_note rfl
          · exact aside_note rfl

theorem getoffer_aside (words : List String) : Aside (getoffer e words) := by
  unfold getoffer
  split
  · exact aside_note rfl
  · split
    · exact aside_note rfl
    · exact aside_note rfl

/-! ### Payments -/

theorem send_aside (cmd : SendCmd) (id : PaymentId) (info : PaymentInfo) (call : PayCall) :
    Aside (send e cmd id info call) := by
  have hwrite : ∀ guarded, Aside (writeOutbound e guarded) := by
    intro guarded
    unfold writeOutbound
    split
    · exact aside_get fun w => aside_note rfl
    · exact (aside_deliver _).bind fun _ => aside_get fun w =>
        (aside_deliver _).bind fun _ => aside_note rfl
  have hrefusal : Aside (recordRefusal e id) := by
    refine (aside_deliver _).bind fun _ => aside_get fun w => (aside_unwrap _).bind fun outbound =>
      Aside.bind ?_ fun _ => aside_unwrap _
    exact aside_act rfl fun _ => rfl
  refine Aside.bind (aside_act rfl fun _ => rfl) fun _ => (hwrite _).bind fun _ =>
    (aside_deliver _).bind fun _ => (aside_unwrap _).bind fun _ => ?_
  refine Aside.bind (aside_note rfl) fun _ => ?_
  split
  · exact aside_note rfl
  · split
    · exact Aside.bind (aside_note rfl) fun _ => hrefusal
    · exact aside_note rfl

theorem confirm_aside (amtMsat : UInt64) (stdin : List Input) : Aside (confirm amtMsat stdin) := by
  induction stdin with
  | nil => exact (aside_note rfl).bind fun _ => aside_abort
  | cons input stdin ih =>
    refine (aside_note rfl).bind fun _ => (aside_deliver _).bind fun _ =>
      (aside_note rfl).bind fun _ => ?_
    split
    · exact (aside_note rfl).bind fun _ => aside_pure _
    · exact (aside_note rfl).bind fun _ => aside_pure _
    · split
      · exact aside_pure _
      · split
        · exact aside_pure _
        · exact ih

theorem payForOffer_aside (offer : Offer) (typed : Option UInt64) :
    Aside (payForOffer e offer typed) := by
  unfold payForOffer
  dsimp only
  split
  · exact (aside_note rfl).bind fun _ => aside_pure _
  · split
    · split
      · exact (send_aside _ _ _ _).bind fun _ => aside_pure _
      · exact (aside_note rfl).bind fun _ => aside_pure _
    · refine (confirm_aside _ _).bind fun answer => ?_
      split
      · exact (send_aside _ _ _ _).bind fun _ => aside_pure _
      · exact aside_pure _
      · exact aside_pure _

theorem sendpayment_aside (words : List String) : Aside (sendpayment K e words) := by
  cases words with
  | nil => exact (aside_note rfl).bind fun _ => aside_pure _
  | cons invoiceStr words =>
    simp only [sendpayment]
    split
    · exact (aside_note rfl).bind fun _ => aside_pure _
    · split
      · exact payForOffer_aside _ _
      · split
        · refine Aside.bind ?_ fun _ => aside_pure _
          unfold payForHumanReadableName
          dsimp only
          split
          · exact aside_note rfl
          · split
            · exact aside_note rfl
            · exact send_aside _ _ _ _
        · split
          · refine Aside.bind ?_ fun _ => aside_pure _
            unfold sendPayment
            dsimp only
            split
            · exact send_aside _ _ _ _
            · split
              · exact aside_note rfl
              · exact aside_note rfl
          · exact (aside_note rfl).bind fun _ => aside_pure _

theorem keysend_aside (words : List String) : Aside (keysend K e words) := by
  match words with
  | [] => exact aside_note rfl
  | dest :: words =>
    simp only [keysend]
    split
    · exact aside_note rfl
    · split
      · exact aside_note rfl
      · split
        · exact aside_note rfl
        · exact send_aside _ _ _ _

/-- A line is of `getinvoice`, or leaves the store alone. -/
theorem handleLine_aside (K : Crates) (e : Env) (line : String) :
    (∃ words, handleLine K e line = getinvoice e words >>= fun _ => pure .readCommand) ∨
      Aside (handleLine K e line) := by
  have unit {m : Crash World Unit} (h : Aside m) :
      Aside (m >>= fun _ => (pure Next.readCommand : Crash World Next)) :=
    h.bind fun _ => aside_pure _
  unfold handleLine
  dsimp only
  split
  · exact .inr (aside_pure _)
  · next word words _ =>
    split
    · exact .inr (unit (openchannel_aside words))
    · exact .inr (sendpayment_aside words)
    · exact .inr (unit (keysend_aside words))
    · exact .inr (unit (getoffer_aside words))
    · exact .inl ⟨words, rfl⟩
    · exact .inr (unit (connectpeer_aside words))
    · exact .inr (unit (disconnectpeer_aside words))
    · exact .inr (unit (close_aside _ words))
    · exact .inr (unit (close_aside _ words))
    · refine .inr (unit ?_)
      unfold signmessage
      split
      · exact aside_note rfl
      · exact aside_note rfl
    · exact .inr (aside_pure _)
    · exact .inr (aside_pure _)
    · exact .inr (aside_pure _)
    · exact .inr (aside_pure _)
    · exact .inr (aside_pure _)
    · exact .inr (aside_pure _)
    · exact .inr (aside_pure _)
    · exact .inr (unit (aside_note rfl))

/-! ## The machine of the inbound store -/

/-- The store is that of the machine, with its writes; the claims it has handled are `handled`. -/
structure SameInbound (handled : List PaymentClaimed) (s : Inbound.State) (w : World) : Prop where
  inbound : s.inbound = w.inbound
  writes : s.writes = inboundWrites w.log
  handled : s.handled = handled

/-- And `getinvoice` is here, with no hash used but those in `used`. -/
structure At (handled : List PaymentClaimed) (used : List PaymentHash) (lock : Option Inbound.Task)
    (cli : Inbound.Cli) (s : Inbound.State) (w : World) : Prop extends SameInbound handled s w where
  used : ∀ h ∈ s.used, h ∈ used
  lock : s.lock = lock
  cli : s.cli = cli

/-- Between two commands. -/
def Idle (handled : List PaymentClaimed) (used : List PaymentHash) : Inbound.State → World → Prop :=
  At handled used none .idle

section Machine

variable {s₀ : Inbound.State} {handled : List PaymentClaimed} {used : List PaymentHash}
  {lock : Option Inbound.Task} {cli : Inbound.Cli}

theorem follows_same {w : World} (h : Inbound.machine.Follows s₀ (At handled used lock cli) w) :
    Inbound.machine.Follows s₀ (SameInbound handled) w :=
  h.mono fun _ hs => hs.toSameInbound

/-- Programs that leave the store alone stay where they are. -/
theorem Aside.follows {α : Type} {m : Crash World α} (h : Aside m) :
    Crash.Triple (Inbound.machine.Follows s₀ (At handled used lock cli)) m
      (fun _ => Inbound.machine.Follows s₀ (At handled used lock cli))
      (Inbound.machine.Follows s₀ (SameInbound handled)) := by
  intro w hw
  have hstay : ∀ t, HasInbound w.inbound (inboundWrites w.log) t →
      Inbound.machine.Follows s₀ (At handled used lock cli) t := fun t ht => hw.mono fun s hs =>
    ⟨⟨hs.inbound.trans ht.1.symm, hs.writes.trans ht.2.symm, hs.handled⟩, hs.used, hs.lock, hs.cli⟩
  obtain ⟨hc, hq⟩ := h w.inbound (inboundWrites w.log) w ⟨rfl, rfl⟩
  exact ⟨fun t ht => follows_same (hstay t (hc t ht)), fun a t ht => hstay t (hq a t ht)⟩

/-- The hashes used once the invoice of the command has been created. -/
def usedBy (e : Env) (used : List PaymentHash) : List PaymentHash :=
  match e.bolt11Invoice with
  | some (hash, _) => hash :: used
  | none => used

theorem usedBy_some {e : Env} {hash : PaymentHash} {secret : PaymentSecret}
    (he : e.bolt11Invoice = some (hash, secret)) (used : List PaymentHash) :
    usedBy e used = hash :: used := by
  unfold usedBy
  rw [he]

theorem usedBy_none {e : Env} (he : e.bolt11Invoice = none) (used : List PaymentHash) :
    usedBy e used = used := by
  unfold usedBy
  rw [he]

theorem subset_usedBy (e : Env) (used : List PaymentHash) : used ⊆ usedBy e used := by
  unfold usedBy
  split
  · exact List.subset_cons_self _ _
  · exact List.Subset.refl _

/-- The invoice that the command creates has a fresh hash. -/
def FreshInvoice (e : Env) (used : List PaymentHash) : Prop :=
  ∀ invoice ∈ e.bolt11Invoice, invoice.1 ∉ used

instance (e : Env) (used : List PaymentHash) : Decidable (FreshInvoice e used) := by
  unfold FreshInvoice
  infer_instance

theorem locked_follows {w : World} (amtMsat : UInt64)
    (hw : Inbound.machine.Follows s₀ (Idle handled used) w) :
    Inbound.machine.Follows s₀ (At handled used (some .cli) (.locked amtMsat)) w := by
  refine hw.next (.getinvoice amtMsat) fun s hs =>
    ⟨{ s with lock := some .cli, cli := .locked amtMsat }, ?_,
      ⟨hs.inbound, hs.writes, hs.handled⟩, hs.used, rfl, rfl⟩
  simp only [Inbound.machine, Inbound.step, hs.lock, hs.cli]

/-- `create_bolt11_invoice` succeeds, with a fresh hash. -/
theorem created_follows {w : World} {amtMsat : UInt64} {hash : PaymentHash} (secret : PaymentSecret)
    (hfresh : hash ∉ used)
    (hw : Inbound.machine.Follows s₀ (At handled used (some .cli) (.locked amtMsat)) w) :
    Inbound.machine.Follows s₀ (At handled (hash :: used) (some .cli)
      (.created (some ⟨hash, secret, amtMsat⟩))) w := by
  refine hw.next (.create (some (hash, secret))) fun s hs => ⟨{ s with
    cli := .created (some ⟨hash, secret, amtMsat⟩)
    issued := ⟨hash, secret, amtMsat⟩ :: s.issued
    used := hash :: s.used }, ?_, ⟨hs.inbound, hs.writes, hs.handled⟩, ?_, hs.lock, rfl⟩
  · have hnot : hash ∉ s.used := fun h => hfresh (hs.used hash h)
    simp only [Inbound.machine, Inbound.step, hs.cli, if_neg hnot]
  · intro h hh
    rcases List.mem_cons.mp hh with rfl | hh
    · exact List.mem_cons_self
    · exact List.mem_cons_of_mem _ (hs.used h hh)

/-- The entry is inserted. -/
theorem recorded_follows {w : World} (i : Inbound.Issued)
    (hw : Inbound.machine.Follows s₀ (At handled used (some .cli) (.created (some i))) w) :
    Inbound.machine.Follows s₀ (At handled used (some .cli) .recorded)
      { w with
        inbound := Inbound.getInvoice w.inbound (some i)
        log := w.log ++ [.insertInbound i.paymentHash] } := by
  refine hw.next .record fun s hs => ⟨{ s with
    inbound := Inbound.getInvoice s.inbound (some i)
    cli := .recorded }, ?_, ⟨?_, ?_, hs.handled⟩, hs.used, hs.lock, rfl⟩
  · simp only [Inbound.machine, Inbound.step, hs.cli]
  · exact congrArg (Inbound.getInvoice · (some i)) hs.inbound
  · exact hs.writes.trans (inboundWrites_other rfl w.log).symm

/-- `create_bolt11_invoice` fails, and nothing is inserted. -/
theorem failed_follows {w : World} {amtMsat : UInt64}
    (hw : Inbound.machine.Follows s₀ (At handled used (some .cli) (.locked amtMsat)) w) :
    Inbound.machine.Follows s₀ (At handled used (some .cli) .recorded) w := by
  have hnone : Inbound.machine.Follows s₀ (At handled used (some .cli) (.created none)) w :=
    hw.next (.create none) fun s hs => ⟨{ s with cli := .created none },
      by simp only [Inbound.machine, Inbound.step, hs.cli],
      ⟨hs.inbound, hs.writes, hs.handled⟩, hs.used, hs.lock, rfl⟩
  exact hnone.next .record fun s hs => ⟨{ s with cli := .recorded },
    by simp only [Inbound.machine, Inbound.step, hs.cli, Inbound.getInvoice],
    ⟨hs.inbound, hs.writes, hs.handled⟩, hs.used, hs.lock, rfl⟩

/-- `get_invoice`, with the lock that `getinvoice` takes before it. -/
theorem getInvoice_follows {e : Env} (hfresh : FreshInvoice e used) (amtMsat : UInt64) :
    Crash.Triple (Inbound.machine.Follows s₀ (Idle handled used)) (getInvoice e amtMsat)
      (fun _ => Inbound.machine.Follows s₀ (At handled (usedBy e used) (some .cli) .recorded))
      (Inbound.machine.Follows s₀ (SameInbound handled)) := by
  unfold getInvoice
  split
  · next hash secret he =>
    rw [usedBy_some he]
    have hnew : hash ∉ used := hfresh _ he
    refine .bind ((aside_note rfl).follows.pre fun w hw =>
      created_follows secret hnew (locked_follows amtMsat hw)) fun _ => ?_
    exact .modify (fun w hw => follows_same (recorded_follows ⟨hash, secret, amtMsat⟩ hw))
      fun w hw => recorded_follows ⟨hash, secret, amtMsat⟩ hw
  · next he =>
    rw [usedBy_none he]
    exact (aside_note rfl).follows.pre fun w hw => failed_follows (locked_follows amtMsat hw)

/-- The write, after which the guard is dropped. -/
theorem written_follows {w : World}
    (hw : Inbound.machine.Follows s₀ (At handled used (some .cli) .recorded) w) :
    Inbound.machine.Follows s₀ (At handled used none .awaiting)
      { w with log := w.log ++ [.writeInbound w.inbound.encode] } := by
  have hwritten : Inbound.machine.Follows s₀ (At handled used (some .cli) .written)
      { w with log := w.log ++ [.writeInbound w.inbound.encode] } := by
    refine hw.next .write fun s hs => ⟨{ s with
      writes := s.writes ++ [s.inbound.encode]
      cli := .written }, ?_, ⟨hs.inbound, ?_, hs.handled⟩, hs.used, hs.lock, rfl⟩
    · simp only [Inbound.machine, Inbound.step, hs.cli]
    · show s.writes ++ [s.inbound.encode] = inboundWrites (w.log ++ [.writeInbound w.inbound.encode])
      rw [inboundWrites_write, hs.writes, hs.inbound]
  refine hwritten.next .unlock fun s hs => ⟨{ s with lock := none, cli := .awaiting }, ?_,
    ⟨hs.inbound, hs.writes, hs.handled⟩, hs.used, rfl, rfl⟩
  simp only [Inbound.machine, Inbound.step, hs.cli]

end Machine

/-! ## Sessions -/

section Session

variable {s₀ : Inbound.State} {handled : List PaymentClaimed} {used : List PaymentHash}

/-- From between two commands to between two commands, where the hashes in `used'` are used. -/
def FollowsInvoices {α : Type} (s₀ : Inbound.State) (handled : List PaymentClaimed)
    (used used' : List PaymentHash) (m : Crash World α) : Prop :=
  Crash.Triple (Inbound.machine.Follows s₀ (Idle handled used)) m
    (fun _ => Inbound.machine.Follows s₀ (Idle handled used'))
    (Inbound.machine.Follows s₀ (SameInbound handled))

theorem idle_grow {used' : List PaymentHash} (hsub : used ⊆ used') {w : World}
    (hw : Inbound.machine.Follows s₀ (Idle handled used) w) :
    Inbound.machine.Follows s₀ (Idle handled used') w :=
  hw.mono fun _ hs => ⟨hs.toSameInbound, fun h hh => hsub (hs.used h hh), hs.lock, hs.cli⟩

theorem Aside.followsInvoices {α : Type} {m : Crash World α} (h : Aside m)
    {used' : List PaymentHash} (hsub : used ⊆ used') : FollowsInvoices s₀ handled used used' m :=
  h.follows.post (fun _ _ hw => idle_grow hsub hw) fun _ hw => hw

theorem getinvoice_follows {e : Env} (hfresh : FreshInvoice e used) (words : List String) :
    FollowsInvoices s₀ handled used (usedBy e used) (getinvoice e words) := by
  have herror : ∀ error, FollowsInvoices s₀ handled used (usedBy e used) (argError error) :=
    fun error => (aside_note rfl).followsInvoices (subset_usedBy e used)
  unfold getinvoice
  split
  · exact herror _
  · split
    · exact herror _
    · split
      · exact herror _
      · split
        · exact herror _
        · refine .bind (getInvoice_follows hfresh _) fun _ => .get fun w₀ hw => ?_
          refine .bind (Q := fun _ => Inbound.machine.Follows s₀
            (At handled (usedBy e used) none .awaiting)) ?_ fun _ => ?_
          · have hdone : ∀ w, w = w₀ → Inbound.machine.Follows s₀
                (At handled (usedBy e used) none .awaiting)
                { w with log := w.log ++ [.writeInbound w₀.inbound.encode] } := by
              rintro w rfl
              exact written_follows hw
            exact .modify (fun w hw' => follows_same (hdone w hw')) hdone
          · refine .unwrap fun _ _ w hw => ?_
            refine hw.next .written fun s hs => ⟨{ s with cli := .idle }, ?_,
              ⟨hs.inbound, hs.writes, hs.handled⟩, hs.used, hs.lock, rfl⟩
            simp only [Inbound.machine, Inbound.step, hs.cli]

/-- Every invoice of the session has a fresh hash. -/
def FreshInvoices : List PaymentHash → List Turn → Prop
  | _, [] => True
  | used, turn :: turns =>
    FreshInvoice turn.env used ∧ FreshInvoices (usedBy turn.env used) turns

theorem pollForUserInput_invoices (K : Crates) {turns : List Turn}
    (hfresh : FreshInvoices used turns) :
    Crash.Triple (Inbound.machine.Follows s₀ (Idle handled used)) (pollForUserInput K turns)
      (fun _ => Inbound.machine.Follows s₀ (SameInbound handled))
      (Inbound.machine.Follows s₀ (SameInbound handled)) := by
  induction turns generalizing used with
  | nil => exact .abort
  | cons turn turns ih =>
    obtain ⟨hturn, hturns⟩ := hfresh
    have hsame : ∀ {α : Type} {m : Crash World α}, Aside m →
        Crash.Triple (Inbound.machine.Follows s₀ (Idle handled used)) m
          (fun _ => Inbound.machine.Follows s₀ (SameInbound handled))
          (Inbound.machine.Follows s₀ (SameInbound handled)) :=
      fun h => h.follows.post (fun _ _ hw => follows_same hw) fun _ hw => hw
    have hline : ∀ line, FollowsInvoices s₀ handled used (usedBy turn.env used)
        (handleLine K turn.env line) := by
      intro line
      rcases handleLine_aside K turn.env line with ⟨words, hcmd⟩ | haside
      · rw [hcmd]
        exact .bind (getinvoice_follows hturn words) fun _ => (aside_pure _).follows
      · exact haside.followsInvoices (subset_usedBy _ _)
    refine .bind (aside_deliver _).follows fun _ => .bind (aside_note rfl).follows fun _ => ?_
    split
    · exact hsame (aside_note rfl)
    · exact hsame (aside_note rfl)
    · refine .bind (hline _) fun next => ?_
      split
      · exact ih hturns
      · exact .pure fun _ hw => follows_same hw

/-- **Sessions neither lose nor make up a received payment.** -/
theorem session_keeps_claims (K : Crates) (turns : List Turn) (h : Inbound.History)
    (outbound : OutboundPaymentInfoStorage) (t : World)
    (hfresh : FreshInvoices (Inbound.init h).used turns)
    (ht : Crash.Leaves (pollForUserInput K turns) ⟨h.inbound, outbound, []⟩ t) :
    ∃ ls s, Inbound.machine.run (Inbound.init h) ls = some s ∧ s.inbound = t.inbound ∧
      s.writes = inboundWrites t.log ∧
      ∀ hash, (∃ p, t.inbound.payments.lookup hash = some p ∧ p.status = .succeeded) ↔
        ∃ e ∈ h.handled, e.paymentHash = hash := by
  have hstart : Idle h.handled (Inbound.init h).used (Inbound.init h) ⟨h.inbound, outbound, []⟩ :=
    ⟨⟨rfl, rfl, rfl⟩, fun _ hh => hh, rfl, rfl⟩
  obtain ⟨ls, s, hrun, hs⟩ := (pollForUserInput_invoices K hfresh).leaves_of
    (Machine.follows_refl hstart) (Machine.follows_refl hstart.toSameInbound) ht
  refine ⟨ls, s, hrun, hs.inbound, hs.writes, fun hash => ?_⟩
  have hinv : Inbound.Inv h.inbound s := Inbound.machine.inv_run_all (fun _ _ _ => Inbound.inv_step)
    (Inbound.inv_init h) hrun
  have haccounts := hinv.accounts.succeeded_iff hash
  rw [hs.inbound, hs.handled] at haccounts
  exact haccounts

theorem session_keeps_claims_getinvoice :
    ∃ t : World, (t.inbound.payments.lookup ⟨Vector.replicate 32 1⟩).isSome = true ∧
      ∃ ls s, Inbound.machine.run (Inbound.init .empty) ls = some s ∧ s.inbound = t.inbound ∧
        s.writes = inboundWrites t.log ∧
        ∀ hash, (∃ p, t.inbound.payments.lookup hash = some p ∧ p.status = .succeeded) ↔
          ∃ e ∈ Inbound.History.empty.handled, e.paymentHash = hash := by
  let env : Env := { sampleEnv with
    bolt11Invoice := some (⟨Vector.replicate 32 1⟩, ⟨Vector.replicate 32 2⟩) }
  let turns : List Turn :=
    [⟨⟨[], .line "getinvoice 5000 3600"⟩, env⟩, ⟨⟨[], .line "quit"⟩, sampleEnv⟩]
  have hrun : ((pollForUserInput sampleCrates turns).exec noPayments).map (fun r =>
      (r.2.inbound.payments.lookup ⟨Vector.replicate 32 1⟩).isSome) = some true := by decide +kernel
  have hfresh : FreshInvoices [] turns := ⟨by decide, by decide, trivial⟩
  obtain ⟨⟨u, t⟩, hexec, hentry⟩ := Option.map_eq_some_iff.mp hrun
  exact ⟨t, hentry, session_keeps_claims sampleCrates turns .empty ⟨∅⟩ t hfresh
    (.inr (.inr ⟨u, hexec⟩))⟩

end Session

end Cli

end LdkSample
