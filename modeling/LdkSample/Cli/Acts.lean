import LdkSample.Cli.Poll

/-!
# What a command does

The specs of the commands in terms of the acts they log. A command is tame (`TameCmd`) when it is
rejected before any effect or goes ahead with no argument errors; each command but `openchannel`
is. One that neither opens a channel nor pays (`PlainCmd`) also leaves the outbound store alone.
-/

namespace LdkSample

namespace Cli

open Node (PublicKey SocketAddr)
open Outbound (SendCmd)

/-! ## Acts since a log -/

/-- Every act since `log` is `p`. -/
def Only (p : Act → Bool) (log : List Act) (w : World) : Prop :=
  ∃ acts, w.log = log ++ acts ∧ ∀ a ∈ acts, p a = true

variable {K : Crates} {e : Env} {p q : Act → Bool} {log : List Act}

theorem only_refl (p : Act → Bool) (w : World) : Only p w.log w :=
  ⟨[], (List.append_nil _).symm, fun _ ha => (nomatch ha)⟩

theorem Only.mono {w : World} (h : Only p log w) (hpq : ∀ a, p a = true → q a = true) :
    Only q log w := by
  obtain ⟨acts, hlog, ha⟩ := h
  exact ⟨acts, hlog, fun a hm => hpq a (ha a hm)⟩

theorem Only.congr {w w' : World} (h : Only p log w) (hlog : w'.log = w.log) : Only p log w' := by
  obtain ⟨acts, he, ha⟩ := h
  exact ⟨acts, hlog.trans he, ha⟩

theorem Only.append {w w' : World} {a : Act} (h : Only p log w) (ha : p a = true)
    (hlog : w'.log = w.log ++ [a]) : Only p log w' := by
  obtain ⟨acts, he, hp⟩ := h
  refine ⟨acts ++ [a], by rw [hlog, he, List.append_assoc], fun b hb => ?_⟩
  rcases List.mem_append.mp hb with hb | hb
  · exact hp b hb
  · rw [List.mem_singleton.mp hb]
    exact ha

theorem act_only {a : Act} (f : World → World) (ha : p a = true) :
    Crash.Triple (Only p log) (act a f) (fun _ => Only p log) (Only p log) :=
  .modify (fun _ hw => hw.append ha rfl) fun _ hw => hw.append ha rfl

theorem note_only {a : Act} (ha : p a = true) :
    Crash.Triple (Only p log) (note a) (fun _ => Only p log) (Only p log) :=
  act_only id ha

/-- The event handler logs nothing. -/
theorem deliver_only (events : List OutboundEvent) :
    Crash.Triple (Only p log) (deliver events) (fun _ => Only p log) (Only p log) := by
  refine .forEach (fun _ => Only p log) fun event _ => .get fun w₀ hw => ?_
  refine .bind (Q := fun _ => Only p log) (.unwrap fun _ _ w he => he ▸ hw) fun outbound => ?_
  exact .modify_of (fun _ hw => hw) fun w hw => hw.congr rfl

theorem deliver_log {events : List OutboundEvent} {w t : World}
    (h : (deliver events).exec w = some ((), t)) : t.log = w.log := by
  obtain ⟨acts, hlog, hacts⟩ := (@deliver_only (fun _ => false) _ events w (only_refl _ _)).2 _ _ h
  cases acts with
  | nil => exact hlog.trans (List.append_nil _)
  | cons a acts => exact nomatch hacts a List.mem_cons_self

theorem unwrap_only {α : Type} (o : Option α) :
    Crash.Triple (Only p log) (Crash.unwrap o) (fun _ => Only p log) (Only p log) :=
  .unwrap fun _ _ _ hw => hw

/-! ## Rejected or going ahead -/

def rejects (a : Act) : Bool := !a.isEffect

/-- What a command does that goes ahead, within `q`. -/
def proceeds (q : Act → Bool) (a : Act) : Bool := !a.isArgError && q a

def Tame (q : Act → Bool) (log : List Act) (w : World) : Prop :=
  Only rejects log w ∨ Only (proceeds q) log w

/-- A command all of whose states are tame. -/
def TameCmd {α : Type} (q : Act → Bool) (m : Crash World α) : Prop :=
  ∀ w₀ : World, Crash.Triple (fun w => w = w₀) m (fun _ => Tame q w₀.log) (Tame q w₀.log)

theorem Only.acts {acts : List Act} {w : World} (h : Only p log w) (hlog : w.log = log ++ acts) :
    ∀ a ∈ acts, p a = true := by
  obtain ⟨acts', hlog', hacts⟩ := h
  rw [hlog] at hlog'
  cases List.append_cancel_left hlog'
  exact hacts

theorem Tame.mono {w : World} (h : Tame p log w) (hpq : ∀ a, p a = true → q a = true) :
    Tame q log w := by
  refine h.imp_right fun h => h.mono fun a ha => ?_
  obtain ⟨hne, hp⟩ := Bool.and_eq_true_iff.mp ha
  exact Bool.and_eq_true_iff.mpr ⟨hne, hpq a hp⟩

/-- The effects of a tame command are `q`. -/
theorem Tame.effects {acts : List Act} {w : World} (h : Tame q log w) (hlog : w.log = log ++ acts) :
    ∀ a ∈ acts, a.isEffect = true → q a = true := by
  intro a ha he
  rcases h with h | h
  · have hr := h.acts hlog a ha
    rw [rejects, he] at hr
    cases hr
  · exact (Bool.and_eq_true_iff.mp (h.acts hlog a ha)).2

theorem start_only {α : Type} {m : Crash World α} {w₀ : World}
    (h : Crash.Triple (Only p w₀.log) m (fun _ => Only p w₀.log) (Only p w₀.log)) :
    Crash.Triple (fun w => w = w₀) m (fun _ => Only p w₀.log) (Only p w₀.log) := by
  refine h.pre ?_
  rintro w rfl
  exact only_refl p w

theorem tame_rejects {α : Type} {m : Crash World α}
    (h : ∀ log, Crash.Triple (Only rejects log) m (fun _ => Only rejects log) (Only rejects log)) :
    TameCmd q m :=
  fun w₀ => (start_only (h w₀.log)).post (fun _ _ hw => .inl hw) fun _ hw => .inl hw

theorem tame_proceeds {α : Type} {m : Crash World α}
    (h : ∀ log, Crash.Triple (Only (proceeds q) log) m (fun _ => Only (proceeds q) log)
      (Only (proceeds q) log)) : TameCmd q m :=
  fun w₀ => (start_only (h w₀.log)).post (fun _ _ hw => .inr hw) fun _ hw => .inr hw

theorem tame_argError (err : ArgError) : TameCmd q (argError err) :=
  tame_rejects fun _ => note_only rfl

theorem TameCmd.map {α β : Type} {m : Crash World α} (h : TameCmd q m) (b : β) :
    TameCmd q (m >>= fun _ => pure b) :=
  fun w₀ => .bind (h w₀) fun _ => .pure fun _ hw => hw

/-! ## Commands that neither open a channel nor pay -/

/-- The program leaves the outbound store alone, and its acts are `p`: it keeps whatever such acts
keep. -/
def Does {α : Type} (p : Act → Bool) (m : Crash World α) : Prop :=
  ∀ I : World → Prop, (∀ w w' a, p a = true → I w → w'.outbound = w.outbound →
    w'.log = w.log ++ [a] → I w') → Crash.Triple I m (fun _ => I) I

section Rules

variable {α β : Type} {m : Crash World α}

theorem does_pure (a : α) : Does p (pure a) := fun _ _ => .pure fun _ hw => hw

theorem does_abort : Does p (Crash.abort : Crash World α) := fun _ _ => .abort

theorem does_unwrap (o : Option α) : Does p (Crash.unwrap o) := fun _ _ => .unwrap fun _ _ _ hw => hw

theorem does_act {a : Act} {f : World → World} (ha : p a = true)
    (hf : ∀ w, (f w).outbound = w.outbound) : Does p (act a f) :=
  fun _ hI => .modify (fun w hw => hI w _ a ha hw (hf w) rfl) fun w hw => hI w _ a ha hw (hf w) rfl

theorem does_note {a : Act} (ha : p a = true) : Does p (note a) := does_act ha fun _ => rfl

theorem Does.bind {f : α → Crash World β} (hm : Does p m) (hf : ∀ a, Does p (f a)) :
    Does p (m >>= f) :=
  fun I hI => .bind (hm I hI) fun a => hf a I hI

theorem does_get {f : World → Crash World α} (hf : ∀ w, Does p (f w)) :
    Does p (Crash.get >>= f) := by
  refine fun I hI => .get fun w₀ hw => (hf w₀ I hI).pre ?_
  rintro w rfl
  exact hw

theorem Does.mono (h : Does p m) (hpq : ∀ a, p a = true → q a = true) : Does q m :=
  fun I hI => h I fun w w' a ha => hI w w' a (hpq a ha)

theorem Does.only (h : Does p m) :
    Crash.Triple (Only p log) m (fun _ => Only p log) (Only p log) :=
  h _ fun _ _ _ ha hw _ hlog => hw.append ha hlog

end Rules

def Act.isCreateChannel : Act → Bool
  | createChannel .. => true
  | _ => false

def Act.isPay : Act → Bool
  | pay _ => true
  | _ => false

/-- A write of the outbound store, or a pay call. -/
def Act.isStoreCall : Act → Bool
  | writeOutbound _ | pay _ => true
  | _ => false

def plain (a : Act) : Bool := !a.isCreateChannel && !a.isStoreCall

def opensNone (a : Act) : Bool := !a.isCreateChannel

theorem opensNone_of_plain (a : Act) (h : plain a = true) : opensNone a = true :=
  (Bool.and_eq_true_iff.mp h).1

/-- Rejected, or going ahead, as its words are. -/
def PlainCmd {α : Type} (m : Crash World α) : Prop := Does rejects m ∨ Does (proceeds plain) m

theorem PlainCmd.tame {α : Type} {m : Crash World α} (h : PlainCmd m) : TameCmd plain m := by
  rcases h with h | h
  · exact tame_rejects fun _ => h.only
  · exact tame_proceeds fun _ => h.only

theorem PlainCmd.map {α β : Type} {m : Crash World α} (h : PlainCmd m) (b : β) :
    PlainCmd (m >>= fun _ => pure b) :=
  h.imp (fun h => h.bind fun _ => does_pure b) fun h => h.bind fun _ => does_pure b

theorem plain_pure {α : Type} (a : α) : PlainCmd (pure a) := .inl (does_pure a)

theorem plain_argError (err : ArgError) : PlainCmd (argError err) := .inl (does_note rfl)

theorem plain_print (text : String) : PlainCmd (note (.print text)) := .inl (does_note rfl)

theorem peerByNodeId_does (nodeId : PublicKey) (h : ∀ connected, p (.peerByNodeId nodeId connected)) :
    Does p (peerByNodeId e nodeId) :=
  (does_note (h _)).bind fun _ => does_pure _

theorem awaitConnection_does (nodeId : PublicKey) (rounds : List Round) :
    Does (proceeds plain) (awaitConnection nodeId rounds) := by
  induction rounds with
  | nil => exact does_abort
  | cons round rounds ih =>
    cases round with
    | closed => exact does_pure _
    | tick connected =>
      refine (does_note rfl).bind fun _ => ?_
      split
      · exact does_pure _
      · exact ih

theorem doConnectPeer_does (nodeId : PublicKey) (addr : SocketAddr) :
    Does (proceeds plain) (doConnectPeer e nodeId addr) := by
  refine (does_note rfl).bind fun _ => ?_
  split
  · exact awaitConnection_does nodeId _
  · exact does_pure _

theorem connectPeerIfNecessary_does (nodeId : PublicKey) (addr : SocketAddr) :
    Does (proceeds plain) (connectPeerIfNecessary e nodeId addr) := by
  refine (peerByNodeId_does nodeId fun _ => rfl).bind fun connected => ?_
  split
  · exact does_pure _
  · refine (doConnectPeer_does nodeId addr).bind fun ok => ?_
    split
    · exact does_pure _
    · exact (does_note rfl).bind fun _ => does_pure _

theorem connectpeer_plain (words : List String) : PlainCmd (connectpeer K e words) := by
  cases words with
  | nil => exact plain_argError _
  | cons peerPubkeyAndIpAddr words =>
    simp only [connectpeer]
    split
    · exact plain_argError _
    · next pubkey peerAddr _ =>
      refine .inr ((connectPeerIfNecessary_does pubkey peerAddr).bind fun ok => ?_)
      split
      · exact does_note rfl
      · exact does_pure _

theorem doDisconnectPeer_does (nodeId : PublicKey) :
    Does (proceeds plain) (doDisconnectPeer e nodeId) := by
  unfold doDisconnectPeer
  split
  · exact (does_note rfl).bind fun _ => does_pure _
  · refine (peerByNodeId_does nodeId fun _ => rfl).bind fun connected => ?_
    split
    · exact (does_note rfl).bind fun _ => does_pure _
    · exact (does_note rfl).bind fun _ => does_pure _

theorem disconnectpeer_plain (words : List String) : PlainCmd (disconnectpeer K e words) := by
  cases words with
  | nil => exact plain_argError _
  | cons peerPubkey words =>
    simp only [disconnectpeer]
    split
    · exact plain_argError _
    · next pubkey _ =>
      refine .inr ((doDisconnectPeer_does pubkey).bind fun ok => ?_)
      split
      · exact does_note rfl
      · exact does_pure _

/-- The words of a close command decode to a channel id and a key. -/
structure Decoded (K : Crates) (channelIdStr peerPubkeyStr : String) (channelId : Bytes32)
    (peerPubkey : PublicKey) : Prop where
  channelId : hexToVec channelIdStr = some channelId.toList
  peerPubkey : (hexToVec peerPubkeyStr).bind K.publicKeyFromSlice = some peerPubkey

/-- The call is the only effect. -/
def nothingBut (call a : Act) : Bool := !a.isEffect || a == call

/-- A close command is rejected, or calls once, for what its words decode to. -/
theorem close_cases (K : Crates) (e : Env) (command : CloseCommand) (words : List String) :
    Does rejects (close K e command words) ∨
      ∃ channelIdStr peerPubkeyStr more channelId peerPubkey,
        words = channelIdStr :: peerPubkeyStr :: more ∧
        Decoded K channelIdStr peerPubkeyStr channelId peerPubkey ∧
        Does (proceeds (nothingBut (.closeChannel command channelId peerPubkey)))
          (close K e command words) := by
  have hargError (err : ArgError) : Does rejects (argError err) := does_note rfl
  match words with
  | [] => exact .inl (hargError _)
  | channelIdStr :: words =>
    simp only [close]
    split
    · exact .inl (hargError _)
    · next bytes hbytes =>
      split
      · next hlen =>
        split
        · exact .inl (hargError _)
        · next peerPubkeyStr more =>
          split
          · exact .inl (hargError _)
          · next peerPubkey hkey =>
            refine .inr ⟨channelIdStr, peerPubkeyStr, more, ⟨bytes.toArray, hlen⟩, peerPubkey, rfl,
              ⟨hbytes, hkey⟩, (does_note ?_).bind fun _ => ?_⟩
            · unfold proceeds nothingBut
              rw [beq_self_eq_true]
              rfl
            · split
              · exact does_note rfl
              · exact does_note rfl
      · exact .inl (hargError _)

theorem plain_of_nothingBut {command : CloseCommand} {channelId : Bytes32} {peerPubkey : PublicKey}
    (a : Act) (h : proceeds (nothingBut (.closeChannel command channelId peerPubkey)) a = true) :
    proceeds plain a = true := by
  obtain ⟨herr, ha⟩ := Bool.and_eq_true_iff.mp h
  refine Bool.and_eq_true_iff.mpr ⟨herr, ?_⟩
  rcases Bool.or_eq_true_iff.mp ha with ha | ha
  · cases a <;> first | rfl | cases ha
  · rw [eq_of_beq ha]
    rfl

theorem close_plain (command : CloseCommand) (words : List String) :
    PlainCmd (close K e command words) := by
  rcases close_cases K e command words with h | ⟨_, _, _, _, _, -, -, h⟩
  · exact .inl h
  · exact .inr (h.mono plain_of_nothingBut)

theorem getInvoice_does (amtMsat : UInt64) : Does (proceeds plain) (getInvoice e amtMsat) := by
  unfold getInvoice
  split
  · exact (does_note rfl).bind fun _ => does_act rfl fun _ => rfl
  · exact does_note rfl

theorem getinvoice_plain (words : List String) : PlainCmd (getinvoice e words) := by
  match words with
  | [] => exact plain_argError _
  | amtStr :: words =>
    simp only [getinvoice]
    split
    · exact plain_argError _
    · split
      · exact plain_argError _
      · split
        · exact plain_argError _
        · refine .inr ((getInvoice_does _).bind fun _ => does_get fun w => ?_)
          exact (does_note rfl).bind fun _ => does_unwrap _

theorem getoffer_plain (words : List String) : PlainCmd (getoffer e words) := by
  unfold getoffer
  split
  · exact plain_print _
  · split
    · exact plain_argError _
    · exact plain_print _

theorem signmessage_plain (line : String) : PlainCmd (signmessage line) := by
  unfold signmessage
  split
  · exact plain_argError _
  · exact plain_print _

/-! ## Commands that pay -/

theorem writeOutbound_only (guarded : Bool) (hp : ∀ bytes, p (.writeOutbound bytes) = true) :
    Crash.Triple (Only p log) (writeOutbound e guarded) (fun _ => Only p log) (Only p log) := by
  have hnote : ∀ w₀, Only p log w₀ → Crash.Triple (fun w => w = w₀)
      (note (.writeOutbound w₀.outbound.encode)) (fun _ => Only p log) (Only p log) := by
    intro w₀ hw
    refine (note_only (hp _)).pre ?_
    rintro w rfl
    exact hw
  cases guarded with
  | true => exact .get hnote
  | false =>
    refine .bind (deliver_only _) fun _ => .get fun w₀ hw => ?_
    refine .bind (Q := fun _ => Only p log) ((deliver_only _).pre ?_) fun _ => note_only (hp _)
    rintro w rfl
    exact hw

theorem recordRefusal_only (id : PaymentId) (hp : ∀ bytes, p (.writeOutbound bytes) = true) :
    Crash.Triple (Only p log) (recordRefusal e id) (fun _ => Only p log) (Only p log) := by
  refine .bind (deliver_only _) fun _ => .get fun w₀ hw => ?_
  refine .bind (Q := fun _ => Only p log) (.unwrap fun _ _ w he => ?_) fun outbound => ?_
  · rw [he]
    exact hw
  · exact .bind (act_only _ (hp _)) fun _ => unwrap_only _

theorem send_only {cmd : SendCmd} {id : PaymentId} {info : PaymentInfo} {call : PayCall} :
    Crash.Triple (Only (proceeds opensNone) log) (send e cmd id info call)
      (fun _ => Only (proceeds opensNone) log) (Only (proceeds opensNone) log) := by
  refine .bind (act_only _ rfl) fun _ => ?_
  refine .bind (writeOutbound_only _ fun _ => rfl) fun _ => ?_
  refine .bind (deliver_only _) fun _ => .bind (unwrap_only _) fun _ => ?_
  refine .bind (note_only rfl) fun _ => ?_
  split
  · exact note_only rfl
  · split
    · exact .bind (note_only rfl) fun _ => recordRefusal_only id fun _ => rfl
    · exact note_only rfl

def quiet (a : Act) : Bool := !a.isArgError && !a.isEffect

theorem confirm_only (amtMsat : UInt64) (stdin : List Input) (hp : ∀ a, quiet a = true → p a = true) :
    Crash.Triple (Only p log) (confirm amtMsat stdin) (fun _ => Only p log) (Only p log) := by
  induction stdin with
  | nil => exact .bind (note_only (hp _ rfl)) fun _ => .abort
  | cons input stdin ih =>
    refine .bind (note_only (hp _ rfl)) fun _ => .bind (deliver_only _) fun _ => ?_
    refine .bind (note_only (hp _ rfl)) fun _ => ?_
    split
    · exact .bind (note_only (hp _ rfl)) fun _ => .pure fun _ hw => hw
    · exact .bind (note_only (hp _ rfl)) fun _ => .pure fun _ hw => hw
    · split
      · exact .pure fun _ hw => hw
      · split
        · exact .pure fun _ hw => hw
        · exact ih

theorem proceeds_of_quiet (a : Act) (h : quiet a = true) : proceeds opensNone a = true := by
  cases a <;> first | rfl | cases h

theorem payForOffer_tame (offer : Offer) (amt : Option UInt64) :
    TameCmd opensNone (payForOffer e offer amt) := by
  unfold payForOffer
  dsimp only
  split
  · exact (tame_argError _).map _
  · split
    · split
      · exact tame_proceeds fun log => .bind (send_only) fun _ => .pure fun _ hw => hw
      · exact tame_proceeds fun log => .bind (note_only rfl) fun _ => .pure fun _ hw => hw
    · refine tame_proceeds fun log => .bind (confirm_only _ _ proceeds_of_quiet) fun answer => ?_
      split
      · exact .bind (send_only) fun _ => .pure fun _ hw => hw
      · exact .pure fun _ hw => hw
      · exact .pure fun _ hw => hw

theorem payForHumanReadableName_tame (hrn : HumanReadableName) (amt : Option UInt64) :
    TameCmd opensNone (payForHumanReadableName e hrn amt) := by
  unfold payForHumanReadableName
  dsimp only
  split
  · exact tame_proceeds fun log => note_only rfl
  · split
    · exact tame_proceeds fun log => note_only rfl
    · exact tame_proceeds fun log => send_only

theorem sendPayment_tame (invoice : Outbound.Bolt11Invoice) (amt : Option UInt64) :
    TameCmd opensNone (sendPayment e invoice amt) := by
  unfold sendPayment
  dsimp only
  split
  · exact tame_proceeds fun log => send_only
  · split
    · exact tame_proceeds fun log => note_only rfl
    · exact tame_proceeds fun log => note_only rfl

theorem sendpayment_tame (words : List String) : TameCmd opensNone (sendpayment K e words) := by
  cases words with
  | nil => exact (tame_argError _).map _
  | cons invoiceStr words =>
    simp only [sendpayment]
    split
    · exact (tame_argError _).map _
    · split
      · exact payForOffer_tame _ _
      · split
        · exact (payForHumanReadableName_tame _ _).map _
        · split
          · exact (sendPayment_tame _ _).map _
          · exact (tame_argError _).map _

theorem keysend_tame (words : List String) : TameCmd opensNone (keysend K e words) := by
  match words with
  | [] => exact tame_argError _
  | dest :: words =>
    simp only [keysend]
    split
    · exact tame_argError _
    · split
      · exact tame_argError _
      · split
        · exact tame_argError _
        · exact tame_proceeds fun log => send_only

/-! ## Dispatch -/

theorem handleLine_cases (K : Crates) (e : Env) (line : String) :
    (∃ words, splitWhitespace line = "openchannel" :: words ∧
      handleLine K e line = openchannel K e words >>= fun _ => pure .readCommand) ∨
    (∃ words, splitWhitespace line = "sendpayment" :: words ∧
      handleLine K e line = sendpayment K e words) ∨
    (∃ words, splitWhitespace line = "keysend" :: words ∧
      handleLine K e line = keysend K e words >>= fun _ => pure .readCommand) ∨
    PlainCmd (handleLine K e line) := by
  unfold handleLine
  cases splitWhitespace line with
  | nil => exact .inr (.inr (.inr (plain_pure _)))
  | cons word words =>
    dsimp only
    split
    · exact .inl ⟨words, rfl, rfl⟩
    · exact .inr (.inl ⟨words, rfl, rfl⟩)
    · exact .inr (.inr (.inl ⟨words, rfl, rfl⟩))
    all_goals refine .inr (.inr (.inr ?_))
    · exact (getoffer_plain words).map _
    · exact (getinvoice_plain words).map _
    · exact (connectpeer_plain words).map _
    · exact (disconnectpeer_plain words).map _
    · exact (close_plain .closechannel words).map _
    · exact (close_plain .forceclosechannel words).map _
    · exact (signmessage_plain line).map _
    · exact plain_pure _
    · exact plain_pure _
    · exact plain_pure _
    · exact plain_pure _
    · exact plain_pure _
    · exact plain_pure _
    · exact plain_pure _
    · exact (plain_print _).map _

end Cli

end LdkSample
