import LdkSample.Delimits
import LdkSample.Events.Handler

/-!
# Listings

The texts of `listpayments` and `listchannels`. Each is the text of what it shows of the entries, in
their order, and of nothing else (`listPayments_eq_iff`, `listChannels_eq_iff`): no value, not even
an alias that another node has chosen, can be taken for a line of its own.
-/

namespace LdkSample

def HTLCStatus.display : HTLCStatus → String
  | pending => "pending"
  | succeeded => "succeeded"
  | failed => "failed"

namespace Cli

open Events (display)
open Bitcoind (Txid)
open Node (PublicKey)

/-! ## The texts -/

/-- What `println!` prints. -/
def println (text : String) : String := text ++ "\n"

inductive Direction where
  | inbound
  | outbound
  deriving DecidableEq

def Direction.display : Direction → String
  | inbound => "inbound"
  | outbound => "outbound"

/-- One turn of the loops of `list_payments`. -/
def listPayment (direction : Direction) (key : Bytes32) (info : PaymentInfo) : String :=
  println "" ++ println "\t\x7b" ++
  println ("\t\tamount_millisatoshis: " ++ info.amtMsat.display ++ ",") ++
  println ("\t\tpayment_hash: " ++ display key ++ ",") ++
  println ("\t\thtlc_direction: " ++ direction.display ++ ",") ++
  println ("\t\thtlc_status: " ++ info.status.display ++ ",") ++
  println "\t\x7d,"

def listPayments (inbound : InboundPaymentInfoStorage) (outbound : OutboundPaymentInfoStorage) :
    String :=
  "[" ++
  String.join (inbound.payments.entries.map fun e => listPayment .inbound e.1.bytes e.2) ++
  String.join (outbound.payments.entries.map fun e => listPayment .outbound e.1.bytes e.2) ++
  println "]"

structure ChannelDetails extends Events.ChannelDetails where
  fundingTxo : Option Txid
  shortChannelId : Option UInt64
  isChannelReady : Bool
  channelValueSatoshis : UInt64
  outboundCapacityMsat : UInt64
  inboundCapacityMsat : UInt64
  isUsable : Bool
  isAnnounced : Bool

/-- The balances printed for a channel that is usable. -/
def ChannelDetails.available (chanInfo : ChannelDetails) : Option (UInt64 × UInt64) :=
  if chanInfo.isUsable then some (chanInfo.outboundCapacityMsat, chanInfo.inboundCapacityMsat)
  else none

/-- `Display` of a transaction id, the last byte first. -/
def displayTxid (txid : Txid) : String := hexStr txid.bytes.toList.reverse

def printSome {α : Type} (o : Option α) (line : α → String) : String :=
  match o with
  | some a => line a
  | none => ""

/-- One turn of the loop of `list_channels`, with the alias of the peer's announcement. -/
def listChannel (peerAlias : Option String) (chanInfo : ChannelDetails) : String :=
  println "" ++ println "\t\x7b" ++
  println ("\t\tchannel_id: " ++ display chanInfo.channelId ++ ",") ++
  printSome chanInfo.fundingTxo (fun txid =>
    println ("\t\tfunding_txid: " ++ displayTxid txid ++ ",")) ++
  println ("\t\tpeer_pubkey: " ++ hexStr chanInfo.counterparty.bytes.toList ++ ",") ++
  printSome peerAlias (fun name => println ("\t\tpeer_alias: " ++ name)) ++
  printSome chanInfo.shortChannelId (fun id =>
    println ("\t\tshort_channel_id: " ++ toString id ++ ",")) ++
  println ("\t\tis_channel_ready: " ++ toString chanInfo.isChannelReady ++ ",") ++
  println ("\t\tchannel_value_satoshis: " ++ toString chanInfo.channelValueSatoshis ++ ",") ++
  println ("\t\toutbound_capacity_msat: " ++ toString chanInfo.outboundCapacityMsat ++ ",") ++
  printSome chanInfo.available (fun caps =>
    println ("\t\tavailable_balance_for_send_msat: " ++ toString caps.1 ++ ",") ++
    println ("\t\tavailable_balance_for_recv_msat: " ++ toString caps.2 ++ ",")) ++
  println ("\t\tchannel_can_send_payments: " ++ toString chanInfo.isUsable ++ ",") ++
  println ("\t\tpublic: " ++ toString chanInfo.isAnnounced ++ ",") ++
  println "\t\x7d,"

/-- `nodes` are the nodes of the network graph, each with the alias of its announcement. -/
def listChannels (nodes : PublicKey → Option (Option String)) (channels : List ChannelDetails) :
    String :=
  "[" ++ String.join (channels.map fun c => listChannel (nodes c.counterparty).join c) ++ println "]"

/-! ## Values -/

/-- Values that are told by their text, which stays on one line. -/
structure Shows {α : Type} (text : α → String) : Prop where
  inj : Function.Injective text
  line : ∀ a, '\n' ∉ (text a).toList

theorem shows_hexStr : Shows hexStr where
  inj v w h := by
    have hv := hexToVec_of_hexOf (hexOf_hexStr v)
    rw [h, hexToVec_of_hexOf (hexOf_hexStr w)] at hv
    exact (Option.some.inj hv).symm
  line v h := absurd (mem_hexDigits_of_mem_hexStr h) (by decide)

theorem Shows.comp {α β : Type} {text : α → String} (h : Shows text) {φ : β → α}
    (hφ : Function.Injective φ) : Shows fun b => text (φ b) :=
  ⟨h.inj.comp hφ, fun b => h.line (φ b)⟩

theorem shows_display : Shows display := shows_hexStr.comp fun _ _ h => Vector.toList_inj.mp h

theorem shows_publicKey : Shows fun id : PublicKey => hexStr id.bytes.toList :=
  shows_hexStr.comp (φ := fun id : PublicKey => id.bytes.toList) fun a b h => by
    cases a
    cases b
    exact congrArg _ (Vector.toList_inj.mp h)

theorem shows_txid : Shows displayTxid :=
  shows_hexStr.comp (φ := fun id : Txid => id.bytes.toList.reverse) fun a b h => by
    cases a
    cases b
    exact congrArg _ (Vector.toList_inj.mp (List.reverse_injective h))

theorem toList_u64 (n : UInt64) : (toString n).toList = Nat.toDigits 10 n.toNat := Nat.toList_repr

theorem isDigit_of_mem_u64 {n : UInt64} {c : Char} (h : c ∈ (toString n).toList) :
    c.isDigit = true := by
  rw [toList_u64] at h
  exact Nat.isDigit_of_mem_toDigits (by decide) (by decide) h

theorem shows_u64 : Shows fun n : UInt64 => toString n where
  inj m n h := by
    have hdigits : Nat.toDigits 10 m.toNat = Nat.toDigits 10 n.toNat := by
      rw [← toList_u64, ← toList_u64]
      exact congrArg String.toList h
    refine UInt64.toNat_inj.mp ?_
    calc m.toNat = Nat.ofDigitChars 10 (Nat.toDigits 10 m.toNat) 0 := Nat.ofDigitChars_ten_toDigits.symm
      _ = Nat.ofDigitChars 10 (Nat.toDigits 10 n.toNat) 0 := by rw [hdigits]
      _ = n.toNat := Nat.ofDigitChars_ten_toDigits
  line n h := absurd (isDigit_of_mem_u64 h) (by decide)

theorem shows_bool : Shows fun b : Bool => toString b := ⟨by decide, by decide⟩

theorem shows_status : Shows HTLCStatus.display where
  inj s t h := by
    cases s <;> cases t <;> first | rfl | exact absurd h (by decide)
  line s := by
    cases s <;> decide

theorem shows_direction : Shows Direction.display where
  inj s t h := by
    cases s <;> cases t <;> first | rfl | exact absurd h (by decide)
  line s := by
    cases s <;> decide

theorem shows_msat : Shows MillisatAmount.display where
  inj a b h := by
    obtain ⟨a⟩ := a
    obtain ⟨b⟩ := b
    have hu : ∀ n : UInt64, toString n ≠ "unknown" := by
      intro n hn
      have hmem : 'u' ∈ (toString n).toList := by
        rw [hn]
        decide
      exact absurd (isDigit_of_mem_u64 hmem) (by decide)
    cases a with
    | none =>
      cases b with
      | none => rfl
      | some n => exact absurd h.symm (hu n)
    | some m =>
      cases b with
      | none => exact absurd h (hu m)
      | some n => exact congrArg _ (congrArg some (shows_u64.inj h))
  line a := by
    obtain ⟨a⟩ := a
    cases a with
    | none =>
      show '\n' ∉ "unknown".toList
      decide
    | some n => exact shows_u64.line n

/-! ## Payments -/

section Lines

variable {α β γ : Type}

theorem Shows.delimits {text : β → String} (h : Shows text) (pre : String) {post : String}
    (hpost : '\n' ∉ post.toList) (v : α → β) :
    Delimits (fun x => (println (pre ++ text (v x) ++ post)).toList) v := by
  have hline := delimits_line pre.toList (v := fun x => (text (v x)).toList) (fun x => h.line (v x))
    hpost
  unfold println
  simp only [String.toList_append]
  exact hline.mono fun x y hxy => h.inj (String.toList_inj.mp hxy)

theorem delimits_text (text : String) : Delimits (fun _ : α => (println text).toList) fun _ => () :=
  delimits_const _

/-- A map that tells no more than another one. -/
theorem map_eq_of_map_eq {f : α → γ} {g : β → γ} {δ : Type} {u : α → δ} {v : β → δ}
    (h : ∀ a b, f a = g b → u a = v b) {xs : List α} {ys : List β} (hm : xs.map f = ys.map g) :
    xs.map u = ys.map v := by
  induction xs generalizing ys with
  | nil =>
    rw [List.map_eq_nil_iff.mp hm.symm]
    rfl
  | cons x xs ih =>
    obtain ⟨y, ys, rfl, hy, hys⟩ := List.map_eq_cons_iff.mp hm.symm
    rw [List.map_cons, List.map_cons, h x y hy.symm, ih hys.symm]

theorem toList_printSome (o : Option α) (line : α → String) :
    (printSome o line).toList = o.elim [] fun a => (line a).toList := by
  cases o with
  | none => rfl
  | some a => rfl

end Lines

theorem not_mem_comma : '\n' ∉ ",".toList := by decide

theorem listPayment_delimits : Delimits
    (fun x : Direction × Bytes32 × PaymentInfo => (listPayment x.1 x.2.1 x.2.2).toList)
    fun x => (x.1, x.2.1, x.2.2.amtMsat, x.2.2.status) := by
  have hamt := shows_msat.delimits "\t\tamount_millisatoshis: " not_mem_comma
    fun x : Direction × Bytes32 × PaymentInfo => x.2.2.amtMsat
  have hkey := shows_display.delimits "\t\tpayment_hash: " not_mem_comma
    fun x : Direction × Bytes32 × PaymentInfo => x.2.1
  have hdirection := shows_direction.delimits "\t\thtlc_direction: " not_mem_comma
    fun x : Direction × Bytes32 × PaymentInfo => x.1
  have hstatus := shows_status.delimits "\t\thtlc_status: " not_mem_comma
    fun x : Direction × Bytes32 × PaymentInfo => x.2.2.status
  have hentry := (delimits_text "").append <| (delimits_text "\t\x7b").append <| hamt.append <|
    hkey.append <| hdirection.append <| hstatus.append <| delimits_text "\t\x7d,"
  unfold listPayment
  simp only [String.toList_append, List.append_assoc]
  refine hentry.mono ?_
  intro x y hxy
  simp only [Prod.mk.injEq, true_and, and_true] at hxy ⊢
  obtain ⟨hamt, hkey, hdirection, hstatus⟩ := hxy
  exact ⟨hdirection, hkey, hamt, hstatus⟩

/-- The entries of a listing begin with an empty line, its end does not. -/
def Entry (text : List Char) : Prop := text.head? = some '\n'

theorem entry_listPayment (x : Direction × Bytes32 × PaymentInfo) (rest : List Char) :
    Entry ((listPayment x.1 x.2.1 x.2.2).toList ++ rest) := by
  unfold listPayment
  simp only [String.toList_append, List.append_assoc]
  rfl

theorem not_entry_end : ¬Entry (println "]").toList := by
  unfold Entry
  decide

/-- The entries in the order of the listing. -/
def entries (inbound : InboundPaymentInfoStorage) (outbound : OutboundPaymentInfoStorage) :
    List (Direction × Bytes32 × PaymentInfo) :=
  (inbound.payments.entries.map fun e => (.inbound, e.1.bytes, e.2)) ++
    outbound.payments.entries.map fun e => (.outbound, e.1.bytes, e.2)

theorem toList_listPayments (inbound : InboundPaymentInfoStorage)
    (outbound : OutboundPaymentInfoStorage) :
    (listPayments inbound outbound).toList = "[".toList ++
      ((entries inbound outbound).flatMap (fun x => (listPayment x.1 x.2.1 x.2.2).toList) ++
        (println "]").toList) := by
  unfold listPayments entries
  simp only [String.toList_append, String.toList_join, List.flatMap_append, List.flatMap_map,
    List.append_assoc]

/-- What is shown of a store: the amount and the status of each payment. -/
def shownPayments {K : Type} (payments : HashMap K PaymentInfo) :
    List (K × MillisatAmount × HTLCStatus) :=
  payments.entries.map fun e => (e.1, e.2.amtMsat, e.2.status)

def inboundRow : Direction × Bytes32 × MillisatAmount × HTLCStatus →
    Option (PaymentHash × MillisatAmount × HTLCStatus)
  | (.inbound, key, shown) => some (⟨key⟩, shown)
  | (.outbound, _) => none

def outboundRow : Direction × Bytes32 × MillisatAmount × HTLCStatus →
    Option (PaymentId × MillisatAmount × HTLCStatus)
  | (.outbound, key, shown) => some (⟨key⟩, shown)
  | (.inbound, _) => none

theorem shown_inbound (inbound : InboundPaymentInfoStorage) (outbound : OutboundPaymentInfoStorage) :
    ((entries inbound outbound).map fun x => (x.1, x.2.1, x.2.2.amtMsat, x.2.2.status)).filterMap
      inboundRow = shownPayments inbound.payments := by
  unfold entries shownPayments
  simp [List.filterMap_map, Function.comp_def, inboundRow]

theorem shown_outbound (inbound : InboundPaymentInfoStorage) (outbound : OutboundPaymentInfoStorage) :
    ((entries inbound outbound).map fun x => (x.1, x.2.1, x.2.2.amtMsat, x.2.2.status)).filterMap
      outboundRow = shownPayments outbound.payments := by
  unfold entries shownPayments
  simp [List.filterMap_map, Function.comp_def, outboundRow]

/-- The text of a payment is that of what is shown of it. -/
theorem listPayment_eq_of_shown (direction : Direction) {key key' : Bytes32}
    {info info' : PaymentInfo} (hkey : key = key')
    (h : (info.amtMsat, info.status) = (info'.amtMsat, info'.status)) :
    listPayment direction key info = listPayment direction key' info' := by
  rw [Prod.mk.injEq] at h
  unfold listPayment
  rw [hkey, h.1, h.2]

/-- **A payment listing is unambiguous**: two listings are the same text only where they show the
same payments. -/
theorem listPayments_eq_iff (inbound inbound' : InboundPaymentInfoStorage)
    (outbound outbound' : OutboundPaymentInfoStorage) :
    listPayments inbound outbound = listPayments inbound' outbound' ↔
      shownPayments inbound.payments = shownPayments inbound'.payments ∧
        shownPayments outbound.payments = shownPayments outbound'.payments := by
  constructor
  · intro h
    have htext := congrArg String.toList h
    rw [toList_listPayments, toList_listPayments] at htext
    obtain ⟨hrows, -⟩ := listPayment_delimits.flatMap Entry entry_listPayment not_entry_end
      not_entry_end (List.append_cancel_left htext)
    have hin := congrArg (List.filterMap inboundRow) hrows
    have hout := congrArg (List.filterMap outboundRow) hrows
    rw [shown_inbound, shown_inbound] at hin
    rw [shown_outbound, shown_outbound] at hout
    exact ⟨hin, hout⟩
  · rintro ⟨hin, hout⟩
    have htext : ∀ {K : Type} (direction : Direction) (bytes : K → Bytes32)
        (e e' : Sigma fun _ : K => PaymentInfo),
        (e.1, e.2.amtMsat, e.2.status) = (e'.1, e'.2.amtMsat, e'.2.status) →
        listPayment direction (bytes e.1) e.2 = listPayment direction (bytes e'.1) e'.2 := by
      intro K direction bytes e e' h
      rw [Prod.mk.injEq] at h
      exact listPayment_eq_of_shown direction (congrArg bytes h.1) h.2
    unfold listPayments
    rw [map_eq_of_map_eq (htext .inbound PaymentHash.bytes) hin,
      map_eq_of_map_eq (htext .outbound PaymentId.bytes) hout]

/-! ## Channels -/

/-- What `listchannels` shows of a channel. -/
structure ChannelRow where
  channelId : Bytes32
  fundingTxo : Option Txid
  counterparty : PublicKey
  peerAlias : Option String
  shortChannelId : Option UInt64
  isChannelReady : Bool
  channelValueSatoshis : UInt64
  outboundCapacityMsat : UInt64
  available : Option (UInt64 × UInt64)
  isUsable : Bool
  isAnnounced : Bool
  deriving DecidableEq

def shownChannel (peerAlias : Option String) (c : ChannelDetails) : ChannelRow where
  channelId := c.channelId
  fundingTxo := c.fundingTxo
  counterparty := c.counterparty
  peerAlias := peerAlias
  shortChannelId := c.shortChannelId
  isChannelReady := c.isChannelReady
  channelValueSatoshis := c.channelValueSatoshis
  outboundCapacityMsat := c.outboundCapacityMsat
  available := c.available
  isUsable := c.isUsable
  isAnnounced := c.isAnnounced

/-- A text that stays on one line. -/
abbrev LineText := { text : String // '\n' ∉ text.toList }

theorem shows_lineText : Shows fun text : LineText => text.val :=
  ⟨Subtype.val_injective, Subtype.property⟩

/-- The first line has a label that begins with `c`. -/
def Labelled (c : Char) (text : List Char) : Prop := text[2]? = some c

theorem labelled_line {c : Char} {label : String} (value post : String) (rest : List Char)
    (h : Labelled c label.toList) :
    Labelled c ((println (label ++ value ++ post)).toList ++ rest) := by
  unfold println
  simp only [String.toList_append, List.append_assoc]
  exact (List.getElem?_append_left (List.getElem?_eq_some_iff.mp h).1).trans h

theorem Labelled.not {c d : Char} {text : List Char} (h : Labelled d text) (hne : d ≠ c) :
    ¬Labelled c text :=
  fun hc => hne (Option.some.inj (h.symm.trans hc))

theorem listChannel_delimits : Delimits
    (fun x : Option LineText × ChannelDetails => (listChannel (x.1.map Subtype.val) x.2).toList)
    fun x => shownChannel (x.1.map Subtype.val) x.2 := by
  have hid := shows_display.delimits "\t\tchannel_id: " not_mem_comma
    fun x : Option LineText × ChannelDetails => x.2.channelId
  have htxid := shows_txid.delimits "\t\tfunding_txid: " not_mem_comma fun txid : Txid => txid
  have hpeer := shows_publicKey.delimits "\t\tpeer_pubkey: " not_mem_comma
    fun x : Option LineText × ChannelDetails => x.2.counterparty
  have halias : Delimits (fun name : LineText => (println ("\t\tpeer_alias: " ++ name.val)).toList)
      fun name => name := by
    have hempty : '\n' ∉ "".toList := by decide
    have h := shows_lineText.delimits "\t\tpeer_alias: " hempty fun name : LineText => name
    simpa only [String.append_empty] using h
  have hscid := shows_u64.delimits "\t\tshort_channel_id: " not_mem_comma fun id : UInt64 => id
  have hready := shows_bool.delimits "\t\tis_channel_ready: " not_mem_comma
    fun x : Option LineText × ChannelDetails => x.2.isChannelReady
  have hvalue := shows_u64.delimits "\t\tchannel_value_satoshis: " not_mem_comma
    fun x : Option LineText × ChannelDetails => x.2.channelValueSatoshis
  have hcapacity := shows_u64.delimits "\t\toutbound_capacity_msat: " not_mem_comma
    fun x : Option LineText × ChannelDetails => x.2.outboundCapacityMsat
  have hsend := shows_u64.delimits "\t\tavailable_balance_for_send_msat: " not_mem_comma
    fun caps : UInt64 × UInt64 => caps.1
  have hrecv := shows_u64.delimits "\t\tavailable_balance_for_recv_msat: " not_mem_comma
    fun caps : UInt64 × UInt64 => caps.2
  have husable := shows_bool.delimits "\t\tchannel_can_send_payments: " not_mem_comma
    fun x : Option LineText × ChannelDetails => x.2.isUsable
  have hpublic := shows_bool.delimits "\t\tpublic: " not_mem_comma
    fun x : Option LineText × ChannelDetails => x.2.isAnnounced
  have hlast := husable.append <| hpublic.append <| delimits_text "\t\x7d,"
  have havailable := (hsend.append hrecv).option hlast (fun x => x.2.available) (Labelled 'a')
    (fun caps r => by
      rw [List.append_assoc]
      apply labelled_line
      rfl)
    (fun x r => by
      rw [List.append_assoc]
      refine Labelled.not (d := 'c') ?_ (by decide)
      apply labelled_line
      rfl)
  have hmiddle := hready.append <| hvalue.append <| hcapacity.append havailable
  have hshort := hscid.option hmiddle (fun x => x.2.shortChannelId) (Labelled 's')
    (fun id r => by
      apply labelled_line
      rfl)
    (fun x r => by
      rw [List.append_assoc]
      refine Labelled.not (d := 'i') ?_ (by decide)
      apply labelled_line
      rfl)
  have hname := halias.option hshort (fun x => x.1) (Labelled 'p')
    (fun name r => by
      rw [← String.append_empty (s := "\t\tpeer_alias: " ++ name.val)]
      apply labelled_line
      rfl)
    (fun x r => by
      rw [List.append_assoc]
      cases x.2.shortChannelId with
      | none =>
        rw [Option.elim_none, List.nil_append, List.append_assoc]
        refine Labelled.not (d := 'i') ?_ (by decide)
        apply labelled_line
        rfl
      | some id =>
        refine Labelled.not (d := 's') ?_ (by decide)
        apply labelled_line
        rfl)
  have hfunding := htxid.option (hpeer.append hname) (fun x => x.2.fundingTxo) (Labelled 'f')
    (fun txid r => by
      apply labelled_line
      rfl)
    (fun x r => by
      rw [List.append_assoc]
      refine Labelled.not (d := 'p') ?_ (by decide)
      apply labelled_line
      rfl)
  have hentry := (delimits_text "").append <| (delimits_text "\t\x7b").append <| hid.append hfunding
  unfold listChannel
  simp only [String.toList_append, List.append_assoc, toList_printSome, Option.elim_map,
    Function.comp_def]
  refine hentry.mono ?_
  intro x y hxy
  simp only [Prod.mk.injEq, true_and, and_true, Option.map_id', ChannelRow.mk.injEq,
    shownChannel] at hxy ⊢
  obtain ⟨hid, htxid, hpeer, hname, hrest⟩ := hxy
  exact ⟨hid, htxid, hpeer, congrArg (Option.map Subtype.val) hname, hrest⟩

theorem entry_listChannel (x : Option LineText × ChannelDetails) (rest : List Char) :
    Entry ((listChannel (x.1.map Subtype.val) x.2).toList ++ rest) := by
  unfold listChannel
  simp only [String.toList_append, List.append_assoc]
  rfl

theorem toList_listChannels (nodes : PublicKey → Option (Option String))
    (channels : List ChannelDetails) :
    (listChannels nodes channels).toList = "[".toList ++
      (channels.flatMap (fun c => (listChannel (nodes c.counterparty).join c).toList) ++
        (println "]").toList) := by
  unfold listChannels
  simp only [String.toList_append, String.toList_join, List.flatMap_map, List.append_assoc]

/-- The text of a channel is that of what is shown of it. -/
theorem listChannel_eq_of_shown {name name' : Option String} {c c' : ChannelDetails}
    (h : shownChannel name c = shownChannel name' c') : listChannel name c = listChannel name' c' := by
  simp only [shownChannel, ChannelRow.mk.injEq] at h
  obtain ⟨hid, htxid, hpeer, hname, hscid, hready, hvalue, hcapacity, havailable, husable, hpublic⟩ := h
  unfold listChannel
  rw [hid, htxid, hpeer, hname, hscid, hready, hvalue, hcapacity, havailable, husable, hpublic]

/-- The aliases in the graph stay on one line: `Display` has replaced their control characters. -/
def OneLine (nodes : PublicKey → Option (Option String)) : Prop :=
  ∀ id, ∀ name ∈ (nodes id).join, '\n' ∉ name.toList

/-- The channels with the aliases of their peers. -/
def named {nodes : PublicKey → Option (Option String)} (h : OneLine nodes)
    (channels : List ChannelDetails) : List (Option LineText × ChannelDetails) :=
  channels.map fun c => ((nodes c.counterparty).join.attachWith _ (h c.counterparty), c)

theorem flatMap_named {nodes : PublicKey → Option (Option String)} (h : OneLine nodes)
    (channels : List ChannelDetails) :
    (named h channels).flatMap (fun x => (listChannel (x.1.map Subtype.val) x.2).toList) =
      channels.flatMap fun c => (listChannel (nodes c.counterparty).join c).toList := by
  unfold named
  simp only [List.flatMap_map, Option.attachWith_map_subtype_val]

theorem map_named {nodes : PublicKey → Option (Option String)} (h : OneLine nodes)
    (channels : List ChannelDetails) :
    (named h channels).map (fun x => shownChannel (x.1.map Subtype.val) x.2) =
      channels.map fun c => shownChannel (nodes c.counterparty).join c := by
  unfold named
  simp only [List.map_map, Function.comp_def, Option.attachWith_map_subtype_val]

/-- **A channel listing is unambiguous**, whatever names the peers have given themselves: two
listings are the same text only where they show the same channels. -/
theorem listChannels_eq_iff {nodes nodes' : PublicKey → Option (Option String)} (h : OneLine nodes)
    (h' : OneLine nodes') (channels channels' : List ChannelDetails) :
    listChannels nodes channels = listChannels nodes' channels' ↔
      (channels.map fun c => shownChannel (nodes c.counterparty).join c) =
        channels'.map fun c => shownChannel (nodes' c.counterparty).join c := by
  constructor
  · intro heq
    have htext := congrArg String.toList heq
    rw [toList_listChannels, toList_listChannels, ← flatMap_named h, ← flatMap_named h'] at htext
    obtain ⟨hrows, -⟩ := listChannel_delimits.flatMap Entry entry_listChannel not_entry_end
      not_entry_end (List.append_cancel_left htext)
    rw [map_named, map_named] at hrows
    exact hrows
  · intro hrows
    unfold listChannels
    rw [map_eq_of_map_eq (fun _ _ => listChannel_eq_of_shown) hrows]

/-- A name that ends like the line before it. -/
theorem listChannels_eq_iff_named :
    ∃ c : ChannelDetails, listChannels (fun _ => some (some "peer,")) [c] ≠
      listChannels (fun _ => some none) [c] := by
  let c : ChannelDetails :=
    { channelId := Vector.replicate 32 1
      counterparty := ⟨Vector.replicate 33 2⟩
      fundingTxo := none
      shortChannelId := none
      isChannelReady := true
      channelValueSatoshis := 100000
      outboundCapacityMsat := 60000000
      inboundCapacityMsat := 40000000
      isUsable := true
      isAnnounced := false }
  have h : OneLine fun _ => some (some "peer,") := by
    intro id name hname
    cases hname
    decide
  have h' : OneLine fun _ => some none := fun id name hname => nomatch hname
  exact ⟨c, fun heq => absurd ((listChannels_eq_iff h h' [c] [c]).mp heq) (by decide)⟩

end Cli

end LdkSample
