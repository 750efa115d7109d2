import LdkSample.Cli.OpenChannel

/-!
# The amount of a payment

At the pay call of a `sendpayment` or `keysend` line the amount it pays, the amount in the
outbound store, the typed amount, the amount of the offer or invoice and the amount of the
answered prompt are one (`one_amount`). `Sending` is what `send` keeps: the entry is there with
its amount, whatever events are handled up to the call.
-/

namespace LdkSample

namespace Cli

open Node (PublicKey)
open Outbound (SendCmd Bolt11Invoice sendPaymentAmt insertEntry)

variable {K : Crates} {e : Env} {line : String} {log : List Act} {w t : World}

/-! ## What a pay call pays -/

def PayCall.paymentId : PayCall → PaymentId
  | offer _ _ paymentId => paymentId
  | humanReadableName _ _ paymentId _ => paymentId
  | bolt11 _ paymentId _ => paymentId
  | spontaneous _ paymentId _ _ => paymentId

/-- The amount an invoice or an offer has of its own, in bitcoin. -/
def PayCall.ownAmount : PayCall → Option UInt64
  | offer ⟨some (.bitcoin amountMsats)⟩ _ _ => some amountMsats
  | offer _ _ _ => none
  | humanReadableName .. => none
  | bolt11 invoice _ _ => invoice.amountMilliSatoshis
  | spontaneous .. => none

/-- The amount LDK pays: the one it is given, or else the payee's own. -/
def PayCall.amount : PayCall → Option UInt64
  | call@(offer _ amtMsats _) => amtMsats <|> call.ownAmount
  | humanReadableName _ amtMsats _ _ => some amtMsats
  | call@(bolt11 _ _ amountMsats) => amountMsats <|> call.ownAmount
  | spontaneous _ _ _ amtMsat => some amtMsat

def PayCall.isOffer : PayCall → Bool
  | offer .. => true
  | _ => false

/-- The amount typed on a line. -/
def typedAmt (line : String) : Option UInt64 :=
  match splitWhitespace line with
  | "sendpayment" :: _ :: amtMsatStr :: _ => (parseU64 amtMsatStr).toOption
  | "keysend" :: _ :: amtMsatStr :: _ => (parseU64 amtMsatStr).toOption
  | _ => none

/-- The call is to the payee the line names. -/
inductive Names (K : Crates) (line : String) : PayCall → Prop where
  | offer {word : String} {words : List String} {offer : Offer} {amtMsats : Option UInt64}
      {paymentId : PaymentId} : splitWhitespace line = "sendpayment" :: word :: words →
      K.offerFromStr word = some offer → Names K line (.offer offer amtMsats paymentId)
  | humanReadableName {word : String} {words : List String} {name : HumanReadableName}
      {amtMsats : UInt64} {paymentId : PaymentId} {dnsResolvers : List PublicKey} :
      splitWhitespace line = "sendpayment" :: word :: words →
      K.humanReadableNameFromEncoded word = some name →
      Names K line (.humanReadableName name amtMsats paymentId dnsResolvers)
  | bolt11 {word : String} {words : List String} {invoice : Bolt11Invoice}
      {amountMsats : Option UInt64} {paymentId : PaymentId} :
      splitWhitespace line = "sendpayment" :: word :: words →
      K.bolt11InvoiceFromStr word = .ok invoice →
      Names K line (.bolt11 invoice paymentId amountMsats)
  | spontaneous {word : String} {words : List String} {preimage : PaymentPreimage}
      {paymentId : PaymentId} {payee : PublicKey} {amtMsat : UInt64} :
      splitWhitespace line = "keysend" :: word :: words →
      toCompressedPubkey K.publicKeyFromSlice word = some payee →
      Names K line (.spontaneous preimage paymentId payee amtMsat)

/-- The entry of `id` has the amount `amtMsat`. -/
def HasAmt (id : PaymentId) (amtMsat : UInt64) (o : OutboundPaymentInfoStorage) : Prop :=
  ∃ info, o.payments.lookup id = some info ∧ info.amtMsat = ⟨some amtMsat⟩

/-- The last line read is a `Y` to a prompt for `amtMsat`. -/
def AnsweredYes (amtMsat : UInt64) (acts : List Act) : Prop :=
  ∃ pre line post, acts = pre ++ [.prompt amtMsat, .nextLine (.line line)] ++ post ∧
    line.toList.head? = some 'Y' ∧ ∀ result, .nextLine result ∉ post

/-- At the call after `acts`, every amount there is is `amtMsat`. -/
structure OneAmount (K : Crates) (line : String) (acts : List Act) (call : PayCall)
    (o : OutboundPaymentInfoStorage) (amtMsat : UInt64) : Prop where
  names : Names K line call
  paid : call.amount = some amtMsat
  recorded : HasAmt call.paymentId amtMsat o
  typed : ∀ amt, typedAmt line = some amt → amt = amtMsat
  own : ∀ amt, call.ownAmount = some amt → amt = amtMsat
  approved : call.isOffer = true → typedAmt line = none → AnsweredYes amtMsat acts

/-! ## Events and refusals keep the amount -/

theorem HasAmt.handleOutbound {id : PaymentId} {amtMsat : UInt64} {o o' : OutboundPaymentInfoStorage}
    {event : OutboundEvent} (h : HasAmt id amtMsat o) (he : handleOutbound o event = some o') :
    HasAmt id amtMsat o' := by
  obtain ⟨info, hlookup, hamt⟩ := h
  by_cases hid : event.paymentId? = some id
  · refine ⟨OutboundEvent.update info event, ?_, ?_⟩
    · rw [lookup_handleOutbound_self he hid, hlookup]
      rfl
    · cases event with
      | paymentSent _ _ => exact hamt
      | paymentFailed _ => exact hamt
  · exact ⟨info, by rw [lookup_handleOutbound_ne he hid, hlookup], hamt⟩

theorem HasAmt.markFailed {id : PaymentId} {amtMsat : UInt64} {o o' : OutboundPaymentInfoStorage}
    (h : HasAmt id amtMsat o) (hm : Outbound.markFailed o id = some o') : HasAmt id amtMsat o' := by
  obtain ⟨info, hlookup, hamt⟩ := h
  refine ⟨{ info with status := .failed }, ?_, hamt⟩
  rw [Outbound.lookup_markFailed_self hm, hlookup]
  rfl

theorem hasAmt_insertEntry (o : OutboundPaymentInfoStorage) (id : PaymentId)
    (secret : Option PaymentSecret) (amtMsat : UInt64) :
    HasAmt id amtMsat (insertEntry o id (SendCmd.pendingInfo secret amtMsat)) :=
  ⟨_, Outbound.lookup_insertEntry_self .., rfl⟩

/-! ## One send -/

/-- After the insert and then `acts`, with the entry in place. -/
def SentSoFar (log : List Act) (id : PaymentId) (amtMsat : UInt64) (acts : List Act) (w : World) :
    Prop :=
  w.log = log ++ .insertOutbound id :: acts ∧ HasAmt id amtMsat w.outbound

/-- After the insert; at the pay call, the entry is in place and one write has been called. -/
def Sending (log : List Act) (id : PaymentId) (amtMsat : UInt64) (call : PayCall) (w : World) :
    Prop :=
  ∃ acts, w.log = log ++ .insertOutbound id :: acts ∧
    ∀ pre call', acts = pre ++ [.pay call'] →
      call' = call ∧ (∃ bytes, pre = [.writeOutbound bytes]) ∧ HasAmt id amtMsat w.outbound

section Send

variable {id : PaymentId} {amtMsat : UInt64} {call : PayCall} {acts : List Act}

theorem SentSoFar.append {a : Act} (h : SentSoFar log id amtMsat acts w) :
    SentSoFar log id amtMsat (acts ++ [a]) { w with log := w.log ++ [a] } := by
  obtain ⟨hlog, hamt⟩ := h
  refine ⟨?_, hamt⟩
  show w.log ++ [a] = _
  rw [hlog, List.append_assoc]
  rfl

theorem SentSoFar.sending (h : SentSoFar log id amtMsat acts w)
    (hacts : ∀ pre call', acts = pre ++ [.pay call'] →
      call' = call ∧ ∃ bytes, pre = [.writeOutbound bytes]) :
    Sending log id amtMsat call w := by
  refine ⟨acts, h.1, fun pre call' he => ?_⟩
  obtain ⟨hcall, hpre⟩ := hacts pre call' he
  exact ⟨hcall, hpre, h.2⟩

/-- Away from the pay call there is nothing to show. -/
theorem SentSoFar.sending_of_not_pay {a : Act} (h : SentSoFar log id amtMsat (acts ++ [a]) w)
    (ha : a.isPay = false) : Sending log id amtMsat call w := by
  refine h.sending fun pre call' he => ?_
  have := (List.append_inj_right' he rfl)
  cases this
  cases ha

theorem SentSoFar.sending_inserted (h : SentSoFar log id amtMsat [] w) :
    Sending log id amtMsat call w :=
  h.sending fun pre call' he => by simp at he

/-- The pay call: the one state there is something to show in. -/
theorem SentSoFar.sending_paid {bytes : Bytes}
    (h : SentSoFar log id amtMsat [.writeOutbound bytes, .pay call] w) :
    Sending log id amtMsat call w := by
  refine h.sending fun pre call' he => ?_
  have hsplit : [.writeOutbound bytes] ++ [.pay call] = pre ++ [.pay call'] := he
  obtain ⟨rfl, hcall⟩ := List.append_inj' hsplit rfl
  cases hcall
  exact ⟨rfl, bytes, rfl⟩

theorem deliver_sentSoFar {C : World → Prop} (events : List OutboundEvent)
    (hc : ∀ w, SentSoFar log id amtMsat acts w → C w) :
    Crash.Triple (SentSoFar log id amtMsat acts) (deliver events)
      (fun _ => SentSoFar log id amtMsat acts) C := by
  refine .forEach (fun _ => SentSoFar log id amtMsat acts) fun event _ => .get fun w₀ hw => ?_
  refine .bind (Q := fun outbound w => SentSoFar log id amtMsat acts { w with outbound })
    (.unwrap fun outbound he w hw' => ?_) fun outbound => .modify (fun w hw => hc _ hw) fun w hw => hw
  rw [hw']
  exact ⟨hw.1, hw.2.handleOutbound he⟩

/-- A noted act other than the pay call. -/
theorem note_sentSoFar {a : Act} (ha : a.isPay = false) :
    Crash.Triple (SentSoFar log id amtMsat acts) (note a)
      (fun _ => SentSoFar log id amtMsat (acts ++ [a])) (Sending log id amtMsat call) :=
  .modify_of (fun _ hw => hw.sending_of_not_pay ha) fun _ hw => hw.append

theorem writeOutbound_sentSoFar (guarded : Bool) :
    Crash.Triple (SentSoFar log id amtMsat []) (writeOutbound e guarded)
      (fun _ w => ∃ bytes, SentSoFar log id amtMsat [.writeOutbound bytes] w)
      (Sending log id amtMsat call) := by
  have hstart : ∀ w, SentSoFar log id amtMsat [] w → Sending log id amtMsat call w :=
    fun _ => SentSoFar.sending_inserted
  have hnote (bytes : Bytes) : Crash.Triple (SentSoFar log id amtMsat []) (note (.writeOutbound bytes))
      (fun _ w => ∃ bytes, SentSoFar log id amtMsat [.writeOutbound bytes] w)
      (Sending log id amtMsat call) :=
    (note_sentSoFar rfl).post (fun _ _ hw => ⟨bytes, hw⟩) fun _ hw => hw
  cases guarded with
  | true =>
    refine .get fun w₀ hw => (hnote _).pre ?_
    rintro w rfl
    exact hw
  | false =>
    refine .bind (deliver_sentSoFar _ hstart) fun _ => .get fun w₀ hw => ?_
    refine .bind ((deliver_sentSoFar _ hstart).pre ?_) fun _ => hnote _
    rintro w rfl
    exact hw

theorem recordRefusal_sending :
    Crash.Triple (fun w => ∃ acts a, SentSoFar log id amtMsat (acts ++ [a]) w ∧ a.isPay = false)
      (recordRefusal e id) (fun _ => Sending log id amtMsat call) (Sending log id amtMsat call) := by
  refine .exact fun w₀ hw => ?_
  obtain ⟨acts, a, hsent, ha⟩ := hw
  have hsending : ∀ w, SentSoFar log id amtMsat (acts ++ [a]) w → Sending log id amtMsat call w :=
    fun w hw => hw.sending_of_not_pay ha
  refine .bind ((deliver_sentSoFar _ hsending).pre ?_) fun _ => .get fun w₁ hw₁ => ?_
  · rintro w rfl
    exact hsent
  · refine .bind (Q := fun outbound w => SentSoFar log id amtMsat (acts ++ [a]) { w with outbound })
      (.unwrap fun outbound hm w he => ?_) fun outbound => ?_
    · rw [he]
      exact ⟨hw₁.1, hw₁.2.markFailed hm⟩
    · refine .bind (Q := fun _ => Sending log id amtMsat call) (.modify_of (fun _ hw => hw) ?_)
        fun _ => .unwrap fun _ _ _ hw => hw
      intro w hw
      exact @SentSoFar.sending_of_not_pay _ _ _ _ _ _ (.writeOutbound outbound.encode) hw.append rfl

theorem send_sending (cmd : SendCmd) (secret : Option PaymentSecret) (w₀ : World) :
    Crash.Triple (fun w => w = w₀) (send e cmd id (SendCmd.pendingInfo secret amtMsat) call)
      (fun _ => Sending w₀.log id amtMsat call) (Sending w₀.log id amtMsat call) := by
  have hinserted : ∀ w, w = w₀ → SentSoFar w₀.log id amtMsat []
      { w with
        outbound := insertEntry w.outbound id (SendCmd.pendingInfo secret amtMsat)
        log := w.log ++ [.insertOutbound id] } := by
    rintro w rfl
    exact ⟨rfl, hasAmt_insertEntry ..⟩
  have hwritten : ∀ bytes w, SentSoFar w₀.log id amtMsat [.writeOutbound bytes] w →
      Sending w₀.log id amtMsat call w :=
    fun bytes w hw => @SentSoFar.sending_of_not_pay _ _ _ _ _ [] (.writeOutbound bytes) hw rfl
  refine .bind (Q := fun _ => SentSoFar w₀.log id amtMsat [])
    (.modify_of (fun _ hw => hw.sending_inserted) hinserted) fun _ => ?_
  refine .bind (writeOutbound_sentSoFar _) fun _ => .exact fun w₁ ⟨bytes, hw₁⟩ => ?_
  refine .bind (Q := fun _ => SentSoFar w₀.log id amtMsat [.writeOutbound bytes])
    ((deliver_sentSoFar _ (hwritten bytes)).pre ?_) fun _ => ?_
  · rintro w rfl
    exact hw₁
  refine .bind (Q := fun _ => SentSoFar w₀.log id amtMsat [.writeOutbound bytes])
    (.unwrap fun _ _ _ hw => hw) fun _ => ?_
  refine .bind (Q := fun _ => SentSoFar w₀.log id amtMsat [.writeOutbound bytes, .pay call])
    (.modify_of (fun _ hw => hw.sending_paid) fun _ hw => hw.append) fun _ => ?_
  have hprint (text : String) : Crash.Triple
      (SentSoFar w₀.log id amtMsat [.writeOutbound bytes, .pay call]) (note (.print text))
      (fun _ => SentSoFar w₀.log id amtMsat ([.writeOutbound bytes, .pay call] ++ [.print text]))
      (Sending w₀.log id amtMsat call) := note_sentSoFar rfl
  have hprinted (text : String) : Crash.Triple
      (SentSoFar w₀.log id amtMsat [.writeOutbound bytes, .pay call]) (note (.print text))
      (fun _ => Sending w₀.log id amtMsat call) (Sending w₀.log id amtMsat call) :=
    (hprint text).post (fun _ _ hw => hw.sending_of_not_pay rfl) fun _ hw => hw
  split
  · exact hprinted _
  · split
    · refine .bind (hprint _) fun _ => recordRefusal_sending.pre fun w hw => ?_
      exact ⟨_, _, hw, rfl⟩
    · exact hprinted _

end Send

/-! ## The prompt -/

/-- The loop goes on to the payment when the last line read starts with `Y`. -/
theorem confirm_inv {amtMsat : UInt64} {stdin : List Input} {w t : World}
    (h : (confirm amtMsat stdin).exec w = some (some true, t)) :
    ∃ pre line, t.log = w.log ++ (pre ++ [.prompt amtMsat, .nextLine (.line line)]) ∧
      line.toList.head? = some 'Y' := by
  induction stdin generalizing w with
  | nil => cases h
  | cons input stdin ih =>
    obtain ⟨_, w₁, h₁, h₂⟩ := Crash.exec_bind_inv h
    obtain ⟨_, w₂, h₃, h₄⟩ := Crash.exec_bind_inv h₂
    obtain ⟨_, w₃, h₅, h₆⟩ := Crash.exec_bind_inv h₄
    cases h₁
    cases h₅
    have hlog : w₂.log ++ [.nextLine input.result] =
        w.log ++ [.prompt amtMsat, .nextLine input.result] := by
      rw [deliver_log h₃, List.append_assoc]
      rfl
    cases hr : input.result with
    | eof =>
      rw [hr] at h₆
      cases h₆
    | error text =>
      rw [hr] at h₆
      cases h₆
    | line line =>
      rw [hr] at h₆ hlog
      dsimp only at h₆
      split at h₆
      · next hy =>
        cases h₆
        exact ⟨[], line, hlog, hy⟩
      · split at h₆
        · cases h₆
        · obtain ⟨pre, line', htlog, hy⟩ := ih h₆
          refine ⟨[.prompt amtMsat, .nextLine (.line line)] ++ pre, line', ?_, hy⟩
          rw [htlog]
          show w₂.log ++ _ ++ _ = _
          rw [hlog]
          simp only [List.append_assoc]

/-! ## One amount -/

/-- In this state, if the last act since `log` is a pay call, there is one amount. -/
def Approved (K : Crates) (line : String) (log : List Act) (w : World) : Prop :=
  ∃ acts, w.log = log ++ acts ∧ ∀ pre call, acts = pre ++ [.pay call] →
    ∃ amtMsat, OneAmount K line pre call w.outbound amtMsat

theorem approved_of_no_pay {acts : List Act} (hlog : w.log = log ++ acts)
    (h : ∀ a ∈ acts, a.isPay = false) : Approved K line log w := by
  refine ⟨acts, hlog, fun pre call he => ?_⟩
  have := h (.pay call) (by rw [he]; simp)
  cases this

theorem Tame.approved (h : Tame plain log w) : Approved K line log w := by
  obtain ⟨acts, hlog⟩ : ∃ acts, w.log = log ++ acts := by
    rcases h with ⟨acts, hlog, -⟩ | ⟨acts, hlog, -⟩
    · exact ⟨acts, hlog⟩
    · exact ⟨acts, hlog⟩
  refine approved_of_no_pay hlog fun a ha => ?_
  cases a with
  | pay call => exact nomatch h.effects hlog _ ha rfl
  | _ => rfl

theorem quiet_only_approved (h : Only quiet log w) : Approved K line log w := by
  obtain ⟨acts, hlog, hacts⟩ := h
  refine approved_of_no_pay hlog fun a ha => ?_
  cases a with
  | pay call => exact nomatch hacts _ ha
  | _ => rfl

theorem Sending.approved {id : PaymentId} {amtMsat : UInt64} {call : PayCall} {before : List Act}
    (h : Sending (log ++ before) id amtMsat call w)
    (hone : ∀ bytes, HasAmt id amtMsat w.outbound →
      OneAmount K line (before ++ [.insertOutbound id, .writeOutbound bytes]) call w.outbound
        amtMsat) : Approved K line log w := by
  obtain ⟨acts, hlog, hcall⟩ := h
  refine ⟨before ++ .insertOutbound id :: acts, by rw [hlog, List.append_assoc],
    fun pre call' he => ?_⟩
  rcases acts.eq_nil_or_concat with rfl | ⟨pre', a, rfl⟩
  · cases List.append_inj_right' he rfl
  · have he' : before ++ .insertOutbound id :: pre' ++ [a] = pre ++ [.pay call'] := by
      rw [← he, List.concat_eq_append, List.append_assoc]
      rfl
    obtain ⟨rfl, ha⟩ := List.append_inj' he' rfl
    cases ha
    obtain ⟨rfl, ⟨bytes, rfl⟩, hamt⟩ := hcall pre' call' List.concat_eq_append
    exact ⟨amtMsat, hone bytes hamt⟩

theorem send_approved {id : PaymentId} {amtMsat : UInt64} {call : PayCall} {before : List Act}
    (cmd : SendCmd) (secret : Option PaymentSecret) {w₁ : World} (hlog : w₁.log = log ++ before)
    (hone : ∀ bytes o, HasAmt id amtMsat o →
      OneAmount K line (before ++ [.insertOutbound id, .writeOutbound bytes]) call o amtMsat) :
    Crash.Triple (fun w => w = w₁) (send e cmd id (SendCmd.pendingInfo secret amtMsat) call)
      (fun _ => Approved K line log) (Approved K line log) := by
  have happroved : ∀ w, Sending w₁.log id amtMsat call w → Approved K line log w := by
    intro w hw
    rw [hlog] at hw
    exact hw.approved fun bytes hamt => hone bytes w.outbound hamt
  exact (send_sending cmd secret w₁).post (fun _ => happroved) happroved

/-- The typed amount, where it is the second word after the command. -/
theorem typedAmt_sendpayment {word : String} {words : List String} {typed : Option UInt64}
    (hline : splitWhitespace line = "sendpayment" :: word :: words)
    (htyped : userProvidedAmt words = .ok typed) : typedAmt line = typed := by
  unfold typedAmt
  rw [hline]
  cases words with
  | nil =>
    cases htyped
    rfl
  | cons amtMsatStr words =>
    simp only [userProvidedAmt] at htyped
    show (parseU64 amtMsatStr).toOption = typed
    cases hparse : parseU64 amtMsatStr with
    | error kind =>
      rw [hparse] at htyped
      cases htyped
    | ok amt =>
      rw [hparse] at htyped
      cases htyped
      rfl

/-- The amount of an offer is its own, where it has one in bitcoin. -/
theorem offerAmt_own {offer : Offer} {typed amtMsats : Option UInt64} {amtMsat amt : UInt64}
    {paymentId : PaymentId} (h : offerAmt offer.amount typed = .ok amtMsat)
    (hown : (PayCall.offer offer amtMsats paymentId).ownAmount = some amt) : amt = amtMsat := by
  match offer, hown with
  | ⟨some (.bitcoin amountMsats)⟩, hown =>
    cases hown
    cases h
    rfl

/-- A command all of whose states are approved. -/
def ApprovedCmd {α : Type} (K : Crates) (line : String) (m : Crash World α) : Prop :=
  ∀ w₀ : World, Crash.Triple (fun w => w = w₀) m (fun _ => Approved K line w₀.log)
    (Approved K line w₀.log)

theorem TameCmd.approved {α : Type} {m : Crash World α} (h : TameCmd plain m) :
    ApprovedCmd K line m :=
  fun w₀ => (h w₀).post (fun _ _ => Tame.approved) fun _ => Tame.approved

theorem ApprovedCmd.map {α β : Type} {m : Crash World α} (h : ApprovedCmd K line m) (b : β) :
    ApprovedCmd K line (m >>= fun _ => pure b) :=
  fun w₀ => .bind (h w₀) fun _ => .pure fun _ hw => hw

theorem print_approved (text : String) : ApprovedCmd K line (note (.print text)) :=
  (plain_print text).tame.approved

theorem argError_approved (err : ArgError) : ApprovedCmd K line (argError err) :=
  (plain_argError err).tame.approved

/-- Up to its answer the prompt pays nothing. -/
theorem confirm_approved (amtMsat : UInt64) (stdin : List Input) (w₀ : World) :
    Crash.Triple (fun w => w = w₀) (confirm amtMsat stdin)
      (fun answer w => Approved K line w₀.log w ∧ (answer = some true → ∃ pre line,
        w.log = w₀.log ++ (pre ++ [.prompt amtMsat, .nextLine (.line line)]) ∧
          line.toList.head? = some 'Y'))
      (Approved K line w₀.log) := by
  have hquiet : ApprovedCmd K line (confirm amtMsat stdin) := fun w₀ =>
    (start_only (confirm_only amtMsat stdin fun _ h => h)).post (fun _ _ => quiet_only_approved)
      fun _ => quiet_only_approved
  rintro w rfl
  obtain ⟨hc, hq⟩ := hquiet w w rfl
  refine ⟨hc, fun answer t ht => ⟨hq answer t ht, ?_⟩⟩
  rintro rfl
  exact confirm_inv ht

section Offer

variable {word : String} {words : List String} {typed : Option UInt64}

theorem oneAmount_offer {offer : Offer} {amtMsat : UInt64} {id : PaymentId} {acts : List Act}
    {o : OutboundPaymentInfoStorage} (hline : splitWhitespace line = "sendpayment" :: word :: words)
    (hoffer : K.offerFromStr word = some offer) (hamt : offerAmt offer.amount typed = .ok amtMsat)
    (ho : HasAmt id amtMsat o) (htyped : ∀ amt, typedAmt line = some amt → amt = amtMsat)
    (hyes : typedAmt line = none → AnsweredYes amtMsat acts) :
    OneAmount K line acts (.offer offer (some amtMsat) id) o amtMsat where
  names := .offer hline hoffer
  paid := rfl
  recorded := ho
  typed := htyped
  own _ h := offerAmt_own hamt h
  approved _ := hyes

theorem payForOffer_approved {offer : Offer}
    (hline : splitWhitespace line = "sendpayment" :: word :: words)
    (htyped : userProvidedAmt words = .ok typed) (hoffer : K.offerFromStr word = some offer) :
    ApprovedCmd K line (payForOffer e offer typed) := by
  have htypedAmt := typedAmt_sendpayment hline htyped
  unfold payForOffer
  dsimp only
  split
  · exact (argError_approved _).map _
  · next amtMsat hamt =>
    split
    · next amt =>
      split
      · next heq =>
        refine ApprovedCmd.map (fun w₀ => ?_) _
        refine send_approved _ none (List.append_nil _).symm fun bytes o ho => ?_
        refine oneAmount_offer hline hoffer hamt ho (fun amt' h => ?_) fun h => ?_
        · rw [htypedAmt] at h
          cases h
          exact heq
        · rw [htypedAmt] at h
          cases h
      · exact (print_approved _).map _
    · refine fun w₀ => .bind (confirm_approved amtMsat e.stdin w₀) fun answer => ?_
      split
      · refine .exact fun w₁ hw₁ => ?_
        obtain ⟨pre, l, hlog, hy⟩ := hw₁.2 rfl
        refine .bind (send_approved _ none hlog fun bytes o ho => ?_) fun _ => .pure fun _ hw => hw
        refine oneAmount_offer hline hoffer hamt ho (fun amt' h => ?_) fun _ =>
          ⟨pre, l, _, rfl, hy, fun result hm => by simp at hm⟩
        rw [htypedAmt] at h
        cases h
      · exact .pure fun _ hw => hw.1
      · exact .pure fun _ hw => hw.1

theorem payForHumanReadableName_approved {hrn : HumanReadableName}
    (hline : splitWhitespace line = "sendpayment" :: word :: words)
    (htyped : userProvidedAmt words = .ok typed)
    (hname : K.humanReadableNameFromEncoded word = some hrn) :
    ApprovedCmd K line (payForHumanReadableName e hrn typed) := by
  unfold payForHumanReadableName
  dsimp only
  split
  · exact print_approved _
  · next amtMsat =>
    split
    · exact print_approved _
    · refine fun w₀ => send_approved _ none (List.append_nil _).symm fun bytes o ho => ?_
      exact
        { names := .humanReadableName hline hname
          paid := rfl
          recorded := ho
          typed := fun amt' h => by
            rw [typedAmt_sendpayment hline htyped] at h
            cases h
            rfl
          own := fun amt' h => (nomatch h)
          approved := fun h => (nomatch h) }

end Offer

/-- What `send_payment` settles on is the amount on either side that has one. -/
theorem sendPaymentAmt_eq {invAmt reqAmt : Option UInt64} {amtMsat : UInt64}
    (h : sendPaymentAmt invAmt reqAmt = some amtMsat) :
    (reqAmt <|> invAmt) = some amtMsat ∧ (∀ amt, reqAmt = some amt → amt = amtMsat) ∧
      ∀ amt, invAmt = some amt → amt = amtMsat := by
  unfold sendPaymentAmt at h
  split at h
  · next inv req =>
    split at h
    · cases h
    · next heq =>
      rw [not_not] at heq
      cases h
      subst heq
      exact ⟨rfl, fun _ h => (Option.some.inj h).symm, fun _ h => (Option.some.inj h).symm⟩
  · cases h
    exact ⟨rfl, fun _ h => (nomatch h), fun _ h => (Option.some.inj h).symm⟩
  · cases h
    exact ⟨rfl, fun _ h => (Option.some.inj h).symm, fun _ h => (nomatch h)⟩
  · cases h

theorem sendPayment_approved {word : String} {words : List String} {invoice : Bolt11Invoice}
    {typed : Option UInt64} (hline : splitWhitespace line = "sendpayment" :: word :: words)
    (htyped : userProvidedAmt words = .ok typed)
    (hinvoice : K.bolt11InvoiceFromStr word = .ok invoice) :
    ApprovedCmd K line (sendPayment e invoice typed) := by
  unfold sendPayment
  dsimp only
  split
  · next paymentId info hentry =>
    obtain ⟨amtMsat, hamt, hinfo⟩ := Option.map_eq_some_iff.mp hentry
    cases hinfo
    obtain ⟨hpaid, htyped', hown⟩ := sendPaymentAmt_eq hamt
    refine fun w₀ => send_approved _ _ (List.append_nil _).symm fun bytes o ho => ?_
    exact
      { names := .bolt11 hline hinvoice
        paid := hpaid
        recorded := ho
        typed := fun amt' h => by
          rw [typedAmt_sendpayment hline htyped] at h
          exact htyped' amt' h
        own := hown
        approved := fun h => (nomatch h) }
  · split
    · exact print_approved _
    · exact print_approved _

theorem sendpayment_approved {words : List String}
    (hline : splitWhitespace line = "sendpayment" :: words) :
    ApprovedCmd K line (sendpayment K e words) := by
  cases words with
  | nil => exact (argError_approved _).map _
  | cons word words =>
    simp only [sendpayment]
    split
    · exact (argError_approved _).map _
    · next typed htyped =>
      split
      · next hoffer => exact payForOffer_approved hline htyped hoffer
      · split
        · next hname => exact (payForHumanReadableName_approved hline htyped hname).map _
        · split
          · next hinvoice => exact (sendPayment_approved hline htyped hinvoice).map _
          · exact (argError_approved _).map _

theorem keysend_approved {words : List String}
    (hline : splitWhitespace line = "keysend" :: words) :
    ApprovedCmd K line (keysend K e words) := by
  match words with
  | [] => exact argError_approved _
  | dest :: words =>
    simp only [keysend]
    split
    · exact argError_approved _
    · next payee hpayee =>
      split
      · exact argError_approved _
      · next amtMsatStr words =>
        split
        · exact argError_approved _
        · next amtMsat hamt =>
          refine fun w₀ => send_approved _ none (List.append_nil _).symm fun bytes o ho => ?_
          exact
            { names := .spontaneous hline hpayee
              paid := rfl
              recorded := ho
              typed := fun amt' h => by
                unfold typedAmt at h
                rw [hline] at h
                simp only [hamt] at h
                exact (Option.some.inj h).symm
              own := fun amt' h => by cases h
              approved := fun h => by cases h }

theorem ReachActs.no_pay {word : String} {key : PublicKey} {acts : List Act}
    (h : ReachActs K e word key acts) {a : Act} (ha : a ∈ acts) : a.isPay = false := by
  rcases h.only_key ha with ⟨_, rfl⟩ | ⟨_, rfl, -⟩
  · rfl
  · rfl

theorem OpenActs.no_pay {word amt : String} {flags : List String} {key : PublicKey}
    {opened : List Act} (h : OpenActs K e word amt flags key opened) :
    ∀ a ∈ opened, a.isPay = false := by
  intro a ha
  cases h with
  | amount hacts _ =>
    rcases List.mem_append.mp ha with ha | ha
    · exact hacts.no_pay ha
    · rw [List.mem_singleton.mp ha]
      rfl
  | flags hacts _ herrs =>
    rcases List.mem_append.mp ha with ha | ha
    · exact hacts.no_pay ha
    · rw [herrs.error a ha]
      rfl
  | called hacts _ herrs hpost =>
    rcases List.mem_append.mp ha with ha | ha
    · rcases List.mem_append.mp ha with ha | ha
      · exact hacts.no_pay ha
      · rw [herrs.error a ha]
        rfl
    · rcases List.mem_cons.mp ha with rfl | ha
      · rfl
      · obtain ⟨text, rfl⟩ := hpost a ha
        rfl

theorem handleLine_approved (ht : Crash.Leaves (handleLine K e line) w t) :
    Approved K line w.log t := by
  have hstart : Approved K line w.log w :=
    approved_of_no_pay (List.append_nil _).symm fun _ ha => (nomatch ha)
  rcases handleLine_cases K e line with ⟨words, -, hcmd⟩ | ⟨words, hline, hcmd⟩ |
    ⟨words, hline, hcmd⟩ | htame
  · rw [hcmd] at ht
    rcases openState_of_leaves ht with
      htame | ⟨word, amt, flags, key, acts, -, -, hlog, hopen⟩
    · exact htame.approved
    · exact approved_of_no_pay hlog hopen.no_pay
  · rw [hcmd] at ht
    exact (sendpayment_approved hline w).leaves_of rfl hstart ht
  · rw [hcmd] at ht
    exact ((keysend_approved hline).map _ w).leaves_of rfl hstart ht
  · exact (htame.tame.approved w).leaves_of rfl hstart ht

/-- **The amount recorded, approved and sent is one amount**, at every pay call of every line. -/
theorem one_amount (K : Crates) (e : Env) (line : String) (w t : World)
    (ht : Crash.Leaves (handleLine K e line) w t) (acts : List Act) (call : PayCall)
    (hlog : t.log = w.log ++ (acts ++ [.pay call])) :
    ∃ amtMsat, OneAmount K line acts call t.outbound amtMsat := by
  obtain ⟨acts', hlog', hcall⟩ := handleLine_approved ht
  rw [hlog] at hlog'
  exact hcall acts call (List.append_cancel_left hlog').symm

/-- An offer of ten satoshis, paid on the second answer to its prompt. -/
theorem one_amount_prompt :
    let line := "sendpayment " ++
      "lno1pqpzwyq2p32x2um5ypmx2cm5dae8x93pqthvwfzadd7jejes8q9lhc4rvjxd022zv5l44g6qah82ru5rdpnpj"
    let call : PayCall := .offer ⟨some (.bitcoin 10000)⟩ (some 10000) ⟨Vector.replicate 32 7⟩
    ∃ t acts, Crash.Leaves (handleLine sampleCrates sampleEnv line) noPayments t ∧
      t.log = acts ++ [.pay call] ∧ OneAmount sampleCrates line acts call t.outbound 10000 ∧
      AnsweredYes 10000 acts := by
  intro line call
  have hrun : ((handleLine sampleCrates sampleEnv line).steps noPayments).any
      (fun t => decide (t.log.getLast? = some (.pay call))) = true := by decide +kernel
  have htyped : typedAmt line = none := by decide +kernel
  obtain ⟨t, ht, hlast⟩ := List.any_eq_true.mp hrun
  obtain ⟨acts, hlog⟩ := List.getLast?_eq_some_iff.mp (of_decide_eq_true hlast)
  have hleaves : Crash.Leaves (handleLine sampleCrates sampleEnv line) noPayments t := .inr (.inl ht)
  obtain ⟨amtMsat, hone⟩ := one_amount sampleCrates sampleEnv line noPayments t hleaves acts call hlog
  cases Option.some.inj hone.paid
  exact ⟨t, acts, hleaves, hlog, hone, hone.approved rfl htyped⟩

end Cli

end LdkSample
