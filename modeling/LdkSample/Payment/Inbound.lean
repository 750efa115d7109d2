import LdkSample.Machine.Basic
import LdkSample.Payment.Events

/-!
# Receiving payments

The inbound store as two tasks see it: the CLI task runs `getinvoice` (`cli.rs`), the
event handler runs `PaymentClaimed` (`main.rs`). Here the mutex is explicit: each task
takes it, changes the map, calls `fs_store.write` on `INBOUND_PAYMENTS_FNAME` and
drops the guard in steps of its own, and LDK generates claims between any two of them.
`Accounts` says what the map is for: it holds the last claim of every claimed hash and
the open invoices.
-/

namespace LdkSample

namespace Inbound

/-- What `get_invoice` reads of the invoice it has created, and the amount it was asked for. -/
structure Issued where
  paymentHash : PaymentHash
  paymentSecret : PaymentSecret
  amtMsat : UInt64
  deriving DecidableEq

/-- The entry `get_invoice` records. -/
def Issued.entry (i : Issued) : PaymentInfo :=
  { preimage := none
    secret := some i.paymentSecret
    status := .pending
    amtMsat := ⟨some i.amtMsat⟩ }

/-- `get_invoice`, given what `create_bolt11_invoice` returned: `none` is its error. -/
def getInvoice (inbound : InboundPaymentInfoStorage) : Option Issued → InboundPaymentInfoStorage
  | none => inbound
  | some i => ⟨inbound.payments.insert i.paymentHash i.entry⟩

/-! ## Accounts -/

/-- The last handled claim of a payment hash. -/
def lastClaim (h : PaymentHash) (handled : List PaymentClaimed) : Option PaymentClaimed :=
  (handled.filter fun e => e.paymentHash = h).getLast?

theorem lastClaim_eq_none {h : PaymentHash} {handled : List PaymentClaimed} :
    lastClaim h handled = none ↔ ∀ e ∈ handled, e.paymentHash ≠ h := by
  simp [lastClaim]

theorem lastClaim_append (h : PaymentHash) (handled : List PaymentClaimed) (e : PaymentClaimed) :
    lastClaim h (handled ++ [e]) =
      if e.paymentHash = h then some e else lastClaim h handled := by
  unfold lastClaim
  rw [List.filter_append]
  split
  · next he => simp [he]
  · next he => simp [he]

theorem mem_of_lastClaim {h : PaymentHash} {handled : List PaymentClaimed} {e : PaymentClaimed}
    (hl : lastClaim h handled = some e) : e ∈ handled ∧ e.paymentHash = h := by
  have hm := List.mem_of_getLast? hl
  simpa using hm

/-- The entry of a claimed hash is that of its last claim, any other one that of an invoice. -/
structure Accounts (inbound : InboundPaymentInfoStorage) (issued : List Issued)
    (handled : List PaymentClaimed) : Prop where
  claimed : ∀ h e, lastClaim h handled = some e → ∃ p, inbound.payments.lookup h = some p ∧
    p.status = .succeeded ∧ p.preimage = e.purpose.secrets.1 ∧ p.secret = e.purpose.secrets.2
  unclaimed : ∀ h p, lastClaim h handled = none → inbound.payments.lookup h = some p →
    ∃ i ∈ issued, i.paymentHash = h ∧ p = i.entry

namespace Accounts

variable {inbound : InboundPaymentInfoStorage} {issued : List Issued}
  {handled : List PaymentClaimed}

theorem empty : Accounts ⟨∅⟩ [] [] where
  claimed h e hl := by cases hl
  unclaimed h p _ hp := by
    rw [AList.lookup_empty] at hp
    cases hp

/-- The claimed hashes are those with a successful entry. -/
theorem succeeded_iff (ha : Accounts inbound issued handled) (h : PaymentHash) :
    (∃ p, inbound.payments.lookup h = some p ∧ p.status = .succeeded) ↔
      ∃ e ∈ handled, e.paymentHash = h := by
  constructor
  · rintro ⟨p, hp, hs⟩
    cases hl : lastClaim h handled with
    | none =>
      obtain ⟨i, -, -, rfl⟩ := ha.unclaimed h p hl hp
      cases hs
    | some e => exact ⟨e, mem_of_lastClaim hl⟩
  · rintro ⟨e, he, hh⟩
    cases hl : lastClaim h handled with
    | none => exact absurd hh (lastClaim_eq_none.mp hl e he)
    | some e' =>
      obtain ⟨p, hp, hs, -⟩ := ha.claimed h e' hl
      exact ⟨p, hp, hs⟩

theorem issue (ha : Accounts inbound issued handled) (i : Issued) :
    Accounts inbound (i :: issued) handled where
  claimed := ha.claimed
  unclaimed h p hl hp := by
    obtain ⟨j, hj, hji⟩ := ha.unclaimed h p hl hp
    exact ⟨j, List.mem_cons_of_mem _ hj, hji⟩

/-- Recording an invoice keeps the accounts as long as no claim of its hash has been handled. -/
theorem record (ha : Accounts inbound issued handled) {i : Issued} (hi : i ∈ issued)
    (hu : lastClaim i.paymentHash handled = none) :
    Accounts (getInvoice inbound (some i)) issued handled where
  claimed h e hl := by
    have hne : h ≠ i.paymentHash := by
      rintro rfl
      rw [hu] at hl
      cases hl
    simp only [getInvoice, AList.lookup_insert_ne hne]
    exact ha.claimed h e hl
  unclaimed h p hl hp := by
    simp only [getInvoice, HashMap.lookup_insert] at hp
    split at hp
    · next hh =>
      cases hp
      exact ⟨i, hi, hh.symm, rfl⟩
    · exact ha.unclaimed h p hl hp

/-- Handling a claim keeps the accounts, whatever the entry was. -/
theorem claim (ha : Accounts inbound issued handled) (e : PaymentClaimed) :
    Accounts (handlePaymentClaimed inbound e) issued (handled ++ [e]) where
  claimed h e' hl := by
    rw [lastClaim_append] at hl
    rw [lookup_handlePaymentClaimed]
    split at hl
    · next hh =>
      cases hl
      rw [if_pos hh.symm]
      cases inbound.payments.lookup h with
      | none => exact ⟨_, rfl, rfl, rfl, rfl⟩
      | some p => exact ⟨_, rfl, rfl, rfl, rfl⟩
    · next hh =>
      rw [if_neg (Ne.symm hh)]
      exact ha.claimed h e' hl
  unclaimed h p hl hp := by
    rw [lastClaim_append] at hl
    split at hl
    · cases hl
    · next hh =>
      rw [lookup_handlePaymentClaimed, if_neg (Ne.symm hh)] at hp
      exact ha.unclaimed h p hl hp

end Accounts

/-- The store at startup with what earlier runs issued and handled. -/
structure History where
  inbound : InboundPaymentInfoStorage
  issued : List Issued
  handled : List PaymentClaimed
  accounts : Accounts inbound issued handled

/-- The first start of a node. -/
def History.empty : History := ⟨⟨∅⟩, [], [], .empty⟩

/-! ## The machine -/

inductive Task where
  | cli
  | handler
  deriving DecidableEq, Repr

/-- Where the CLI task is in `getinvoice`. -/
inductive Cli where
  | idle
  | locked (amtMsat : UInt64)
  | created (invoice : Option Issued)
  | recorded
  | written
  | awaiting
  deriving DecidableEq

/-- Where the event handler is in `PaymentClaimed`. -/
inductive Handler where
  | idle
  | locked (e : PaymentClaimed)
  | upserted
  | written
  | awaiting
  deriving DecidableEq

def Cli.holds : Cli → Bool
  | idle | awaiting => false
  | locked _ | created _ | recorded | written => true

def Handler.holds : Handler → Bool
  | idle | awaiting => false
  | locked _ | upserted | written => true

structure State where
  inbound : InboundPaymentInfoStorage
  lock : Option Task
  cli : Cli
  handler : Handler
  /-- Claims generated and not yet picked up. -/
  queue : List PaymentClaimed
  writes : List Bytes
  issued : List Issued
  handled : List PaymentClaimed
  /-- The hashes of every invoice and claim so far. -/
  used : List PaymentHash
  deriving DecidableEq

inductive Label where
  | getinvoice (amtMsat : UInt64)
  | create (invoice : Option (PaymentHash × PaymentSecret))
  | record
  | write
  | unlock
  | written
  | claim (e : PaymentClaimed)
  | eventLock
  | eventUpsert
  | eventWrite
  | eventUnlock
  | eventWritten
  deriving DecidableEq

def init (h : History) : State where
  inbound := h.inbound
  lock := none
  cli := .idle
  handler := .idle
  queue := []
  writes := []
  issued := h.issued
  handled := h.handled
  used := h.issued.map Issued.paymentHash ++ h.handled.map PaymentClaimed.paymentHash

def step (s : State) : Label → Option State
  | .getinvoice amtMsat =>
    match s.lock, s.cli with
    | none, .idle => some { s with lock := some .cli, cli := .locked amtMsat }
    | _, _ => none
  | .create invoice =>
    match s.cli, invoice with
    | .locked _, none => some { s with cli := .created none }
    | .locked amtMsat, some (hash, secret) =>
      -- `create_bolt11_invoice` returns a hash not used before
      if hash ∈ s.used then none
      else
        let i : Issued := ⟨hash, secret, amtMsat⟩
        some { s with
          cli := .created (some i)
          issued := i :: s.issued
          used := hash :: s.used }
    | _, _ => none
  | .record =>
    match s.cli with
    | .created invoice => some { s with inbound := getInvoice s.inbound invoice, cli := .recorded }
    | _ => none
  | .write =>
    match s.cli with
    | .recorded => some { s with writes := s.writes ++ [s.inbound.encode], cli := .written }
    | _ => none
  | .unlock =>
    match s.cli with
    | .written => some { s with lock := none, cli := .awaiting }
    | _ => none
  | .written =>
    match s.cli with
    | .awaiting => some { s with cli := .idle }
    | _ => none
  | .claim e => some { s with queue := s.queue ++ [e], used := e.paymentHash :: s.used }
  | .eventLock =>
    match s.lock, s.handler, s.queue with
    | none, .idle, e :: es =>
      some { s with lock := some .handler, handler := .locked e, queue := es }
    | _, _, _ => none
  | .eventUpsert =>
    match s.handler with
    | .locked e =>
      some { s with
        inbound := handlePaymentClaimed s.inbound e
        handler := .upserted
        handled := s.handled ++ [e] }
    | _ => none
  | .eventWrite =>
    match s.handler with
    | .upserted => some { s with writes := s.writes ++ [s.inbound.encode], handler := .written }
    | _ => none
  | .eventUnlock =>
    match s.handler with
    | .written => some { s with lock := none, handler := .awaiting }
    | _ => none
  | .eventWritten =>
    match s.handler with
    | .awaiting => some { s with handler := .idle }
    | _ => none

def machine : Machine State Label := ⟨step⟩

/-- Every way a step can go. -/
inductive Step (s : State) : Label → State → Prop where
  | getinvoice {amtMsat : UInt64} : s.lock = none → s.cli = .idle →
      Step s (.getinvoice amtMsat) { s with lock := some .cli, cli := .locked amtMsat }
  | createErr {amtMsat : UInt64} : s.cli = .locked amtMsat →
      Step s (.create none) { s with cli := .created none }
  | create {i : Issued} : s.cli = .locked i.amtMsat → i.paymentHash ∉ s.used →
      Step s (.create (some (i.paymentHash, i.paymentSecret))) { s with
        cli := .created (some i)
        issued := i :: s.issued
        used := i.paymentHash :: s.used }
  | record {invoice : Option Issued} : s.cli = .created invoice →
      Step s .record { s with inbound := getInvoice s.inbound invoice, cli := .recorded }
  | write : s.cli = .recorded →
      Step s .write { s with writes := s.writes ++ [s.inbound.encode], cli := .written }
  | unlock : s.cli = .written → Step s .unlock { s with lock := none, cli := .awaiting }
  | written : s.cli = .awaiting → Step s .written { s with cli := .idle }
  | claim {e : PaymentClaimed} :
      Step s (.claim e) { s with queue := s.queue ++ [e], used := e.paymentHash :: s.used }
  | eventLock {e : PaymentClaimed} {es : List PaymentClaimed} : s.lock = none →
      s.handler = .idle → s.queue = e :: es →
      Step s .eventLock { s with lock := some .handler, handler := .locked e, queue := es }
  | eventUpsert {e : PaymentClaimed} : s.handler = .locked e →
      Step s .eventUpsert { s with
        inbound := handlePaymentClaimed s.inbound e
        handler := .upserted
        handled := s.handled ++ [e] }
  | eventWrite : s.handler = .upserted →
      Step s .eventWrite { s with
        writes := s.writes ++ [s.inbound.encode]
        handler := .written }
  | eventUnlock : s.handler = .written →
      Step s .eventUnlock { s with lock := none, handler := .awaiting }
  | eventWritten : s.handler = .awaiting → Step s .eventWritten { s with handler := .idle }

theorem step_cases {s s' : State} {l : Label} (h : machine.step s l = some s') : Step s l s' := by
  unfold machine step at h
  cases l with
  | create invoice =>
    dsimp only at h
    split at h
    · next hc => cases h; exact .createErr hc
    · next amtMsat hash secret hc =>
      split at h
      · cases h
      · next hu => cases h; exact .create (i := ⟨hash, secret, amtMsat⟩) hc hu
    · cases h
  | claim e => cases h; exact .claim
  | getinvoice | eventLock =>
    dsimp only at h
    split at h <;> cases h
    constructor <;> assumption
  | record | write | unlock | written | eventUpsert | eventWrite | eventUnlock | eventWritten =>
    dsimp only at h
    split at h <;> cases h
    constructor
    assumption

/-! ## Invariants -/

/-- The most recently called write carries the map, or none has been called since startup. -/
def State.Current (s : State) (start : InboundPaymentInfoStorage) : Prop :=
  s.writes.getLast? = some s.inbound.encode ∨ s.writes = [] ∧ s.inbound = start

theorem current_write {s : State} (start : InboundPaymentInfoStorage) :
    { s with writes := s.writes ++ [s.inbound.encode] }.Current start :=
  .inl List.getLast?_concat

/-- The guard and the two program counters agree. -/
structure Locked (s : State) : Prop where
  cli : s.lock = some .cli ↔ s.cli.holds = true
  handler : s.lock = some .handler ↔ s.handler.holds = true

theorem locked_step {s s' : State} {l : Label} (hi : Locked s) (h : machine.step s l = some s') :
    Locked s' := by
  obtain ⟨hc, hh⟩ := hi
  cases step_cases h with
  | getinvoice hl hi => exact ⟨by simp [Cli.holds], by rw [hl] at hh; simpa using hh⟩
  | createErr hp => exact ⟨by rw [hp] at hc; exact hc, hh⟩
  | create hp _ => exact ⟨by rw [hp] at hc; exact hc, hh⟩
  | record hp => exact ⟨by rw [hp] at hc; exact hc, hh⟩
  | write hp => exact ⟨by rw [hp] at hc; exact hc, hh⟩
  | unlock hp =>
    have hl : s.lock = some .cli := hc.mpr (by rw [hp]; rfl)
    exact ⟨by simp [Cli.holds], by rw [hl] at hh; simpa using hh⟩
  | written hp => exact ⟨by rw [hp] at hc; exact hc, hh⟩
  | claim => exact ⟨hc, hh⟩
  | eventLock hl hp _ => exact ⟨by rw [hl] at hc; simpa using hc, by simp [Handler.holds]⟩
  | eventUpsert hp => exact ⟨hc, by rw [hp] at hh; exact hh⟩
  | eventWrite hp => exact ⟨hc, by rw [hp] at hh; exact hh⟩
  | eventUnlock hp =>
    have hl : s.lock = some .handler := hh.mpr (by rw [hp]; rfl)
    exact ⟨by rw [hl] at hc; simpa using hc, by simp [Handler.holds]⟩
  | eventWritten hp => exact ⟨hc, by rw [hp] at hh; exact hh⟩

/-- The two tasks are never both inside. -/
theorem Locked.exclusive {s : State} (hi : Locked s) (hc : s.cli.holds = true) :
    s.handler.holds = false := by
  have hl := hi.cli.mpr hc
  rw [Bool.eq_false_iff]
  intro hh
  rw [hi.handler.mpr hh] at hl
  cases hl

/-- A claim in the queue, in the handler or handled has its hash used. -/
structure Used (s : State) : Prop where
  queue : ∀ e ∈ s.queue, e.paymentHash ∈ s.used
  handler : ∀ e, s.handler = .locked e → e.paymentHash ∈ s.used
  handled : ∀ e ∈ s.handled, e.paymentHash ∈ s.used

theorem used_step {s s' : State} {l : Label} (hu : Used s) (h : machine.step s l = some s') :
    Used s' := by
  obtain ⟨hq, hh, hd⟩ := hu
  have hcons : ∀ {a b : PaymentHash}, a ∈ s.used → a ∈ b :: s.used := List.mem_cons_of_mem _
  cases step_cases h with
  | create _ _ =>
    exact ⟨fun e he => hcons (hq e he), fun e he => hcons (hh e he), fun e he => hcons (hd e he)⟩
  | claim =>
    refine ⟨fun e he => ?_, fun e he => hcons (hh e he), fun e he => hcons (hd e he)⟩
    rcases List.mem_append.mp he with he | he
    · exact hcons (hq e he)
    · rw [List.mem_singleton.mp he]
      exact List.mem_cons_self
  | eventLock _ _ he =>
    rw [he] at hq
    refine ⟨fun e h => hq e (List.mem_cons_of_mem _ h), fun e h => ?_, hd⟩
    cases h
    exact hq _ List.mem_cons_self
  | eventUpsert hp =>
    refine ⟨hq, fun e h => (nomatch h), fun e h => ?_⟩
    rcases List.mem_append.mp h with h | h
    · exact hd e h
    · rw [List.mem_singleton.mp h]
      exact hh _ hp
  | eventWrite _ | eventUnlock _ | eventWritten _ => exact ⟨hq, fun e h => (nomatch h), hd⟩
  | getinvoice _ _ | createErr _ | record _ | write _ | unlock _ | written _ => exact ⟨hq, hh, hd⟩

/-- What holds in every state reached from a start with the map `start`. -/
structure Inv (start : InboundPaymentInfoStorage) (s : State) : Prop where
  locked : Locked s
  used : Used s
  accounts : Accounts s.inbound s.issued s.handled
  /-- No claim of an invoice being recorded has been handled. -/
  created : ∀ i, s.cli = .created (some i) →
    i ∈ s.issued ∧ lastClaim i.paymentHash s.handled = none
  current : s.cli ≠ .recorded → s.handler ≠ .upserted → s.Current start

theorem inv_init (h : History) : Inv h.inbound (init h) where
  locked := ⟨by simp [init, Cli.holds], by simp [init, Handler.holds]⟩
  used := ⟨fun e he => (nomatch he), fun e he => (nomatch he), fun e he =>
    List.mem_append_right _ (List.mem_map_of_mem he)⟩
  accounts := h.accounts
  created i hi := nomatch hi
  current _ _ := .inr ⟨rfl, rfl⟩

theorem inv_step {start : InboundPaymentInfoStorage} {s s' : State} {l : Label}
    (hi : Inv start s) (h : machine.step s l = some s') : Inv start s' := by
  have hl := locked_step hi.locked h
  have hu := used_step hi.used h
  obtain ⟨hk, hus, ha, hc, hw⟩ := hi
  cases step_cases h with
  | getinvoice _ hp =>
    exact ⟨hl, hu, ha, fun i hi => (nomatch hi), fun _ h₂ => hw (by rw [hp]; simp) h₂⟩
  | createErr hp =>
    exact ⟨hl, hu, ha, fun i hi => (nomatch hi), fun _ h₂ => hw (by rw [hp]; simp) h₂⟩
  | create hp hf =>
    refine ⟨hl, hu, ha.issue _, fun i hi => ?_, fun _ h₂ => hw (by rw [hp]; simp) h₂⟩
    cases hi
    refine ⟨List.mem_cons_self, lastClaim_eq_none.mpr fun e he hh => hf ?_⟩
    rw [← hh]
    exact hus.handled e he
  | @record invoice hp =>
    refine ⟨hl, hu, ?_, fun i hi => (nomatch hi), fun h₁ _ => absurd rfl h₁⟩
    cases invoice with
    | none => exact ha
    | some i => exact ha.record (hc i hp).1 (hc i hp).2
  | write _ => exact ⟨hl, hu, ha, fun i hi => (nomatch hi), fun _ _ => current_write start⟩
  | unlock hp =>
    exact ⟨hl, hu, ha, fun i hi => (nomatch hi), fun _ h₂ => hw (by rw [hp]; simp) h₂⟩
  | written hp =>
    exact ⟨hl, hu, ha, fun i hi => (nomatch hi), fun _ h₂ => hw (by rw [hp]; simp) h₂⟩
  | claim => exact ⟨hl, hu, ha, hc, hw⟩
  | eventLock _ hp _ => exact ⟨hl, hu, ha, hc, fun h₁ _ => hw h₁ (by rw [hp]; simp)⟩
  | eventUpsert hp =>
    refine ⟨hl, hu, ha.claim _, fun i hi => ?_, fun _ h₂ => absurd rfl h₂⟩
    -- the lock spans the creation and the insert, so no invoice is between the two
    have hx := hk.exclusive (by rw [show s.cli = _ from hi]; rfl)
    rw [hp] at hx
    cases hx
  | eventWrite _ => exact ⟨hl, hu, ha, hc, fun _ _ => current_write start⟩
  | eventUnlock hp => exact ⟨hl, hu, ha, hc, fun h₁ _ => hw h₁ (by rw [hp]; simp)⟩
  | eventWritten hp => exact ⟨hl, hu, ha, hc, fun h₁ _ => hw h₁ (by rw [hp]; simp)⟩

theorem Inv.current_of_free {start : InboundPaymentInfoStorage} {s : State} (hi : Inv start s)
    (hl : s.lock = none) : s.Current start := by
  apply hi.current
  · intro hc
    have := hi.locked.cli.mpr (by rw [hc]; rfl)
    rw [hl] at this
    cases this
  · intro hh
    have := hi.locked.handler.mpr (by rw [hh]; rfl)
    rw [hl] at this
    cases this

/-- **No claimed inbound payment is lost**, and a free mutex means the last write is current. -/
theorem claims_kept (start : History) (ls : List Label) (s : State)
    (hr : machine.run (init start) ls = some s) :
    (∀ h, (∃ p, s.inbound.payments.lookup h = some p ∧ p.status = .succeeded) ↔
      ∃ e ∈ s.handled, e.paymentHash = h) ∧
    (∀ h e, lastClaim h s.handled = some e → ∃ p, s.inbound.payments.lookup h = some p ∧
      p.status = .succeeded ∧ p.preimage = e.purpose.secrets.1 ∧
      p.secret = e.purpose.secrets.2) ∧
    (∀ h p, s.inbound.payments.lookup h = some p → p.status ≠ .succeeded →
      p.status = .pending ∧ ∃ i ∈ s.issued, i.paymentHash = h ∧ p = i.entry) ∧
    (s.lock = none → s.Current start.inbound) := by
  have hi : Inv start.inbound s :=
    Machine.inv_run_all (fun _ _ _ hi h => inv_step hi h) (inv_init start) hr
  refine ⟨hi.accounts.succeeded_iff, hi.accounts.claimed, fun h p hp hs => ?_,
    hi.current_of_free⟩
  cases hl : lastClaim h s.handled with
  | none =>
    obtain ⟨i, hm, hh, rfl⟩ := hi.accounts.unclaimed h p hl hp
    exact ⟨rfl, i, hm, hh, rfl⟩
  | some e =>
    obtain ⟨p', hp', hs', -⟩ := hi.accounts.claimed h e hl
    rw [hp] at hp'
    cases hp'
    exact absurd hs' hs

/-- An invoice claimed while `getinvoice` has still to record it. -/
theorem claims_kept_run :
    let hash : PaymentHash := ⟨Vector.replicate 32 1⟩
    let secret : PaymentSecret := ⟨Vector.replicate 32 2⟩
    let preimage : PaymentPreimage := ⟨Vector.replicate 32 3⟩
    let e : PaymentClaimed := ⟨hash, .bolt11InvoicePayment (some preimage) secret, 8⟩
    let ls : List Label := [.getinvoice 7, .create (some (hash, secret)), .claim e, .record,
      .write, .unlock, .eventLock, .eventUpsert, .eventWrite, .eventUnlock]
    ∃ s, machine.run (init .empty) ls = some s ∧
      (∃ p, s.inbound.payments.lookup hash = some p ∧ p.status = .succeeded ∧
        p.preimage = some preimage ∧ p.secret = some secret) ∧
      s.Current ⟨∅⟩ := by
  intro hash secret preimage e ls
  refine ⟨_, rfl, ?_⟩
  have h := claims_kept .empty ls _ rfl
  exact ⟨h.2.1 hash e rfl, h.2.2.2 rfl⟩

end Inbound

end LdkSample
