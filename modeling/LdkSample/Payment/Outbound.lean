import LdkSample.Machine.Basic
import LdkSample.Payment.Events

/-!
# Sending payments

The outbound store as two tasks see it: the CLI task runs one send command at a time
(`send_payment` and `keysend` in `cli.rs`, the offer and the human-readable-name
branch of `sendpayment`), the event handler runs `PaymentSent` and `PaymentFailed`.
A block under the store's mutex is one step. `writes` are the calls of
`fs_store.write` on `OUTBOUND_PAYMENTS_FNAME` in the order they are made, the first
one from startup; `durable` is the newest of them known to have completed, so a crash
leaves the bytes of that call or of a later one (`crashFiles`).
-/

namespace LdkSample

namespace Outbound

/-! ## Send commands -/

/-- What `send_payment` reads of an invoice. -/
structure Bolt11Invoice where
  paymentHash : PaymentHash
  paymentSecret : PaymentSecret
  amountMilliSatoshis : Option UInt64
  deriving DecidableEq

inductive SendPath where
  | bolt11
  | keysend
  | offer
  | humanReadableName
  deriving DecidableEq, Repr

/-- The paths that insert, encode and call `write` under one guard, and record a refusal. -/
def SendPath.guarded : SendPath → Bool
  | bolt11 | keysend => true
  | offer | humanReadableName => false

/-- A send command that has passed its checks. The id of `keysend` is the hash of a fresh
preimage, that of an offer or a name is random. -/
inductive SendCmd where
  | bolt11 (invoice : Bolt11Invoice) (requiredAmountMsat : Option UInt64)
  | keysend (paymentId : PaymentId) (amtMsat : UInt64)
  | offer (paymentId : PaymentId) (amtMsat : UInt64)
  | humanReadableName (paymentId : PaymentId) (amtMsat : UInt64)
  deriving DecidableEq

/-- The amount `send_payment` settles on, `none` where it returns early. -/
def sendPaymentAmt : Option UInt64 → Option UInt64 → Option UInt64
  | some invAmt, some reqAmt => if invAmt ≠ reqAmt then none else some invAmt
  | some invAmt, none => some invAmt
  | none, some reqAmt => some reqAmt
  | none, none => none

namespace SendCmd

def path : SendCmd → SendPath
  | bolt11 .. => .bolt11
  | keysend .. => .keysend
  | offer .. => .offer
  | humanReadableName .. => .humanReadableName

def pendingInfo (secret : Option PaymentSecret) (amtMsat : UInt64) : PaymentInfo :=
  { preimage := none, secret := secret, status := .pending, amtMsat := ⟨some amtMsat⟩ }

/-- The id and the entry the command inserts, `none` where it returns before that. -/
def entry : SendCmd → Option (PaymentId × PaymentInfo)
  | bolt11 invoice required =>
    (sendPaymentAmt invoice.amountMilliSatoshis required).map fun amtMsat =>
      (⟨invoice.paymentHash.bytes⟩, pendingInfo (some invoice.paymentSecret) amtMsat)
  | keysend id amtMsat => some (id, pendingInfo none amtMsat)
  | offer id amtMsat => some (id, pendingInfo none amtMsat)
  | humanReadableName id amtMsat => some (id, pendingInfo none amtMsat)

theorem entry_status {cmd : SendCmd} {id : PaymentId} {info : PaymentInfo}
    (h : cmd.entry = some (id, info)) : info.status = .pending ∧ info.preimage = none := by
  cases cmd with
  | bolt11 invoice required =>
    simp only [entry, Option.map_eq_some_iff] at h
    obtain ⟨amtMsat, -, h⟩ := h
    cases h
    exact ⟨rfl, rfl⟩
  | keysend id amtMsat => cases h; exact ⟨rfl, rfl⟩
  | offer id amtMsat => cases h; exact ⟨rfl, rfl⟩
  | humanReadableName id amtMsat => cases h; exact ⟨rfl, rfl⟩

end SendCmd

/-! ## The machine -/

/-- Where the CLI task is in a send command. -/
inductive Cli where
  | idle
  | inserted (path : SendPath) (id : PaymentId)
  | encoded (path : SendPath) (id : PaymentId) (snapshot : Bytes)
  | writing (path : SendPath) (id : PaymentId) (n : Nat)
  | calling (path : SendPath) (id : PaymentId)
  | refused (path : SendPath) (id : PaymentId)
  | marking (n : Nat)
  | panicked
  deriving DecidableEq

structure State where
  outbound : OutboundPaymentInfoStorage
  cli : Cli
  writes : List Bytes
  durable : Nat
  /-- The payment ids handed to `ChannelManager`. -/
  handed : List PaymentId
  deriving DecidableEq

inductive Label where
  | start (cmd : SendCmd)
  | encode
  | write
  | written
  | call (ok : Bool)
  | mark
  | marked
  | event (e : OutboundEvent)
  | eventWritten (n : Nat)
  deriving DecidableEq

/-- After startup: the reconciled store has been written and the write awaited. -/
def init (outbound : OutboundPaymentInfoStorage) : State where
  outbound := outbound
  cli := .idle
  writes := [outbound.encode]
  durable := 0
  handed := []

/-- The files a crash may leave. -/
def State.crashFiles (s : State) : List Bytes := s.writes.drop s.durable

def insertEntry (o : OutboundPaymentInfoStorage) (id : PaymentId) (info : PaymentInfo) :
    OutboundPaymentInfoStorage := ⟨o.payments.insert id info⟩

/-- `get_mut(&payment_id).unwrap().status = Failed`. -/
def markFailed (o : OutboundPaymentInfoStorage) (id : PaymentId) :
    Option OutboundPaymentInfoStorage :=
  if id ∈ o.payments then
    some ⟨HashMap.modify o.payments id fun payment => { payment with status := .failed }⟩
  else none

/-- A block that holds the guard throughout: update, encode and call `write`. -/
def State.store (s : State) (o : OutboundPaymentInfoStorage) : State :=
  { s with outbound := o, writes := s.writes ++ [o.encode] }

@[simp] theorem State.store_outbound (s : State) (o : OutboundPaymentInfoStorage) :
    (s.store o).outbound = o := rfl

@[simp] theorem State.store_cli (s : State) (o : OutboundPaymentInfoStorage) :
    (s.store o).cli = s.cli := rfl

@[simp] theorem State.store_writes (s : State) (o : OutboundPaymentInfoStorage) :
    (s.store o).writes = s.writes ++ [o.encode] := rfl

def step (s : State) : Label → Option State
  | .start cmd =>
    match s.cli, cmd.entry with
    | .idle, none => some s
    | .idle, some (id, info) =>
      let o := insertEntry s.outbound id info
      if cmd.path.guarded then
        some { s.store o with cli := .writing cmd.path id s.writes.length }
      else some { s with outbound := o, cli := .inserted cmd.path id }
    | _, _ => none
  | .encode =>
    match s.cli with
    | .inserted path id => some { s with cli := .encoded path id s.outbound.encode }
    | _ => none
  | .write =>
    match s.cli with
    | .encoded path id snapshot =>
      some { s with
        writes := s.writes ++ [snapshot]
        cli := .writing path id s.writes.length }
    | _ => none
  | .written =>
    match s.cli with
    | .writing path id n => some { s with durable := max s.durable n, cli := .calling path id }
    | _ => none
  | .call ok =>
    match s.cli with
    | .calling path id =>
      some { s with
        handed := id :: s.handed
        cli := if !ok && path.guarded then .refused path id else .idle }
    | _ => none
  | .mark =>
    match s.cli with
    | .refused _ id =>
      match markFailed s.outbound id with
      | some o =>
        some { s.store o with cli := .marking s.writes.length }
      | none => some { s with cli := .panicked }
    | _ => none
  | .marked =>
    match s.cli with
    | .marking n => some { s with durable := max s.durable n, cli := .idle }
    | _ => none
  | .event e =>
    (handleOutbound s.outbound e).map s.store
  | .eventWritten n =>
    if n < s.writes.length then some { s with durable := max s.durable n } else none

def machine : Machine State Label := ⟨step⟩

/-- Every way a step can go. -/
inductive Step (s : State) : Label → State → Prop where
  | returned {cmd : SendCmd} : s.cli = .idle → cmd.entry = none → Step s (.start cmd) s
  | insertWrite {cmd : SendCmd} {id : PaymentId} {info : PaymentInfo} : s.cli = .idle →
      cmd.entry = some (id, info) → cmd.path.guarded = true →
      Step s (.start cmd) { s.store (insertEntry s.outbound id info) with
        cli := .writing cmd.path id s.writes.length }
  | insert {cmd : SendCmd} {id : PaymentId} {info : PaymentInfo} : s.cli = .idle →
      cmd.entry = some (id, info) → cmd.path.guarded = false →
      Step s (.start cmd) { s with
        outbound := insertEntry s.outbound id info
        cli := .inserted cmd.path id }
  | encode {path : SendPath} {id : PaymentId} : s.cli = .inserted path id →
      Step s .encode { s with cli := .encoded path id s.outbound.encode }
  | write {path : SendPath} {id : PaymentId} {b : Bytes} : s.cli = .encoded path id b →
      Step s .write { s with
        writes := s.writes ++ [b]
        cli := .writing path id s.writes.length }
  | written {path : SendPath} {id : PaymentId} {n : Nat} : s.cli = .writing path id n →
      Step s .written { s with durable := max s.durable n, cli := .calling path id }
  | refused {path : SendPath} {id : PaymentId} : s.cli = .calling path id →
      path.guarded = true →
      Step s (.call false) { s with handed := id :: s.handed, cli := .refused path id }
  | called {path : SendPath} {id : PaymentId} {ok : Bool} : s.cli = .calling path id →
      (ok = true ∨ path.guarded = false) →
      Step s (.call ok) { s with handed := id :: s.handed, cli := .idle }
  | mark {path : SendPath} {id : PaymentId} {o : OutboundPaymentInfoStorage} :
      s.cli = .refused path id → markFailed s.outbound id = some o →
      Step s .mark { s.store o with cli := .marking s.writes.length }
  | markPanic {path : SendPath} {id : PaymentId} : s.cli = .refused path id →
      markFailed s.outbound id = none → Step s .mark { s with cli := .panicked }
  | marked {n : Nat} : s.cli = .marking n →
      Step s .marked { s with durable := max s.durable n, cli := .idle }
  | event {e : OutboundEvent} {o : OutboundPaymentInfoStorage} :
      handleOutbound s.outbound e = some o → Step s (.event e) (s.store o)
  | eventWritten {n : Nat} : n < s.writes.length →
      Step s (.eventWritten n) { s with durable := max s.durable n }

theorem step_cases {s s' : State} {l : Label} (h : machine.step s l = some s') : Step s l s' := by
  unfold machine step at h
  cases l with
  | start cmd =>
    dsimp only at h
    split at h
    · next hc he => cases h; exact .returned hc he
    · next id info hc he =>
      split at h
      · next hg => cases h; exact .insertWrite hc he hg
      · next hg => cases h; exact .insert hc he (Bool.eq_false_iff.mpr hg)
    · cases h
  | encode =>
    dsimp only at h
    split at h
    · next hc => cases h; exact .encode hc
    · cases h
  | write =>
    dsimp only at h
    split at h
    · next hc => cases h; exact .write hc
    · cases h
  | written =>
    dsimp only at h
    split at h
    · next hc => cases h; exact .written hc
    · cases h
  | call ok =>
    dsimp only at h
    split at h
    · next path id hc =>
      cases ok <;> cases hg : path.guarded <;> simp [hg] at h <;> subst h
      · exact .called hc (.inr hg)
      · exact .refused hc hg
      · exact .called hc (.inl rfl)
      · exact .called hc (.inl rfl)
    · cases h
  | mark =>
    dsimp only at h
    split at h
    · next hc =>
      split at h
      · next hm => cases h; exact .mark hc hm
      · next hm => cases h; exact .markPanic hc hm
    · cases h
  | marked =>
    dsimp only at h
    split at h
    · next hc => cases h; exact .marked hc
    · cases h
  | event e =>
    obtain ⟨o, ho, rfl⟩ := Option.map_eq_some_iff.mp h
    exact .event ho
  | eventWritten n =>
    dsimp only at h
    split at h
    · next hn => cases h; exact .eventWritten hn
    · cases h

/-! ## What the writes to the store do -/

theorem lookup_insertEntry (o : OutboundPaymentInfoStorage) (id id' : PaymentId)
    (info : PaymentInfo) :
    (insertEntry o id info).payments.lookup id' =
      if id' = id then some info else o.payments.lookup id' :=
  HashMap.lookup_insert ..

theorem lookup_insertEntry_self (o : OutboundPaymentInfoStorage) (id : PaymentId)
    (info : PaymentInfo) : (insertEntry o id info).payments.lookup id = some info :=
  AList.lookup_insert _

theorem lookup_insertEntry_ne (o : OutboundPaymentInfoStorage) {id id' : PaymentId}
    (info : PaymentInfo) (h : id' ≠ id) :
    (insertEntry o id info).payments.lookup id' = o.payments.lookup id' :=
  AList.lookup_insert_ne h

theorem mem_insertEntry {o : OutboundPaymentInfoStorage} {id id' : PaymentId}
    {info : PaymentInfo} :
    id' ∈ (insertEntry o id info).payments ↔ id' = id ∨ id' ∈ o.payments :=
  AList.mem_insert _

theorem markFailed_some {o o' : OutboundPaymentInfoStorage} {id : PaymentId}
    (h : markFailed o id = some o') : handleOutbound o (.paymentFailed id) = some o' := by
  simp only [markFailed] at h
  split at h
  · next hm => cases h; simp [handleOutbound, handlePaymentFailed, hm]
  · cases h

theorem markFailed_none {o : OutboundPaymentInfoStorage} {id : PaymentId} :
    markFailed o id = none ↔ id ∉ o.payments := by
  simp [markFailed]

theorem lookup_markFailed_self {o o' : OutboundPaymentInfoStorage} {id : PaymentId}
    (h : markFailed o id = some o') :
    o'.payments.lookup id = (o.payments.lookup id).map ({ · with status := .failed }) :=
  lookup_handleOutbound_self (markFailed_some h) rfl

theorem lookup_markFailed_ne {o o' : OutboundPaymentInfoStorage} {id id' : PaymentId}
    (h : markFailed o id = some o') (hne : id' ≠ id) :
    o'.payments.lookup id' = o.payments.lookup id' :=
  lookup_handleOutbound_ne (markFailed_some h) fun e => hne (Option.some.inj e).symm

theorem mem_handleOutbound {o o' : OutboundPaymentInfoStorage} {e : OutboundEvent}
    {id : PaymentId} (h : handleOutbound o e = some o') : id ∈ o'.payments ↔ id ∈ o.payments := by
  rw [AList.mem_keys, keys_handleOutbound h, AList.mem_keys]

end Outbound

end LdkSample
