import LdkSample.Cli.Amounts
import LdkSample.Machine.Logged
import LdkSample.Payment.OutboundDisk

/-!
# Sessions as runs

`send`, the program that `sendpayment` and `keysend` end in, follows the machine of the two tasks
(`Outbound.machine`): whatever events it is interleaved with, the store in each of its states is
that of a run, with the same writes and pay calls in the same order (`cliCalls`), and where it
returns the run is back at `idle`. No other command touches the store, writes it or pays, so a whole
session follows the machine (`session_follows`), and what holds of every run holds of every session
(`session_write_ahead`).
-/

namespace LdkSample

namespace Cli

open Outbound (SendCmd SendPath)

variable {e : Env} {id : PaymentId}

/-- The ids of the pay calls, the last one first. -/
def handedIn (log : List Act) : List PaymentId :=
  log.foldl (fun ids a => match a with
    | .pay call => call.paymentId :: ids
    | _ => ids) []

theorem handedIn_pay (log : List Act) (call : PayCall) :
    handedIn (log ++ [.pay call]) = call.paymentId :: handedIn log := by
  unfold handedIn
  rw [List.foldl_append]
  rfl

/-! ## Calls -/

/-- A call of the CLI task about a payment. -/
inductive StoreCall where
  | write (bytes : Bytes)
  | pay (id : PaymentId)
  deriving DecidableEq

def callOf : Act → Option StoreCall
  | .writeOutbound bytes => some (.write bytes)
  | .pay call => some (.pay call.paymentId)
  | _ => none

/-- The calls of a session, in order. -/
def callsIn (log : List Act) : List StoreCall := log.filterMap callOf

theorem callsIn_append {log : List Act} {a : Act} :
    callsIn (log ++ [a]) = callsIn log ++ (callOf a).toList := by
  unfold callsIn
  rw [List.filterMap_append]
  cases h : callOf a <;> simp [h]

/-- The calls of the CLI task in a step of the machine: what it adds to the writes, and the id it
hands over. -/
def cliCalls (s : Outbound.State) : Outbound.Label → List StoreCall
  | .event _ | .eventWritten _ => []
  | .call _ =>
    match s.cli with
    | .calling _ id => [.pay id]
    | _ => []
  | l => ((Outbound.machine.step s l).elim [] fun s' => s'.writes.drop s.writes.length).map .write

/-- The machine with the calls of the CLI task. -/
abbrev Tracked : Type := Machine.Logged Outbound.State (List StoreCall)

def tracked : Machine Tracked Outbound.Label :=
  Outbound.machine.logged fun s l calls => calls ++ cliCalls s l

variable {s₀ : Tracked}

theorem handedIn_append {log : List Act} {a : Act} (ha : callOf a = none) :
    handedIn (log ++ [a]) = handedIn log := by
  unfold handedIn
  rw [List.foldl_append]
  cases a with
  | pay call => cases ha
  | _ => rfl

theorem handedIn_writeOutbound (log : List Act) (bytes : Bytes) :
    handedIn (log ++ [.writeOutbound bytes]) = handedIn log := by
  unfold handedIn
  rw [List.foldl_append]
  rfl

/-- The stores agree, the payments handed over are those of the log, and so are the calls but for
`ahead`. -/
structure Matches (ahead : List StoreCall) (s : Tracked) (w : World) : Prop where
  outbound : s.state.outbound = w.outbound
  handed : s.state.handed = handedIn w.log
  calls : s.log = callsIn w.log ++ ahead

/-- Where the insert and the write are one step of the machine, the write may be still to come. -/
def SameStore (s : Tracked) (w : World) : Prop :=
  Matches [] s w ∨
    ∃ id, w.log.getLast? = some (.insertOutbound id) ∧ Matches [.write w.outbound.encode] s w

/-- And the CLI task is at `P`. -/
def AtCli (P : Outbound.Cli → Prop) (s : Tracked) (w : World) : Prop :=
  Matches [] s w ∧ P s.state.cli

theorem follows_sameStore {P : Outbound.Cli → Prop} {w : World}
    (h : tracked.Follows s₀ (AtCli P) w) : tracked.Follows s₀ SameStore w :=
  h.mono fun _ hs => .inl hs.1

theorem tracked_step {s : Tracked} {l : Outbound.Label} {s' : Outbound.State}
    {calls : List StoreCall} (h : Outbound.machine.step s.state l = some s')
    (hcalls : cliCalls s.state l = calls) : tracked.step s l = some ⟨s', s.log ++ calls⟩ :=
  Machine.logged_step.mpr ⟨h, by rw [hcalls]⟩

/-- An act that is no call is not part of the machine's state. -/
theorem Matches.append {ahead : List StoreCall} {s : Tracked} {w : World} {a : Act}
    (h : Matches ahead s w) (ha : callOf a = none) :
    Matches ahead s { w with log := w.log ++ [a] } where
  outbound := h.outbound
  handed := by rw [handedIn_append ha, h.handed]
  calls := by rw [callsIn_append, ha, h.calls]; simp

/-- The call that was ahead. -/
theorem Matches.call {s : Tracked} {w : World} {bytes : Bytes}
    (h : Matches [.write bytes] s w) :
    Matches [] s { w with log := w.log ++ [.writeOutbound bytes] } where
  outbound := h.outbound
  handed := by rw [handedIn_writeOutbound, h.handed]
  calls := by rw [callsIn_append, h.calls, List.append_nil]; rfl

/-- A step that makes calls the log does not have yet. -/
theorem Matches.step {s : Tracked} {w : World} {s' : Outbound.State} {calls : List StoreCall}
    (h : Matches [] s w) (ho : s'.outbound = w.outbound) (hh : s'.handed = s.state.handed) :
    Matches calls ⟨s', s.log ++ calls⟩ w where
  outbound := ho
  handed := hh.trans h.handed
  calls := by rw [h.calls, List.append_nil]

theorem note_follows {P : Outbound.Cli → Prop} {a : Act} (ha : callOf a = none) :
    Crash.Triple (tracked.Follows s₀ (AtCli P)) (note a)
      (fun _ => tracked.Follows s₀ (AtCli P)) (tracked.Follows s₀ SameStore) := by
  have hnoted : ∀ w, tracked.Follows s₀ (AtCli P) w →
      tracked.Follows s₀ (AtCli P) { w with log := w.log ++ [a] } := fun w hw =>
    hw.mono fun _ ⟨hm, hp⟩ => ⟨hm.append ha, hp⟩
  exact .modify (fun w hw => follows_sameStore (hnoted w hw)) hnoted

theorem deliver_follows {P : Outbound.Cli → Prop} (events : List OutboundEvent) :
    Crash.Triple (tracked.Follows s₀ (AtCli P)) (deliver events)
      (fun _ => tracked.Follows s₀ (AtCli P)) (tracked.Follows s₀ SameStore) := by
  refine .forEach (fun _ => tracked.Follows s₀ (AtCli P)) fun event _ =>
    .get fun w₀ hw => ?_
  refine .bind (Q := fun outbound w => tracked.Follows s₀ (AtCli P) { w with outbound })
    (.unwrap fun outbound he w hw' => ?_) fun outbound =>
    .modify (fun _ hw => follows_sameStore hw) fun _ hw => hw
  rw [hw']
  refine hw.next (.event event) fun s ⟨hm, hp⟩ => ⟨⟨s.state.store outbound, s.log ++ []⟩,
    tracked_step ?_ rfl, ⟨rfl, hm.handed, ?_⟩, hp⟩
  · show (handleOutbound s.state.outbound event).map s.state.store = _
    rw [hm.outbound, he]
    rfl
  · rw [List.append_nil, hm.calls]

def Writing (path : SendPath) (id : PaymentId) (c : Outbound.Cli) : Prop :=
  ∃ n, c = .writing path id n

/-- Where the machine is after the insert. -/
def Inserted (path : SendPath) (id : PaymentId) (s : Tracked) (w : World) : Prop :=
  if path.guarded then
    w.log.getLast? = some (.insertOutbound id) ∧ Matches [.write w.outbound.encode] s w ∧
      Writing path id s.state.cli
  else Matches [] s w ∧ s.state.cli = .inserted path id

theorem Inserted.sameStore {path : SendPath} {s : Tracked} {w : World} (h : Inserted path id s w) :
    SameStore s w := by
  unfold Inserted at h
  split at h
  · exact .inr ⟨id, h.1, h.2.1⟩
  · exact .inl h.1

theorem insert_follows {cmd : SendCmd} {info : PaymentInfo} {w : World}
    (he : cmd.entry = some (id, info)) (hidle : s₀.state.cli = .idle) (hw : Matches [] s₀ w) :
    tracked.Follows s₀ (Inserted cmd.path id)
      { w with
        outbound := Outbound.insertEntry w.outbound id info
        log := w.log ++ [.insertOutbound id] } := by
  have hstart : tracked.Follows s₀ (fun s w' => s = s₀ ∧ w' = w) w :=
    Machine.follows_refl ⟨rfl, rfl⟩
  refine hstart.next (.start cmd) ?_
  rintro s ⟨rfl, -⟩
  have hw' := hw.append (a := .insertOutbound id) rfl
  unfold Inserted
  cases hg : cmd.path.guarded with
  | true =>
    have hstep : Outbound.machine.step s.state (.start cmd) =
        some { s.state.store (Outbound.insertEntry s.state.outbound id info) with
          cli := .writing cmd.path id s.state.writes.length } := by
      simp [Outbound.machine, Outbound.step, hidle, he, hg]
    have hcalls : cliCalls s.state (.start cmd) =
        [.write (Outbound.insertEntry w.outbound id info).encode] := by
      simp [cliCalls, hstep, hw.outbound]
    refine ⟨_, tracked_step hstep hcalls, ?_⟩
    rw [if_pos rfl]
    refine ⟨List.getLast?_concat, ⟨?_, hw'.handed, ?_⟩, _, rfl⟩
    · show Outbound.insertEntry s.state.outbound id info = _
      rw [hw.outbound]
    · rw [hw'.calls, List.append_nil]
  | false =>
    have hstep : Outbound.machine.step s.state (.start cmd) =
        some { s.state with
          outbound := Outbound.insertEntry s.state.outbound id info
          cli := .inserted cmd.path id } := by
      simp [Outbound.machine, Outbound.step, hidle, he, hg]
    have hcalls : cliCalls s.state (.start cmd) = [] := by simp [cliCalls, hstep]
    refine ⟨_, tracked_step hstep hcalls, ?_⟩
    rw [if_neg Bool.false_ne_true]
    refine ⟨⟨?_, hw'.handed, ?_⟩, rfl⟩
    · show Outbound.insertEntry s.state.outbound id info = _
      rw [hw.outbound]
    · rw [List.append_nil, hw'.calls]

theorem writeOutbound_follows (path : SendPath) :
    Crash.Triple (tracked.Follows s₀ (Inserted path id))
      (writeOutbound e path.guarded)
      (fun _ => tracked.Follows s₀ (AtCli (Writing path id)))
      (tracked.Follows s₀ SameStore) := by
  unfold Inserted
  cases hg : path.guarded with
  | true =>
    refine .get fun w₀ hw => ?_
    have hwritten : tracked.Follows s₀ (AtCli (Writing path id))
        { w₀ with log := w₀.log ++ [.writeOutbound w₀.outbound.encode] } :=
      hw.mono fun s hs => ⟨hs.2.1.call, hs.2.2⟩
    refine .modify (fun w hw' => ?_) fun w hw' => ?_
    · subst hw'
      exact follows_sameStore hwritten
    · subst hw'
      exact hwritten
  | false =>
    show Crash.Triple (tracked.Follows s₀ (AtCli (· = .inserted path id))) _ _ _
    refine .bind (deliver_follows _) fun _ => .get fun w₀ hw => ?_
    -- the encoding is taken here and written after more events
    have hencoded : tracked.Follows s₀
        (AtCli (· = .encoded path id w₀.outbound.encode)) w₀ := by
      refine hw.next .encode fun s ⟨hs, hp⟩ => ?_
      have hp' : s.state.cli = .inserted path id := hp
      have hstep : Outbound.machine.step s.state .encode =
          some { s.state with cli := .encoded path id s.state.outbound.encode } := by
        simp [Outbound.machine, Outbound.step, hp']
      have hcalls : cliCalls s.state .encode = [] := by simp [cliCalls, hstep]
      refine ⟨_, tracked_step hstep hcalls, hs.step hs.outbound rfl, ?_⟩
      show Outbound.Cli.encoded path id s.state.outbound.encode = _
      rw [hs.outbound]
    refine .bind (Q := fun _ => tracked.Follows s₀ (AtCli (· = .encoded path id w₀.outbound.encode)))
      ((deliver_follows _).pre ?_) fun _ => ?_
    · rintro w rfl
      exact hencoded
    have hwritten : ∀ w, tracked.Follows s₀ (AtCli (· = .encoded path id w₀.outbound.encode)) w →
        tracked.Follows s₀ (AtCli (Writing path id))
          { w with log := w.log ++ [.writeOutbound w₀.outbound.encode] } := by
      intro w hw
      refine hw.next .write fun s ⟨hs, hp⟩ => ?_
      have hstep : Outbound.machine.step s.state .write = some { s.state with
          writes := s.state.writes ++ [w₀.outbound.encode]
          cli := .writing path id s.state.writes.length } := by
        simp only [Outbound.machine, Outbound.step, hp]
      have hcalls : cliCalls s.state .write = [.write w₀.outbound.encode] := by
        simp [cliCalls, hstep]
      refine ⟨_, tracked_step hstep hcalls, Matches.call ?_, _, rfl⟩
      exact hs.step hs.outbound rfl
    exact .modify (fun w hw => follows_sameStore (hwritten w hw)) hwritten

theorem recordRefusal_follows (path : SendPath) :
    Crash.Triple (tracked.Follows s₀ (AtCli (· = .refused path id))) (recordRefusal e id)
      (fun _ => tracked.Follows s₀ (AtCli (· = .idle)))
      (tracked.Follows s₀ SameStore) := by
  refine .bind (deliver_follows _) fun _ => .get fun w₀ hw => ?_
  refine .bind (Q := fun outbound w => tracked.Follows s₀ (AtCli fun c => ∃ n, c = .marking n)
    { w with outbound, log := w.log ++ [.writeOutbound outbound.encode] })
    (.unwrap fun outbound hm w hw' => ?_) fun outbound => ?_
  · rw [hw']
    refine hw.next .mark fun s ⟨hs, hp⟩ => ?_
    have hp' : s.state.cli = .refused path id := hp
    have hstep : Outbound.machine.step s.state .mark = some { s.state.store outbound with
        cli := .marking s.state.writes.length } := by
      simp [Outbound.machine, Outbound.step, hp', hs.outbound, hm]
    have hmarked : Matches [.write outbound.encode]
        ⟨{ s.state.store outbound with cli := .marking s.state.writes.length },
          s.log ++ [.write outbound.encode]⟩ { w₀ with outbound } :=
      ⟨rfl, hs.handed, by rw [hs.calls, List.append_nil]⟩
    exact ⟨_, tracked_step hstep (by simp [cliCalls, hstep]), hmarked.call, _, rfl⟩
  · refine .bind (Q := fun _ => tracked.Follows s₀ (AtCli fun c => ∃ n, c = .marking n))
      (.modify (fun _ hw => follows_sameStore hw) fun _ hw => hw) fun _ => ?_
    refine .unwrap fun _ _ w hw => hw.next .marked fun s ⟨hs, ⟨n, hp⟩⟩ => ?_
    have hstep : Outbound.machine.step s.state .marked =
        some { s.state with durable := max s.state.durable n, cli := .idle } := by
      simp [Outbound.machine, Outbound.step, hp]
    have hcalls : cliCalls s.state .marked = [] := by simp [cliCalls, hstep]
    exact ⟨_, tracked_step hstep hcalls, hs.step hs.outbound rfl, rfl⟩

/-- **A send command follows the machine**, from any state of it that is idle and has the store. -/
theorem send_follows {cmd : SendCmd} {info : PaymentInfo} {call : PayCall}
    (he : cmd.entry = some (id, info)) (hcall : call.paymentId = id)
    (hidle : s₀.state.cli = .idle) :
    Crash.Triple (Matches [] s₀) (send e cmd id info call)
      (fun _ => tracked.Follows s₀ (AtCli (· = .idle)))
      (tracked.Follows s₀ SameStore) := by
  refine .bind (Q := fun _ => tracked.Follows s₀ (Inserted cmd.path id))
    (.modify ?_ ?_) fun _ => ?_
  · exact fun w hw => (insert_follows he hidle hw).mono fun _ => Inserted.sameStore
  · exact fun w hw => insert_follows he hidle hw
  refine .bind (writeOutbound_follows cmd.path) fun _ => .bind (deliver_follows _) fun _ => ?_
  refine .bind (Q := fun _ => tracked.Follows s₀ (AtCli (· = .calling cmd.path id)))
    (.unwrap fun _ _ w hw => ?_) fun _ => ?_
  · refine hw.next .written fun s ⟨hs, ⟨n, hp⟩⟩ => ?_
    have hstep : Outbound.machine.step s.state .written = some { s.state with
        durable := max s.state.durable n, cli := .calling cmd.path id } := by
      simp [Outbound.machine, Outbound.step, hp]
    have hcalls : cliCalls s.state .written = [] := by simp [cliCalls, hstep]
    exact ⟨_, tracked_step hstep hcalls, hs.step hs.outbound rfl, rfl⟩
  -- the result of the call decides where the run goes on
  have hcalled : ∀ w, tracked.Follows s₀ (AtCli (· = .calling cmd.path id)) w →
      tracked.Follows s₀
        (AtCli (· = if !e.payOk && cmd.path.guarded then .refused cmd.path id else .idle))
          { w with log := w.log ++ [.pay call] } := by
    intro w hw
    refine hw.next (.call e.payOk) fun s ⟨hs, hp⟩ => ?_
    have hp' : s.state.cli = .calling cmd.path id := hp
    have hstep : Outbound.machine.step s.state (.call e.payOk) = some { s.state with
        handed := id :: s.state.handed
        cli := if !e.payOk && cmd.path.guarded then .refused cmd.path id else .idle } := by
      simp only [Outbound.machine, Outbound.step, hp']
    have hcalls : cliCalls s.state (.call e.payOk) = [.pay id] := by simp [cliCalls, hp']
    refine ⟨_, tracked_step hstep hcalls, ⟨hs.outbound, ?_, ?_⟩, rfl⟩
    · show id :: s.state.handed = handedIn (w.log ++ [.pay call])
      rw [handedIn_pay, hcall, hs.handed]
    · rw [callsIn_append, List.append_nil, hs.calls, List.append_nil, ← hcall]
      rfl
  refine .bind (Q := fun _ => tracked.Follows s₀
    (AtCli (· = if !e.payOk && cmd.path.guarded then .refused cmd.path id else .idle)))
    (.modify (fun w hw => follows_sameStore (hcalled w hw)) hcalled) fun _ => ?_
  cases e.payOk with
  | true => exact note_follows rfl
  | false =>
    cases cmd.path.guarded with
    | true => exact .bind (note_follows rfl) fun _ => recordRefusal_follows cmd.path
    | false => exact note_follows rfl

/-! ## Programs between two commands -/

/-- The machine is where the CLI is between two commands. -/
def Between (s : Tracked) (w : World) : Prop := AtCli (· = .idle) s w

/-- From any state between two commands, the program follows the machine to another one. -/
def FollowsCmd {α : Type} (m : Crash World α) : Prop :=
  ∀ s₀, Crash.Triple (Between s₀) m (fun _ => tracked.Follows s₀ Between)
    (tracked.Follows s₀ SameStore)

section Rules

variable {α β : Type} {m : Crash World α}

/-- A program that leaves the store alone and makes no calls stays where it is. -/
theorem follows_of_does {p : Act → Bool} (hp : ∀ a, p a = true → callOf a = none) (h : Does p m) :
    FollowsCmd m := by
  intro s₀
  have hI : ∀ w w' a, p a = true → Between s₀ w → w'.outbound = w.outbound →
      w'.log = w.log ++ [a] → Between s₀ w' := by
    intro w w' a ha ⟨hm, hidle⟩ ho' hlog
    have hm' := hm.append (hp a ha)
    exact ⟨⟨hm.outbound.trans ho'.symm, by rw [hlog]; exact hm'.handed, by rw [hlog]; exact hm'.calls⟩,
      hidle⟩
  exact (h (Between s₀) hI).post (fun _ _ hw => Machine.follows_refl hw) fun _ hw =>
    Machine.follows_refl (.inl hw.1)

theorem callOf_of_rejects (a : Act) (h : rejects a = true) : callOf a = none := by
  cases a with
  | pay call => cases h
  | writeOutbound bytes => cases h
  | _ => rfl

theorem callOf_of_plain (a : Act) (h : proceeds plain a = true) : callOf a = none := by
  cases a with
  | pay call => cases h
  | writeOutbound bytes => cases h
  | _ => rfl

theorem follows_pure (a : α) : FollowsCmd (pure a) := follows_of_does callOf_of_rejects (does_pure a)

theorem follows_note {a : Act} (ha : callOf a = none) : FollowsCmd (note a) :=
  follows_of_does (p := fun a => (callOf a).isNone) (fun _ h => Option.isNone_iff_eq_none.mp h)
    (does_note (by rw [ha]; rfl))

theorem follows_abort : FollowsCmd (Crash.abort : Crash World α) :=
  follows_of_does callOf_of_rejects does_abort

theorem PlainCmd.follows (h : PlainCmd m) : FollowsCmd m :=
  h.elim (follows_of_does callOf_of_rejects) (follows_of_does callOf_of_plain)

/-- A program that starts where a run from `s₀` has come to. -/
theorem FollowsCmd.after (h : FollowsCmd m) :
    Crash.Triple (tracked.Follows s₀ Between) m (fun _ => tracked.Follows s₀ Between)
      (tracked.Follows s₀ SameStore) := by
  rintro w ⟨ls, s, hrun, hs⟩
  obtain ⟨hc, hq⟩ := h s w hs
  exact ⟨fun t ht => (hc t ht).trans hrun, fun a t ht => (hq a t ht).trans hrun⟩

theorem FollowsCmd.bind {f : α → Crash World β} (hm : FollowsCmd m) (hf : ∀ a, FollowsCmd (f a)) :
    FollowsCmd (m >>= f) :=
  fun s₀ => .bind (hm s₀) fun a => (hf a).after

theorem follows_deliver (events : List OutboundEvent) : FollowsCmd (deliver events) :=
  fun _ => (deliver_follows events).pre fun _ hw => Machine.follows_refl hw

theorem follows_send {cmd : SendCmd} {info : PaymentInfo} {call : PayCall}
    (he : cmd.entry = some (id, info)) (hcall : call.paymentId = id) :
    FollowsCmd (send e cmd id info call) := by
  intro s₀ w hw
  exact send_follows he hcall hw.2 w hw.1

end Rules

/-! ## The commands -/

variable {K : Crates}

theorem confirm_follows (amtMsat : UInt64) (stdin : List Input) :
    FollowsCmd (confirm amtMsat stdin) := by
  induction stdin with
  | nil => exact (follows_note rfl).bind fun _ => follows_abort
  | cons input stdin ih =>
    refine (follows_note rfl).bind fun _ => (follows_deliver _).bind fun _ => ?_
    refine (follows_note rfl).bind fun _ => ?_
    split
    · exact (follows_note rfl).bind fun _ => follows_pure _
    · exact (follows_note rfl).bind fun _ => follows_pure _
    · split
      · exact follows_pure _
      · split
        · exact follows_pure _
        · exact ih

theorem payForOffer_follows (offer : Offer) (typed : Option UInt64) :
    FollowsCmd (payForOffer e offer typed) := by
  unfold payForOffer
  dsimp only
  split
  · exact (follows_note rfl).bind fun _ => follows_pure _
  · split
    · split
      · exact FollowsCmd.bind (follows_send rfl rfl) fun _ => follows_pure _
      · exact (follows_note rfl).bind fun _ => follows_pure _
    · refine (confirm_follows _ _).bind fun answer => ?_
      split
      · exact FollowsCmd.bind (follows_send rfl rfl) fun _ => follows_pure _
      · exact follows_pure _
      · exact follows_pure _

theorem payForHumanReadableName_follows (hrn : HumanReadableName) (typed : Option UInt64) :
    FollowsCmd (payForHumanReadableName e hrn typed) := by
  unfold payForHumanReadableName
  dsimp only
  split
  · exact follows_note rfl
  · split
    · exact follows_note rfl
    · exact follows_send rfl rfl

theorem sendPayment_follows (invoice : Outbound.Bolt11Invoice) (typed : Option UInt64) :
    FollowsCmd (sendPayment e invoice typed) := by
  unfold sendPayment
  dsimp only
  split
  · next hentry => exact follows_send hentry rfl
  · split
    · exact follows_note rfl
    · exact follows_note rfl

theorem sendpayment_follows (words : List String) : FollowsCmd (sendpayment K e words) := by
  cases words with
  | nil => exact (follows_note rfl).bind fun _ => follows_pure _
  | cons invoiceStr words =>
    simp only [sendpayment]
    split
    · exact (follows_note rfl).bind fun _ => follows_pure _
    · split
      · exact payForOffer_follows _ _
      · split
        · exact (payForHumanReadableName_follows _ _).bind fun _ => follows_pure _
        · split
          · exact (sendPayment_follows _ _).bind fun _ => follows_pure _
          · exact (follows_note rfl).bind fun _ => follows_pure _

theorem keysend_follows (words : List String) : FollowsCmd (keysend K e words) := by
  match words with
  | [] => exact follows_note rfl
  | dest :: words =>
    simp only [keysend]
    split
    · exact follows_note rfl
    · split
      · exact follows_note rfl
      · split
        · exact follows_note rfl
        · exact follows_send rfl rfl

theorem readFlags_does (flags : List String) (announceChannel withAnchors : Bool) :
    Does rejects (readFlags flags announceChannel withAnchors) := by
  induction flags generalizing announceChannel withAnchors with
  | nil => exact does_pure _
  | cons word flags ih =>
    rw [readFlags_cons]
    split
    · exact ih _ _
    · exact (does_note rfl).bind fun _ => ih _ _

theorem openchannel_follows (words : List String) : FollowsCmd (openchannel K e words) := by
  match words with
  | [] => exact (plain_argError _).follows
  | [_] => exact (plain_argError _).follows
  | word :: amt :: flags =>
    refine (reachPeer_plain word).follows.bind fun r => ?_
    split
    · exact (plain_pure _).follows
    · split
      · exact (plain_argError _).follows
      · refine (follows_of_does callOf_of_rejects (readFlags_does flags false false)).bind fun values => ?_
        refine (follows_note rfl).bind fun _ => ?_
        split
        · exact (plain_print _).follows
        · exact (plain_print _).follows

theorem handleLine_follows (line : String) : FollowsCmd (handleLine K e line) := by
  rcases handleLine_cases K e line with ⟨words, -, hcmd⟩ | ⟨words, -, hcmd⟩ | ⟨words, -, hcmd⟩ |
    hplain
  · rw [hcmd]
    exact (openchannel_follows words).bind fun _ => (plain_pure _).follows
  · rw [hcmd]
    exact sendpayment_follows words
  · rw [hcmd]
    exact (keysend_follows words).bind fun _ => (plain_pure _).follows
  · exact hplain.follows

/-! ## Sessions -/

theorem pollForUserInput_follows (K : Crates) (turns : List Turn) :
    FollowsCmd (pollForUserInput K turns) := by
  induction turns with
  | nil => exact follows_abort
  | cons turn turns ih =>
    refine (follows_deliver _).bind fun _ => (follows_note rfl).bind fun _ => ?_
    split
    · exact follows_note rfl
    · exact follows_note rfl
    · refine (handleLine_follows _).bind fun next => ?_
      split
      · exact ih
      · exact follows_pure _

/-- **A session follows the machine**: the store in each of its states is that of a run, with the
calls that the session has made. -/
theorem session_follows (K : Crates) (turns : List Turn) {w t : World} (hw : w.log = [])
    (ht : Crash.Leaves (pollForUserInput K turns) w t) :
    tracked.Follows ⟨Outbound.init w.outbound, []⟩ SameStore t := by
  have hstart : Between ⟨Outbound.init w.outbound, []⟩ w :=
    ⟨⟨rfl, by rw [hw]; rfl, by rw [hw]; rfl⟩, rfl⟩
  have hspec : Crash.Triple (Between ⟨Outbound.init w.outbound, []⟩) (pollForUserInput K turns)
      (fun _ => tracked.Follows ⟨Outbound.init w.outbound, []⟩ SameStore)
      (tracked.Follows ⟨Outbound.init w.outbound, []⟩ SameStore) :=
    (pollForUserInput_follows K turns _).post (fun _ _ hw => follows_sameStore hw) fun _ hw => hw
  exact hspec.leaves_of hstart (Machine.follows_refl (.inl hstart.1)) ht

/-- **A session records before it pays**: it makes the writes and the pay calls of a run of the
machine, in their order, and what it has paid is in the store, and in every file a crash may leave
of that run. -/
theorem session_write_ahead (K : Crates) (turns : List Turn)
    (inbound : InboundPaymentInfoStorage) (outbound : OutboundPaymentInfoStorage) (t : World)
    (ht : Crash.Leaves (pollForUserInput K turns) ⟨inbound, outbound, []⟩ t) :
    ∃ ls s calls, tracked.run ⟨Outbound.init outbound, []⟩ ls = some ⟨s, calls⟩ ∧
      Outbound.machine.run (Outbound.init outbound) ls = some s ∧ s.outbound = t.outbound ∧
      (calls = callsIn t.log ∨ (∃ id, t.log.getLast? = some (.insertOutbound id)) ∧
        calls = callsIn t.log ++ [.write t.outbound.encode]) ∧
      ∀ id ∈ handedIn t.log, id ∈ t.outbound.payments ∧
        ∀ b ∈ s.crashFiles, Outbound.Records id b := by
  obtain ⟨ls, ⟨s, calls⟩, hrun, hs⟩ := session_follows K turns rfl ht
  have hrun' := Machine.run_of_logged hrun
  have hw : Outbound.WriteAhead s := Machine.inv_run_all
    (fun _ _ _ h hs => Outbound.writeAhead_step h hs) (Outbound.writeAhead_init outbound) hrun'
  have hrecorded : ∀ ahead, Matches ahead ⟨s, calls⟩ t → ∀ id ∈ handedIn t.log,
      id ∈ t.outbound.payments ∧ ∀ b ∈ s.crashFiles, Outbound.Records id b := by
    intro ahead hm id hid
    have hid' := hw.handed id (hm.handed ▸ hid)
    exact ⟨hm.outbound ▸ hid'.mem, hid'.writes⟩
  refine ⟨ls, s, calls, hrun, hrun', ?_⟩
  rcases hs with hm | ⟨id, hlast, hm⟩
  · exact ⟨hm.outbound, .inl (hm.calls.trans (List.append_nil _)), hrecorded _ hm⟩
  · exact ⟨hm.outbound, .inr ⟨⟨id, hlast⟩, hm.calls⟩, hrecorded _ hm⟩

/-- An offer is paid, and the session ends. -/
theorem session_write_ahead_offer : ∃ t : World, ∃ ls s calls,
    tracked.run ⟨Outbound.init ⟨∅⟩, []⟩ ls = some ⟨s, calls⟩ ∧ s.outbound = t.outbound ∧
      calls = callsIn t.log ∧ calls.getLast? = some (.pay ⟨Vector.replicate 32 7⟩) ∧
      (∀ b ∈ s.crashFiles, Outbound.Records ⟨Vector.replicate 32 7⟩ b) := by
  let line := "sendpayment " ++
    "lno1pqpzwyq2p32x2um5ypmx2cm5dae8x93pqthvwfzadd7jejes8q9lhc4rvjxd022zv5l44g6qah82ru5rdpnpj"
  let turns : List Turn := [⟨⟨[], .line line⟩, sampleEnv⟩, ⟨⟨[], .line "quit"⟩, sampleEnv⟩]
  have hrun : ((pollForUserInput sampleCrates turns).exec noPayments).map
      (fun r => (handedIn r.2.log, (callsIn r.2.log).getLast?, r.2.log.getLast?)) =
      some ([⟨Vector.replicate 32 7⟩], some (.pay ⟨Vector.replicate 32 7⟩),
        some (.nextLine (.line "quit"))) := by decide +kernel
  obtain ⟨⟨u, t⟩, hexec, heq⟩ := Option.map_eq_some_iff.mp hrun
  obtain ⟨hhanded, hlast⟩ := Prod.mk.inj heq
  obtain ⟨hpay, hquit⟩ := Prod.mk.inj hlast
  obtain ⟨ls, s, calls, hls, -, ho, hcalls, hpaid⟩ := session_write_ahead sampleCrates turns ⟨∅⟩ ⟨∅⟩ t
    (.inr (.inr ⟨u, hexec⟩))
  have hmade : calls = callsIn t.log := by
    refine hcalls.resolve_right fun ⟨⟨id, hid⟩, _⟩ => ?_
    rw [hquit] at hid
    cases hid
  exact ⟨t, ls, s, calls, hls, ho, hmade, hmade ▸ hpay,
    (hpaid _ (by rw [hhanded]; exact List.mem_cons_self)).2⟩

end Cli

end LdkSample
