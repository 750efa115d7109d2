import LdkSample.Lives.Sent

/-!
# What the record of sent payments rests on

The lives of a node with a log of what each step tells it about its payments. Every entry, in memory
or in a file, has its causes in the log: a send command for it, `PaymentSent` with its preimage if it
is a success, and if it is failed an event, a refusal or a start at which `ChannelManager` did not
know it (`statuses_explained`). No crash, restart or interleaving makes a status up.
-/

namespace LdkSample

namespace Lives

open Startup Outbound

inductive Cause where
  | command (cmd : SendCmd)
  | sent (p : PaymentPreimage) (id : PaymentId)
  | failed (id : PaymentId)
  | refused (id : PaymentId)
  /-- A start at which `ChannelManager` knew of these payments only. -/
  | knownAtStart (recent : List PaymentId)

/-- What a step of the outbound store tells about a payment. -/
def causeOf (s : Outbound.State) : Outbound.Label → Option Cause
  | .start cmd => some (.command cmd)
  | .mark =>
    match s.cli with
    | .refused _ id => some (.refused id)
    | _ => none
  | .event (.paymentSent p (some id)) => some (.sent p id)
  | .event (.paymentFailed id) => some (.failed id)
  | _ => none

def note : Phase → LifeLabel → List Cause → List Cause
  | .up n, .step (.outbound l), log => (causeOf n.outbound l).toList ++ log
  | _, .start e, log | _, .startKilled e _, log => .knownAtStart e.env.recentPaymentsPaymentIds :: log
  | _, _, log => log

def loggedLives (L : Lightning) : Machine (Machine.Logged Phase (List Cause)) LifeLabel :=
  (lives L).logged note

/-- The causes of an entry are in the log. -/
structure Explained (log : List Cause) (id : PaymentId) (info : PaymentInfo) : Prop where
  command : ∃ cmd info', .command cmd ∈ log ∧ cmd.entry = some (id, info') ∧
    info.secret = info'.secret ∧ info.amtMsat = info'.amtMsat
  preimage : ∀ p, info.preimage = some p → .sent p id ∈ log
  succeeded : info.status = .succeeded → info.preimage.isSome
  failed : info.status = .failed → .failed id ∈ log ∨ .refused id ∈ log ∨
    ∃ recent, .knownAtStart recent ∈ log ∧ id ∉ recent

def Explains (log : List Cause) (o : OutboundPaymentInfoStorage) : Prop :=
  ∀ id info, o.payments.lookup id = some info → Explained log id info

/-- Every store in memory or in a file a crash may leave meets `R`. -/
def AllMeet (R : OutboundPaymentInfoStorage → Prop) : Phase → Prop
  | .up n => R n.outbound.outbound ∧ ∀ b ∈ n.outbound.crashFiles, IsOf R b
  | .down d => ∀ b, d.world.outboundPayments = some b → IsOf R b

variable {L : Lightning} {log log' : List Cause} {id : PaymentId} {info : PaymentInfo}

theorem Explained.mono (h : Explained log id info) (hsub : ∀ c ∈ log, c ∈ log') :
    Explained log' id info where
  command := by
    obtain ⟨cmd, info', hc, h⟩ := h.command
    exact ⟨cmd, info', hsub _ hc, h⟩
  preimage p hp := hsub _ (h.preimage p hp)
  succeeded := h.succeeded
  failed hf := by
    rcases h.failed hf with h | h | ⟨recent, h, hid⟩
    · exact .inl (hsub _ h)
    · exact .inr (.inl (hsub _ h))
    · exact .inr (.inr ⟨recent, hsub _ h, hid⟩)

theorem Explains.mono {o : OutboundPaymentInfoStorage} (h : Explains log o)
    (hsub : ∀ c ∈ log, c ∈ log') : Explains log' o := fun id info hi => (h id info hi).mono hsub

theorem explained_entry {cmd : SendCmd} (he : cmd.entry = some (id, info))
    (hc : .command cmd ∈ log) : Explained log id info := by
  obtain ⟨hst, hpre⟩ := SendCmd.entry_status he
  refine ⟨⟨cmd, info, hc, he, rfl, rfl⟩, ?_, ?_, ?_⟩
  · intro p hp
    rw [hpre] at hp
    cases hp
  · intro h
    rw [hst] at h
    cases h
  · intro h
    rw [hst] at h
    cases h

/-- A failure whose cause is in the log. -/
theorem Explained.fail (h : Explained log id info)
    (hf : .failed id ∈ log ∨ .refused id ∈ log ∨ ∃ recent, .knownAtStart recent ∈ log ∧ id ∉ recent) :
    Explained log id { info with status := .failed } where
  command := h.command
  preimage := h.preimage
  succeeded hs := by cases hs
  failed _ := hf

theorem Explained.sent {p : PaymentPreimage} (h : Explained log id info) (hs : .sent p id ∈ log) :
    Explained log id { info with preimage := some p, status := .succeeded } where
  command := h.command
  preimage q hq := by
    cases hq
    exact hs
  succeeded _ := rfl
  failed hf := by cases hf

theorem Explained.settle (h : Explained log id info) {recent : List PaymentId}
    (hr : .knownAtStart recent ∈ log) : Explained log id (settle recent id info) := by
  unfold Startup.settle
  split
  · next hp => exact h.fail (.inr (.inr ⟨recent, hr, hp.2⟩))
  · exact h

/-- **One step**: what it makes of an entry, its cause explains. -/
theorem explains_step {s s' : Outbound.State} {l : Outbound.Label} (h : Explains log s.outbound)
    (hs : Outbound.machine.step s l = some s') :
    Explains ((causeOf s l).toList ++ log) s'.outbound := by
  intro id info hi
  have hsub : ∀ c ∈ log, c ∈ (causeOf s l).toList ++ log := fun c hc => List.mem_append_right _ hc
  have ht := touch_step id hs
  have hold := h id
  rw [hi] at ht
  generalize s.outbound.payments.lookup id = o at ht hold
  cases ht with
  | same => exact (hold info rfl).mono hsub
  | insert he => exact explained_entry he List.mem_cons_self
  | @refused path old hc =>
    refine ((hold old rfl).mono hsub).fail (.inr (.inl ?_))
    unfold causeOf
    rw [hc]
    exact List.mem_cons_self
  | @event e old he =>
    cases e with
    | paymentSent p id' =>
      cases he
      exact ((hold old rfl).mono hsub).sent List.mem_cons_self
    | paymentFailed id' =>
      cases he
      exact ((hold old rfl).mono hsub).fail (.inl List.mem_cons_self)

/-! ## Lives -/

def ExplainedUp (log : List Cause) (n : Node) : Prop :=
  KeptFrom (Explains log) 0 n.outbound ∧ Fits n.outbound

def ExplainedDown (log : List Cause) (d : Disk) : Prop :=
  ∀ b, d.world.outboundPayments = some b → IsOf (Explains log) b ∧ (toVec b).isSome

theorem explainedDown_mono {d : Disk} (h : ExplainedDown log d) (hsub : ∀ c ∈ log, c ∈ log') :
    ExplainedDown log' d := by
  intro b hb
  obtain ⟨hof, hv⟩ := h b hb
  exact ⟨hof.imp fun _ ho => ho.mono hsub, hv⟩

theorem lookup_readNothing (recent : List PaymentId) :
    (reconcile ⟨∅⟩ recent).payments.lookup id = none := by
  rw [lookup_reconcile]
  rfl

/-- A store that is loaded is explained by its file and the start. -/
theorem explains_loaded {e : Env} {d : Disk} (h : ExplainedDown log d)
    (hr : .knownAtStart e.recentPaymentsPaymentIds ∈ log) :
    Explains log (loadedOutbound e d.world.outboundPayments) := by
  intro id info hi
  cases hopen : e.outboundFault with
  | some kind =>
    have hnone : (loadedOutbound e d.world.outboundPayments).payments.lookup id = none := by
      rw [loadedOutbound, hopen]
      exact lookup_readNothing _
    rw [hnone] at hi
    cases hi
  | none =>
    cases hfile : d.world.outboundPayments with
    | none =>
      have hnone : (loadedOutbound e d.world.outboundPayments).payments.lookup id = none := by
        rw [loadedOutbound, hopen, hfile]
        exact lookup_readNothing _
      rw [hnone] at hi
      cases hi
    | some b =>
      obtain ⟨⟨o, rfl, ho⟩, hv⟩ := h b hfile
      rw [hfile, lookup_loadedOutbound hopen hv, Option.map_eq_some_iff] at hi
      obtain ⟨old, hold, rfl⟩ := hi
      exact (ho id old hold).settle hr

theorem explained_of_started {e : StartEnv} {d d' : Disk} (h : ExplainedDown log d)
    (hr : .knownAtStart e.env.recentPaymentsPaymentIds ∈ log) (hs : Started e d d') :
    ExplainedDown log d' := by
  rcases hs.outbound with heq | hf
  · unfold ExplainedDown
    rw [heq]
    exact h
  · obtain ⟨b, hb, hof, hv⟩ := kept_of_isFileOf (explains_loaded h hr) hf
    intro c hc
    rw [hb] at hc
    cases hc
    exact ⟨hof, hv⟩

/-- What holds of the log and the node, whichever phase it is in. -/
def ExplainedIn (w : Machine.Logged Phase (List Cause)) : Prop :=
  w.state.Holds (ExplainedUp w.log) (ExplainedDown w.log)

theorem explainedIn_step {w w' : Machine.Logged Phase (List Cause)} {k : LifeLabel}
    (h : ExplainedIn w) (hs : (loggedLives L).step w k = some w') : ExplainedIn w' := by
  obtain ⟨x, log⟩ := w
  obtain ⟨x', log'⟩ := w'
  obtain ⟨hstep, hlog⟩ := Machine.logged_step.mp hs
  dsimp only at hstep hlog
  subst hlog
  cases Machine.Service.lives_step_cases hstep with
  | @step n n' l hl =>
    cases step_cases hl with
    | inbound => exact h
    | @outbound l _ ho hfit =>
      have hold : KeptFrom (Explains ((causeOf n.outbound l).toList ++ log)) 0 n.outbound :=
        h.1.imp fun _ hex => hex.mono fun c hc => List.mem_append_right _ hc
      exact ⟨keptFrom_step hold (explains_step h.1.mem ho) ho, hfit⟩
    | persistManager => exact h
  | kill hd =>
    obtain ⟨⟨b, hb, hfile⟩, -⟩ := mem_crash hd
    have hmem := List.mem_of_mem_drop hb
    intro c hc
    rw [hfile] at hc
    cases hc
    exact ⟨h.1.writes b hmem, h.2 b hmem⟩
  | @started d d' e loaded he =>
    have hd : ExplainedDown (.knownAtStart e.env.recentPaymentsPaymentIds :: log) d :=
      explainedDown_mono h fun c hc => List.mem_cons_of_mem _ hc
    have hend : LoadedIn e d loaded d' := (start_spec e d _ rfl).2 _ _ he
    have hup := keptUp_up hend (hend.snd ▸ explains_loaded hd List.mem_cons_self)
    exact hup
  | @returned d d' e he =>
    exact explained_of_started (explainedDown_mono h fun c hc => List.mem_cons_of_mem _ hc)
      List.mem_cons_self ((start_spec e d _ rfl).2 _ _ he)
  | @startKilled d d' e n hd =>
    exact explained_of_started (explainedDown_mono h fun c hc => List.mem_cons_of_mem _ hc)
      List.mem_cons_self ((start_spec e d _ rfl).1 _ hd)

/-- **Every recorded status has its cause**, in every run of lives from a data directory without
sent payments. -/
theorem statuses_explained (d : Disk) (ks : List LifeLabel) (t : Phase) (log : List Cause)
    (hd : d.world.outboundPayments = none)
    (hr : (loggedLives L).run ⟨.down d, []⟩ ks = some ⟨t, log⟩) : AllMeet (Explains log) t := by
  have hinit : ExplainedIn ⟨.down d, []⟩ := by
    intro b hb
    rw [hd] at hb
    cases hb
  have h := Machine.inv_run_all (fun _ _ _ h hs => explainedIn_step h hs) hinit hr
  cases t with
  | up n => exact ⟨h.1.mem, fun b hb => h.1.writes b (List.mem_of_mem_drop hb)⟩
  | down d => exact fun b hb => (h b hb).1

/-- The second start does not know of the payment, and its record is failed. -/
theorem statuses_explained_run : ∃ t log,
    (loggedLives storedAtOld).run ⟨.down seeded, []⟩ (sendOne ++ killAndStart) = some ⟨t, log⟩ ∧
    .knownAtStart [] ∈ log ∧ AllMeet (Explains log) t := by
  refine ⟨_, _, rfl, ?_, statuses_explained (L := storedAtOld) seeded (sendOne ++ killAndStart) _ _
    rfl rfl⟩
  exact List.mem_cons_self

end Lives

end LdkSample
