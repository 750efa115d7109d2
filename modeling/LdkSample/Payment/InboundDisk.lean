import LdkSample.Machine.Lives
import LdkSample.Machine.Logged
import LdkSample.Payment.Inbound
import LdkSample.Payment.StoreFile

/-!
# The inbound store on disk

The machine of `Inbound` with the file it writes: `files` are what `INBOUND_PAYMENTS_FNAME` held at
startup and what each `fs_store.write` was called with since, each with the invoices and claims
it accounts for, and `durable` is the newest of them known to have completed. A claim whose handler
has finished is in every file a crash may leave (`finished_on_disk`).
-/

namespace LdkSample

namespace Inbound

/-- A file, with what it accounts for. -/
structure Snapshot where
  file : Option Bytes
  issued : List Issued
  handled : List PaymentClaimed

structure Disk where
  files : List Snapshot
  durable : Nat
  /-- The write that each task awaits. -/
  cliWrite : Nat
  handlerWrite : Nat

def State.snapshot (s : State) : Snapshot := ⟨some s.inbound.encode, s.issued, s.handled⟩

/-- What a step does to the file. -/
def note (s : State) : Label → Disk → Disk
  | .write, d => { d with files := d.files ++ [s.snapshot], cliWrite := d.files.length }
  | .eventWrite, d => { d with files := d.files ++ [s.snapshot], handlerWrite := d.files.length }
  | .written, d => { d with durable := max d.durable d.cliWrite }
  | .eventWritten, d => { d with durable := max d.durable d.handlerWrite }
  | _, d => d

abbrev Stored : Type := Machine.Logged State Disk

def storedMachine : Machine Stored Label := machine.logged note

/-- The store read from a file, and what is known of the claims. -/
def start (inbound : InboundPaymentInfoStorage) (issued : List Issued)
    (handled : List PaymentClaimed) : State where
  inbound := inbound
  lock := none
  cli := .idle
  handler := .idle
  queue := []
  writes := []
  issued := issued
  handled := handled
  used := issued.map Issued.paymentHash ++ handled.map PaymentClaimed.paymentHash

/-- After startup, which reads the file and does not write it. -/
def Stored.boot (inbound : InboundPaymentInfoStorage) (f : Snapshot) : Stored where
  state := start inbound f.issued f.handled
  log := { files := [f], durable := 0, cliWrite := 0, handlerWrite := 0 }

/-- The files a crash may leave. -/
def Stored.crashFiles (s : Stored) : List Snapshot := s.log.files.drop s.log.durable

/-! ## The files account for the claims -/

/-- The file is of a store that accounts for the claims and invoices, and can be read back. -/
def Snapshot.Accounted (f : Snapshot) : Prop :=
  Accounts (readInboundPaymentInfo f.file) f.issued f.handled

theorem accounts_congr {m m' : InboundPaymentInfoStorage} {issued : List Issued}
    {handled : List PaymentClaimed} (ha : Accounts m issued handled)
    (hl : ∀ h, m'.payments.lookup h = m.payments.lookup h) : Accounts m' issued handled where
  claimed h e he := by
    rw [hl]
    exact ha.claimed h e he
  unclaimed h p hn hp := by
    rw [hl] at hp
    exact ha.unclaimed h p hn hp

/-- What is written is read back, as long as it fits into a `Vec`. -/
theorem readInbound_encode {m : InboundPaymentInfoStorage} {bytes : Bytes}
    (hv : toVec m.encode = some bytes) (h : PaymentHash) :
    (readInboundPaymentInfo (some m.encode)).payments.lookup h = m.payments.lookup h := by
  obtain ⟨-, rfl⟩ := toVec_eq_some hv
  unfold readInboundPaymentInfo
  dsimp only
  rw [(reads_inbound m hv).apply]
  dsimp only
  rw [← Finmap.lookup_toFinmap, toFinmap_insertAll, Finmap.lookup_toFinmap]

theorem accounted_snapshot {s : State} {bytes : Bytes} (ha : Accounts s.inbound s.issued s.handled)
    (hv : toVec s.inbound.encode = some bytes) : s.snapshot.Accounted :=
  accounts_congr ha fun h => readInbound_encode hv h

/-- The write a step makes, if it makes one, is of a `Vec`. -/
def Fits (s : State) : Label → Prop
  | .write | .eventWrite => (toVec s.inbound.encode).isSome
  | _ => True

instance (s : State) (l : Label) : Decidable (Fits s l) := by
  unfold Fits
  split <;> infer_instance

/-! ## Finished claims -/

/-- The claims in `es` are accounted for by every file from the `k`-th on. -/
def AccountedFrom (es : List PaymentClaimed) (k : Nat) (fs : List Snapshot) : Prop :=
  ∀ f ∈ fs.drop k, ∀ e ∈ es, e ∈ f.handled

/-- Where the handler is, and which files hold the claims it has handled. -/
def HandlerInv (s : Stored) : Prop :=
  match s.state.handler with
  | .idle | .locked _ => AccountedFrom s.state.handled s.log.durable s.log.files
  | .written | .awaiting => AccountedFrom s.state.handled s.log.handlerWrite s.log.files
  | .upserted => True

/-- What holds of the file in every state of a life. -/
structure DiskInv (s : Stored) : Prop where
  inv : ∃ m, Inv m s.state
  accounted : ∀ f ∈ s.log.files, f.Accounted
  handler : HandlerInv s

theorem AccountedFrom.mono {es : List PaymentClaimed} {k k' : Nat} {fs : List Snapshot}
    (h : AccountedFrom es k fs) (hk : k ≤ k') : AccountedFrom es k' fs :=
  fun f hf => h f ((List.drop_sublist_drop_left _ hk).subset hf)

theorem AccountedFrom.concat {es : List PaymentClaimed} {k : Nat} {fs : List Snapshot}
    {f : Snapshot} (h : AccountedFrom es k fs) (hf : ∀ e ∈ es, e ∈ f.handled) :
    AccountedFrom es k (fs ++ [f]) := by
  intro g hg
  rcases mem_drop_concat hg with hg | rfl
  · exact h g hg
  · exact hf

/-- Only the newest file has to account for what was handled last. -/
theorem accountedFrom_length {es : List PaymentClaimed} {fs : List Snapshot} {f : Snapshot}
    (hf : ∀ e ∈ es, e ∈ f.handled) : AccountedFrom es fs.length (fs ++ [f]) := by
  intro g hg
  rw [List.drop_left, List.mem_singleton] at hg
  rw [hg]
  exact hf

variable {s s' : Stored} {l : Label}

/-- A step of the CLI task leaves the handler's part. -/
theorem HandlerInv.congr (h : HandlerInv s) (hh : s'.state.handler = s.state.handler)
    (hd : s'.state.handled = s.state.handled) (hw : s'.log.handlerWrite = s.log.handlerWrite)
    (hdur : s.log.durable ≤ s'.log.durable)
    (hf : s'.log.files = s.log.files ∨ ∃ f, s'.log.files = s.log.files ++ [f] ∧
      f.handled = s.state.handled) : HandlerInv s' := by
  have keep : ∀ {k k'}, k ≤ k' → AccountedFrom s.state.handled k s.log.files →
      AccountedFrom s.state.handled k' s'.log.files := by
    intro k k' hk ha
    rcases hf with hf | ⟨f, hf, hfh⟩
    · rw [hf]
      exact ha.mono hk
    · rw [hf]
      exact (ha.mono hk).concat fun e he => by rwa [hfh]
  unfold HandlerInv at h ⊢
  rw [hh, hd, hw]
  split at h
  · exact keep hdur h
  · exact keep hdur h
  · exact keep (Nat.le_refl _) h
  · exact keep (Nat.le_refl _) h
  · trivial

theorem handlerInv_step (h : HandlerInv s) (hs : storedMachine.step s l = some s') :
    HandlerInv s' := by
  obtain ⟨hstep, hlog⟩ := Machine.logged_step.mp hs
  obtain ⟨t', g'⟩ := s'
  cases hlog
  dsimp only at hstep
  cases step_cases hstep with
  | write hp => exact h.congr rfl rfl rfl (Nat.le_refl _) (.inr ⟨_, rfl, rfl⟩)
  | written hp => exact h.congr rfl rfl rfl (Nat.le_max_left ..) (.inl rfl)
  | eventLock _ hp _ =>
    unfold HandlerInv at h ⊢
    rw [hp] at h
    exact h
  | eventUpsert hp => trivial
  | eventWrite hp => exact accountedFrom_length fun e he => he
  | eventUnlock hp =>
    unfold HandlerInv at h ⊢
    rw [hp] at h
    exact h
  | eventWritten hp =>
    unfold HandlerInv at h
    rw [hp] at h
    exact h.mono (Nat.le_max_right ..)
  | _ => exact h.congr rfl rfl rfl (Nat.le_refl _) (.inl rfl)

/-- What the files from the newest completed one on account for, they go on accounting for. -/
theorem accountedFrom_step {es : List PaymentClaimed}
    (h : AccountedFrom es s.log.durable s.log.files) (hes : ∀ e ∈ es, e ∈ s.state.handled)
    (hs : storedMachine.step s l = some s') :
    AccountedFrom es s'.log.durable s'.log.files := by
  rw [(Machine.logged_step.mp hs).2]
  cases l with
  | write => exact h.concat hes
  | eventWrite => exact h.concat hes
  | written => exact h.mono (Nat.le_max_left ..)
  | eventWritten => exact h.mono (Nat.le_max_left ..)
  | _ => exact h

/-- A handled claim stays handled. -/
theorem handled_step {e : PaymentClaimed} (he : e ∈ s.state.handled)
    (hs : storedMachine.step s l = some s') : e ∈ s'.state.handled := by
  obtain ⟨t', g'⟩ := s'
  cases step_cases (Machine.logged_step.mp hs).1 with
  | eventUpsert => exact List.mem_append_left _ he
  | _ => exact he

theorem diskInv_step (h : DiskInv s) (hfit : Fits s.state l)
    (hs : storedMachine.step s l = some s') : DiskInv s' := by
  obtain ⟨m, hinv⟩ := h.inv
  obtain ⟨hstep, hlog⟩ := Machine.logged_step.mp hs
  have hsnap (hv : (toVec s.state.inbound.encode).isSome) : s.state.snapshot.Accounted := by
    obtain ⟨bytes, hbytes⟩ := Option.isSome_iff_exists.mp hv
    exact accounted_snapshot hinv.accounts hbytes
  refine ⟨⟨m, inv_step hinv hstep⟩, fun f hf => ?_, handlerInv_step h.handler hs⟩
  rw [hlog] at hf
  cases l with
  | write =>
    rcases List.mem_append.mp hf with hf | hf
    · exact h.accounted f hf
    · rw [List.mem_singleton.mp hf]
      exact hsnap hfit
  | eventWrite =>
    rcases List.mem_append.mp hf with hf | hf
    · exact h.accounted f hf
    · rw [List.mem_singleton.mp hf]
      exact hsnap hfit
  | _ => exact h.accounted f hf

theorem inv_start {m : InboundPaymentInfoStorage} {issued : List Issued}
    {handled : List PaymentClaimed} (ha : Accounts m issued handled) :
    Inv m (start m issued handled) :=
  inv_init ⟨m, issued, handled, ha⟩

theorem diskInv_boot {f : Snapshot} (hf : f.Accounted) :
    DiskInv (Stored.boot (readInboundPaymentInfo f.file) f) where
  inv := ⟨_, inv_start hf⟩
  accounted g hg := by
    rw [List.mem_singleton.mp hg]
    exact hf
  handler g hg e he := by
    rw [List.mem_singleton.mp hg]
    exact he

/-- A claim whose handler has finished is in every file a crash may leave. -/
theorem DiskInv.finished_on_disk (h : DiskInv s) (hidle : s.state.handler = .idle) :
    AccountedFrom s.state.handled s.log.durable s.log.files := by
  have hh := h.handler
  unfold HandlerInv at hh
  rwa [hidle] at hh

end Inbound

end LdkSample
