import LdkSample.Codec
import LdkSample.Machine.Files

/-!
# Migrating the deprecated spendable outputs

`migrate_deprecated_spendable_outputs` (`sweep.rs`) as a program on three folders and
the sweeper's durable set. It moves the pending files to the processing folder, writes
their concatenation as one file of the spendables folder, hands every descriptor of
that folder to the sweeper and removes the folders. `Env` is what differs from start to
start: the order in which directories are listed and the random names.
-/

namespace LdkSample

namespace Sweep

open Crash

inductive Folder where
  | pending
  | processing
  | spendables
  deriving DecidableEq, Repr

/-- `OutputSweeper::track_spendable_outputs`, with `exclude_static_outputs` unset. -/
structure Sweeper (δ : Type) where
  track : List δ → List δ → List δ
  mem_track : ∀ tracked outputs x, x ∈ track tracked outputs ↔ x ∈ tracked ∨ x ∈ outputs
  nodup_track : ∀ tracked outputs, tracked.Nodup → (track tracked outputs).Nodup

/-- The places where a directory is listed. -/
inductive Site where
  | movePending
  | readProcessing
  | removeProcessing
  | readSpendables
  | removeSpendables
  | removePending
  deriving DecidableEq, Repr

structure Env where
  order : Site → Listing
  /-- The random key of the store write, and the name of its temporary file. -/
  key : Dir → Name
  tmp : Dir → Name
  key_fresh : ∀ a, key a ∉ a
  tmp_fresh : ∀ a, tmp a ∉ a
  tmp_ne_key : ∀ a, tmp a ≠ key a

variable {δ : Type}

/-- The three folders, and the descriptors the sweeper tracks. -/
abbrev State (δ : Type) := Disk Folder (List δ)

/-- Move the files whose name is that of a 32-byte value in hex. -/
def movePending (files : List Dir.Entry) : Crash (State δ) Unit :=
  forEach files fun file =>
    if file.1.length = 64 then do
      createDirAll .processing
      rename .pending .processing file.1
    else pure ()

def readProcessing (e : Env) : Crash (State δ) (List UInt8) := do
  match ← readDir .processing with
  | some a => pure (((e.order .readProcessing).list a).map Sigma.snd).flatten
  | none => pure []

def writeOutputs (e : Env) (outputs : List UInt8) : Crash (State δ) Unit :=
  if outputs = [] then pure ()
  else do
    let a ← readDir .spendables
    storeWrite .spendables (e.key (a.getD ∅)) (e.tmp (a.getD ∅)) outputs
    removeDirAll (e.order .removeProcessing) .processing

/-- Move the pending files and concatenate what is in the processing folder. -/
def gather (e : Env) : Crash (State δ) Unit := do
  match ← readDir .pending with
  | some a => do
    movePending ((e.order .movePending).list a)
    let outputs ← readProcessing e
    writeOutputs e outputs
  | none => pure ()

/-- The descriptors of all files, `none` when one of them does not read to its end. -/
def readFiles (c : Codec δ) : List Dir.Entry → Option (List δ)
  | [] => some []
  | file :: files =>
    match c.readAll file.2, readFiles c files with
    | some xs, some ys => some (xs ++ ys)
    | _, _ => none

def readSpendables (c : Codec δ) (e : Env) : Crash (State δ) (List δ) := do
  match ← readDir .spendables with
  | some a => unwrap (readFiles c ((e.order .readSpendables).list a))
  | none => pure []

def trackSpendableOutputs (w : Sweeper δ) (outputs : List δ) : Crash (State δ) Unit :=
  modify fun d => { d with rest := w.track d.rest outputs }

/-- The migration up to the return of `track_spendable_outputs`. -/
def collect (c : Codec δ) (w : Sweeper δ) (e : Env) : Crash (State δ) Unit := do
  gather e
  let outputs ← readSpendables c e
  trackSpendableOutputs w outputs

def cleanup (e : Env) : Crash (State δ) Unit := do
  removeDirAll (e.order .removeSpendables) .spendables
  removeDirAll (e.order .removePending) .pending

/-- None of the three folders exists. -/
def Migrated (d : State δ) : Prop := ∀ f, d.dir f = none

instance (d : State δ) : Decidable (Migrated d) :=
  decidable_of_iff ((d.dir .pending).isNone ∧ (d.dir .processing).isNone ∧
    (d.dir .spendables).isNone) (by
    simp only [Option.isNone_iff_eq_none]
    exact ⟨fun h f => by cases f <;> simp [h], fun h => ⟨h _, h _, h _⟩⟩)

def migrateDeprecatedSpendableOutputs (c : Codec δ) (w : Sweeper δ) (e : Env) :
    Crash (State δ) Unit := do
  let d ← get
  if Migrated d then pure ()
  else do
    collect c w e
    cleanup e

/-- The names of the store write are new in the folder it writes to. -/
theorem Env.fresh_names (e : Env) (d : State δ) {n : Name}
    (h : n = e.tmp ((d.dir .spendables).getD ∅) ∨ n = e.key ((d.dir .spendables).getD ∅)) :
    d.file .spendables n = none := by
  cases hdir : d.dir .spendables with
  | none => exact Disk.file_of_none hdir n
  | some a =>
    rw [Disk.file_of_dir hdir, AList.lookup_eq_none]
    rw [hdir] at h
    rcases h with rfl | rfl
    · exact e.tmp_fresh a
    · exact e.key_fresh a

/-! ## Reading the files back -/

theorem readFiles_isSome {c : Codec δ} {files : List Dir.Entry} :
    (readFiles c files).isSome ↔ ∀ file ∈ files, (c.readAll file.2).isSome := by
  induction files with
  | nil => simp [readFiles]
  | cons file files ih =>
    rw [List.forall_mem_cons, ← ih, readFiles]
    cases c.readAll file.2 <;> cases readFiles c files <;> simp

theorem mem_readFiles {c : Codec δ} {files : List Dir.Entry} {outputs : List δ}
    (h : readFiles c files = some outputs) (file : Dir.Entry) (hf : file ∈ files) {x : δ}
    (hx : c.Holds file.2 x) : x ∈ outputs := by
  induction files generalizing outputs with
  | nil => cases hf
  | cons g files ih =>
    unfold readFiles at h
    split at h
    · next xs ys hg hrest =>
      cases h
      rcases List.mem_cons.mp hf with rfl | hf
      · obtain ⟨zs, hz, hx⟩ := hx
        rw [hz, c.readAll_encode] at hg
        cases hg
        exact List.mem_append_left _ hx
      · exact List.mem_append_right _ (ih hrest hf)
    · cases h

theorem readProcessing_of_dir {d : State δ} {a : Dir} (hdir : d.dir .processing = some a) (e : Env) :
    (readProcessing e).exec d =
      some ((((e.order .readProcessing).list a).map Sigma.snd).flatten, d) := by
  unfold readProcessing
  rw [exec_bind_some (readDir_exec _ d), hdir]
  rfl

/-- Bytes that there are become a new file of the spendables folder, and the processing folder
goes. -/
theorem writeOutputs_writes {d : State δ} (hdir : d.dir .processing ≠ none) (e : Env)
    {outputs : List UInt8} (hne : outputs ≠ []) :
    ∃ u, (writeOutputs e outputs).exec d = some ((), u.set .processing none) ∧
      Disk.Frame .spendables (fun n => n = e.tmp ((d.dir .spendables).getD ∅) ∨
        n = e.key ((d.dir .spendables).getD ∅)) d u ∧ u.dir .spendables ≠ none ∧
      u.file .spendables (e.key ((d.dir .spendables).getD ∅)) = some outputs ∧
      u.file .spendables (e.tmp ((d.dir .spendables).getD ∅)) = none := by
  obtain ⟨u, hu, hframe, hrest⟩ := storeWrite_exec (f := Folder.spendables)
    (e.tmp_ne_key ((d.dir .spendables).getD ∅)) outputs d
  have hrem := removeDirAll_exec (e.order .removeProcessing) .processing u
  rw [if_neg (by rwa [hframe.dir .processing (by decide)])] at hrem
  refine ⟨u, ?_, hframe, hrest⟩
  unfold writeOutputs
  rw [if_neg hne, exec_bind_some (readDir_exec _ d), exec_bind_some hu, hrem]

end Sweep

end LdkSample
