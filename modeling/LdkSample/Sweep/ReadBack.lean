import LdkSample.Sweep.Descriptor

/-!
# Reading concatenated descriptors back

The loop that reads the descriptors of a file, over a reader with a position: it looks whether there
is a byte left, goes back, and reads a descriptor. Each turn ends the loop or moves the position on
(`turn_lt`). On any bytes it reads what the migration is modelled to read of them
(`readFiles_eq_readFileLoops`), and of a concatenation of files each descriptor comes back once, in
order (`read_back`).
-/

namespace LdkSample

namespace Sweep

open Crash

/-! ## The reader -/

/-- A `BufReader` of a file. -/
structure Reader where
  bytes : List UInt8
  pos : Nat

namespace Reader

/-- How much there is left to read. -/
def left (r : Reader) : Nat := r.bytes.length - r.pos

/-- `read_exact` of one byte; `none` is an unexpected end of file. -/
def readByte (r : Reader) : Option Reader :=
  if r.pos < r.bytes.length then some { r with pos := r.pos + 1 } else none

/-- `seek(SeekFrom::Current(-1))`; `none` is an error. -/
def seekBack (r : Reader) : Option Reader :=
  if 0 < r.pos then some { r with pos := r.pos - 1 } else none

end Reader

variable {δ : Type}

/-- `Readable::read`; `none` is an error. -/
def readDescriptor (c : Codec δ) (r : Reader) : Option (δ × Reader) :=
  (c.read (r.bytes.drop r.pos)).map fun (x, rest) =>
    (x, { r with pos := r.bytes.length - rest.length })

inductive Turn (δ : Type) where
  | done
  | panicked
  | pushed (x : δ) (r : Reader)

/-- One turn of the loop. -/
def turn (c : Codec δ) (r : Reader) : Turn δ :=
  match r.readByte with
  | none => .done
  | some r =>
    match r.seekBack with
    | none => .panicked
    | some r =>
      match readDescriptor c r with
      | none => .panicked
      | some (x, r) => .pushed x r

theorem readByte_seekBack {r : Reader} (h : r.pos < r.bytes.length) :
    ∃ r', r.readByte = some r' ∧ r'.seekBack = some r := by
  refine ⟨{ r with pos := r.pos + 1 }, if_pos h, ?_⟩
  exact if_pos (Nat.succ_pos r.pos)

/-- What the byte that is looked at does to the reader is undone. -/
theorem turn_of_left {c : Codec δ} {r : Reader} (h : r.pos < r.bytes.length) :
    turn c r = match readDescriptor c r with
      | none => .panicked
      | some (x, r') => .pushed x r' := by
  obtain ⟨r', hbyte, hseek⟩ := readByte_seekBack h
  unfold turn
  rw [hbyte]
  dsimp only
  rw [hseek]

theorem turn_of_end {c : Codec δ} {r : Reader} (h : r.bytes.length ≤ r.pos) : turn c r = .done := by
  have hbyte : r.readByte = none := if_neg (Nat.not_lt.mpr h)
  unfold turn
  rw [hbyte]

/-- A turn that pushes a descriptor leaves fewer bytes. -/
theorem turn_lt {c : Codec δ} {r r' : Reader} {x : δ} (h : turn c r = .pushed x r') :
    r'.left < r.left := by
  rcases Nat.lt_or_ge r.pos r.bytes.length with hpos | hpos
  · rw [turn_of_left hpos] at h
    unfold readDescriptor at h
    cases hread : c.read (r.bytes.drop r.pos) with
    | none =>
      rw [hread] at h
      cases h
    | some p =>
      obtain ⟨y, rest⟩ := p
      rw [hread] at h
      cases h
      have hlt := c.read_lt _ x rest hread
      rw [List.length_drop] at hlt
      show r.bytes.length - (r.bytes.length - rest.length) < r.bytes.length - r.pos
      omega
  · rw [turn_of_end hpos] at h
    cases h

/-- The descriptors that the loop pushes, `none` where it panics. -/
def readLoop (c : Codec δ) (r : Reader) : Option (List δ) :=
  match _h : turn c r with
  | .done => some []
  | .panicked => none
  | .pushed x r' => (readLoop c r').map (x :: ·)
termination_by r.left
decreasing_by exact turn_lt ‹_›

/-- The loop ends on every file: no turn of it stays where it is, and there is no end of turns. -/
structure LoopEnds (c : Codec δ) : Prop where
  progress : ∀ r x r', turn c r = .pushed x r' → r'.left < r.left
  finite : ∀ rs : Nat → Reader, ∃ k, ∀ x, turn c (rs k) ≠ .pushed x (rs (k + 1))

theorem loopEnds (c : Codec δ) : LoopEnds c where
  progress _ _ _ := turn_lt
  finite rs := by
    by_contra hall
    push Not at hall
    have hle : ∀ k, (rs k).left + k ≤ (rs 0).left := by
      intro k
      induction k with
      | zero => exact Nat.le_refl _
      | succ k ih =>
        obtain ⟨x, hx⟩ := hall k
        have := turn_lt hx
        omega
    have := hle ((rs 0).left + 1)
    omega

/-! ## Encodings -/

theorem readLoop_nil (c : Codec δ) {r : Reader} (h : r.bytes.length ≤ r.pos) :
    readLoop c r = some [] := by
  have hturn := turn_of_end (c := c) h
  rw [readLoop]
  split <;> simp_all

theorem readLoop_of_panicked {c : Codec δ} {r : Reader} (h : turn c r = .panicked) :
    readLoop c r = none := by
  rw [readLoop]
  split <;> simp_all

theorem readLoop_of_pushed {c : Codec δ} {r r' : Reader} {x : δ} (h : turn c r = .pushed x r') :
    readLoop c r = (readLoop c r').map (x :: ·) := by
  rw [readLoop]
  split
  · next hturn =>
    rw [h] at hturn
    cases hturn
  · next hturn =>
    rw [h] at hturn
    cases hturn
  · next hturn =>
    rw [h] at hturn
    cases hturn
    rfl

theorem turn_write (c : Codec δ) (x : δ) (front rest : List UInt8) :
    turn c ⟨front ++ (c.write x ++ rest), front.length⟩ =
      .pushed x ⟨front ++ (c.write x ++ rest), front.length + (c.write x).length⟩ := by
  have hpos : 0 < (c.write x).length := List.length_pos_iff.mpr (c.write_ne_nil x)
  rw [turn_of_left (by simp only [List.length_append]; omega)]
  unfold readDescriptor
  dsimp only
  rw [List.drop_left, c.read_write]
  have hlen : (front ++ (c.write x ++ rest)).length - rest.length =
      front.length + (c.write x).length := by
    simp only [List.length_append]
    omega
  dsimp only [Option.map_some]
  rw [hlen]

/-- From any position on, the loop gives the values whose encodings follow. -/
theorem readLoop_encode (c : Codec δ) (xs : List δ) (front : List UInt8) :
    readLoop c ⟨front ++ c.encode xs, front.length⟩ = some xs := by
  induction xs generalizing front with
  | nil => exact readLoop_nil c (by simp [Codec.encode])
  | cons x xs ih =>
    have hcons : c.encode (x :: xs) = c.write x ++ c.encode xs := rfl
    have hturn := turn_write c x front (c.encode xs)
    have hnext := ih (front ++ c.write x)
    rw [List.append_assoc, List.length_append] at hnext
    rw [hcons, readLoop_of_pushed hturn, hnext, Option.map_some]

/-! ## Any bytes -/

/-- The loop over the positions of a file is the one over the bytes that are left. -/
theorem readLoop_eq_readAll {c : Codec δ} (hc : c.TakesOff) (r : Reader) :
    readLoop c r = c.readAll (r.bytes.drop r.pos) := by
  rcases Nat.lt_or_ge r.pos r.bytes.length with hpos | hpos
  · have hturn := turn_of_left (c := c) hpos
    unfold readDescriptor at hturn
    cases hread : c.read (r.bytes.drop r.pos) with
    | none =>
      rw [hread] at hturn
      have hne : r.bytes.drop r.pos ≠ [] := by
        rw [Ne, List.drop_eq_nil_iff]
        omega
      rw [readLoop_of_panicked hturn, c.readAll_of_read_none hne hread]
    | some p =>
      obtain ⟨x, rest⟩ := p
      rw [hread] at hturn
      have hrest : r.bytes.drop (r.bytes.length - rest.length) = rest :=
        (List.suffix_iff_eq_drop.mp ((hc _ x rest hread).trans (List.drop_suffix _ _))).symm
      have hlt := turn_lt hturn
      rw [readLoop_of_pushed hturn, c.readAll_of_read hread, readLoop_eq_readAll hc, hrest]
  · rw [readLoop_nil c hpos, List.drop_eq_nil_of_le hpos, c.readAll_nil]
termination_by r.left

/-- What the migration reads of the files is what the loop reads of each. -/
def readFileLoops (c : Codec δ) : List Dir.Entry → Option (List δ)
  | [] => some []
  | file :: files =>
    match readLoop c ⟨file.2, 0⟩, readFileLoops c files with
    | some xs, some ys => some (xs ++ ys)
    | _, _ => none

theorem readFiles_eq_readFileLoops {c : Codec δ} (hc : c.TakesOff) (files : List Dir.Entry) :
    readFiles c files = readFileLoops c files := by
  induction files with
  | nil => rfl
  | cons file files ih =>
    have hfile : readLoop c ⟨file.2, 0⟩ = c.readAll file.2 := readLoop_eq_readAll hc ⟨file.2, 0⟩
    show (match c.readAll file.2, readFiles c files with
      | some xs, some ys => some (xs ++ ys)
      | _, _ => none) = readFileLoops c (file :: files)
    rw [ih, ← hfile]
    rfl

theorem encode_flatMap (c : Codec δ) {α : Type} (lists : α → List δ) (l : List α) :
    c.encode (l.flatMap lists) = (l.map fun a => c.encode (lists a)).flatten := by
  induction l with
  | nil => rfl
  | cons a l ih => rw [List.flatMap_cons, c.encode_append, ih, List.map_cons, List.flatten_cons]

/-! ## The files of the old version -/

/-- The encoding of `WithoutLength`: the items one after another, and a `u8` is written as it is. -/
def withoutLength (outputs : List UInt8) : List UInt8 := outputs.flatMap fun byte => [byte]

theorem withoutLength_eq (outputs : List UInt8) : withoutLength outputs = outputs := by
  unfold withoutLength
  rw [List.flatMap_singleton']

/-- The file that the migration writes. -/
theorem writeOutputs_file {d : State δ} (hdir : d.dir .processing ≠ none) (e : Env)
    {outputs : List UInt8} (hne : outputs ≠ []) :
    ∃ t, (writeOutputs e outputs).exec d = some ((), t) ∧
      t.file .spendables (e.key ((d.dir .spendables).getD ∅)) = some (withoutLength outputs) := by
  obtain ⟨u, hu, -, -, hkey, -⟩ := writeOutputs_writes hdir e hne
  refine ⟨_, hu, ?_⟩
  rw [u.file_set_ne none (by decide), hkey, withoutLength_eq]

/-- What is read back of the files of the processing folder, the lists of which are `lists`. -/
structure ReadBack (c : Codec δ) (e : Env) (d : State δ) (xs : List δ) : Prop where
  /-- Nothing is written of no bytes. -/
  empty : (readProcessing e).exec d = some ([], d) → xs = []
  file : ∀ outputs, (readProcessing e).exec d = some (outputs, d) → outputs ≠ [] →
    ∃ t bytes, (writeOutputs e outputs).exec d = some ((), t) ∧
      t.file .spendables (e.key ((d.dir .spendables).getD ∅)) = some bytes ∧
      readLoop c ⟨bytes, 0⟩ = some xs

/-- **Concatenated files are read back**: the loop over the file that the migration makes of the
processing folder gives the lists of its files one after another, in the order in which they are
listed, and the loop ends on every file there is. -/
theorem read_back (c : Codec δ) (e : Env) {d : State δ} {a : Dir} {lists : Dir.Entry → List δ}
    (hdir : d.dir .processing = some a)
    (hfiles : ∀ file ∈ (e.order .readProcessing).list a, file.2 = c.encode (lists file)) :
    (∃ outputs, (readProcessing e).exec d = some (outputs, d)) ∧
      ReadBack c e d (((e.order .readProcessing).list a).flatMap lists) ∧ LoopEnds c := by
  have hexec := readProcessing_of_dir hdir e
  have houtputs : (((e.order .readProcessing).list a).map Sigma.snd).flatten =
      c.encode (((e.order .readProcessing).list a).flatMap lists) := by
    rw [encode_flatMap, List.map_congr_left hfiles]
  rw [houtputs] at hexec
  refine ⟨⟨_, hexec⟩, ⟨fun hempty => ?_, fun outputs hout hne => ?_⟩, loopEnds c⟩
  · rw [hexec] at hempty
    exact c.encode_eq_nil.mp (congrArg Prod.fst (Option.some_inj.mp hempty))
  · rw [hexec] at hout
    cases hout
    obtain ⟨t, ht, hfile⟩ := writeOutputs_file (by rw [hdir]; exact Option.some_ne_none a) e hne
    refine ⟨t, _, ht, hfile, ?_⟩
    rw [withoutLength_eq]
    exact readLoop_encode c _ []

section Examples

-- A byte in front of a descriptor makes two others of it.
example : (readLoop descriptorCodec ⟨0 :: oneOutput.write, 0⟩).map
    (List.map SpendableOutputDescriptor.write) = some [[0, 0], [2, 1, 2]] := by
  rw [readLoop_eq_readAll descriptorCodec_takesOff]
  decide +kernel

def otherOutput : SpendableOutputDescriptor := ⟨2, [], by decide, by decide⟩

/-- Two files of the processing folder, the second one with two descriptors. -/
def twoFiles : Dir :=
  (AList.singleton oneName (descriptorCodec.encode [oneOutput, otherOutput])).insert [97]
    (descriptorCodec.encode [oneOutput])

def twoProcessing : State SpendableOutputDescriptor where
  dir f := if f = .processing then some twoFiles else none
  rest := []

end Examples

theorem read_back_twoFiles :
    (∃ outputs, (readProcessing (Env.ofKey [98])).exec twoProcessing = some (outputs, twoProcessing)) ∧
      ReadBack descriptorCodec (Env.ofKey [98]) twoProcessing [oneOutput, oneOutput, otherOutput] ∧
      LoopEnds descriptorCodec := by
  let lists : Dir.Entry → List SpendableOutputDescriptor := fun file =>
    if file.1 = [97] then [oneOutput] else [oneOutput, otherOutput]
  have hdir : twoProcessing.dir .processing = some twoFiles := rfl
  have hfiles : ∀ file ∈ twoFiles.entries, file.2 = descriptorCodec.encode (lists file) := by decide
  exact @read_back _ descriptorCodec (Env.ofKey [98]) _ _ lists hdir hfiles

end Sweep

end LdkSample
