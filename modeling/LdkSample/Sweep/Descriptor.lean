import LdkSample.Sweep.Migrate
import Mathlib.Data.List.Nodup

/-!
# Descriptors on the wire

The wire form of a `SpendableOutputDescriptor`, a variant byte and a length-prefixed
body, for bodies whose length fits one byte; a sweeper that adds what it does not track
yet; and a start with a given random key, lengthened where the folder already has that
name.
-/

namespace LdkSample

namespace Sweep

open Crash

structure SpendableOutputDescriptor where
  variant : UInt8
  body : List UInt8
  variant_le : variant ≤ 2
  body_lt : body.length < 0xfd
  deriving DecidableEq

def SpendableOutputDescriptor.write (x : SpendableOutputDescriptor) : List UInt8 :=
  x.variant :: UInt8.ofNat x.body.length :: x.body

def SpendableOutputDescriptor.read : List UInt8 → Option (SpendableOutputDescriptor × List UInt8)
  | variant :: len :: bytes =>
    if h : variant ≤ 2 ∧ len.toNat < 0xfd ∧ len.toNat ≤ bytes.length then
      some (⟨variant, bytes.take len.toNat, h.1, by rw [List.length_take]; omega⟩,
        bytes.drop len.toNat)
    else none
  | _ => none

theorem SpendableOutputDescriptor.read_write (x : SpendableOutputDescriptor)
    (rest : List UInt8) : read (x.write ++ rest) = some (x, rest) := by
  obtain ⟨variant, body, hv, hb⟩ := x
  have hlen : (UInt8.ofNat body.length).toNat = body.length := by
    rw [UInt8.toNat_ofNat']
    omega
  show read (variant :: UInt8.ofNat body.length :: (body ++ rest)) = _
  unfold read
  dsimp only
  rw [dif_pos ⟨hv, by omega, by rw [hlen, List.length_append]; omega⟩]
  simp [hlen]

theorem SpendableOutputDescriptor.read_lt (bytes : List UInt8) (x : SpendableOutputDescriptor)
    (rest : List UInt8) (h : read bytes = some (x, rest)) : rest.length < bytes.length := by
  unfold read at h
  split at h
  · split at h
    · cases h
      simp only [List.length_drop, List.length_cons]
      omega
    · cases h
  · cases h

def descriptorCodec : Codec SpendableOutputDescriptor where
  write := SpendableOutputDescriptor.write
  read := SpendableOutputDescriptor.read
  read_write := SpendableOutputDescriptor.read_write
  read_lt := SpendableOutputDescriptor.read_lt

theorem descriptorCodec_takesOff : descriptorCodec.TakesOff := by
  intro bytes x rest h
  have hread : SpendableOutputDescriptor.read bytes = some (x, rest) := h
  unfold SpendableOutputDescriptor.read at hread
  split at hread
  · next variant len tail =>
    split at hread
    · cases hread
      exact ((List.drop_suffix _ tail).trans (List.suffix_cons len tail)).trans
        (List.suffix_cons variant (len :: tail))
    · cases hread
  · cases hread

def unionSweeper (δ : Type) [DecidableEq δ] : Sweeper δ where
  track tracked outputs := outputs ∪ tracked
  mem_track tracked outputs x := by rw [List.mem_union_iff, or_comm]
  nodup_track tracked outputs h := h.union outputs

/-- `name`, lengthened past every name of the folder if it is taken. -/
def freshName (name : Name) (a : Dir) : Name :=
  name ++ List.replicate (if name ∈ a then a.keys.flatten.length + 1 else 0) 48

theorem freshName_fresh (name : Name) (a : Dir) : freshName name a ∉ a := by
  unfold freshName
  split
  · intro h
    have hle := (List.sublist_flatten_of_mem (AList.mem_keys.mp h)).length_le
    rw [List.length_append, List.length_replicate] at hle
    omega
  · next h => simpa using h

def tmpExtension : Name := [46, 48, 46, 116, 109, 112]

/-- A start whose random key is `key`. -/
def Env.ofKey (key : Name) : Env where
  order _ := ⟨AList.entries, fun _ => .refl _⟩
  key := freshName key
  tmp := freshName (key ++ tmpExtension)
  key_fresh := freshName_fresh key
  tmp_fresh := freshName_fresh (key ++ tmpExtension)
  tmp_ne_key a h := by
    unfold freshName at h
    rw [List.append_assoc, List.append_cancel_left_eq] at h
    -- the extension starts with a dot, the padding does not
    have hdot : (46 : UInt8) ∈ tmpExtension ++ List.replicate
        (if key ++ tmpExtension ∈ a then a.keys.flatten.length + 1 else 0) 48 :=
      List.mem_append_left _ (by decide)
    rw [h, List.mem_replicate] at hdot
    exact absurd hdot.2 (by decide)

/-! ## A folder of the old version -/

def oneOutput : SpendableOutputDescriptor := ⟨0, [1, 2], by decide, by decide⟩

def oneName : Name := List.replicate 64 97

/-- One pending file with one descriptor. -/
def onePending : State SpendableOutputDescriptor where
  dir f := if f = .pending then some (AList.singleton oneName oneOutput.write) else none
  rest := []

theorem onePending_file {n : Name} {b : List UInt8} (h : onePending.file .pending n = some b) :
    n = oneName ∧ b = oneOutput.write := by
  have hmem : (⟨n, b⟩ : Dir.Entry) ∈ (AList.singleton oneName oneOutput.write : Dir).entries :=
    AList.mem_lookup_iff.mp h
  cases List.mem_singleton.mp hmem
  exact ⟨rfl, rfl⟩

theorem holds_oneOutput : descriptorCodec.Holds oneOutput.write oneOutput :=
  ⟨[oneOutput], rfl, List.mem_cons_self⟩

/-- The state a start from `onePending` is in after step `k`. -/
def killedAfter (k : Nat) : Option (State SpendableOutputDescriptor) :=
  ((migrateDeprecatedSpendableOutputs descriptorCodec (unionSweeper SpendableOutputDescriptor)
    (.ofKey (List.replicate 64 98))).steps onePending)[k]?

theorem leaves_killedAfter {k : Nat} {t : State SpendableOutputDescriptor}
    (h : killedAfter k = some t) :
    Leaves (migrateDeprecatedSpendableOutputs descriptorCodec
      (unionSweeper SpendableOutputDescriptor) (.ofKey (List.replicate 64 98))) onePending t :=
  .inr (.inl (List.mem_of_getElem? h))

end Sweep

end LdkSample
