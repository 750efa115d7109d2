import Mathlib.Data.List.Basic

/-!
# Self-delimiting encodings

A codec writes a value as bytes from which reading takes it off again, whatever
follows; each read takes at least one byte. A concatenation of encodings is read back
by the loop that reads as long as there are bytes left (`readAll_encode`).
-/

namespace LdkSample

structure Codec (δ : Type) where
  write : δ → List UInt8
  read : List UInt8 → Option (δ × List UInt8)
  read_write : ∀ x rest, read (write x ++ rest) = some (x, rest)
  read_lt : ∀ bytes x rest, read bytes = some (x, rest) → rest.length < bytes.length

namespace Codec

variable {δ : Type} (c : Codec δ)

/-- The concatenation of the encodings. -/
def encode (xs : List δ) : List UInt8 := xs.flatMap c.write

/-- The reading loop, with a bound on its iterations. -/
def readLoop : Nat → List UInt8 → Option (List δ)
  | _, [] => some []
  | 0, _ :: _ => none
  | k + 1, b :: bytes =>
    match c.read (b :: bytes) with
    | some (x, rest) => (readLoop k rest).map (x :: ·)
    | none => none

/-- Read values until no byte is left, `none` when a read fails. -/
def readAll (bytes : List UInt8) : Option (List δ) := c.readLoop bytes.length bytes

theorem write_ne_nil (x : δ) : c.write x ≠ [] := by
  intro h
  have hlt := c.read_lt _ x [] (c.read_write x [])
  rw [h] at hlt
  simp at hlt

/-- The bound does not matter once it covers the bytes. -/
theorem readLoop_congr (k k' : Nat) {bytes : List UInt8} (h : bytes.length ≤ k)
    (h' : bytes.length ≤ k') : c.readLoop k bytes = c.readLoop k' bytes := by
  induction k generalizing k' bytes with
  | zero =>
    rw [List.eq_nil_of_length_eq_zero (Nat.le_zero.mp h)]
    cases k' <;> rfl
  | succ k ih =>
    cases bytes with
    | nil => cases k' <;> rfl
    | cons b bytes =>
      rw [List.length_cons] at h h'
      obtain ⟨k', rfl⟩ := Nat.exists_eq_succ_of_ne_zero (show k' ≠ 0 by omega)
      unfold readLoop
      cases hr : c.read (b :: bytes) with
      | none => rfl
      | some p =>
        obtain ⟨x, rest⟩ := p
        have hlt := c.read_lt _ x rest hr
        rw [List.length_cons] at hlt
        dsimp only
        rw [ih k' (by omega) (by omega)]

@[simp] theorem readAll_nil : c.readAll [] = some [] := rfl

theorem readAll_of_read {bytes rest : List UInt8} {x : δ} (h : c.read bytes = some (x, rest)) :
    c.readAll bytes = (c.readAll rest).map (x :: ·) := by
  have hlt := c.read_lt bytes x rest h
  cases bytes with
  | nil => exact absurd hlt (Nat.not_lt_zero _)
  | cons b bytes =>
    unfold readAll
    simp only [List.length_cons, readLoop, h] at hlt ⊢
    rw [c.readLoop_congr _ rest.length (by omega) (Nat.le_refl _)]

theorem readAll_of_read_none {bytes : List UInt8} (hne : bytes ≠ []) (h : c.read bytes = none) :
    c.readAll bytes = none := by
  obtain ⟨b, bs, rfl⟩ := List.exists_cons_of_ne_nil hne
  simp only [readAll, List.length_cons, readLoop, h]

theorem readAll_cons (x : δ) (bytes : List UInt8) :
    c.readAll (c.write x ++ bytes) = (c.readAll bytes).map (x :: ·) :=
  c.readAll_of_read (c.read_write x bytes)

theorem readAll_append (xs : List δ) (bytes : List UInt8) :
    c.readAll (c.encode xs ++ bytes) = (c.readAll bytes).map (xs ++ ·) := by
  induction xs with
  | nil => simp [encode]
  | cons x xs ih =>
    have hcons : c.encode (x :: xs) = c.write x ++ c.encode xs := rfl
    rw [hcons, List.append_assoc, c.readAll_cons, ih, Option.map_map]
    rfl

theorem readAll_encode (xs : List δ) : c.readAll (c.encode xs) = some xs := by
  have h := c.readAll_append xs []
  rw [List.append_nil] at h
  rw [h]
  simp

theorem encode_eq_nil {xs : List δ} : c.encode xs = [] ↔ xs = [] := by
  constructor
  · intro h
    have hr := c.readAll_encode xs
    rw [h] at hr
    cases hr
    rfl
  · rintro rfl
    rfl

theorem encode_append (xs ys : List δ) : c.encode (xs ++ ys) = c.encode xs ++ c.encode ys :=
  List.flatMap_append

/-- A read takes bytes off the front and leaves the others. -/
def TakesOff : Prop := ∀ bytes x rest, c.read bytes = some (x, rest) → rest <:+ bytes

/-- The bytes are a concatenation of encodings. -/
def IsEncoding (bytes : List UInt8) : Prop := ∃ xs, bytes = c.encode xs

/-- The bytes are a concatenation of encodings with that of `x` among them. -/
def Holds (bytes : List UInt8) (x : δ) : Prop := ∃ xs, bytes = c.encode xs ∧ x ∈ xs

variable {c}

theorem Holds.ne_nil {bytes : List UInt8} {x : δ} (h : c.Holds bytes x) : bytes ≠ [] := by
  obtain ⟨xs, rfl, hx⟩ := h
  rw [Ne, c.encode_eq_nil]
  exact List.ne_nil_of_mem hx

theorem IsEncoding.append {a b : List UInt8} (ha : c.IsEncoding a) (hb : c.IsEncoding b) :
    c.IsEncoding (a ++ b) := by
  obtain ⟨xs, rfl⟩ := ha
  obtain ⟨ys, rfl⟩ := hb
  exact ⟨xs ++ ys, (c.encode_append xs ys).symm⟩

theorem isEncoding_flatten {bs : List (List UInt8)} (h : ∀ b ∈ bs, c.IsEncoding b) :
    c.IsEncoding bs.flatten := by
  induction bs with
  | nil => exact ⟨[], rfl⟩
  | cons b bs ih =>
    exact (h b List.mem_cons_self).append (ih fun a ha => h a (List.mem_cons_of_mem _ ha))

/-- A concatenation of files holds what each of them holds. -/
theorem holds_flatten {bs : List (List UInt8)} (h : ∀ b ∈ bs, c.IsEncoding b) {b : List UInt8}
    {x : δ} (hb : b ∈ bs) (hx : c.Holds b x) : c.Holds bs.flatten x := by
  induction bs with
  | nil => cases hb
  | cons a bs ih =>
    obtain ⟨ys, hy⟩ := isEncoding_flatten fun a ha => h a (List.mem_cons_of_mem _ ha)
    rcases List.mem_cons.mp hb with rfl | hb'
    · obtain ⟨xs, rfl, hx⟩ := hx
      exact ⟨xs ++ ys, by rw [List.flatten_cons, hy, c.encode_append], List.mem_append_left _ hx⟩
    · obtain ⟨xs, hxs⟩ := h a List.mem_cons_self
      obtain ⟨zs, hz, hx⟩ := ih (fun a ha => h a (List.mem_cons_of_mem _ ha)) hb'
      exact ⟨xs ++ zs, by rw [List.flatten_cons, hxs, hz, c.encode_append], List.mem_append_right _ hx⟩

end Codec

end LdkSample
