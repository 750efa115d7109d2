import LdkSample.Cli.Words
import Mathlib.Data.Bool.AllAny

/-!
# Hexadecimal strings

`HexOf cs bs` is the relation of a hexadecimal text and its bytes: two digits a byte, in either
case. `to_vec` decodes it, and drops a last digit that has no partner (`toVecFrom_eq_some`).
`hex_str` writes the one in lower case (`hexOf_iff`).
-/

namespace LdkSample

namespace Cli

open Node (PublicKey)

def hexDigits : List Char := "0123456789abcdef".toList

def DigitOf (c : Char) (n : Nat) : Prop := hexDigits[n]? = some c.toLower

inductive HexOf : List Char → Bytes → Prop where
  | nil : HexOf [] []
  | cons {hi lo : Char} {m n : Nat} {cs : List Char} {bs : Bytes} : DigitOf hi m → DigitOf lo n →
      HexOf cs bs → HexOf (hi :: lo :: cs) (UInt8.ofNat (16 * m + n) :: bs)

/-! ## Digits -/

theorem DigitOf.lt {c : Char} {n : Nat} (h : DigitOf c n) : n < 16 :=
  (List.getElem?_eq_some_iff.mp h).1

theorem toLower_of_le {c : Char} (h : 128 ≤ c.toNat) : c.toLower = c := by
  unfold Char.toLower
  rw [dif_neg]
  rintro ⟨-, hz⟩
  have hz : c.toNat ≤ 90 := UInt32.le_iff_toNat_le.mp hz
  omega

theorem DigitOf.ascii {c : Char} {n : Nat} (h : DigitOf c n) : c.toNat < 128 := by
  by_contra hc
  unfold DigitOf at h
  rw [toLower_of_le (Nat.not_lt.mp hc)] at h
  have hall : ∀ c ∈ hexDigits, c.toNat < 128 := List.all_iff_forall_prop.mp rfl
  exact hc (hall c (List.mem_of_getElem? h))

theorem toNat_digit {n : Nat} (h : n < 16) : (UInt8.ofNat n).toNat = n :=
  UInt8.toNat_ofNat_of_lt' (Nat.lt_trans h (by decide))

theorem hexDigit_lt {c : Char} {d : UInt8} (h : hexDigit c = some d) :
    c.toNat < 128 ∧ d.toNat < 16 := by
  unfold hexDigit at h
  dsimp only at h
  split at h
  · next hc =>
    cases h
    rw [toNat_digit (by omega)]
    omega
  · split at h
    · next hc =>
      cases h
      rw [toNat_digit (by omega)]
      omega
    · split at h
      · next hc =>
        cases h
        rw [toNat_digit (by omega)]
        omega
      · cases h

/-- The digits of the source, in a table. -/
theorem hexDigit_table : ∀ k : Fin 128, ∀ n : Fin 16,
    hexDigit (Char.ofNat k) = some (UInt8.ofNat n) ↔
      hexDigits[n.val]? = some (Char.ofNat k).toLower := by
  unfold hexDigits
  decide +kernel

theorem hexDigit_eq_some {c : Char} {d : UInt8} : hexDigit c = some d ↔ DigitOf c d.toNat := by
  constructor
  · intro h
    obtain ⟨hc, hd⟩ := hexDigit_lt h
    have := (hexDigit_table ⟨c.toNat, hc⟩ ⟨d.toNat, hd⟩).mp
    rw [Char.ofNat_toNat, UInt8.ofNat_toNat] at this
    exact this h
  · intro h
    have := (hexDigit_table ⟨c.toNat, h.ascii⟩ ⟨d.toNat, h.lt⟩).mpr
    rw [Char.ofNat_toNat, UInt8.ofNat_toNat] at this
    exact this h

theorem DigitOf.hexDigit {c : Char} {n : Nat} (h : DigitOf c n) :
    hexDigit c = some (UInt8.ofNat n) := by
  rw [hexDigit_eq_some, toNat_digit h.lt]
  exact h

/-! ## The decoder -/

/-- A byte put together from two digits. -/
theorem byte_of_digits : ∀ m n : Fin 16,
    ((0 : UInt8) <<< 4 ||| UInt8.ofNat m) <<< 4 ||| UInt8.ofNat n = UInt8.ofNat (16 * m + n) := by
  decide +kernel

theorem toVecFrom_pair {hi lo : Char} {m n : Nat} (hm : DigitOf hi m) (hn : DigitOf lo n)
    (cs : List Char) : toVecFrom false 0 (hi :: lo :: cs) =
      (toVecFrom false 0 cs).map (UInt8.ofNat (16 * m + n) :: ·) := by
  rw [toVecFrom, hm.hexDigit]
  dsimp only
  rw [if_neg Bool.false_ne_true, toVecFrom, hn.hexDigit]
  dsimp only
  rw [if_pos rfl, byte_of_digits ⟨m, hm.lt⟩ ⟨n, hn.lt⟩]

theorem toVecFrom_inv : ∀ {cs : List Char} {v : Bytes}, toVecFrom false 0 cs = some v →
    HexOf cs v ∨ ∃ pre c n, cs = pre ++ [c] ∧ HexOf pre v ∧ DigitOf c n
  | [], v, h => by
    cases h
    exact .inl .nil
  | [c], v, h => by
    cases hc : hexDigit c with
    | none =>
      rw [toVecFrom, hc] at h
      cases h
    | some d =>
      rw [toVecFrom, hc] at h
      cases h
      exact .inr ⟨[], c, d.toNat, rfl, .nil, hexDigit_eq_some.mp hc⟩
  | hi :: lo :: cs, v, h => by
    cases hhi : hexDigit hi with
    | none =>
      rw [toVecFrom, hhi] at h
      cases h
    | some a =>
      cases hlo : hexDigit lo with
      | none =>
        rw [toVecFrom, hhi] at h
        dsimp only at h
        rw [if_neg Bool.false_ne_true, toVecFrom, hlo] at h
        cases h
      | some b =>
        have ha := hexDigit_eq_some.mp hhi
        have hb := hexDigit_eq_some.mp hlo
        rw [toVecFrom_pair ha hb] at h
        obtain ⟨bs, hbs, rfl⟩ := Option.map_eq_some_iff.mp h
        rcases toVecFrom_inv hbs with hof | ⟨pre, c, n, rfl, hof, hc⟩
        · exact .inl (.cons ha hb hof)
        · exact .inr ⟨hi :: lo :: pre, c, n, rfl, .cons ha hb hof, hc⟩

/-- What is decoded is a hexadecimal text, or one with a digit too many. -/
theorem toVecFrom_eq_some {cs : List Char} {v : Bytes} : toVecFrom false 0 cs = some v ↔
    HexOf cs v ∨ ∃ pre c n, cs = pre ++ [c] ∧ HexOf pre v ∧ DigitOf c n := by
  refine ⟨toVecFrom_inv, ?_⟩
  rintro (h | ⟨pre, c, n, rfl, h, hc⟩)
  · induction h with
    | nil => rfl
    | cons hm hn _ ih => rw [toVecFrom_pair hm hn, ih, Option.map_some]
  · induction h with
    | nil =>
      rw [List.nil_append, toVecFrom, hc.hexDigit]
      rfl
    | cons hm hn _ ih =>
      rw [List.cons_append, List.cons_append, toVecFrom_pair hm hn, ih, Option.map_some]

theorem HexOf.length_eq {cs : List Char} {v : Bytes} (h : HexOf cs v) : cs.length = 2 * v.length := by
  induction h with
  | nil => rfl
  | cons _ _ _ ih =>
    rw [List.length_cons, List.length_cons, List.length_cons, ih]
    omega

theorem HexOf.ascii {cs : List Char} {v : Bytes} (h : HexOf cs v) : ∀ c ∈ cs, c.toNat < 128 := by
  induction h with
  | nil => exact fun _ hc => (nomatch hc)
  | cons hm hn _ ih => exact List.forall_mem_cons.mpr ⟨hm.ascii, List.forall_mem_cons.mpr ⟨hn.ascii, ih⟩⟩

/-! ## The encoder -/

theorem toList_hexStr (v : Bytes) : (hexStr v).toList = v.flatMap format02x := by
  have hfold : ∀ res : String,
      (v.foldl (fun res v => res ++ String.ofList (format02x v)) res).toList =
        res.toList ++ v.flatMap format02x := by
    induction v with
    | nil => simp
    | cons b v ih =>
      intro res
      rw [List.foldl_cons, ih, String.toList_append, String.toList_ofList, List.append_assoc,
        List.flatMap_cons]
  exact hfold ""

theorem format02x_table : ∀ m n : Fin 16, format02x (UInt8.ofNat (16 * m + n)) =
    hexDigits[m.val]?.toList ++ hexDigits[n.val]?.toList := by
  unfold hexDigits
  decide +kernel

theorem format02x_of_digits {hi lo : Char} {m n : Nat} (hm : DigitOf hi m) (hn : DigitOf lo n) :
    format02x (UInt8.ofNat (16 * m + n)) = [hi.toLower, lo.toLower] := by
  have h := format02x_table ⟨m, hm.lt⟩ ⟨n, hn.lt⟩
  dsimp only at h
  rw [hm, hn] at h
  exact h

/-- Bytes are written as the text they are read from, in lower case. -/
theorem HexOf.toList_hexStr {cs : List Char} {v : Bytes} (h : HexOf cs v) :
    (hexStr v).toList = cs.map Char.toLower := by
  rw [Cli.toList_hexStr]
  induction h with
  | nil => rfl
  | cons hm hn _ ih =>
    rw [List.flatMap_cons, format02x_of_digits hm hn, ih]
    rfl

/-- A byte is written in two digits, of which it is put together. -/
theorem format02x_eq (b : UInt8) : ∃ (m n : Nat) (c d : Char), b = UInt8.ofNat (16 * m + n) ∧
    hexDigits[m]? = some c ∧ hexDigits[n]? = some d ∧ format02x b = [c, d] := by
  have hb := b.toNat_lt
  have hm : b.toNat / 16 < 16 := by omega
  have hn : b.toNat % 16 < 16 := by omega
  have hbyte : b = UInt8.ofNat (16 * (b.toNat / 16) + b.toNat % 16) := by
    rw [Nat.div_add_mod, UInt8.ofNat_toNat]
  have hc : hexDigits[b.toNat / 16]? = some _ := List.getElem?_eq_getElem hm
  have hd : hexDigits[b.toNat % 16]? = some _ := List.getElem?_eq_getElem hn
  have htable := format02x_table ⟨b.toNat / 16, hm⟩ ⟨b.toNat % 16, hn⟩
  dsimp only at htable
  rw [← hbyte, hc, hd] at htable
  exact ⟨_, _, _, _, hbyte, hc, hd, htable⟩

theorem hexOf_of_toLower {cs : List Char} {v : Bytes}
    (h : cs.map Char.toLower = (hexStr v).toList) : HexOf cs v := by
  rw [toList_hexStr] at h
  induction v generalizing cs with
  | nil =>
    rw [List.map_eq_nil_iff.mp h]
    exact .nil
  | cons b v ih =>
    obtain ⟨m, n, c, d, rfl, hc, hd, hformat⟩ := format02x_eq b
    rw [List.flatMap_cons, hformat] at h
    obtain ⟨hi, rest, rfl, rfl, hrest⟩ := List.map_eq_cons_iff.mp h
    obtain ⟨lo, cs, rfl, rfl, htail⟩ := List.map_eq_cons_iff.mp hrest
    exact .cons hc hd (ih htail)

/-- The texts of some bytes are those that are `hex_str` of them in lower case. -/
theorem hexOf_iff {cs : List Char} {v : Bytes} :
    HexOf cs v ↔ cs.map Char.toLower = (hexStr v).toList :=
  ⟨fun h => h.toList_hexStr.symm, hexOf_of_toLower⟩

theorem toList_toLower (s : String) : s.toLower.toList = s.toList.map Char.toLower :=
  String.toList_map

/-- A text of some bytes is `hex_str` of them in lower case. -/
theorem hexStr_eq_toLower {s : String} {v : Bytes} : hexStr v = s.toLower ↔ HexOf s.toList v := by
  rw [hexOf_iff, ← String.toList_inj, toList_toLower]
  exact eq_comm

/-- Any of the letters are put in upper case. -/
def UpperSome (s t : String) : Prop :=
  List.Forall₂ (fun c d => d = c ∨ d = c.toUpper) s.toList t.toList

theorem mem_hexDigits_of_mem_hexStr {v : Bytes} {c : Char} (h : c ∈ (hexStr v).toList) :
    c ∈ hexDigits := by
  rw [toList_hexStr, List.mem_flatMap] at h
  obtain ⟨b, -, h⟩ := h
  obtain ⟨m, n, hi, lo, -, hhi, hlo, hformat⟩ := format02x_eq b
  rw [hformat, List.mem_cons, List.mem_singleton] at h
  rcases h with rfl | rfl
  · exact List.mem_of_getElem? hhi
  · exact List.mem_of_getElem? hlo

theorem toLower_of_mem_hexDigits {c d : Char} (hc : c ∈ hexDigits) (hd : d = c ∨ d = c.toUpper) :
    d.toLower = c := by
  have hall : ∀ c ∈ hexDigits, c.toLower = c ∧ c.toUpper.toLower = c :=
    List.all_iff_forall_prop.mp rfl
  rcases hd with rfl | rfl
  · exact (hall d hc).1
  · exact (hall c hc).2

theorem map_toLower_of_upper {cs ds : List Char} (hcs : ∀ c ∈ cs, c ∈ hexDigits)
    (h : List.Forall₂ (fun c d => d = c ∨ d = c.toUpper) cs ds) : ds.map Char.toLower = cs := by
  induction h with
  | nil => rfl
  | cons hd _ ih =>
    rw [List.forall_mem_cons] at hcs
    rw [List.map_cons, toLower_of_mem_hexDigits hcs.1 hd, ih hcs.2]

/-- Letter case does not matter to the digits. -/
theorem UpperSome.hexOf {v : Bytes} {s : String} (h : UpperSome (hexStr v) s) : HexOf s.toList v :=
  hexOf_iff.mpr (map_toLower_of_upper (fun _ => mem_hexDigits_of_mem_hexStr) h)

theorem hexOf_hexStr (v : Bytes) : HexOf (hexStr v).toList v :=
  UpperSome.hexOf (List.forall₂_same.mpr fun _ _ => .inl rfl)

theorem hexToVec_of_hexOf {s : String} {v : Bytes} (h : HexOf s.toList v) : hexToVec s = some v :=
  toVecFrom_eq_some.mpr (.inl h)

/-! ## Pairs of digits -/

def Digits (cs : List Char) : Prop := ∀ c ∈ cs, ∃ n, DigitOf c n

/-- The characters that have a partner. -/
def paired (cs : List Char) : List Char := cs.take (2 * (cs.length / 2))

def unpaired (cs : List Char) : List Char := cs.drop (2 * (cs.length / 2))

theorem paired_append_unpaired (cs : List Char) : paired cs ++ unpaired cs = cs :=
  List.take_append_drop _ cs

theorem paired_of_even {cs : List Char} {k : Nat} (h : cs.length = 2 * k) : paired cs = cs := by
  unfold paired
  rw [h, Nat.mul_div_cancel_left k (by decide), ← h, List.take_length]

theorem paired_concat {cs : List Char} {k : Nat} (h : cs.length = 2 * k) (c : Char) :
    paired (cs ++ [c]) = cs := by
  have hk : (cs ++ [c]).length / 2 = k := by
    rw [List.length_append, List.length_singleton, h]
    omega
  unfold paired
  rw [hk, ← h, List.take_left]

theorem length_unpaired (cs : List Char) : (unpaired cs).length = cs.length % 2 := by
  unfold unpaired
  rw [List.length_drop]
  omega

theorem HexOf.digits {cs : List Char} {v : Bytes} (h : HexOf cs v) : Digits cs := by
  induction h with
  | nil => exact fun _ hc => (nomatch hc)
  | cons hm hn _ ih => exact List.forall_mem_cons.mpr ⟨⟨_, hm⟩, List.forall_mem_cons.mpr ⟨⟨_, hn⟩, ih⟩⟩

/-- Digits in pairs encode some bytes. -/
theorem Digits.hexOf : ∀ {cs : List Char}, Digits cs → cs.length % 2 = 0 → ∃ v, HexOf cs v
  | [], _, _ => ⟨[], .nil⟩
  | [_], _, h => nomatch h
  | hi :: lo :: cs, hd, h => by
    unfold Digits at hd
    rw [List.forall_mem_cons, List.forall_mem_cons] at hd
    obtain ⟨⟨m, hm⟩, ⟨n, hn⟩, hd⟩ := hd
    have heven : cs.length % 2 = 0 := by
      rw [List.length_cons, List.length_cons] at h
      omega
    obtain ⟨v, hv⟩ := Digits.hexOf hd heven
    exact ⟨_, .cons hm hn hv⟩

theorem Digits.paired {cs : List Char} (h : Digits cs) : ∃ v, HexOf (paired cs) v := by
  refine Digits.hexOf (fun c hc => h c (List.mem_of_mem_take hc)) ?_
  unfold Cli.paired
  rw [List.length_take]
  omega

/-- What is decoded are the pairs of a text of digits. -/
theorem toVecFrom_paired {cs : List Char} {v : Bytes} :
    toVecFrom false 0 cs = some v ↔ Digits cs ∧ HexOf (paired cs) v := by
  constructor
  · intro h
    rcases toVecFrom_inv h with hof | ⟨pre, c, n, rfl, hof, hc⟩
    · rw [paired_of_even hof.length_eq]
      exact ⟨hof.digits, hof⟩
    · rw [paired_concat hof.length_eq]
      refine ⟨fun c' hc' => ?_, hof⟩
      rcases List.mem_append.mp hc' with hpre | hlast
      · exact hof.digits c' hpre
      · rw [List.mem_singleton.mp hlast]
        exact ⟨n, hc⟩
  · rintro ⟨hd, hof⟩
    rw [toVecFrom_eq_some]
    have hcs := paired_append_unpaired cs
    have hlen := length_unpaired cs
    cases hover : unpaired cs with
    | nil =>
      rw [hover, List.append_nil] at hcs
      rw [hcs] at hof
      exact .inl hof
    | cons c rest =>
      rw [hover] at hcs hlen
      have hrest : rest = [] := List.length_eq_zero_iff.mp (by rw [List.length_cons] at hlen; omega)
      rw [hrest] at hcs
      obtain ⟨n, hc⟩ := hd c (by rw [← hcs]; exact List.mem_append_right _ List.mem_cons_self)
      exact .inr ⟨paired cs, c, n, hcs.symm, hof, hc⟩

theorem hexToVec_eq_some {s : String} {v : Bytes} :
    hexToVec s = some v ↔ Digits s.toList ∧ HexOf (paired s.toList) v :=
  toVecFrom_paired

/-! ## Keys -/

theorem utf8ByteSize_ofList {cs : List Char} (h : ∀ c ∈ cs, c.toNat < 128) :
    (String.ofList cs).utf8ByteSize = cs.length := by
  induction cs with
  | nil => rfl
  | cons c cs ih =>
    rw [List.forall_mem_cons] at h
    have hle : c.val ≤ 0x7F := UInt32.le_iff_toNat_le.mpr (Nat.le_of_lt_succ h.1)
    have hc : c.utf8Size = 1 := if_pos hle
    rw [← List.singleton_append, String.ofList_append, String.utf8ByteSize_append, ih h.2,
      ← String.singleton_eq_ofList, String.utf8ByteSize_singleton, hc, List.length_append,
      List.length_singleton]

/-- A text is a key where it has 66 digits that encode one. -/
def KeyHex (fromSlice : Bytes → Option PublicKey) (p : List Char) (key : PublicKey) : Prop :=
  p.length = 66 ∧ ∃ data, HexOf p data ∧ fromSlice data = some key

/-- A decoded text has as many bytes as characters. -/
theorem ascii_of_toVecFrom {cs : List Char} {v : Bytes} (h : toVecFrom false 0 cs = some v) :
    ∀ c ∈ cs, c.toNat < 128 := by
  rcases toVecFrom_inv h with hof | ⟨pre, c, n, rfl, hof, hc⟩
  · exact hof.ascii
  · intro c' hc'
    rcases List.mem_append.mp hc' with hpre | hlast
    · exact hof.ascii c' hpre
    · rw [List.mem_singleton.mp hlast]
      exact hc.ascii

theorem toCompressedPubkey_eq_some {fromSlice : Bytes → Option PublicKey} {p : List Char}
    {key : PublicKey} :
    toCompressedPubkey fromSlice (String.ofList p) = some key ↔ KeyHex fromSlice p key := by
  unfold toCompressedPubkey hexToVec
  rw [String.toList_ofList]
  constructor
  · intro h
    split at h
    · cases h
    · next hsize =>
      split at h
      · next data hdata =>
        rw [not_not, utf8ByteSize_ofList (ascii_of_toVecFrom hdata)] at hsize
        rcases toVecFrom_inv hdata with hof | ⟨pre, c, n, rfl, hof, -⟩
        · exact ⟨hsize, data, hof, h⟩
        · rw [List.length_append, List.length_singleton, hof.length_eq] at hsize
          omega
      · cases h
  · rintro ⟨hlen, data, hof, hkey⟩
    rw [if_neg (not_not.mpr ((utf8ByteSize_ofList hof.ascii).trans hlen)),
      toVecFrom_eq_some.mpr (.inl hof)]
    exact hkey

end Cli

end LdkSample
