import LdkSample.Codec
import LdkSample.HashMap
import Mathlib.Data.Vector.Basic

/-!
# Length-prefixed wire format

Numbers, optional values, maps and type-length-value streams as bytes, and the readers
that take them off again. `Reads r bytes x`: `r` takes exactly `bytes` and gives `x`,
whatever follows. `Stable r`: a success of `r` is not changed by more bytes. A reader with
both refuses every strict prefix of what it reads (`Reads.prefix_eq_none`).
-/

namespace LdkSample

abbrev Bytes := List UInt8

/-! ## Writing -/

/-- The `k` low bytes of `n`, big end first. -/
def beBytes : Nat → Nat → Bytes
  | 0, _ => []
  | k + 1, n => UInt8.ofNat (n / 256 ^ k) :: beBytes k n

def bigSize (n : Nat) : Bytes :=
  if n < 0xfd then beBytes 1 n
  else if n < 2 ^ 16 then 0xfd :: beBytes 2 n
  else if n < 2 ^ 32 then 0xfe :: beBytes 4 n
  else 0xff :: beBytes 8 n

/-- The number of entries before the entries of a map. -/
def collectionLength (n : Nat) : Bytes :=
  if n < 0xffff then beBytes 2 n else beBytes 2 0xffff ++ beBytes 8 (n - 0xffff)

def tlvRecord (r : Nat × Bytes) : Bytes := bigSize r.1 ++ (bigSize r.2.length ++ r.2)

/-- A length-prefixed stream of records. -/
def tlvStream (rs : List (Nat × Bytes)) : Bytes :=
  let body := rs.flatMap tlvRecord
  bigSize body.length ++ body

def encodeOption {α : Type} (enc : α → Bytes) : Option α → Bytes
  | none => beBytes 1 0
  | some a => bigSize ((enc a).length + 1) ++ enc a

def encodeMap {K V : Type} (encK : K → Bytes) (encV : V → Bytes) (m : HashMap K V) : Bytes :=
  collectionLength m.entries.length ++ m.entries.flatMap fun e => encK e.1 ++ encV e.2

/-- A `Vec` of these bytes: it holds at most `isize::MAX` of them, and growing it further panics. -/
def toVec (bytes : Bytes) : Option Bytes := if bytes.length < 2 ^ 63 then some bytes else none

theorem toVec_eq_some {bytes vec : Bytes} (h : toVec bytes = some vec) :
    bytes.length < 2 ^ 63 ∧ bytes = vec := by
  obtain ⟨hlt, heq⟩ := Option.ite_none_right_eq_some.mp h
  exact ⟨hlt, Option.some.inj heq⟩

/-! ## Reading -/

abbrev Reader (α : Type) := StateT Bytes Option α

def readBe : Nat → Reader Nat
  | 0, bytes => some (0, bytes)
  | _ + 1, [] => none
  | k + 1, x :: bytes => (readBe k bytes).map fun p => (x.toNat * 256 ^ k + p.1, p.2)

/-- The number, in its shortest form. -/
def readBigSize : Reader UInt64 := do
  let n ← readBe 1
  if n = 0xff then do
    let x ← readBe 8
    if x < 2 ^ 32 then failure else pure (UInt64.ofNat x)
  else if n = 0xfe then do
    let x ← readBe 4
    if x < 2 ^ 16 then failure else pure (UInt64.ofNat x)
  else if n = 0xfd then do
    let x ← readBe 2
    if x < 0xfd then failure else pure (UInt64.ofNat x)
  else pure (UInt64.ofNat n)

def readCollectionLength : Reader Nat := do
  let n ← readBe 2
  if n < 0xffff then pure n
  else do
    let x ← readBe 8
    if 2 ^ 64 ≤ x + 0xffff then failure else pure (x + 0xffff)

def readArray (n : Nat) : Reader (Vector UInt8 n) := fun bytes =>
  if h : n ≤ bytes.length then
    some (⟨(bytes.take n).toArray, by simp [h]⟩, bytes.drop n)
  else none

/-- `r` on the next `n` bytes; what it leaves of them is read on. -/
def limited {α : Type} (n : Nat) (r : Reader α) : Reader α := fun bytes =>
  (r (bytes.take n)).map fun p => (p.1, p.2 ++ bytes.drop n)

/-- `f` on the next `n` bytes, all of which are taken. -/
def framed {α : Type} (n : Nat) (f : Bytes → Option α) : Reader α := fun bytes =>
  if n ≤ bytes.length then (f (bytes.take n)).map fun x => (x, bytes.drop n) else none

/-- `r` must take all bytes. -/
def exactly {α : Type} (r : Reader α) (bytes : Bytes) : Option α :=
  match r bytes with
  | some (x, []) => some x
  | _ => none

def readOption {α : Type} (r : Reader α) : Reader (Option α) := do
  let len ← readBigSize
  if len = 0 then pure none else some <$> limited (len.toNat - 1) r

/-- `n` entries added to `acc`; a key that comes twice is an error. -/
def readEntries {K V : Type} [DecidableEq K] (readK : Reader K) (readV : Reader V) :
    Nat → HashMap K V → Reader (HashMap K V)
  | 0, acc => pure acc
  | n + 1, acc => do
    let k ← readK
    let v ← readV
    if k ∈ acc then failure else readEntries readK readV n (acc.insert k v)

def readMap {K V : Type} [DecidableEq K] (readK : Reader K) (readV : Reader V) :
    Reader (HashMap K V) := do
  let n ← readCollectionLength
  readEntries readK readV n ∅

structure Record where
  type : UInt64
  value : Bytes
  value_lt : value.length < 2 ^ 64

def Record.pair (r : Record) : Nat × Bytes := (r.type.toNat, r.value)

def readRecord : Reader Record := do
  let type ← readBigSize
  let len ← readBigSize
  fun bytes =>
    if len.toNat ≤ bytes.length then
      some (⟨type, bytes.take len.toNat, by
        have := len.toNat_lt
        rw [List.length_take]
        omega⟩, bytes.drop len.toNat)
    else none

/-! ## Readers that take what was written -/

def Reads {α : Type} (r : Reader α) (bytes : Bytes) (x : α) : Prop :=
  ∀ rest, r (bytes ++ rest) = some (x, rest)

def Stable {α : Type} (r : Reader α) : Prop :=
  ∀ bytes more x rest, r bytes = some (x, rest) → r (bytes ++ more) = some (x, rest ++ more)

/-- A success takes at least `k` bytes. -/
def Takes {α : Type} (k : Nat) (r : Reader α) : Prop :=
  ∀ bytes x rest, r bytes = some (x, rest) → rest.length + k ≤ bytes.length

section Rules

variable {α β : Type} {r : Reader α} {f : α → Reader β} {bytes bytes' : Bytes} {x : α} {y : β}

theorem Reader.bind_apply (r : Reader α) (f : α → Reader β) (bytes : Bytes) :
    (r >>= f) bytes = (r bytes).bind fun p => f p.1 p.2 := rfl

theorem Reader.map_apply (g : α → β) (r : Reader α) (bytes : Bytes) :
    (g <$> r) bytes = (r bytes).map fun p => (g p.1, p.2) := by
  show (r bytes).bind _ = _
  cases r bytes <;> rfl

theorem Reads.apply (h : Reads r bytes x) : r bytes = some (x, []) := by
  have h' := h []
  rwa [List.append_nil] at h'

theorem Reads.exactly (h : Reads r bytes x) : exactly r bytes = some x := by
  unfold LdkSample.exactly
  rw [h.apply]

theorem Reads.pure (x : α) : Reads (pure x) [] x := fun _ => rfl

theorem Reads.bind (h : Reads r bytes x) (h' : Reads (f x) bytes' y) :
    Reads (r >>= f) (bytes ++ bytes') y := by
  intro rest
  rw [Reader.bind_apply, List.append_assoc, h]
  exact h' rest

/-- What follows takes nothing. -/
theorem Reads.done (h : Reads r bytes x) (h' : f x = Pure.pure y) : Reads (r >>= f) bytes y := by
  have hb : Reads (r >>= f) (bytes ++ []) y := h.bind (by rw [h']; exact .pure y)
  rwa [List.append_nil] at hb

theorem Reads.map (g : α → β) (h : Reads r bytes x) : Reads (g <$> r) bytes (g x) := by
  intro rest
  rw [Reader.map_apply, h rest]
  rfl

theorem Stable.pure (x : α) : Stable (Pure.pure x : Reader α) := by
  intro bytes more y rest h
  cases h
  rfl

theorem Stable.failure : Stable (failure : Reader α) := by
  intro bytes more y rest h
  cases h

theorem Stable.bind (h : Stable r) (h' : ∀ x, Stable (f x)) : Stable (r >>= f) := by
  intro bytes more y rest hy
  rw [Reader.bind_apply, Option.bind_eq_some_iff] at hy
  obtain ⟨p, hp, hy⟩ := hy
  rw [Reader.bind_apply, h bytes more p.1 p.2 hp]
  exact h' p.1 p.2 more y rest hy

theorem Stable.map (g : α → β) (h : Stable r) : Stable (g <$> r) := by
  intro bytes more y rest hy
  rw [Reader.map_apply, Option.map_eq_some_iff] at hy
  obtain ⟨p, hp, hy⟩ := hy
  cases hy
  rw [Reader.map_apply, h bytes more p.1 p.2 hp]
  rfl

theorem Stable.ite {p : Prop} [Decidable p] {r' : Reader α} (h : Stable r) (h' : Stable r') :
    Stable (if p then r else r') := by
  split
  · exact h
  · exact h'

theorem Takes.bind {a b : Nat} (h : Takes a r) (h' : ∀ x, Takes b (f x)) :
    Takes (a + b) (r >>= f) := by
  intro bytes y rest hy
  rw [Reader.bind_apply, Option.bind_eq_some_iff] at hy
  obtain ⟨p, hp, hy⟩ := hy
  have h₁ := h bytes p.1 p.2 hp
  have h₂ := h' p.1 p.2 y rest hy
  omega

theorem Takes.pure (x : α) : Takes 0 (Pure.pure x : Reader α) := by
  intro bytes y rest h
  cases h
  exact Nat.le_refl _

theorem Takes.failure (k : Nat) : Takes k (failure : Reader α) := by
  intro bytes y rest h
  cases h

theorem Takes.ite {k : Nat} {p : Prop} [Decidable p] {r' : Reader α} (h : Takes k r)
    (h' : Takes k r') : Takes k (if p then r else r') := by
  split
  · exact h
  · exact h'

theorem Takes.mono {a b : Nat} (h : Takes a r) (hab : b ≤ a) : Takes b r := by
  intro bytes x rest hx
  have := h bytes x rest hx
  omega

/-- **No strict prefix is accepted.** -/
theorem Reads.prefix_eq_none (h : Reads r bytes x) (hs : Stable r) {p : Bytes}
    (hp : p <+: bytes) (hne : p ≠ bytes) : r p = none := by
  obtain ⟨q, rfl⟩ := hp
  cases hr : r p with
  | none => rfl
  | some y =>
    have hq := (hs p q y.1 y.2 hr).symm.trans h.apply
    cases y with
    | mk y rest =>
      have hnil : rest ++ q = [] := (Prod.mk.inj (Option.some.inj hq)).2
      rw [List.append_eq_nil_iff.mp hnil |>.2, List.append_nil] at hne
      exact absurd rfl hne

theorem stable_framed (n : Nat) (f : Bytes → Option α) : Stable (framed n f) := by
  intro bytes more y rest hy
  unfold framed at hy ⊢
  obtain ⟨hn, hy⟩ := Option.ite_none_right_eq_some.mp hy
  obtain ⟨z, hz, hy⟩ := Option.map_eq_some_iff.mp hy
  cases hy
  have hlen : n ≤ (bytes ++ more).length := by
    rw [List.length_append]
    omega
  rw [if_pos hlen, List.take_append_of_le_length hn, hz, List.drop_append_of_le_length hn]
  rfl

theorem reads_framed {f : Bytes → Option α} (h : f bytes = some x) :
    Reads (framed bytes.length f) bytes x := by
  intro rest
  unfold framed
  have hlen : bytes.length ≤ (bytes ++ rest).length := by
    rw [List.length_append]
    omega
  rw [if_pos hlen, List.take_left, List.drop_left, h]
  rfl

theorem reads_limited (h : Reads r bytes x) : Reads (limited bytes.length r) bytes x := by
  intro rest
  unfold limited
  rw [List.take_left, List.drop_left, h.apply]
  rfl

end Rules

/-! ## Numbers -/

theorem beBytes_length (k n : Nat) : (beBytes k n).length = k := by
  induction k with
  | zero => rfl
  | succ k ih => rw [beBytes, List.length_cons, ih]

theorem readBe_beBytes (k n : Nat) (rest : Bytes) :
    readBe k (beBytes k n ++ rest) = some (n % 256 ^ k, rest) := by
  induction k with
  | zero => simp [readBe, beBytes, Nat.mod_one]
  | succ k ih =>
    have hx : (UInt8.ofNat (n / 256 ^ k)).toNat = n / 256 ^ k % 256 := UInt8.toNat_ofNat'
    rw [beBytes, List.cons_append, readBe, ih, Option.map_some, hx, Nat.mod_pow_succ]
    congr 2
    rw [Nat.mul_comm, Nat.add_comm]

theorem reads_be {k n : Nat} (h : n < 256 ^ k) : Reads (readBe k) (beBytes k n) n := by
  intro rest
  rw [readBe_beBytes, Nat.mod_eq_of_lt h]

theorem stable_be (k : Nat) : Stable (readBe k) := by
  induction k with
  | zero => exact Stable.pure 0
  | succ k ih =>
    intro bytes more x rest h
    cases bytes with
    | nil => cases h
    | cons b bytes =>
      unfold readBe at h
      obtain ⟨p, hp, h⟩ := Option.map_eq_some_iff.mp h
      cases h
      rw [List.cons_append, readBe, ih bytes more p.1 p.2 hp]
      rfl

theorem takes_be (k : Nat) : Takes k (readBe k) := by
  induction k with
  | zero => exact Takes.pure 0
  | succ k ih =>
    intro bytes x rest h
    cases bytes with
    | nil => cases h
    | cons b bytes =>
      unfold readBe at h
      obtain ⟨p, hp, h⟩ := Option.map_eq_some_iff.mp h
      cases h
      have := ih bytes p.1 p.2 hp
      rw [List.length_cons]
      omega

theorem reads_mark {m : Nat} (h : m < 256) : Reads (readBe 1) [UInt8.ofNat m] m := by
  have hr := reads_be (k := 1) (n := m) h
  simpa [beBytes] using hr

/-- A number after its mark, where it is too long for a shorter form. -/
theorem reads_marked {k lo n : Nat} (hlo : lo ≤ n) (hn : n < 256 ^ k) :
    Reads (do let x ← readBe k; if x < lo then failure else pure (UInt64.ofNat x)) (beBytes k n)
      (UInt64.ofNat n) :=
  (reads_be hn).done (if_neg (Nat.not_lt.mpr hlo))

theorem bigSize_length_le (n : Nat) : (bigSize n).length ≤ 9 := by
  unfold bigSize
  split
  · rw [beBytes_length]
    omega
  · split
    · rw [List.length_cons, beBytes_length]
      omega
    · split
      · rw [List.length_cons, beBytes_length]
        omega
      · rw [List.length_cons, beBytes_length]

theorem reads_bigSize (n : UInt64) : Reads readBigSize (bigSize n.toNat) n := by
  have hn := n.toNat_lt
  have hof : UInt64.ofNat n.toNat = n := UInt64.ofNat_toNat
  unfold bigSize
  split
  · next h =>
    refine (reads_be (k := 1) (by omega)).done ?_
    rw [if_neg (by omega), if_neg (by omega), if_neg (by omega), hof]
  · next h =>
    split
    · next h2 =>
      have hr := reads_marked (k := 2) (Nat.not_lt.mp h) h2
      rw [hof] at hr
      refine (reads_mark (m := 0xfd) (by decide)).bind ?_
      exact hr
    · next h2 =>
      split
      · next h3 =>
        have hr := reads_marked (k := 4) (Nat.not_lt.mp h2) h3
        rw [hof] at hr
        refine (reads_mark (m := 0xfe) (by decide)).bind ?_
        exact hr
      · next h3 =>
        have hr := reads_marked (k := 8) (Nat.not_lt.mp h3) hn
        rw [hof] at hr
        refine (reads_mark (m := 0xff) (by decide)).bind ?_
        exact hr

theorem stable_bigSize : Stable readBigSize := by
  have hlong : ∀ k lo, Stable (do
      let x ← readBe k
      if x < lo then failure else pure (UInt64.ofNat x)) := fun k lo =>
    (stable_be k).bind fun x => .ite .failure (.pure _)
  exact (stable_be 1).bind fun n =>
    .ite (hlong 8 _) (.ite (hlong 4 _) (.ite (hlong 2 _) (.pure _)))

theorem takes_bigSize : Takes 1 readBigSize := by
  have hlong : ∀ k lo, Takes 0 (do
      let x ← readBe k
      if x < lo then failure else pure (UInt64.ofNat x)) := fun k lo =>
    ((takes_be k).bind fun x => .ite (.failure 0) (.pure _)).mono (Nat.zero_le _)
  exact (takes_be 1).bind fun n =>
    .ite (hlong 8 _) (.ite (hlong 4 _) (.ite (hlong 2 _) (.pure _)))

theorem reads_collectionLength {n : Nat} (h : n < 2 ^ 64) :
    Reads readCollectionLength (collectionLength n) n := by
  unfold collectionLength
  split
  · next hn => exact (reads_be (k := 2) (by omega)).done (if_pos hn)
  · next hn =>
    refine (reads_be (k := 2) (by decide)).bind ?_
    rw [if_neg (by decide)]
    refine (reads_be (k := 8) (by omega)).done ?_
    rw [if_neg (by omega), Nat.sub_add_cancel (by omega)]

/-! ## Arrays, options and maps -/

theorem reads_array {n : Nat} (v : Vector UInt8 n) : Reads (readArray n) v.toList v := by
  intro rest
  have hlen : v.toList.length = n := v.length_toList
  unfold readArray
  rw [dif_pos (by rw [List.length_append, hlen]; omega)]
  have htake : (v.toList ++ rest).take n = v.toList := by
    rw [List.take_append_of_le_length (Nat.le_of_eq hlen.symm), List.take_of_length_le
      (Nat.le_of_eq hlen)]
  have hdrop : (v.toList ++ rest).drop n = rest := List.drop_left' hlen
  rw [hdrop]
  congr 2
  apply Vector.toList_inj.mp
  simp [htake]

section Option

variable {α : Type} {r : Reader α} {enc : α → Bytes}

theorem reads_option {o : Option α} (h : ∀ x, o = some x → Reads r (enc x) x)
    (hlen : ∀ x, o = some x → (enc x).length + 1 < 2 ^ 64) :
    Reads (readOption r) (encodeOption enc o) o := by
  cases o with
  | none => exact (reads_bigSize 0).done rfl
  | some x =>
    have hlen := hlen x rfl
    have hnat : (UInt64.ofNat ((enc x).length + 1)).toNat = (enc x).length + 1 :=
      UInt64.toNat_ofNat_of_lt' hlen
    have hsize := reads_bigSize (UInt64.ofNat ((enc x).length + 1))
    rw [hnat] at hsize
    refine hsize.bind ?_
    have hne : UInt64.ofNat ((enc x).length + 1) ≠ 0 := by
      intro h0
      rw [h0] at hnat
      cases hnat
    rw [if_neg hne, hnat, Nat.add_sub_cancel]
    exact (reads_limited (h x rfl)).map some

theorem encodeOption_length_le {n : Nat} (h : ∀ x, (enc x).length ≤ n) (o : Option α) :
    (encodeOption enc o).length ≤ n + 9 := by
  cases o with
  | none =>
    unfold encodeOption
    rw [beBytes_length]
    omega
  | some x =>
    have := h x
    have := bigSize_length_le ((enc x).length + 1)
    unfold encodeOption
    rw [List.length_append]
    omega

end Option

section Map

variable {K V : Type} [DecidableEq K] {readK : Reader K} {readV : Reader V} {encK : K → Bytes}
  {encV : V → Bytes}

/-- The entries, inserted one after another. -/
def insertAll (l : List (Sigma fun _ : K => V)) (acc : HashMap K V) : HashMap K V :=
  l.foldl (fun acc e => acc.insert e.1 e.2) acc

theorem lookup_insertAll {l : List (Sigma fun _ : K => V)} (hl : l.NodupKeys) (acc : HashMap K V)
    (k : K) : (insertAll l acc).lookup k = (l.dlookup k).or (acc.lookup k) := by
  induction l generalizing acc with
  | nil => rfl
  | cons e l ih =>
    obtain ⟨hnot, hl⟩ := List.nodupKeys_cons.mp hl
    have hfold : insertAll (e :: l) acc = insertAll l (acc.insert e.1 e.2) := rfl
    rw [hfold, ih hl, HashMap.lookup_insert]
    by_cases hk : k = e.1
    · subst hk
      have hnone : l.dlookup e.1 = none := List.dlookup_eq_none.mpr hnot
      rw [if_pos rfl, hnone, List.dlookup_cons_eq]
      rfl
    · rw [if_neg hk, List.dlookup_cons_ne _ _ hk]

/-- Of several entries of one key the last one stays. -/
theorem lookup_insertAll_reverse (l : List (Sigma fun _ : K => V)) (acc : HashMap K V) (k : K) :
    (insertAll l acc).lookup k = (l.reverse.dlookup k).or (acc.lookup k) := by
  induction l generalizing acc with
  | nil => rfl
  | cons e l ih =>
    have hfold : insertAll (e :: l) acc = insertAll l (acc.insert e.1 e.2) := rfl
    rw [hfold, ih, HashMap.lookup_insert, List.reverse_cons, List.dlookup_append, Option.or_assoc]
    by_cases hk : k = e.1
    · subst hk
      rw [if_pos rfl, List.dlookup_cons_eq]
      rfl
    · rw [if_neg hk, List.dlookup_cons_ne _ _ hk]
      rfl

theorem toFinmap_insertAll (m : HashMap K V) :
    (insertAll m.entries ∅).toFinmap = m.toFinmap := by
  apply HashMap.toFinmap_ext
  intro k
  rw [lookup_insertAll m.nodupKeys, AList.lookup_empty, Option.or_none]
  rfl

theorem reads_entries {l : List (Sigma fun _ : K => V)} (hl : l.NodupKeys) {acc : HashMap K V}
    (hacc : ∀ e ∈ l, e.1 ∉ acc) (hk : ∀ e ∈ l, Reads readK (encK e.1) e.1)
    (hv : ∀ e ∈ l, Reads readV (encV e.2) e.2) :
    Reads (readEntries readK readV l.length acc) (l.flatMap fun e => encK e.1 ++ encV e.2)
      (insertAll l acc) := by
  induction l generalizing acc with
  | nil => exact .pure acc
  | cons e l ih =>
    obtain ⟨hnot, hl⟩ := List.nodupKeys_cons.mp hl
    rw [List.forall_mem_cons] at hacc hk hv
    have hrest : ∀ e' ∈ l, e'.1 ∉ acc.insert e.1 e.2 := by
      intro e' he' hmem
      rcases AList.mem_insert _ |>.mp hmem with heq | hmem
      · exact hnot (heq ▸ List.mem_map_of_mem he')
      · exact hacc.2 e' he' hmem
    rw [List.flatMap_cons, List.append_assoc]
    refine hk.1.bind (hv.1.bind ?_)
    rw [if_neg hacc.1]
    exact ih hl hrest hk.2 hv.2

theorem reads_map (m : HashMap K V) (hlen : m.entries.length < 2 ^ 64)
    (hk : ∀ e ∈ m.entries, Reads readK (encK e.1) e.1)
    (hv : ∀ e ∈ m.entries, Reads readV (encV e.2) e.2) :
    Reads (readMap readK readV) (encodeMap encK encV m) (insertAll m.entries ∅) :=
  (reads_collectionLength hlen).bind
    (reads_entries m.nodupKeys (fun e _ => AList.notMem_empty e.1) hk hv)

end Map

/-! ## Type-length-value streams -/

theorem reads_record (r : Record) : Reads readRecord (tlvRecord r.pair) r := by
  have hlen : (UInt64.ofNat r.value.length).toNat = r.value.length :=
    UInt64.toNat_ofNat_of_lt' r.value_lt
  have hsize := reads_bigSize (UInt64.ofNat r.value.length)
  rw [hlen] at hsize
  refine (reads_bigSize r.type).bind (hsize.bind fun rest => ?_)
  simp only [hlen, List.length_append, Nat.le_add_right, if_true, Record.pair, List.take_left,
    List.drop_left]

theorem takes_record : Takes 1 readRecord := by
  refine takes_bigSize.bind (b := 0) fun type =>
    (takes_bigSize.bind (b := 0) fun len => ?_).mono (Nat.zero_le _)
  intro bytes x rest h
  obtain ⟨hn, h⟩ := Option.ite_none_right_eq_some.mp h
  cases h
  rw [List.length_drop]
  omega

def recordCodec : Codec Record where
  write r := tlvRecord r.pair
  read := readRecord
  read_write r rest := reads_record r rest
  read_lt bytes r rest h := takes_record bytes r rest h

theorem records_length_le {n : Nat} {rs : List Record} (h : ∀ r ∈ rs, r.value.length ≤ n) :
    (recordCodec.encode rs).length ≤ rs.length * (n + 18) := by
  induction rs with
  | nil => exact Nat.zero_le _
  | cons r rs ih =>
    rw [List.forall_mem_cons] at h
    have hrest := ih h.2
    have := bigSize_length_le r.type.toNat
    have := bigSize_length_le r.value.length
    have hcons : (recordCodec.encode (r :: rs)).length = (bigSize r.type.toNat).length +
        ((bigSize r.value.length).length + r.value.length) + (recordCodec.encode rs).length := by
      show (tlvRecord r.pair ++ recordCodec.encode rs).length = _
      simp only [tlvRecord, Record.pair, List.length_append]
    have hmul : (r :: rs).length * (n + 18) = rs.length * (n + 18) + (n + 18) := Nat.succ_mul _ _
    omega

/-- A stream of records of ascending types, all of the even ones known. -/
def tlvStruct {α : Type} (known : List Nat) (fields : List Record → Option α) : Reader α := do
  let len ← readBigSize
  framed len.toNat fun body => do
    let rs ← recordCodec.readAll body
    if (rs.Pairwise fun a b => a.type < b.type) ∧
        ∀ r ∈ rs, r.type.toNat ∈ known ∨ r.type.toNat % 2 = 1 then
      fields rs
    else none

/-- The value of the record of type `t`, which must be there. -/
def required {α : Type} (t : Nat) (r : Reader α) (rs : List Record) : Option α := do
  let record ← rs.find? fun record => record.type.toNat = t
  exactly r record.value

section Tlv

variable {α : Type} {known : List Nat} {fields : List Record → Option α} {rs : List Record} {x : α}

theorem tlvStream_pairs (rs : List Record) :
    tlvStream (rs.map Record.pair) =
      bigSize (recordCodec.encode rs).length ++ recordCodec.encode rs := by
  have hbody : (rs.map Record.pair).flatMap tlvRecord = recordCodec.encode rs := List.flatMap_map ..
  unfold tlvStream
  rw [hbody]

theorem reads_tlvStruct (hasc : rs.Pairwise fun a b => a.type < b.type)
    (hknown : ∀ r ∈ rs, r.type.toNat ∈ known) (hlen : (recordCodec.encode rs).length < 2 ^ 64)
    (hf : fields rs = some x) : Reads (tlvStruct known fields) (tlvStream (rs.map Record.pair)) x := by
  have hnat := UInt64.toNat_ofNat_of_lt' hlen
  have hsize := reads_bigSize (UInt64.ofNat (recordCodec.encode rs).length)
  rw [hnat] at hsize
  rw [tlvStream_pairs]
  refine hsize.bind ?_
  rw [hnat]
  apply reads_framed
  show (recordCodec.readAll (recordCodec.encode rs)).bind _ = _
  rw [recordCodec.readAll_encode, Option.bind_some, if_pos ⟨hasc, fun r hr => .inl (hknown r hr)⟩, hf]

theorem stable_tlvStruct : Stable (tlvStruct known fields) :=
  stable_bigSize.bind fun _ => stable_framed _ _

end Tlv

end LdkSample
