import LdkSample.Cli.Hex
import LdkSample.Cli.Poll
import LdkSample.Text

/-!
# Peer infos

The documented form of a peer info is `pubkey@host:port`. `parse_peer_info` takes the first two
parts of a text cut at every `@` and forgets the others, so it accepts a text in the documented form
with anything behind a second `@` (`parsePeerInfo_documented_iff`).
-/

namespace LdkSample

namespace Cli

open Node (PublicKey SocketAddr)

variable {fromSlice : Bytes → Option PublicKey} {toSocketAddrs : String → Option (List SocketAddr)}
  {s : String} {p a : List Char} {key : PublicKey} {addr : SocketAddr}

/-- The text resolves, to `addr` first. -/
def ResolvesTo (toSocketAddrs : String → Option (List SocketAddr)) (a : List Char)
    (addr : SocketAddr) : Prop :=
  ∃ rest, toSocketAddrs (String.ofList a) = some (addr :: rest)

/-- The form of the error text, with the key and the address that it stands for. -/
def Documented (fromSlice : Bytes → Option PublicKey)
    (toSocketAddrs : String → Option (List SocketAddr)) (s : String) (key : PublicKey)
    (addr : SocketAddr) : Prop :=
  ∃ p a, s.toList = p ++ '@' :: a ∧ '@' ∉ p ∧ '@' ∉ a ∧ KeyHex fromSlice p key ∧
    ResolvesTo toSocketAddrs a addr

/-- With a second `@`, what stands before the first is no key, or what stands between them does not
resolve. -/
def NoneBehind (fromSlice : Bytes → Option PublicKey)
    (toSocketAddrs : String → Option (List SocketAddr)) (s : String) : Prop :=
  ∀ p a more, s.toList = p ++ '@' :: (a ++ '@' :: more) → '@' ∉ p → '@' ∉ a →
    (∀ key, ¬ KeyHex fromSlice p key) ∨ ∀ addr, ¬ ResolvesTo toSocketAddrs a addr

/-! ## The parts -/

theorem splitParts_of_not_mem {sep : Char} {l : List Char} (h : sep ∉ l) :
    splitParts sep l = (l, []) := by
  induction l with
  | nil => rfl
  | cons c cs ih =>
    rw [List.mem_cons, not_or] at h
    rw [splitParts, ih h.2]
    exact if_neg (Ne.symm h.1)

theorem splitParts_append {sep : Char} {l : List Char} (h : sep ∉ l) (rest : List Char) :
    splitParts sep (l ++ sep :: rest) =
      (l, (splitParts sep rest).1 :: (splitParts sep rest).2) := by
  induction l with
  | nil =>
    rw [List.nil_append, splitParts]
    exact if_pos rfl
  | cons c cs ih =>
    rw [List.mem_cons, not_or] at h
    rw [List.cons_append, splitParts, ih h.2]
    exact if_neg (Ne.symm h.1)

theorem parsePeerInfo_format (h : '@' ∉ s.toList) :
    parsePeerInfo fromSlice toSocketAddrs s = .error .format := by
  unfold parsePeerInfo
  rw [splitParts_of_not_mem h]

/-- Two parts decide. -/
theorem parsePeerInfo_eq_ok {more : List (List Char)} (h : splitParts '@' s.toList = (p, a :: more)) :
    parsePeerInfo fromSlice toSocketAddrs s = .ok (key, addr) ↔
      KeyHex fromSlice p key ∧ ResolvesTo toSocketAddrs a addr := by
  rw [← toCompressedPubkey_eq_some]
  unfold parsePeerInfo ResolvesTo
  rw [h]
  dsimp only
  constructor
  · intro hok
    split at hok
    · next peerAddr rest haddrs =>
      split at hok
      · cases hok
      · next hkey =>
        cases hok
        exact ⟨hkey, rest, haddrs⟩
    · cases hok
  · rintro ⟨hkey, rest, haddrs⟩
    rw [haddrs, hkey]

/-! ## The documented form -/

/-- The cut at the first `@` is the only one. -/
theorem cut_unique {p' a' : List Char} (h : p ++ '@' :: a = p' ++ '@' :: a') (hp : '@' ∉ p)
    (hp' : '@' ∉ p') : p = p' ∧ a = a' := by
  have hcut := splitFirst_append (b := a) hp
  rw [h, splitFirst_append hp'] at hcut
  cases hcut
  exact ⟨rfl, rfl⟩

theorem documented_iff (hs : s.toList = p ++ '@' :: a) (hp : '@' ∉ p) :
    Documented fromSlice toSocketAddrs s key addr ↔
      '@' ∉ a ∧ KeyHex fromSlice p key ∧ ResolvesTo toSocketAddrs a addr := by
  constructor
  · rintro ⟨p', a', hs', hp', ha', h⟩
    obtain ⟨rfl, rfl⟩ := cut_unique (hs.symm.trans hs') hp hp'
    exact ⟨ha', h⟩
  · rintro ⟨ha, h⟩
    exact ⟨p, a, hs, hp, ha, h⟩

/-- A text with a second `@`. -/
theorem noneBehind_iff {more : List Char} (hs : s.toList = p ++ '@' :: (a ++ '@' :: more))
    (hp : '@' ∉ p) (ha : '@' ∉ a) : NoneBehind fromSlice toSocketAddrs s ↔
      ∀ key addr, ¬ (KeyHex fromSlice p key ∧ ResolvesTo toSocketAddrs a addr) := by
  constructor
  · rintro h key addr ⟨hkey, haddr⟩
    rcases h p a more hs hp ha with hno | hno
    · exact hno key hkey
    · exact hno addr haddr
  · intro h p' a' more' hs' hp' ha'
    obtain ⟨rfl, hcut⟩ := cut_unique (hs.symm.trans hs') hp hp'
    obtain ⟨rfl, -⟩ := cut_unique hcut ha ha'
    by_cases hkey : ∃ key, KeyHex fromSlice p key
    · obtain ⟨key, hkey⟩ := hkey
      exact .inr fun addr haddr => h key addr ⟨hkey, haddr⟩
    · exact .inl fun key hk => hkey ⟨key, hk⟩

/-- A text without a second `@`. -/
theorem noneBehind_of_one (hs : s.toList = p ++ '@' :: a) (hp : '@' ∉ p) (ha : '@' ∉ a) :
    NoneBehind fromSlice toSocketAddrs s := by
  intro p' a' more hs' hp' _
  obtain ⟨-, rfl⟩ := cut_unique (hs.symm.trans hs') hp hp'
  exact absurd (List.mem_append_right _ List.mem_cons_self) ha

theorem noneBehind_of_none (h : '@' ∉ s.toList) : NoneBehind fromSlice toSocketAddrs s := by
  intro p a more hs
  rw [hs] at h
  exact absurd (List.mem_append_right _ List.mem_cons_self) h

theorem not_documented (h : '@' ∉ s.toList) : ¬ Documented fromSlice toSocketAddrs s key addr := by
  rintro ⟨p, a, hs, -⟩
  rw [hs] at h
  exact h (List.mem_append_right _ List.mem_cons_self)

/-- **Peer infos are accepted in the documented form and no other** exactly where nothing is behind
a second `@` of an acceptable text. -/
theorem parsePeerInfo_documented_iff (fromSlice : Bytes → Option PublicKey)
    (toSocketAddrs : String → Option (List SocketAddr)) (s : String) :
    (∀ key addr, parsePeerInfo fromSlice toSocketAddrs s = .ok (key, addr) ↔
      Documented fromSlice toSocketAddrs s key addr) ↔ NoneBehind fromSlice toSocketAddrs s := by
  by_cases hat : '@' ∈ s.toList
  · obtain ⟨p, b, hs, hp⟩ := List.eq_append_cons_of_mem hat
    by_cases hb : '@' ∈ b
    · obtain ⟨a, more, rfl, ha⟩ := List.eq_append_cons_of_mem hb
      have hparts : splitParts '@' s.toList =
          (p, a :: (splitParts '@' more).1 :: (splitParts '@' more).2) := by
        rw [hs, splitParts_append hp, splitParts_append ha]
      simp only [parsePeerInfo_eq_ok hparts, documented_iff hs hp, hb, not_true_eq_false, false_and,
        iff_false, noneBehind_iff hs hp ha]
    · have hparts : splitParts '@' s.toList = (p, [b]) := by
        rw [hs, splitParts_append hp, splitParts_of_not_mem hb]
      simp only [parsePeerInfo_eq_ok hparts, documented_iff hs hp, hb, not_false_eq_true, true_and,
        implies_true, noneBehind_of_one hs hp hb]
  · simp only [parsePeerInfo_format hat, not_documented hat, reduceCtorEq, implies_true,
      noneBehind_of_none hat]

section Examples

def twoAddresses : String :=
  "0279be667ef9dcbbac55a06295ce870b07029bfcdb2dce28d959f2815b16f81798@127.0.0.1:9735@127.0.0.2:9735"

end Examples

/-- A second address is passed over in silence. -/
theorem twoAddresses_accepted :
    parsePeerInfo sampleCrates.publicKeyFromSlice sampleCrates.toSocketAddrs twoAddresses =
        .ok (samplePeer, .v4 #v[127, 0, 0, 1] 9735) ∧
      ¬ Documented sampleCrates.publicKeyFromSlice sampleCrates.toSocketAddrs twoAddresses samplePeer
        (.v4 #v[127, 0, 0, 1] 9735) := by
  constructor
  · decide +kernel
  · have hs : twoAddresses.toList =
        "0279be667ef9dcbbac55a06295ce870b07029bfcdb2dce28d959f2815b16f81798".toList ++
          '@' :: "127.0.0.1:9735@127.0.0.2:9735".toList := by decide +kernel
    rw [documented_iff hs (by decide +kernel)]
    rintro ⟨hno, -⟩
    exact hno (by decide +kernel)

end Cli

end LdkSample
