import LdkSample.Node.Dial
import LdkSample.Wire

/-!
# Words

What the CLI makes of the text of a line: its words, the integers, hexadecimal strings
(`hex_utils.rs`) and peer infos (`parse_peer_info` in `cli.rs`) in them. Strings are taken apart
as lists of characters; a character beyond ASCII is no digit, as none of its bytes is one.
-/

namespace LdkSample

namespace Cli

open Node (PublicKey SocketAddr)

/-! ## Splitting -/

/-- The Unicode property `White_Space`. -/
def isWhiteSpace (c : Char) : Bool :=
  let n := c.toNat
  (9 ≤ n && n ≤ 13) || n = 0x20 || n = 0x85 || n = 0xa0 || n = 0x1680 ||
    (0x2000 ≤ n && n ≤ 0x200a) || n = 0x2028 || n = 0x2029 || n = 0x202f || n = 0x205f || n = 0x3000

/-- The words of `cs`, the first of which begins with the characters of `word`, in reverse. -/
def wordsFrom (word : List Char) : List Char → List String
  | [] => if word = [] then [] else [String.ofList word.reverse]
  | c :: cs =>
    if isWhiteSpace c then
      if word = [] then wordsFrom [] cs else String.ofList word.reverse :: wordsFrom [] cs
    else wordsFrom (c :: word) cs

def splitWhitespace (line : String) : List String := wordsFrom [] line.toList

def trim (line : String) : String :=
  String.ofList ((line.toList.dropWhile isWhiteSpace).reverse.dropWhile isWhiteSpace).reverse

/-- The part before the first `sep`, and the parts after each. -/
def splitParts (sep : Char) : List Char → List Char × List (List Char)
  | [] => ([], [])
  | c :: cs =>
    let parts := splitParts sep cs
    if c = sep then ([], parts.1 :: parts.2) else (c :: parts.1, parts.2)

/-! ## Integers -/

inductive IntErrorKind where
  | empty
  | invalidDigit
  | posOverflow
  deriving DecidableEq, Repr

def IntErrorKind.text : IntErrorKind → String
  | empty => "cannot parse integer from empty string"
  | invalidDigit => "invalid digit found in string"
  | posOverflow => "number too large to fit in target type"

def digit (c : Char) : Option Nat :=
  if 0x30 ≤ c.toNat ∧ c.toNat ≤ 0x39 then some (c.toNat - 0x30) else none

def parseDigits (max : Nat) : Nat → List Char → Except IntErrorKind Nat
  | acc, [] => .ok acc
  | acc, c :: cs =>
    match digit c with
    | none => .error .invalidDigit
    | some d => if acc * 10 + d ≤ max then parseDigits max (acc * 10 + d) cs else .error .posOverflow

/-- `str::parse` to an unsigned integer of at most `max`. -/
def parseUnsigned (max : Nat) (s : String) : Except IntErrorKind Nat :=
  match s.toList with
  | [] => .error .empty
  | ['+'] => .error .invalidDigit
  | '+' :: cs => parseDigits max 0 cs
  | cs => parseDigits max 0 cs

def parseU64 (s : String) : Except IntErrorKind UInt64 :=
  (parseUnsigned (2 ^ 64 - 1) s).map UInt64.ofNat

def parseU32 (s : String) : Except IntErrorKind UInt32 :=
  (parseUnsigned (2 ^ 32 - 1) s).map UInt32.ofNat

def parseU16 (s : String) : Except IntErrorKind UInt16 :=
  (parseUnsigned (2 ^ 16 - 1) s).map UInt16.ofNat

theorem digit_of_isDigit {c : Char} (h : c.isDigit = true) : digit c = some (c.toNat - '0'.toNat) := by
  have hc : 0x30 ≤ c.toNat ∧ c.toNat ≤ 0x39 := by
    unfold Char.isDigit at h
    simpa [UInt32.le_iff_toNat_le] using h
  unfold digit
  rw [if_pos hc]
  rfl

theorem ofDigitChars_ge {cs : List Char} {acc : Nat} : acc ≤ Nat.ofDigitChars 10 cs acc := by
  induction cs generalizing acc with
  | nil => rw [Nat.ofDigitChars_nil]
  | cons c cs ih =>
    rw [Nat.ofDigitChars_cons]
    have := @ih (10 * acc + (c.toNat - '0'.toNat))
    omega

theorem parseDigits_ofDigitChars {max acc : Nat} {cs : List Char} (hcs : ∀ c ∈ cs, c.isDigit = true)
    (hmax : Nat.ofDigitChars 10 cs acc ≤ max) :
    parseDigits max acc cs = .ok (Nat.ofDigitChars 10 cs acc) := by
  induction cs generalizing acc with
  | nil => rw [Nat.ofDigitChars_nil, parseDigits]
  | cons c cs ih =>
    rw [List.forall_mem_cons] at hcs
    rw [Nat.ofDigitChars_cons, Nat.mul_comm] at hmax ⊢
    have hle := Nat.le_trans ofDigitChars_ge hmax
    rw [parseDigits, digit_of_isDigit hcs.1]
    dsimp only
    rw [if_pos hle, ih hcs.2 hmax]

/-- A number is read back from its decimal form. -/
theorem parseUnsigned_repr {max n : Nat} (h : n ≤ max) : parseUnsigned max n.repr = .ok n := by
  have hdigits : ∀ c ∈ Nat.toDigits 10 n, c.isDigit = true :=
    fun c hc => Nat.isDigit_of_mem_toDigits (by decide) (by decide) hc
  unfold parseUnsigned
  rw [Nat.toList_repr]
  split
  · next hnil => exact absurd hnil Nat.toDigits_ne_nil
  · next hplus =>
    rw [hplus] at hdigits
    cases hdigits '+' List.mem_cons_self
  · next cs hplus =>
    rw [hplus] at hdigits
    cases hdigits '+' List.mem_cons_self
  · rw [parseDigits_ofDigitChars hdigits (by rwa [Nat.ofDigitChars_ten_toDigits]),
      Nat.ofDigitChars_ten_toDigits]

theorem parseU16_repr (n : UInt16) : parseU16 n.toNat.repr = .ok n := by
  have hle : n.toNat ≤ 2 ^ 16 - 1 := Nat.le_sub_one_of_lt n.toNat_lt
  unfold parseU16
  rw [parseUnsigned_repr hle]
  show Except.ok (UInt16.ofNat n.toNat) = .ok n
  rw [UInt16.ofNat_toNat]

/-! ## Hexadecimal strings -/

def hexDigit (c : Char) : Option UInt8 :=
  let n := c.toNat
  if 0x41 ≤ n ∧ n ≤ 0x46 then some (UInt8.ofNat (n - 0x41 + 10))
  else if 0x61 ≤ n ∧ n ≤ 0x66 then some (UInt8.ofNat (n - 0x61 + 10))
  else if 0x30 ≤ n ∧ n ≤ 0x39 then some (UInt8.ofNat (n - 0x30))
  else none

/-- The loop of `to_vec`: `odd` is `idx & 1 = 1`. -/
def toVecFrom (odd : Bool) (b : UInt8) : List Char → Option Bytes
  | [] => some []
  | c :: cs =>
    match hexDigit c with
    | none => none
    | some n =>
      let b := b <<< 4 ||| n
      if odd then (toVecFrom false 0 cs).map (b :: ·) else toVecFrom true b cs

/-- `hex_utils::to_vec`. -/
def hexToVec (hex : String) : Option Bytes := toVecFrom false 0 hex.toList

/-- `{:02x}`. -/
def format02x (v : UInt8) : List Char := (Nat.toDigits 16 v.toNat).leftpad 2 '0'

/-- `hex_utils::hex_str`. -/
def hexStr (value : Bytes) : String :=
  value.foldl (fun res v => res ++ String.ofList (format02x v)) ""

section Keys

/- `PublicKey::from_slice`, and `to_socket_addrs` of an address. -/
variable (fromSlice : Bytes → Option PublicKey) (toSocketAddrs : String → Option (List SocketAddr))

def toCompressedPubkey (hex : String) : Option PublicKey :=
  if hex.utf8ByteSize ≠ 33 * 2 then none
  else
    match hexToVec hex with
    | some data => fromSlice data
    | none => none

/-! ## Peer infos -/

inductive PeerInfoError where
  | format
  | address
  | pubkey
  deriving DecidableEq, Repr

def PeerInfoError.text : PeerInfoError → String
  | format => "ERROR: incorrectly formatted peer info. Should be formatted as: `pubkey@host:port`"
  | address => "ERROR: couldn't parse pubkey@host:port into a socket address"
  | pubkey => "ERROR: unable to parse given pubkey for node"

def parsePeerInfo (peerPubkeyAndIpAddr : String) : Except PeerInfoError (PublicKey × SocketAddr) :=
  let parts := splitParts '@' peerPubkeyAndIpAddr.toList
  match parts.2 with
  | [] => .error .format
  | addr :: _ =>
    match toSocketAddrs (String.ofList addr) with
    | some (peerAddr :: _) =>
      match toCompressedPubkey fromSlice (String.ofList parts.1) with
      | none => .error .pubkey
      | some pubkey => .ok (pubkey, peerAddr)
    | _ => .error .address

end Keys

example : splitWhitespace " keysend  02ab\t7 " = ["keysend", "02ab", "7"] := by decide

example : parseUnsigned 255 "+255" = .ok 255 ∧ parseUnsigned 255 "256" = .error .posOverflow := by
  decide

end Cli

end LdkSample
