import LdkSample.Args.Fallback

/-!
# Arguments read back

An `Invocation` is what the usage line lets a user write, and `args` writes it in the order of that
line. `parse_startup_args` gives it back with the defaults for what is left out
(`parseStartupArgs_args`); the positions of the later arguments are those of the lists they are
written in, whatever stands before them.
-/

namespace LdkSample

namespace Args

open Node (SocketAddress)
open Cli (parseU16 parseU16_repr)

structure Announcement where
  name : String
  fits : name.toUTF8.data.toList.length ≤ 32
  addrs : List SocketAddress

structure Tail where
  network : Network
  supported : network ≠ .bitcoin
  announced : Option Announcement

/-- All but the credentials. -/
structure Invocation where
  program : String
  host : String
  host_plain : ':' ∉ host.toList ∧ '@' ∉ host.toList
  port : UInt16
  path : String
  listening : Option UInt16
  tail : Option Tail

/-! ## Writing -/

def Network.name : Network → String
  | .bitcoin => "bitcoin"
  | .testnet => "testnet"
  | .signet => "signet"
  | .regtest => "regtest"

namespace Invocation

variable (showAddr : SocketAddress → String) (i : Invocation)

def rpcPath : String := i.host ++ ":" ++ i.port.toNat.repr

def rpcInfo : Option String → String
  | none => i.rpcPath
  | some auth => auth ++ "@" ++ i.rpcPath

/-- The program, the two arguments that are required and the listening port. -/
def front (auth : Option String) : List String :=
  [i.program, i.rpcInfo auth, i.path] ++ i.listening.toList.map fun p => p.toNat.repr

def tailArgs : List String :=
  match i.tail with
  | none => []
  | some t =>
    t.network.name :: match t.announced with
      | none => []
      | some a => a.name :: a.addrs.map showAddr

def args (auth : Option String) : List String := i.front auth ++ i.tailArgs showAddr

def network : Network := (i.tail.map Tail.network).getD .testnet

def announced : Option Announcement := i.tail.bind Tail.announced

/-- A name in 32 bytes. -/
def padded (name : String) : Vector UInt8 32 := Vector.ofFn fun k => name.toUTF8.data.toList[k]?.getD 0

/-- What is to be read. -/
def info (c : Credentials) : LdkUserInfo where
  bitcoindRpcUsername := c.1
  bitcoindRpcPassword := c.2
  bitcoindRpcHost := i.host
  bitcoindRpcPort := i.port
  ldkStorageDirPath := i.path
  ldkPeerListeningPort := i.listening.getD 9735
  ldkAnnouncedListenAddr := (i.announced.map Announcement.addrs).getD []
  ldkAnnouncedNodeName := (i.announced.map fun a => padded a.name).getD (Vector.replicate 32 0)
  network := i.network

/-! ## The first argument -/

theorem isDigit_of_mem_repr {n : Nat} {c : Char} (h : c ∈ n.repr.toList) : c.isDigit = true := by
  rw [Nat.toList_repr] at h
  exact Nat.isDigit_of_mem_toDigits (by decide) (by decide) h

theorem rpcPath_toList : i.rpcPath.toList = i.host.toList ++ ':' :: i.port.toNat.repr.toList := by
  unfold rpcPath
  simp

theorem at_not_mem_rpcPath : '@' ∉ i.rpcPath.toList := by
  rw [rpcPath_toList, List.mem_append, List.mem_cons]
  rintro (h | h | h)
  · exact i.host_plain.2 h
  · exact absurd h (by decide)
  · exact absurd (isDigit_of_mem_repr h) (by decide)

theorem splitLast_rpcInfo (auth : Option String) :
    splitLast '@' (i.rpcInfo auth).toList = (i.rpcPath.toList, auth.map String.toList) := by
  cases auth with
  | none => exact splitLast_of_not_mem i.at_not_mem_rpcPath
  | some auth =>
    have h : (i.rpcInfo (some auth)).toList = auth.toList ++ '@' :: i.rpcPath.toList := by
      unfold rpcInfo
      simp
    rw [h, splitLast_append i.at_not_mem_rpcPath]
    rfl

theorem splitOn_rpcPath :
    i.rpcPath.toList.splitOn ':' = [i.host.toList, i.port.toNat.repr.toList] := by
  have hport : ':' ∉ i.port.toNat.repr.toList :=
    fun h => absurd (isDigit_of_mem_repr h) (by decide)
  rw [rpcPath_toList, List.splitOn_append_cons_self_of_not_mem i.host_plain.1,
    List.splitOn_eq_singleton hport]

/-! ## The arguments after it -/

theorem args_front (auth : Option String) :
    i.args showAddr auth = i.program :: i.rpcInfo auth :: i.path ::
      (i.listening.toList.map (fun p => p.toNat.repr) ++ i.tailArgs showAddr) := rfl

theorem parseU16_name (n : Network) : (parseU16 n.name).toOption = none := by
  cases n <;> decide

/-- The argument after the path is a port where one was written. -/
theorem listening_read (auth : Option String) :
    ((i.args showAddr auth)[3]?.bind fun p => (parseU16 p).toOption) = i.listening := by
  rw [args_front]
  cases hl : i.listening with
  | some p =>
    show (parseU16 p.toNat.repr).toOption = some p
    rw [parseU16_repr]
    rfl
  | none =>
    unfold tailArgs
    cases i.tail with
    | none => rfl
    | some t => exact parseU16_name t.network

theorem length_front (auth : Option String) :
    (i.front auth).length = if i.listening.isSome then 4 else 3 := by
  unfold front
  cases i.listening <;> rfl

/-- Behind the listening port the arguments are those of the tail. -/
theorem args_after_front (auth : Option String) (k : Nat) :
    (i.args showAddr auth)[(i.front auth).length + k]? = (i.tailArgs showAddr)[k]? := by
  unfold args
  rw [List.getElem?_append_right (Nat.le_add_right _ _), Nat.add_sub_cancel_left]

theorem network_read (auth : Option String) (out : List String) :
    (parseNetwork (i.args showAddr auth)[(i.front auth).length]?).exec out = some (i.network, out) := by
  have h : (i.args showAddr auth)[(i.front auth).length]? = i.tail.map fun t => t.network.name := by
    rw [← Nat.add_zero (i.front auth).length, args_after_front]
    unfold tailArgs
    cases i.tail <;> rfl
  rw [h]
  unfold network
  cases i.tail with
  | none => rfl
  | some t =>
    obtain ⟨n, hn, -⟩ := t
    cases n with
    | bitcoin => exact absurd rfl hn
    | testnet => rfl
    | signet => rfl
    | regtest => rfl

theorem getElem_append_replicate {bytes : List UInt8} {n k : Nat}
    (hk : k < (bytes ++ List.replicate n 0).length) :
    (bytes ++ List.replicate n 0)[k] = bytes[k]?.getD 0 := by
  rcases Nat.lt_or_ge k bytes.length with h | h
  · rw [List.getElem_append_left h, List.getElem?_eq_getElem h, Option.getD_some]
  · rw [List.getElem_append_right h, List.getElem_replicate, List.getElem?_eq_none h, Option.getD_none]

theorem nodeName_eq_padded {name : String} (h : name.toUTF8.data.toList.length ≤ 32) :
    nodeName name = some (padded name) := by
  unfold nodeName padded
  dsimp only
  rw [dif_pos h, Option.some_inj]
  refine Vector.ext fun k hk => ?_
  rw [Vector.getElem_ofFn, Vector.getElem_mk, List.getElem_toArray, getElem_append_replicate]
  rfl

theorem name_read (auth : Option String) (out : List String) :
    (announcedNodeName (i.args showAddr auth) (i.front auth).length).exec out =
      some (((i.front auth).length + i.announced.toList.length,
        (i.announced.map fun a => padded a.name).getD (Vector.replicate 32 0)), out) := by
  have h : (i.args showAddr auth)[(i.front auth).length + 1]? = i.announced.map Announcement.name := by
    rw [args_after_front]
    unfold tailArgs announced
    rcases i.tail with _ | ⟨n, -, _ | a⟩ <;> rfl
  unfold announcedNodeName
  rw [h]
  cases i.announced with
  | none => rfl
  | some a =>
    show ((Crash.unwrap (nodeName a.name)) >>= _ : Console _).exec out = _
    rw [nodeName_eq_padded a.fits]
    rfl

variable {showAddr} {fromStr : String → Option SocketAddress}

theorem listenAddrs_of_length_le {args : List String} {argIdx : Nat} (h : args.length ≤ argIdx + 1)
    (out : List String) : (listenAddrs fromStr args argIdx).exec out = some ([], out) := by
  unfold listenAddrs
  rw [dif_neg (by omega)]
  rfl

/-- The loop reads the rest of the arguments, each one once. -/
theorem listenAddrs_append {addrs : List SocketAddress}
    (h : ∀ a ∈ addrs, fromStr (showAddr a) = some a) {front : List String} {argIdx : Nat}
    (hfront : front.length = argIdx + 1) (out : List String) :
    (listenAddrs fromStr (front ++ addrs.map showAddr) argIdx).exec out = some (addrs, out) := by
  induction addrs generalizing front argIdx with
  | nil => exact listenAddrs_of_length_le (by simp [hfront]) out
  | cons a addrs ih =>
    rw [List.forall_mem_cons] at h
    have hnext : front ++ (a :: addrs).map showAddr =
        (front ++ [showAddr a]) ++ addrs.map showAddr := by simp
    have hget : (front ++ (a :: addrs).map showAddr)[argIdx + 1]? = some (showAddr a) := by
      rw [← hfront, List.getElem?_append_right (Nat.le_refl _), Nat.sub_self]
      rfl
    obtain ⟨hlt, hget⟩ := List.getElem?_eq_some_iff.mp hget
    unfold listenAddrs
    rw [dif_pos hlt, hget, h.1, hnext]
    exact Crash.exec_bind_some (ih h.2 (by simp [hfront]))

theorem addrs_read (h : ∀ a ∈ i.announced, ∀ addr ∈ a.addrs, fromStr (showAddr addr) = some addr)
    (auth : Option String) (out : List String) :
    (listenAddrs fromStr (i.args showAddr auth)
        ((i.front auth).length + i.announced.toList.length)).exec out =
      some ((i.announced.map Announcement.addrs).getD [], out) := by
  unfold args tailArgs
  unfold announced at h ⊢
  rcases ht : i.tail with _ | ⟨n, hn, _ | a⟩
  · exact listenAddrs_of_length_le (by simp) out
  · exact listenAddrs_of_length_le (by simp) out
  · have hsplit : i.front auth ++ n.name :: a.name :: a.addrs.map showAddr =
        (i.front auth ++ [n.name, a.name]) ++ a.addrs.map showAddr := by simp
    show (listenAddrs fromStr (i.front auth ++ n.name :: a.name :: a.addrs.map showAddr) _).exec out = _
    rw [hsplit]
    exact listenAddrs_append (h a (by rw [ht]; rfl)) (by simp) out

/-! ## The whole line -/

/-- The arguments are read as what was written, whoever the credentials come from. -/
theorem parseStartupArgs_args {e : Env} {auth : Option String} (hargs : e.args = i.args showAddr auth)
    (h : ∀ a ∈ i.announced, ∀ addr ∈ a.addrs, fromStr (showAddr addr) = some addr)
    (out : List String) :
    (parseStartupArgs fromStr e).exec out =
      ((rpcAuth e i.network (auth.map String.toList)) >>= fun r => pure (r.map i.info)).exec out := by
  have hlen : ¬ e.args.length < 3 := by
    rw [hargs, args_front]
    simp
  have hinfo : e.args[1]? = some (i.rpcInfo auth) := by rw [hargs, args_front]; rfl
  have hpath : e.args[2]? = some i.path := by rw [hargs, args_front]; rfl
  unfold parseStartupArgs
  rw [if_neg hlen, hinfo, hpath, hargs, listening_read]
  dsimp only
  rw [← length_front i auth]
  refine (Crash.exec_bind_some (m := Crash.unwrap (some (i.rpcInfo auth))) rfl).trans ?_
  rw [splitLast_rpcInfo]
  dsimp only
  rw [splitOn_rpcPath]
  dsimp only
  rw [String.ofList_toList, parseU16_repr]
  refine (Crash.exec_bind_some (m := Crash.unwrap (some i.port)) rfl).trans ?_
  refine (Crash.exec_bind_some (m := Crash.unwrap (some i.path)) rfl).trans ?_
  rw [Crash.exec_bind_some (i.network_read showAddr auth out), Crash.exec_bind, Crash.exec_bind]
  rcases (rpcAuth e i.network (auth.map String.toList)).exec out with _ | ⟨_ | c, out'⟩
  · rfl
  · rfl
  · show Crash.exec (announcedNodeName _ _ >>= _) out' = _
    rw [Crash.exec_bind_some (i.name_read showAddr auth out')]
    dsimp only
    rw [Crash.exec_bind_some (i.addrs_read h auth out'), String.ofList_toList]
    rfl

/-! ## With the credentials -/

/-- Credentials in one word. -/
def joined (c : Credentials) : String := c.1 ++ ":" ++ c.2

/-- Credentials without a `:` are what `parse_rpc_auth` makes of them in one word. -/
theorem parseRpcAuth_joined {c : Credentials} (h : ':' ∉ c.1.toList ∧ ':' ∉ c.2.toList) :
    parseRpcAuth (joined c).toList = pure (.ok c) := by
  have hjoined : (joined c).toList = c.1.toList ++ ':' :: c.2.toList := by
    unfold joined
    simp
  unfold parseRpcAuth
  rw [hjoined, List.splitOn_append_cons_self_of_not_mem h.1, List.splitOn_eq_singleton h.2]
  dsimp only
  rw [String.ofList_toList, String.ofList_toList]

theorem rpcAuth_joined {c : Credentials} (h : ':' ∉ c.1.toList ∧ ':' ∉ c.2.toList) {e : Env}
    {network : Network} : rpcAuth e network ((some (joined c)).map String.toList) = pure (.ok c) :=
  parseRpcAuth_joined h

end Invocation

open Invocation (joined)

/-- **The arguments are read back**: the fields are those that were written, with the defaults for
what was left out; with credentials nothing is printed, and without them they are those of the
other sources. -/
theorem startup_args_read_back (i : Invocation) {credentials : Option Credentials}
    (hplain : ∀ c ∈ credentials, ':' ∉ c.1.toList ∧ ':' ∉ c.2.toList)
    {showAddr : SocketAddress → String} {fromStr : String → Option SocketAddress}
    (haddr : ∀ a ∈ i.announced, ∀ addr ∈ a.addrs, fromStr (showAddr addr) = some addr) {e : Env}
    (hargs : e.args = i.args showAddr (credentials.map joined)) (out : List String) :
    (∀ c, credentials = some c →
      (parseStartupArgs fromStr e).exec out = some (.ok (i.info c), out)) ∧
    (credentials = none → ∃ r out', (fallbackAuth e i.network).exec out = some (r, out') ∧
      (parseStartupArgs fromStr e).exec out = some (r.map i.info, out')) := by
  have hexec := i.parseStartupArgs_args hargs haddr out
  constructor
  · rintro c rfl
    rw [hexec, Option.map_some, Invocation.rpcAuth_joined (hplain c rfl)]
    rfl
  · rintro rfl
    obtain ⟨r, msgs, hprints, -⟩ := fallbackAuth_prints e i.network
    refine ⟨r, _, hprints out, ?_⟩
    rw [hexec]
    exact Crash.exec_bind_some (hprints out)

section Examples

/-- The address `10.0.0.1:9735`. -/
def homeAddr : SocketAddress := .tcpIpV4 #v[10, 0, 0, 1] 9735

def everything : Invocation where
  program := "ldk-sample"
  host := "localhost"
  host_plain := by decide
  port := 18443
  path := "."
  listening := some 9000
  tail := some {
    network := .regtest
    supported := by decide
    announced := some { name := "node", fits := by decide, addrs := [homeAddr, homeAddr] } }

def onlyArgs (args : List String) : Env where
  args := args
  var _ := none
  homeDir := none
  file _ := none

end Examples

theorem startup_args_read_back_everything :
    (parseStartupArgs (fun s => if s = "10.0.0.1:9735" then some homeAddr else none)
        (onlyArgs (everything.args (fun _ => "10.0.0.1:9735") (some "user:p@ss")))).exec [] =
      some (.ok (everything.info ("user", "p@ss")), []) := by
  have hplain : ∀ c ∈ (some ("user", "p@ss") : Option Credentials),
      ':' ∉ c.1.toList ∧ ':' ∉ c.2.toList := by decide
  refine (startup_args_read_back everything hplain ?_ rfl []).1 _ rfl
  intro a ha addr haddr
  cases ha
  rw [List.eq_of_mem_replicate (n := 2) haddr]
  rfl

end Args

end LdkSample
