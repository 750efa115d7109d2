import LdkSample.Args.RoundTrip
import LdkSample.Bitcoind.Convert
import LdkSample.Lives.Node
import LdkSample.Machine.Front
import LdkSample.Machine.Host

/-!
# The program and its data directories

`start_ldk` (`main.rs`) from the arguments on. Once they are accepted it makes the data directory
they name and the logger's directory in it; then bitcoind decides whether the start goes ahead,
before anything else in the directory is touched. So the lives of the program on a host are, in each
directory, lives of the node, whose starts are those that went ahead there: with arguments that
parse and a bitcoind on the chain of their network (`program_lives`).
-/

namespace LdkSample

namespace Lives

open Args (LdkUserInfo Network)
open Bitcoind (Json blockchainInfo)
open Machine.Service (Fronted Hosted fronted frontedRefines getsPast phaseBehind)
open LdkSample.Node (SocketAddress)
open Startup (IoErrorKind)

structure Crates where
  socketAddressFromStr : String → Option SocketAddress
  blockHashFromStr : String → Option Bytes32
  lightning : Startup.Lightning
  /-- The directory a path names; none of them lies in another one. -/
  directory : String → String

/-- What one start finds and is answered; an answer that is an error is `none`. -/
structure ProgramEnv where
  args : Args.Env
  /-- To the call that `BitcoindClient::new` makes. -/
  initialCall : Option Json
  getblockchaininfo : Option Json
  /-- The outcomes of `create_dir_all` for the data directory and for the logs. -/
  dataDirFault : Option IoErrorKind
  logsFault : Option IoErrorKind
  start : StartEnv

/-- Why a start returns before the keys seed. -/
inductive Refusal where
  | args (printed : List String)
  | bitcoind
  | chain (network : Network) (bitcoindChain : String)
  deriving DecidableEq

/-- What bitcoind calls the chain of the network. -/
def chainName : Network → String
  | .bitcoin => "main"
  | .regtest => "regtest"
  | .signet => "signet"
  | .testnet => "test"

/-- `{}` of `bitcoin::Network`. -/
def networkText : Network → String
  | .bitcoin => "bitcoin"
  | .testnet => "testnet"
  | .signet => "signet"
  | .regtest => "regtest"

/-- What is printed. -/
def Refusal.text : Refusal → List String
  | args printed => printed
  | bitcoind => ["Failed to connect to bitcoind client: Failed to make initial call to bitcoind - please check your RPC user/password and access settings"]
  | chain network bitcoindChain =>
    ["Chain argument (" ++ networkText network ++ ") didn't match bitcoind chain (" ++
      bitcoindChain ++ ")"]

variable (P : Crates)

/-- What bitcoind says to the arguments; `none` is a panic. -/
def checkBitcoind (e : ProgramEnv) (args : LdkUserInfo) : Option (Except Refusal Unit) :=
  match e.initialCall with
  | none => some (.error .bitcoind)
  | some response => do
    let _ ← blockchainInfo P.blockHashFromStr response
    let bitcoind ← e.getblockchaininfo.bind (blockchainInfo P.blockHashFromStr)
    if bitcoind.chain ≠ chainName args.network then
      some (.error (.chain args.network bitcoind.chain))
    else some (.ok ())

def ldkDataDir (args : LdkUserInfo) : String := P.directory (args.ldkStorageDirPath ++ "/.ldk")

/-- What stands at the path of a data directory. -/
structure DataDir where
  /-- The directory exists, -/
  made : Bool
  /-- with `logs` in it, -/
  logs : Bool
  /-- and the files of the node. -/
  files : Disk

/-- `create_dir_all`, which panics on an error. -/
def createDirAll (fault : Option IoErrorKind) (made : DataDir → DataDir) : Crash DataDir Unit :=
  match fault with
  | some _ => Crash.abort
  | none => Crash.modify made

/-- From the arguments to the keys seed. -/
def front : (service P.lightning).Front DataDir (LdkUserInfo × ProgramEnv) where
  view := DataDir.files
  put d x := { x with files := d }
  view_put _ _ := rfl
  before | (args, e) => do
    createDirAll e.dataDirFault fun x => { x with made := true }
    createDirAll e.logsFault fun x => { x with logs := true }
    match checkBitcoind P e args with
    | none => Crash.abort
    | some (.error _) => pure none
    | some (.ok ()) => pure (some e.start)
  keeps := by
    have hmake : ∀ fault (made : DataDir → DataDir) (d : Disk), (∀ x, (made x).files = x.files) →
        Crash.Keeps (fun x => x.files = d) (createDirAll fault made) := fun fault made d h => by
      cases fault with
      | some _ => exact Crash.keeps_abort
      | none => exact Crash.keeps_modify fun x hx => (h x).trans hx
    rintro ⟨args, e⟩ d
    refine Crash.Keeps.bind (hmake _ _ d fun _ => rfl) fun _ =>
      Crash.Keeps.bind (hmake _ _ d fun _ => rfl) fun _ => ?_
    split
    · exact Crash.keeps_abort
    · exact Crash.keeps_pure _
    · exact Crash.keeps_pure _

/-- The node in its data directory. -/
abbrev dirService : Machine.Service (Fronted Node DataDir) Label DataDir (LdkUserInfo × ProgramEnv)
    Loaded := fronted (front P)

/-- With the directory that has been loaded. -/
def startLdk (e : ProgramEnv) : Crash (String → DataDir) (Option (String × Loaded)) :=
  match (Args.parseStartupArgs P.socketAddressFromStr e.args).exec [] with
  | none => Crash.abort
  | some (.error (), _) => pure none
  | some (.ok args, _) => Machine.startAt (ldkDataDir P args) ((dirService P).start (args, e))

/-- The arguments are accepted and name the directory. -/
def Names (dir : String) (e : ProgramEnv) : Prop :=
  ∃ args printed,
    (Args.parseStartupArgs P.socketAddressFromStr e.args).exec [] = some (.ok args, printed) ∧
    ldkDataDir P args = dir

/-- The start goes ahead in the directory: its arguments are accepted and name it, and bitcoind is
on the chain of their network. -/
def GoesAhead (dir : String) (e : ProgramEnv) : Prop :=
  ∃ args printed bitcoind,
    (Args.parseStartupArgs P.socketAddressFromStr e.args).exec [] = some (.ok args, printed) ∧
    e.getblockchaininfo.bind (blockchainInfo P.blockHashFromStr) = some bitcoind ∧
    bitcoind.chain = chainName args.network ∧ ldkDataDir P args = dir

variable {P} {e : ProgramEnv} {args : LdkUserInfo} {dir : String}

theorem checkBitcoind_ok (h : checkBitcoind P e args = some (.ok ())) :
    ∃ bitcoind, e.getblockchaininfo.bind (blockchainInfo P.blockHashFromStr) = some bitcoind ∧
      bitcoind.chain = chainName args.network := by
  unfold checkBitcoind at h
  split at h
  · cases h
  · obtain ⟨_, -, h⟩ := Option.bind_eq_some_iff.mp h
    obtain ⟨bitcoind, hinfo, h⟩ := Option.bind_eq_some_iff.mp h
    split at h
    · cases h
    · next hchain => exact ⟨bitcoind, hinfo, not_not.mp hchain⟩

/-- A start that gets to the keys seed. -/
theorem getsPast_front {x : DataDir} {e₀ : StartEnv}
    (h : getsPast (front P) (args, e) x = some e₀) :
    e₀ = e.start ∧ checkBitcoind P e args = some (.ok ()) := by
  obtain ⟨⟨_, x'⟩, hb, rfl⟩ := Option.bind_eq_some_iff.mp h
  obtain ⟨_, _, -, hb⟩ := Crash.exec_bind_inv hb
  obtain ⟨_, _, -, hb⟩ := Crash.exec_bind_inv hb
  split at hb
  · cases hb
  · cases hb
  · next hok =>
    cases hb
    exact ⟨rfl, hok⟩

variable (P)

/-- A start is one in the directory it names, or goes no further. -/
def router : (dirService P).Router String ProgramEnv where
  start := startLdk P
  route e :=
    match (Args.parseStartupArgs P.socketAddressFromStr e.args).exec [] with
    | some (.ok args, _) => some (ldkDataDir P args, (args, e))
    | _ => none
  goes e dir e₀ h := by
    unfold startLdk
    split at h
    · next args printed hok =>
      rw [hok]
      cases h
      rfl
    · cases h
  stays e h := by
    unfold startLdk
    split at h
    · cases h
    · next hno =>
      split
      · exact .inr rfl
      · exact .inl rfl
      · next args printed hok => exact absurd hok (hno args printed)

abbrev HostPhase : Type := Machine.Phase (Hosted String (Fronted Node DataDir) DataDir)
  (String → DataDir)

/-- The lives of the program on a host. -/
def program : Machine HostPhase (Machine.LifeLabel Label ProgramEnv) :=
  (Machine.Service.hosted (router P)).lives

/-- The node in the directory. -/
def nodeIn (dir : String) (t : HostPhase) : Phase := phaseBehind (front P) (Hosted.phaseAt dir t)

variable {P}

theorem names_of_startsAt {e₀ : LdkUserInfo × ProgramEnv}
    (h : Machine.Service.startsAt (router P) dir e = some e₀) :
    e₀.2 = e ∧ ldkDataDir P e₀.1 = dir ∧ ∃ printed,
      (Args.parseStartupArgs P.socketAddressFromStr e.args).exec [] = some (.ok e₀.1, printed) := by
  have hroute := Machine.Service.route_of_startsAt h
  unfold router at hroute
  dsimp only at hroute
  split at hroute
  · next args printed hok =>
    cases hroute
    exact ⟨rfl, rfl, printed, hok⟩
  · cases hroute

/-- A start that is routed to the directory and gets to the keys seed there goes ahead in it. -/
theorem goesAhead_of_getsPast {e₀ : LdkUserInfo × ProgramEnv} {x : DataDir} {e₁ : StartEnv}
    (h : Machine.Service.startsAt (router P) dir e = some e₀)
    (hpast : getsPast (front P) e₀ x = some e₁) : e.start = e₁ ∧ GoesAhead P dir e := by
  obtain ⟨args, e'⟩ := e₀
  obtain ⟨rfl, hdir, printed, hargs⟩ := names_of_startsAt h
  obtain ⟨rfl, hok⟩ := getsPast_front hpast
  obtain ⟨bitcoind, hinfo, hchain⟩ := checkBitcoind_ok hok
  exact ⟨rfl, args, printed, bitcoind, hargs, hinfo, hchain, hdir⟩

/-- The label is a start that went ahead in the directory, with this environment of the node. -/
def StartOf (P : Crates) (dir : String) (e₀ : StartEnv) : Machine.LifeLabel Label ProgramEnv → Prop
  | .start e | .startKilled e _ => e.start = e₀ ∧ GoesAhead P dir e
  | _ => False

/-- **In each directory the program lives the lives of the node**: its starts are those whose
arguments name the directory and whose bitcoind is on the chain of their network. Where there is
none, its files are as they were, and where no arguments name the directory, so is all of it. -/
theorem program_lives (P : Crates) (dir : String) (host : String → DataDir)
    (ks : List (Machine.LifeLabel Label ProgramEnv)) (t : HostPhase)
    (hr : (program P).run (.down host) ks = some t) :
    (∃ ls, (lives P.lightning).run (.down (host dir).files) ls = some (nodeIn P dir t) ∧
      ∀ l ∈ ls, l.StartsWith fun e₀ => ∃ k ∈ ks, StartOf P dir e₀ k) ∧
    ((∀ k ∈ ks, k.StartsWith fun e => ¬ GoesAhead P dir e) →
      nodeIn P dir t = .down (host dir).files) ∧
    ((∀ k ∈ ks, k.StartsWith fun e => ¬ Names P dir e) →
      Hosted.phaseAt dir t = .down (host dir)) := by
  have hdir := (Machine.Service.hostedRefines (router P) dir).run hr
  refine ⟨⟨_, (frontedRefines (front P)).run hdir, fun l hl => ?_⟩, fun hno => ?_, fun hno => ?_⟩
  · obtain ⟨x, m, hm, hl⟩ := (frontedRefines (front P)).mem_labs hl
    obtain ⟨y, k, hk, hm⟩ := (Machine.Service.hostedRefines (router P) dir).mem_labs hm
    refine Machine.Service.startsWith_labelBehind hl ?_
    refine Machine.Service.startsWith_labelAt hm fun e e₀ hke hs x e₁ hpast => ⟨k, hk, ?_⟩
    have hgoes := goesAhead_of_getsPast hs hpast
    rcases hke with rfl | ⟨n, rfl⟩
    · exact hgoes
    · exact hgoes
  · refine Machine.Service.kept_of_front rfl (fun m hm => ?_) hdir
    obtain ⟨y, k, hk, hm⟩ := (Machine.Service.hostedRefines (router P) dir).mem_labs hm
    refine Machine.Service.startsWith_labelAt hm fun e e₀ hke hs x => ?_
    have hk' := hno k hk
    have hnot : ¬ GoesAhead P dir e := by
      rcases hke with rfl | ⟨n, rfl⟩
      · exact hk'
      · exact hk'
    rw [Option.eq_none_iff_forall_ne_some]
    exact fun e₁ hpast => hnot (goesAhead_of_getsPast hs hpast).2
  · refine Machine.Service.untouched (R := router P) (fun k hk => ?_) hr
    have hnone {e : ProgramEnv} (hnot : ¬ Names P dir e) :
        Machine.Service.startsAt (router P) dir e = none := by
      rw [Option.eq_none_iff_forall_ne_some]
      intro e₀ hs
      obtain ⟨-, hdir, printed, hargs⟩ := names_of_startsAt hs
      exact hnot ⟨e₀.1, printed, hargs, hdir⟩
    have hk' := hno k hk
    cases k with
    | step l => trivial
    | kill n => trivial
    | start e => exact hnone hk'
    | startKilled e n => exact hnone hk'

section Examples

def samplePrograms : Crates where
  socketAddressFromStr s := if s = "10.0.0.1:9735" then some Args.homeAddr else none
  blockHashFromStr _ := some (Vector.replicate 32 0)
  lightning := Startup.storedAtOld
  directory := id

def onChain (chain : String) : Json :=
  .object [("blocks", .number (.posInt 100)), ("bestblockhash", .string "00"), ("chain", .string chain)]

/-- A node for `regtest`, and a bitcoind on a chain. -/
def regtestOn (chain : String) : ProgramEnv where
  args := Args.onlyArgs (Args.everything.args (fun _ => "10.0.0.1:9735") (some "user:p@ss"))
  initialCall := some (onChain chain)
  getblockchaininfo := some (onChain chain)
  dataDirFault := none
  logsFault := none
  start := noStartFault

theorem regtestOn_args (chain : String) :
    (Args.parseStartupArgs samplePrograms.socketAddressFromStr (regtestOn chain).args).exec [] =
      some (.ok (Args.everything.info ("user", "p@ss")), []) := by
  have hargs : (regtestOn chain).args.args =
      Args.everything.args (fun _ => "10.0.0.1:9735") (some "user:p@ss") := rfl
  rw [Args.everything.parseStartupArgs_args hargs]
  · rfl
  · intro a ha addr haddr
    cases ha
    rw [List.eq_of_mem_replicate (n := 2) haddr]
    rfl

/-- A data directory that has no logs yet. -/
def withoutLogs : DataDir := ⟨true, false, seeded⟩

/-- With the argument string that names it. -/
def sampleInfo : LdkUserInfo := Args.everything.info ("user", "p@ss")

theorem startLdk_regtestOn (chain : String) : startLdk samplePrograms (regtestOn chain) =
    Machine.startAt "./.ldk" ((dirService samplePrograms).start (sampleInfo, regtestOn chain)) := by
  unfold startLdk
  rw [regtestOn_args]
  rfl

end Examples

/-- A start on the wrong chain, which makes the logs, then one on the right one, and a kill. -/
theorem program_lives_regtest : ∃ t,
    (program samplePrograms).run (.down fun _ => withoutLogs)
      [.start (regtestOn "main"), .start (regtestOn "regtest"), .kill 0] = some t ∧
    (∃ ls, (lives Startup.storedAtOld).run (.down seeded) ls = some (nodeIn samplePrograms "./.ldk" t) ∧
      ∀ l ∈ ls, l.StartsWith fun e₀ => ∃ k ∈ [.start (regtestOn "main"), .start (regtestOn "regtest"),
        .kill 0], StartOf samplePrograms "./.ldk" e₀ k) := by
  have hexec : ∀ chain host, (startLdk samplePrograms (regtestOn chain)).exec host =
      (((dirService samplePrograms).start (sampleInfo, regtestOn chain)).exec (host "./.ldk")).map
        fun r => (r.1.map fun a => ("./.ldk", a), Function.update host "./.ldk" r.2) :=
    fun chain host => by rw [startLdk_regtestOn, Machine.exec_startAt]
  obtain ⟨t, ht⟩ : ∃ t, (program samplePrograms).run (.down fun _ => withoutLogs)
      [.start (regtestOn "main"), .start (regtestOn "regtest"), .kill 0] = some t := by
    have hrefused : (program samplePrograms).step (.down fun _ => withoutLogs)
        (.start (regtestOn "main")) = some (.down (Function.update (fun _ => withoutLogs) "./.ldk"
          { withoutLogs with logs := true })) :=
      Machine.Service.lives_returned (hexec "main" _)
    have hstarted : (program samplePrograms).step (.down (Function.update (fun _ => withoutLogs) "./.ldk"
        { withoutLogs with logs := true })) (.start (regtestOn "regtest")) = some (.up _) :=
      Machine.Service.lives_started (hexec "regtest" _)
    rw [← Option.isSome_iff_exists, Machine.run_cons hrefused, Machine.run_cons hstarted]
    rfl
  exact ⟨t, ht, (program_lives samplePrograms "./.ldk" (fun _ => withoutLogs) _ t ht).1⟩

end Lives

end LdkSample
