import LdkSample.Cli.Words
import LdkSample.HashMap
import LdkSample.Machine.Crash
import LdkSample.Text

/-!
# Startup arguments

`parse_startup_args` (`args.rs`) with the four sources of the bitcoind credentials, as programs
over what they have printed. A panic ends a program without a result; where the source returns a
`Result`, so does the model. `Env` is what a process finds: its arguments, its environment
variables, its home directory and the files it can read.
-/

namespace LdkSample

namespace Args

open Node (SocketAddress)
open Cli (parseU16)

/-- A program that prints. -/
abbrev Console (α : Type) := Crash (List String) α

def println (text : String) : Console Unit := Crash.modify fun out => out ++ [text]

structure Env where
  args : List String
  var : String → Option String
  homeDir : Option String
  /-- `fs::read_to_string`; `none` is an error. -/
  file : String → Option String

inductive Network where
  | bitcoin
  | testnet
  | signet
  | regtest
  deriving DecidableEq, Repr

/-- The user name and the password. -/
abbrev Credentials := String × String

/-- `Path::join` of a path and a relative one. -/
def join (path name : String) : String :=
  match path.toList.getLast? with
  | none | some '/' => path ++ name
  | some _ => path ++ "/" ++ name

def defaultBitcoinDatadir : String := ".bitcoin"

def bitcoindRpcUserKey : String := "RPC_USER"

def bitcoindRpcPasswordKey : String := "RPC_PASSWORD"

/-! ## Credentials -/

def parseRpcAuth (rpcAuth : List Char) : Console (Except Unit Credentials) :=
  match rpcAuth.splitOn ':' with
  | [rpcUsername, rpcPassword] =>
    pure (.ok (String.ofList rpcUsername, String.ofList rpcPassword))
  | _ => do
    println "ERROR: bad bitcoind RPC username/password combo provided"
    pure (.error ())

def getCookiePath (e : Env) (dataDir : Option (String × Bool)) (network : Option Network)
    (cookieFileName : Option String) : Option String :=
  let dataDirPath :=
    match dataDir with
    | some (dir, true) => e.homeDir.map (join · dir)
    | some (dir, false) => some dir
    | none => e.homeDir.map (join · defaultBitcoinDatadir)
  dataDirPath.map fun path =>
    let pathWithNet :=
      match network with
      | some .testnet => join path "testnet3"
      | some .regtest => join path "regtest"
      | some .signet => join path "signet"
      | _ => path
    join pathWithNet (cookieFileName.getD ".cookie")

def getRpcAuthFromCookie (e : Env) (dataDir : Option (String × Bool)) (network : Option Network)
    (cookieFileName : Option String) : Console (Except Unit Credentials) :=
  match (getCookiePath e dataDir network cookieFileName).bind e.file with
  | some cookieContents => parseRpcAuth cookieContents.toList
  | none => pure (.error ())

def getRpcAuthFromEnvVars (e : Env) : Except Unit Credentials :=
  match e.var bitcoindRpcUserKey, e.var bitcoindRpcPasswordKey with
  | some username, some password => .ok (username, password)
  | _, _ => .error ()

/-- The loop over the lines of the `.env` file. -/
def envFileLoop (envFileMap : HashMap String String) :
    List (List Char) → Console (Except Unit (HashMap String String))
  | [] => pure (.ok envFileMap)
  | line :: lines =>
    match splitFirst '=' line with
    | (key, some value) =>
      envFileLoop (envFileMap.insert (String.ofList key) (String.ofList value)) lines
    | (_, none) => do
      println "ERROR: bad .env file format"
      pure (.error ())

def parseEnvFile (e : Env) (envFileName : Option String) :
    Console (Except Unit (HashMap String String)) :=
  match e.file (envFileName.getD ".env") with
  | some envFileContents => envFileLoop ∅ (lines envFileContents.toList)
  | none => pure (.error ())

def getRpcAuthFromEnvFile (e : Env) (envFileName : Option String) :
    Console (Except Unit Credentials) := do
  match ← parseEnvFile e envFileName with
  | .error _ => pure (.error ())
  | .ok envFileMap =>
    match envFileMap.lookup bitcoindRpcUserKey, envFileMap.lookup bitcoindRpcPasswordKey with
    | some username, some password => pure (.ok (username, password))
    | _, _ => pure (.error ())

/-- The texts of `print_rpc_auth_help`. -/
def rpcAuthHelp (e : Env) : List String :=
  let homeDir := String.ofList ((e.homeDir.getD "$HOME").toList.map fun c =>
    if c = '\\' then '/' else c)
  let dataDir := homeDir ++ "/" ++ defaultBitcoinDatadir
  ["To provide the bitcoind RPC username and password, you can either:",
    "1. Provide the username and password as the first argument to this program in the format: " ++
      "<bitcoind-rpc-username>:<bitcoind-rpc-password>@<bitcoind-rpc-host>:<bitcoind-rpc-port>",
    "2. Provide <bitcoind-rpc-username>:<bitcoind-rpc-password> in a .cookie file in the default " ++
      "bitcoind data directory (automatically created by bitcoind on startup): `" ++ dataDir ++ "`",
    "3. Set the " ++ bitcoindRpcUserKey ++ " and " ++ bitcoindRpcPasswordKey ++
      " environment variables",
    "4. Provide " ++ bitcoindRpcUserKey ++ " and " ++ bitcoindRpcPasswordKey ++
      " fields in a .env file in the current directory"]

def printRpcAuthHelp (e : Env) : Console Unit := Crash.forEach (rpcAuthHelp e) println

def noRpcAuth : String := "ERROR: unable to get bitcoind RPC username and password"

/-- `Result::or`, of a second result that is there already. -/
def orResult {α : Type} : Except Unit α → Except Unit α → Except Unit α
  | .ok a, _ => .ok a
  | .error _, b => b

/-- Where the first argument has no credentials. The arguments of `or` are evaluated in any case,
the block that prints the help among them. -/
def fallbackAuth (e : Env) (network : Network) : Console (Except Unit Credentials) := do
  let envVars := getRpcAuthFromEnvVars e
  let envFile ← getRpcAuthFromEnvFile e none
  let cookie ← getRpcAuthFromCookie e none (some network) none
  println noRpcAuth
  printRpcAuthHelp e
  pure (orResult (orResult (orResult envVars envFile) cookie) (.error ()))

/-- From what stands before the `@` of the first argument, or from the other sources. -/
def rpcAuth (e : Env) (network : Network) : Option (List Char) → Console (Except Unit Credentials)
  | none => fallbackAuth e network
  | some auth => parseRpcAuth auth

/-! ## The arguments -/

structure LdkUserInfo where
  bitcoindRpcUsername : String
  bitcoindRpcPassword : String
  bitcoindRpcPort : UInt16
  bitcoindRpcHost : String
  ldkStorageDirPath : String
  ldkPeerListeningPort : UInt16
  ldkAnnouncedListenAddr : List SocketAddress
  ldkAnnouncedNodeName : Vector UInt8 32
  network : Network
  deriving DecidableEq

def usage : String :=
  "ldk-tutorial-node requires at least 2 arguments: `cargo run [<bitcoind-rpc-username>:<bitcoind-rpc-password>@]<bitcoind-rpc-host>:<bitcoind-rpc-port> ldk_storage_directory_path [<ldk-incoming-peer-listening-port>] [bitcoin-network] [announced-node-name announced-listen-addr*]`"

def parseNetwork : Option String → Console Network
  | some "testnet" => pure .testnet
  | some "regtest" => pure .regtest
  | some "signet" => pure .signet
  | some _ => Crash.abort
  | none => pure .testnet

/-- The bytes of a name, filled up with zeros. -/
def nodeName (s : String) : Option (Vector UInt8 32) :=
  let bytes := s.toUTF8.data.toList
  if h : bytes.length ≤ 32 then
    some ⟨(bytes ++ List.replicate (32 - bytes.length) 0).toArray, by simp; omega⟩
  else none

/-- The node name, with the index of the last argument that has been read. -/
def announcedNodeName (args : List String) (argIdx : Nat) : Console (Nat × Vector UInt8 32) :=
  match args[argIdx + 1]? with
  | some s => do
    let bytes ← Crash.unwrap (nodeName s)
    pure (argIdx + 1, bytes)
  | none => pure (argIdx, Vector.replicate 32 0)

variable (socketAddressFromStr : String → Option SocketAddress)

/-- The loop over the announced addresses, with the index it is at. -/
def listenAddrs (args : List String) (argIdx : Nat) : Console (List SocketAddress) :=
  if h : argIdx + 1 < args.length then do
    let sa ← Crash.unwrap (socketAddressFromStr args[argIdx + 1])
    let addrs ← listenAddrs args (argIdx + 1)
    pure (sa :: addrs)
  else pure []
termination_by args.length - argIdx

def parseStartupArgs (e : Env) : Console (Except Unit LdkUserInfo) := do
  if e.args.length < 3 then do
    println usage
    pure (.error ())
  else do
    let bitcoindRpcInfo ← Crash.unwrap e.args[1]?
    -- `rsplitn` begins with the last part
    let (path, auth) := splitLast '@' bitcoindRpcInfo.toList
    match path.splitOn ':' with
    | [host, port] => do
      let bitcoindRpcPort ← Crash.unwrap (parseU16 (String.ofList port)).toOption
      let ldkStorageDirPath ← Crash.unwrap e.args[2]?
      let peerPort := e.args[3]?.bind fun p => (parseU16 p).toOption
      let argIdx := if peerPort.isSome then 4 else 3
      let network ← parseNetwork e.args[argIdx]?
      match ← rpcAuth e network auth with
      | .error _ => pure (.error ())
      | .ok (username, password) => do
        let (argIdx, name) ← announcedNodeName e.args argIdx
        let addrs ← listenAddrs socketAddressFromStr e.args argIdx
        pure (.ok {
          bitcoindRpcUsername := username
          bitcoindRpcPassword := password
          bitcoindRpcHost := String.ofList host
          bitcoindRpcPort
          ldkStorageDirPath
          ldkPeerListeningPort := peerPort.getD 9735
          ldkAnnouncedListenAddr := addrs
          ldkAnnouncedNodeName := name
          network })
    | _ => do
      println "ERROR: bad bitcoind RPC path provided"
      pure (.error ())

end Args

end LdkSample
