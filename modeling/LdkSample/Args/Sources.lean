import LdkSample.Args.EnvFile
import LdkSample.Args.RoundTrip

/-!
# One pair of credentials in every source

The word `user:password` is cut at every `:` and refused unless there is one, so a password with a
`:` is read from the environment and from the `.env` file but neither from the first argument nor
from the cookie (`allDeliver_iff`).
-/

namespace LdkSample

namespace Args

open Node (SocketAddress)
open Invocation (joined parseRpcAuth_joined rpcAuth_joined)

def userEntry (user : String) : Entry := ⟨bitcoindRpcUserKey, user⟩

def passwordEntry (password : String) : Entry := ⟨bitcoindRpcPasswordKey, password⟩

/-- Every source that has the credentials delivers them. -/
structure AllDeliver (c : Credentials) : Prop where
  commandLine : ∀ (i : Invocation) (showAddr : SocketAddress → String)
    (fromStr : String → Option SocketAddress) (e : Env) (out : List String),
    e.args = i.args showAddr (some (joined c)) →
    (∀ a ∈ i.announced, ∀ addr ∈ a.addrs, fromStr (showAddr addr) = some addr) →
    (parseStartupArgs fromStr e).exec out = some (.ok (i.info c), out)
  cookie : ∀ e dataDir network cookieFileName out,
    (getCookiePath e dataDir network cookieFileName).bind e.file = some (joined c) →
    (getRpcAuthFromCookie e dataDir network cookieFileName).exec out = some (.ok c, out)
  /-- The last entries of the two keys are the ones that count. -/
  envFile : ∀ e (name : Option String) entries out,
    e.file (name.getD ".env") = some (String.ofList (renderEnvFile entries)) →
    (∀ entry ∈ entries, entry.Plain ∨ entry = userEntry c.1 ∨ entry = passwordEntry c.2) →
    entries.reverse.dlookup bitcoindRpcUserKey = some c.1 →
    entries.reverse.dlookup bitcoindRpcPasswordKey = some c.2 →
    (getRpcAuthFromEnvFile e name).exec out = some (.ok c, out)
  envVars : ∀ e, e.var bitcoindRpcUserKey = some c.1 → e.var bitcoindRpcPasswordKey = some c.2 →
    getRpcAuthFromEnvVars e = .ok c
  /-- What is sent to bitcoind is undone. -/
  undone : ∀ out, (parseRpcAuth (joined c).toList).exec out = some (.ok c, out)

/-- The text has no line breaks. -/
def OneLine (s : String) : Prop := '\n' ∉ s.toList ∧ '\r' ∉ s.toList

theorem OneLine.plain {key value : String} (h : OneLine value)
    (hkey : '=' ∉ key.toList ∧ '\n' ∉ key.toList) : Entry.Plain ⟨key, value⟩ where
  key := hkey
  value := ⟨h.1, fun hcr => h.2 (List.mem_of_getLast? hcr)⟩

/-! ## The two that do not cut the pair -/

theorem envVars_deliver {c : Credentials} {e : Env} (hu : e.var bitcoindRpcUserKey = some c.1)
    (hp : e.var bitcoindRpcPasswordKey = some c.2) : getRpcAuthFromEnvVars e = .ok c := by
  unfold getRpcAuthFromEnvVars
  rw [hu, hp]

theorem envFile_delivers {c : Credentials} {e : Env} {name : Option String} {entries : List Entry}
    (hfile : e.file (name.getD ".env") = some (String.ofList (renderEnvFile entries)))
    (hplain : ∀ entry ∈ entries, entry.Plain)
    (hu : entries.reverse.dlookup bitcoindRpcUserKey = some c.1)
    (hp : entries.reverse.dlookup bitcoindRpcPasswordKey = some c.2) (out : List String) :
    (getRpcAuthFromEnvFile e name).exec out = some (.ok c, out) := by
  have hlines : lines (renderEnvFile entries) = entries.map Entry.line := lines_renderEnvFile hplain
  have heq : ∀ line ∈ lines (renderEnvFile entries), '=' ∈ line := by
    intro line hline
    rw [hlines] at hline
    obtain ⟨entry, -, rfl⟩ := List.mem_map.mp hline
    exact List.mem_append_right _ List.mem_cons_self
  obtain ⟨m, hm, hlookup⟩ := (readExactly_ok heq).roundTrip entries hplain rfl
  cases hm
  have hexec : (parseEnvFile e name).exec out =
      some (.ok (insertAll ((lines (renderEnvFile entries)).filterMap lineEntry) ∅), out) := by
    rw [parseEnvFile_exec hfile, String.toList_ofList, envFileLoop_ok heq]
  unfold getRpcAuthFromEnvFile
  rw [Crash.exec_bind_some hexec]
  dsimp only
  rw [hlookup, hlookup, hu, hp]
  rfl

/-! ## The three that do -/

/-- A pair that comes back from `parse_rpc_auth` has no `:` in the password. -/
theorem not_mem_of_undone {c : Credentials} (hu : ':' ∉ c.1.toList) {out : List String}
    (h : (parseRpcAuth (joined c).toList).exec out = some (.ok c, out)) : ':' ∉ c.2.toList := by
  intro hmem
  obtain ⟨a, b, hab, ha⟩ := List.eq_append_cons_of_mem hmem
  have hjoined : (joined c).toList = c.1.toList ++ ':' :: (a ++ ':' :: b) := by
    unfold joined
    simp [hab]
  obtain ⟨d, ds, hb⟩ := List.exists_cons_of_ne_nil (List.splitOn_ne_nil ':' b)
  unfold parseRpcAuth at h
  rw [hjoined, List.splitOn_append_cons_self_of_not_mem hu,
    List.splitOn_append_cons_self_of_not_mem ha, hb] at h
  cases h

theorem commandLine_delivers {c : Credentials} (hc : ':' ∉ c.1.toList ∧ ':' ∉ c.2.toList)
    {i : Invocation} {showAddr : SocketAddress → String} {fromStr : String → Option SocketAddress}
    {e : Env} (hargs : e.args = i.args showAddr (some (joined c)))
    (haddr : ∀ a ∈ i.announced, ∀ addr ∈ a.addrs, fromStr (showAddr addr) = some addr)
    (out : List String) : (parseStartupArgs fromStr e).exec out = some (.ok (i.info c), out) := by
  rw [i.parseStartupArgs_args hargs haddr out, rpcAuth_joined hc]
  rfl

theorem cookie_delivers {c : Credentials} (hc : ':' ∉ c.1.toList ∧ ':' ∉ c.2.toList) {e : Env}
    {dataDir : Option (String × Bool)} {network : Option Network} {cookieFileName : Option String}
    (hfile : (getCookiePath e dataDir network cookieFileName).bind e.file = some (joined c))
    (out : List String) :
    (getRpcAuthFromCookie e dataDir network cookieFileName).exec out = some (.ok c, out) := by
  unfold getRpcAuthFromCookie
  rw [hfile]
  dsimp only
  rw [parseRpcAuth_joined hc]
  rfl

/-- **All sources deliver the same credentials exactly where the password has no `:`.** -/
theorem allDeliver_iff {user password : String} (hu : ':' ∉ user.toList) (huser : OneLine user)
    (hpassword : OneLine password) : AllDeliver (user, password) ↔ ':' ∉ password.toList := by
  constructor
  · intro h
    exact not_mem_of_undone (c := (user, password)) hu (h.undone [])
  · intro hp
    have hc : ':' ∉ (user, password).1.toList ∧ ':' ∉ (user, password).2.toList := ⟨hu, hp⟩
    refine ⟨fun i showAddr fromStr e out hargs haddr => commandLine_delivers hc hargs haddr out,
      fun e dataDir network name out hfile => cookie_delivers hc hfile out, ?_,
      fun e => envVars_deliver, fun out => ?_⟩
    · intro e name entries out hfile hentries
      refine fun hlu hlp => envFile_delivers hfile (fun entry hentry => ?_) hlu hlp out
      rcases hentries entry hentry with hplain | rfl | rfl
      · exact hplain
      · exact huser.plain (by decide)
      · exact hpassword.plain (by decide)
    · rw [parseRpcAuth_joined hc]
      rfl

theorem allDeliver_iff_atSign : AllDeliver ("user", "p@ss=1") ↔ ':' ∉ "p@ss=1".toList :=
  allDeliver_iff (by decide) ⟨by decide, by decide⟩ ⟨by decide, by decide⟩

/-- A password with a `:` is refused in the cookie. -/
theorem not_allDeliver_colon :
    (parseRpcAuth "user:pa:ss".toList).exec [] =
      some (.error (), ["ERROR: bad bitcoind RPC username/password combo provided"]) ∧
      ¬ AllDeliver ("user", "pa:ss") := by
  refine ⟨by decide, fun h => ?_⟩
  exact not_mem_of_undone (by decide) (h.undone []) (by decide)

end Args

end LdkSample
