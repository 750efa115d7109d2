import LdkSample.Args.Parse
import LdkSample.Machine.Output

/-!
# Where the first argument has no credentials

The environment variables, the `.env` file and the cookie are meant to be asked in turn until one
of them has credentials (`FirstSuccess`), as `lazyAuth` does. `fallbackAuth` gives the same
result (`fallbackAuth_result`), but asks all of them and prints the help in any case, so it does
what is meant exactly where all three fail (`firstSuccess_fallbackAuth_iff`).
-/

namespace LdkSample

namespace Args

open Crash

/-- The sources in the order in which they are asked. -/
def sources (e : Env) (network : Network) : List (Console (Except Unit Credentials)) :=
  [pure (getRpcAuthFromEnvVars e), getRpcAuthFromEnvFile e none,
    getRpcAuthFromCookie e none (some network) none]

/-- What asking the sources is to do. -/
structure FirstSuccess (auth : Env → Network → Console (Except Unit Credentials)) (e : Env)
    (network : Network) : Prop where
  ok : ∀ k c, SucceedsAt (sources e network) k c → (auth e network).result = some (.ok c)
  error : (∀ m ∈ sources e network, m.result = some (.error ())) →
    (auth e network).result = some (.error ())
  /-- A process that differs only in later sources prints the same. -/
  messages : ∀ k c, SucceedsAt (sources e network) k c → ∀ e',
    (∀ j ≤ k, (sources e' network)[j]? = (sources e network)[j]?) →
    (auth e' network).printed = (auth e network).printed
  help : noRpcAuth :: rpcAuthHelp e <:+: (auth e network).printed ↔
    ∀ m ∈ sources e network, m.result = some (.error ())

/-! ## The sources -/

/-- The program returns. -/
def Reports (m : Console (Except Unit Credentials)) : Prop := ∃ r msgs, Prints m r msgs

theorem parseRpcAuth_reports (auth : List Char) : Reports (parseRpcAuth auth) := by
  unfold parseRpcAuth
  split
  · exact ⟨_, [], .pure⟩
  · exact ⟨_, _, (Prints.modify _).bind .pure⟩

theorem getRpcAuthFromCookie_reports (e : Env) (network : Network) :
    Reports (getRpcAuthFromCookie e none (some network) none) := by
  unfold getRpcAuthFromCookie
  split
  · exact parseRpcAuth_reports _
  · exact ⟨_, [], .pure⟩

theorem envFileLoop_prints (ls : List (List Char)) (m : HashMap String String) :
    ∃ r msgs, Prints (envFileLoop m ls) r msgs := by
  induction ls generalizing m with
  | nil => exact ⟨_, [], .pure⟩
  | cons line ls ih =>
    unfold envFileLoop
    split
    · exact ih _
    · exact ⟨_, _, (Prints.modify _).bind .pure⟩

theorem getRpcAuthFromEnvFile_reports (e : Env) : Reports (getRpcAuthFromEnvFile e none) := by
  have hparse : ∃ r msgs, Prints (parseEnvFile e none) r msgs := by
    unfold parseEnvFile
    split
    · exact envFileLoop_prints _ _
    · exact ⟨_, [], .pure⟩
  obtain ⟨r, msgs, hprints⟩ := hparse
  have hfile : ∃ c, Prints (getRpcAuthFromEnvFile e none) c msgs := by
    unfold getRpcAuthFromEnvFile
    refine hprints.bind_quiet ?_
    split
    · exact ⟨_, .pure⟩
    · split
      · exact ⟨_, .pure⟩
      · exact ⟨_, .pure⟩
  obtain ⟨c, hc⟩ := hfile
  exact ⟨c, msgs, hc⟩

theorem sources_report (e : Env) (network : Network) : ∀ m ∈ sources e network, Reports m := by
  intro m hm
  simp only [sources, List.mem_cons, List.not_mem_nil, or_false] at hm
  rcases hm with rfl | rfl | rfl
  · exact ⟨_, [], .pure⟩
  · exact getRpcAuthFromEnvFile_reports e
  · exact getRpcAuthFromCookie_reports e network

/-- Not both. -/
theorem not_all_fail {e : Env} {network : Network} {k : Nat} {c : Credentials}
    (h : SucceedsAt (sources e network) k c) :
    ¬ ∀ m ∈ sources e network, m.result = some (.error ()) := by
  obtain ⟨⟨m, hm, hok⟩, -⟩ := h
  intro hfail
  rw [hfail m (List.mem_of_getElem? hm)] at hok
  cases hok

/-! ## Asking them in turn -/

theorem printRpcAuthHelp_prints (e : Env) : Prints (printRpcAuthHelp e) () (rpcAuthHelp e) :=
  .forEach_modify _

/-- The block that says that there are no credentials. -/
def sayNone (e : Env) : Console (Except Unit Credentials) := do
  println noRpcAuth
  printRpcAuthHelp e
  pure (.error ())

theorem sayNone_prints (e : Env) : Prints (sayNone e) (.error ()) (noRpcAuth :: rpcAuthHelp e) := by
  intro out
  unfold sayNone println
  rw [exec_bind_some (exec_modify _ _), exec_bind_some (printRpcAuthHelp_prints e _),
    List.append_assoc]
  rfl

/-- The sources in turn, as far as they are needed. -/
def lazyAuth (e : Env) (network : Network) : Console (Except Unit Credentials) :=
  firstOk (sayNone e) (sources e network)

theorem lazyAuth_of_fail {e : Env} {network : Network}
    (h : ∀ m ∈ sources e network, m.result = some (.error ())) :
    Prints (lazyAuth e network) (.error ())
      ((sources e network).flatMap printed ++ noRpcAuth :: rpcAuthHelp e) := by
  refine firstOk_of_fail (fun m hm => ?_) (sayNone_prints e)
  obtain ⟨r, msgs, hprints⟩ := sources_report e network m hm
  have hr := h m hm
  rw [hprints.result, Option.some_inj] at hr
  subst hr
  exact ⟨(), msgs, hprints⟩

/-! ## Asking all of them -/

/-- The help is printed in any case. -/
theorem fallbackAuth_prints (e : Env) (network : Network) :
    ∃ r msgs, Prints (fallbackAuth e network) r (msgs ++ noRpcAuth :: rpcAuthHelp e) ∧
      (lazyAuth e network).result = some r := by
  obtain ⟨envFile, msgs, henvFile⟩ := getRpcAuthFromEnvFile_reports e
  obtain ⟨cookie, msgs', hcookie⟩ := getRpcAuthFromCookie_reports e network
  refine ⟨orResult (orResult (orResult (getRpcAuthFromEnvVars e) envFile) cookie) (.error ()),
    msgs ++ msgs', fun out => ?_, ?_⟩
  · unfold fallbackAuth println
    rw [exec_bind_some (henvFile out), exec_bind_some (hcookie _), exec_bind_some (exec_modify _ _),
      exec_bind_some (printRpcAuthHelp_prints e _)]
    simp
  · have henvVars := Prints.pure (τ := String) (a := getRpcAuthFromEnvVars e)
    have hnone := (sayNone_prints e).firstOk_nil
    unfold lazyAuth sources
    generalize getRpcAuthFromEnvVars e = envVars at henvVars ⊢
    cases envVars with
    | ok c => exact henvVars.firstOk_ok.result
    | error u =>
      cases envFile with
      | ok c => exact (henvVars.firstOk_error henvFile.firstOk_ok).result
      | error u =>
        cases cookie with
        | ok c => exact (henvVars.firstOk_error (henvFile.firstOk_error hcookie.firstOk_ok)).result
        | error u =>
          exact (henvVars.firstOk_error (henvFile.firstOk_error (hcookie.firstOk_error hnone))).result

theorem fallbackAuth_result (e : Env) (network : Network) :
    (fallbackAuth e network).result = (lazyAuth e network).result := by
  obtain ⟨r, msgs, hprints, hr⟩ := fallbackAuth_prints e network
  rw [hprints.result, hr]

theorem help_infix_fallbackAuth (e : Env) (network : Network) :
    noRpcAuth :: rpcAuthHelp e <:+: (fallbackAuth e network).printed := by
  obtain ⟨r, msgs, hprints, -⟩ := fallbackAuth_prints e network
  rw [hprints.printed]
  exact (List.suffix_append _ _).isInfix

/-- **The fallback is a first-success chain only where nothing succeeds**: the result is right, but
the sources that follow are asked and the help is printed even behind a success. -/
theorem firstSuccess_fallbackAuth_iff (e : Env) (network : Network) :
    FirstSuccess fallbackAuth e network ↔
      ∀ m ∈ sources e network, m.result = some (.error ()) := by
  constructor
  · intro h
    exact h.help.mp (help_infix_fallbackAuth e network)
  · intro hfail
    refine ⟨fun k c hk => absurd hfail (not_all_fail hk), fun _ => ?_,
      fun k c hk => absurd hfail (not_all_fail hk), fun _ => hfail,
      fun _ => help_infix_fallbackAuth e network⟩
    rw [fallbackAuth_result]
    exact (lazyAuth_of_fail hfail).result

section Examples

/-- A process with the two environment variables and no files. -/
def onlyEnvVars : Env where
  args := []
  var key :=
    if key = bitcoindRpcUserKey then some "user"
    else if key = bitcoindRpcPasswordKey then some "pass"
    else none
  homeDir := none
  file _ := none

end Examples

/-- The credentials are there, and still it is said that there are none. -/
theorem not_firstSuccess_onlyEnvVars :
    (fallbackAuth onlyEnvVars .testnet).result = some (.ok ("user", "pass")) ∧
      noRpcAuth ∈ (fallbackAuth onlyEnvVars .testnet).printed ∧
      ¬ FirstSuccess fallbackAuth onlyEnvVars .testnet := by
  have hok : getRpcAuthFromEnvVars onlyEnvVars = .ok ("user", "pass") := by decide
  have hsource : (pure (getRpcAuthFromEnvVars onlyEnvVars) :
      Console (Except Unit Credentials)).result = some (.ok ("user", "pass")) := by
    rw [hok]
    rfl
  have hhelp := help_infix_fallbackAuth onlyEnvVars .testnet
  refine ⟨by decide, hhelp.subset List.mem_cons_self, fun h => ?_⟩
  have hfail := h.help.mp hhelp _ List.mem_cons_self
  rw [hsource] at hfail
  cases hfail

end Args

end LdkSample
