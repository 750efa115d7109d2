import LdkSample.Bitcoind.Convert
import LdkSample.HashMap
import LdkSample.Machine.Crash

/-!
# Fee estimates

The table of fee rates of `BitcoindClient` and the task that polls bitcoind for it
(`bitcoind_client.rs`), as a program over the table: each store is a step, so that the states
between the stores are the ones that a reader of the table can observe. What a round stores is
`Answers.value` (`pollRound_stores`).
-/

namespace LdkSample

namespace Bitcoind

/-- `lightning::chain::chaininterface::ConfirmationTarget`. -/
inductive ConfirmationTarget where
  | maximumFeeEstimate
  | urgentOnChainSweep
  | minAllowedAnchorChannelRemoteFee
  | minAllowedNonAnchorChannelRemoteFee
  | anchorChannelFee
  | nonAnchorChannelFee
  | channelCloseMinimum
  | outputSpendingFee
  deriving DecidableEq, Repr

abbrev FeeTable := HashMap ConfirmationTarget UInt32

/-- The minimum feerate we are allowed to send. -/
def minFeerate : UInt32 := 253

/-! ## The answers -/

/-- What the five calls of a round come back with; `none` is an error. -/
structure Answers where
  mempoolInfo : Option Json
  background : Option Json
  normal : Option Json
  highPrio : Option Json
  veryHighPrio : Option Json

/-! ## Polling -/

/-- The table that `BitcoindClient::new` builds. -/
def initialFees : FeeTable :=
  (∅ : FeeTable)
    |>.insert .maximumFeeEstimate 50000
    |>.insert .urgentOnChainSweep 5000
    |>.insert .minAllowedAnchorChannelRemoteFee minFeerate
    |>.insert .minAllowedNonAnchorChannelRemoteFee minFeerate
    |>.insert .anchorChannelFee minFeerate
    |>.insert .nonAnchorChannelFee 2000
    |>.insert .channelCloseMinimum minFeerate
    |>.insert .outputSpendingFee minFeerate

/-- An answer, or what is taken where it has no feerate. -/
def estimate (fallback : UInt32) : Option UInt32 → UInt32
  | some feerate => max feerate minFeerate
  | none => fallback

/-- `-` of two `u32`. -/
def checkedSub (a b : UInt32) : Option UInt32 := if b ≤ a then some (a - b) else none

def store (target : ConfirmationTarget) (feerate : UInt32) : Crash FeeTable Unit := do
  let fees ← Crash.get
  let _ ← Crash.unwrap (fees.lookup target)
  Crash.modify fun fees => fees.insert target feerate

/-- One turn of the loop of `poll_for_fee_estimates`. -/
def pollRound (a : Answers) : Crash FeeTable Unit := do
  let resp ← Crash.unwrap (a.mempoolInfo.bind mempoolMinFeeResponse)
  let mempoolminEstimate := estimate minFeerate resp.feerateSatPerKw
  let resp ← Crash.unwrap (a.background.map feeResponse)
  let backgroundEstimate := estimate minFeerate resp.feerateSatPerKw
  let resp ← Crash.unwrap (a.normal.map feeResponse)
  let normalEstimate := estimate 2000 resp.feerateSatPerKw
  let resp ← Crash.unwrap (a.highPrio.map feeResponse)
  let highPrioEstimate := estimate 5000 resp.feerateSatPerKw
  let resp ← Crash.unwrap (a.veryHighPrio.map feeResponse)
  let veryHighPrioEstimate := estimate 50000 resp.feerateSatPerKw
  store .maximumFeeEstimate veryHighPrioEstimate
  store .urgentOnChainSweep highPrioEstimate
  store .minAllowedAnchorChannelRemoteFee mempoolminEstimate
  let lessThanBackground ← Crash.unwrap (checkedSub backgroundEstimate 250)
  store .minAllowedNonAnchorChannelRemoteFee lessThanBackground
  store .anchorChannelFee backgroundEstimate
  store .nonAnchorChannelFee normalEstimate
  store .channelCloseMinimum backgroundEstimate
  store .outputSpendingFee backgroundEstimate

/-- The first rounds of the task. -/
def pollForFeeEstimates (rounds : List Answers) : Crash FeeTable Unit := Crash.forEach rounds pollRound

/-- `none` is the panic of the lookup. -/
def getEstSatPer1000Weight (fees : FeeTable) (confirmationTarget : ConfirmationTarget) :
    Option UInt32 :=
  fees.lookup confirmationTarget

/-! ## What a round stores -/

/-- The feerate of an answer of `estimatesmartfee`. -/
def feerate (answer : Option Json) : Option UInt32 :=
  answer.bind fun value => (feeResponse value).feerateSatPerKw

/-- The cells in the order in which a round stores them. -/
def storeOrder : List ConfirmationTarget :=
  [.maximumFeeEstimate, .urgentOnChainSweep, .minAllowedAnchorChannelRemoteFee,
    .minAllowedNonAnchorChannelRemoteFee, .anchorChannelFee, .nonAnchorChannelFee,
    .channelCloseMinimum, .outputSpendingFee]

theorem mem_storeOrder (target : ConfirmationTarget) : target ∈ storeOrder := by
  cases target <;> decide

namespace Answers

variable (a : Answers)

def mempoolMin : Option UInt32 := (a.mempoolInfo.bind mempoolMinFeeResponse).bind (·.feerateSatPerKw)

def mempoolminEstimate : UInt32 := estimate minFeerate a.mempoolMin

def backgroundEstimate : UInt32 := estimate minFeerate (feerate a.background)

def normalEstimate : UInt32 := estimate 2000 (feerate a.normal)

def highPrioEstimate : UInt32 := estimate 5000 (feerate a.highPrio)

def veryHighPrioEstimate : UInt32 := estimate 50000 (feerate a.veryHighPrio)

def value : ConfirmationTarget → UInt32
  | .maximumFeeEstimate => a.veryHighPrioEstimate
  | .urgentOnChainSweep => a.highPrioEstimate
  | .minAllowedAnchorChannelRemoteFee => a.mempoolminEstimate
  | .minAllowedNonAnchorChannelRemoteFee => a.backgroundEstimate - 250
  | .anchorChannelFee => a.backgroundEstimate
  | .nonAnchorChannelFee => a.normalEstimate
  | .channelCloseMinimum => a.backgroundEstimate
  | .outputSpendingFee => a.backgroundEstimate

/-- The stores of a round. -/
def storeAll : Crash FeeTable Unit := Crash.forEach storeOrder fun target => store target (a.value target)

/-- All five answers are there, and the assertion holds. -/
def Good : Prop :=
  (a.mempoolInfo.bind mempoolMinFeeResponse).isSome ∧ a.background.isSome ∧ a.normal.isSome ∧
    a.highPrio.isSome ∧ a.veryHighPrio.isSome

end Answers

theorem toNat_max (a b : UInt32) : (max a b).toNat = max a.toNat b.toNat := by
  show (if a ≤ b then b else a).toNat = _
  split
  · next h => exact (Nat.max_eq_right (UInt32.le_iff_toNat_le.mp h)).symm
  · next h => exact (Nat.max_eq_left (UInt32.le_iff_toNat_le.mp (UInt32.le_of_lt (UInt32.not_le.mp h)))).symm

theorem minFeerate_le_estimate {fallback : UInt32} (h : minFeerate ≤ fallback) (answer : Option UInt32) :
    minFeerate ≤ estimate fallback answer := by
  cases answer with
  | none => exact h
  | some feerate =>
    rw [UInt32.le_iff_toNat_le, estimate, toNat_max]
    exact Nat.le_max_right _ _

theorem checkedSub_background (a : Answers) :
    checkedSub a.backgroundEstimate 250 = some (a.backgroundEstimate - 250) := by
  have h : minFeerate ≤ a.backgroundEstimate := minFeerate_le_estimate (UInt32.le_refl _) _
  exact if_pos (UInt32.le_trans (by decide) h)

theorem unwrap_some_bind {α β : Type} (x : α) (f : α → Crash FeeTable β) :
    (Crash.unwrap (some x) >>= f) = f x := rfl

/-- A round whose calls all come back stores its estimates. -/
theorem pollRound_of_good {a : Answers} (h : a.Good) : pollRound a = a.storeAll := by
  have hsub := checkedSub_background a
  obtain ⟨hm, hb, hn, hh, hv⟩ := h
  obtain ⟨resp, hm⟩ := Option.isSome_iff_exists.mp hm
  obtain ⟨mempoolInfo, background, normal, highPrio, veryHighPrio⟩ := a
  obtain ⟨b, rfl⟩ := Option.isSome_iff_exists.mp hb
  obtain ⟨n, rfl⟩ := Option.isSome_iff_exists.mp hn
  obtain ⟨hi, rfl⟩ := Option.isSome_iff_exists.mp hh
  obtain ⟨v, rfl⟩ := Option.isSome_iff_exists.mp hv
  have hlast : ∀ x, store .outputSpendingFee x =
      Crash.forEach [.outputSpendingFee] fun target => store target x := fun x =>
    (Crash.forEach_singleton _ fun target => store target x).symm
  dsimp only at hm
  replace hsub : checkedSub (estimate minFeerate (feeResponse b).feerateSatPerKw) 250 =
      some (estimate minFeerate (feeResponse b).feerateSatPerKw - 250) := hsub
  unfold pollRound
  dsimp only
  rw [hm]
  simp only [Option.map_some, unwrap_some_bind]
  rw [hsub, hlast]
  unfold Answers.storeAll Answers.value Answers.mempoolminEstimate Answers.mempoolMin
  dsimp only
  rw [hm]
  rfl

/-- Any other panics before it stores anything. -/
theorem pollRound_of_not_good {a : Answers} (h : ¬ a.Good) : pollRound a = Crash.abort := by
  obtain ⟨mempoolInfo, background, normal, highPrio, veryHighPrio⟩ := a
  unfold pollRound
  dsimp only
  rcases hm : mempoolInfo.bind mempoolMinFeeResponse with _ | resp
  · rfl
  rcases background with _ | b
  · rfl
  rcases normal with _ | n
  · rfl
  rcases highPrio with _ | hi
  · rfl
  rcases veryHighPrio with _ | v
  · rfl
  exact absurd ⟨by rw [hm]; rfl, rfl, rfl, rfl, rfl⟩ h

theorem exec_store {target : ConfirmationTarget} {v : UInt32} {s : FeeTable}
    (h : (s.lookup target).isSome) : (store target v).exec s = some ((), s.insert target v) := by
  obtain ⟨old, hold⟩ := Option.isSome_iff_exists.mp h
  unfold store
  rw [Crash.exec_bind_some (Crash.exec_get s), hold]
  rfl

theorem exec_store_inv {target : ConfirmationTarget} {v : UInt32} {s t : FeeTable}
    (h : (store target v).exec s = some ((), t)) : t = s.insert target v := by
  by_cases hin : (s.lookup target).isSome
  · rw [exec_store hin] at h
    cases h
    rfl
  · rw [Option.not_isSome_iff_eq_none] at hin
    unfold store at h
    rw [Crash.exec_bind_some (Crash.exec_get s), hin] at h
    cases h

/-- After its store a cell has its value, whatever is stored besides. -/
theorem forEach_store {value : ConfirmationTarget → UInt32} {targets : List ConfirmationTarget}
    {s t : FeeTable} (h : (Crash.forEach targets fun target => store target (value target)).exec s =
      some ((), t)) (target : ConfirmationTarget)
    (hin : target ∈ targets ∨ s.lookup target = some (value target)) :
    t.lookup target = some (value target) := by
  induction targets generalizing s with
  | nil =>
    cases h
    exact hin.resolve_left List.not_mem_nil
  | cons first targets ih =>
    obtain ⟨_, u, hu, h⟩ := Crash.exec_bind_inv h
    refine ih h ?_
    rw [exec_store_inv hu]
    by_cases heq : target = first
    · subst heq
      exact .inr (AList.lookup_insert s)
    · rw [AList.lookup_insert_ne heq]
      refine hin.imp_left fun hmem => ?_
      exact (List.mem_cons.mp hmem).resolve_left heq

theorem pollRound_stores {a : Answers} {s t : FeeTable} (h : (pollRound a).exec s = some ((), t))
    (target : ConfirmationTarget) : getEstSatPer1000Weight t target = some (a.value target) := by
  by_cases hgood : a.Good
  · rw [pollRound_of_good hgood] at h
    exact forEach_store h target (.inl (mem_storeOrder target))
  · rw [pollRound_of_not_good hgood] at h
    cases h

end Bitcoind

end LdkSample
