import LdkSample.Bitcoind.Fees

/-!
# The bounds of the fee table

Whatever bitcoind answers, every cell is there and holds at least its `lowest` value after each
store of each round (`poll_bounded`), because an estimate is never below the minimum feerate. An
answer in range is stored as its quarter, as near as doubles come to it (`QuarterOf`).
-/

namespace LdkSample

namespace Bitcoind

/-- The least value that a cell may have. -/
def lowest : ConfirmationTarget → UInt32
  | .minAllowedNonAnchorChannelRemoteFee => 3
  | _ => minFeerate

/-- Every cell is found, and has at least its least value. -/
def Bounded (fees : FeeTable) : Prop :=
  ∀ target, ∃ v, getEstSatPer1000Weight fees target = some v ∧ lowest target ≤ v

theorem initialFees_bounded : Bounded initialFees := by
  intro target
  cases target <;> exact ⟨_, rfl, by decide⟩

/-! ## One store -/

theorem bounded_insert {fees : FeeTable} (h : Bounded fees) {target : ConfirmationTarget} {v : UInt32}
    (hv : lowest target ≤ v) : Bounded (fees.insert target v) := by
  intro target'
  unfold getEstSatPer1000Weight
  by_cases heq : target' = target
  · subst heq
    exact ⟨v, AList.lookup_insert fees, hv⟩
  · rw [AList.lookup_insert_ne heq]
    exact h target'

theorem store_bounded {target : ConfirmationTarget} {v : UInt32} (hv : lowest target ≤ v) :
    Crash.Triple Bounded (store target v) (fun _ => Bounded) Bounded := by
  refine .get fun s₀ hs₀ => ?_
  refine .bind (Q := fun _ s => s = s₀) (.unwrap fun _ _ _ hs => hs) fun _ => ?_
  refine .modify_of (fun _ h => h) fun s hs => ?_
  subst hs
  exact bounded_insert hs₀ hv

/-- A table in which every cell is found takes any store. -/
theorem exec_store_bounded {target : ConfirmationTarget} {v : UInt32} {s : FeeTable} (h : Bounded s)
    (hv : lowest target ≤ v) :
    ∃ t, (store target v).exec s = some ((), t) ∧ Bounded t := by
  obtain ⟨old, hold, -⟩ := h target
  exact ⟨_, exec_store (Option.isSome_of_eq_some hold), bounded_insert h hv⟩

/-! ## One round -/

theorem minFeerate_le_backgroundEstimate (a : Answers) : minFeerate ≤ a.backgroundEstimate :=
  minFeerate_le_estimate (UInt32.le_refl _) _

/-- What is subtracted from it is not more than the background estimate. -/
theorem reserve_le_backgroundEstimate (a : Answers) : 250 ≤ a.backgroundEstimate :=
  UInt32.le_trans (by decide) (minFeerate_le_backgroundEstimate a)

theorem lowest_le_value (a : Answers) (target : ConfirmationTarget) : lowest target ≤ a.value target := by
  have hb := minFeerate_le_backgroundEstimate a
  cases target with
  | maximumFeeEstimate => exact minFeerate_le_estimate (by decide) _
  | urgentOnChainSweep => exact minFeerate_le_estimate (by decide) _
  | minAllowedAnchorChannelRemoteFee => exact minFeerate_le_estimate (UInt32.le_refl _) _
  | minAllowedNonAnchorChannelRemoteFee =>
    show 3 ≤ a.backgroundEstimate - 250
    rw [UInt32.le_iff_toNat_le] at hb ⊢
    rw [UInt32.toNat_sub_of_le _ _ (reserve_le_backgroundEstimate a)]
    exact Nat.le_sub_of_add_le hb
  | anchorChannelFee => exact hb
  | nonAnchorChannelFee => exact minFeerate_le_estimate (by decide) _
  | channelCloseMinimum => exact hb
  | outputSpendingFee => exact hb

theorem storeAll_bounded (a : Answers) :
    Crash.Triple Bounded a.storeAll (fun _ => Bounded) Bounded :=
  .forEach (fun _ => Bounded) fun target _ => store_bounded (lowest_le_value a target)

theorem pollRound_bounded (a : Answers) :
    Crash.Triple Bounded (pollRound a) (fun _ => Bounded) Bounded := by
  by_cases hgood : a.Good
  · rw [pollRound_of_good hgood]
    exact storeAll_bounded a
  · rw [pollRound_of_not_good hgood]
    exact .abort

/-- With all its answers a round returns: no lookup fails, and the subtraction does not underflow. -/
theorem pollRound_returns {a : Answers} (hgood : a.Good) {s : FeeTable} (hs : Bounded s) :
    ∃ t, (pollRound a).exec s = some ((), t) ∧ Bounded t := by
  rw [pollRound_of_good hgood]
  exact Crash.exec_forEach_of
    (fun target _ _ hs => exec_store_bounded hs (lowest_le_value a target)) hs

/-! ## Any number of rounds -/

theorem poll_bounded (rounds : List Answers) :
    Crash.Triple Bounded (pollForFeeEstimates rounds) (fun _ => Bounded) Bounded :=
  .forEach (fun _ => Bounded) fun a _ => pollRound_bounded a

theorem poll_returns {rounds : List Answers} (hgood : ∀ a ∈ rounds, a.Good) {s : FeeTable}
    (hs : Bounded s) : ∃ t, (pollForFeeEstimates rounds).exec s = some ((), t) := by
  obtain ⟨t, ht, -⟩ := Crash.exec_forEach_of (f := pollRound)
    (fun a ha _ hs => pollRound_returns (hgood a ha) hs) hs
  exact ⟨t, ht⟩

/-! ## The values -/

/-- A quarter that fits is neither cut off nor below the minimum. -/
theorem QuarterOf.bounds {n : ℚ} {quarter : ℤ} (h : QuarterOf n quarter) (hlo : 253 ≤ n / 4)
    (hhi : n / 4 ≤ 2 ^ 32 - 1) : 253 ≤ quarter ∧ quarter < 2 ^ 32 := by
  obtain ⟨y, hnear, rfl⟩ := h.near
  have hle := le_abs_self (y - n)
  have hge := neg_abs_le (y - n)
  exact ⟨Int.le_floor.mpr (by push_cast; linarith), Int.floor_lt.mpr (by push_cast; linarith)⟩

theorem satPerKw_in_range {n : ℚ} (hlo : 253 ≤ n / 4) (hhi : n / 4 ≤ 2 ^ 32 - 1) :
    minFeerate ≤ satPerKw (f64.fl (n / 100000000)) ∧
      QuarterOf n (satPerKw (f64.fl (n / 100000000))).toNat := by
  obtain ⟨quarter, hread, hquarter⟩ := satPerKw_quarter (n := n) (by linarith) (by linarith)
  obtain ⟨hmin, hmax⟩ := hquarter.bounds hlo hhi
  have htoNat : (satPerKw (f64.fl (n / 100000000))).toNat = quarter.toNat := by
    rw [hread, toNat_asU32]
    omega
  constructor
  · rw [UInt32.le_iff_toNat_le, htoNat]
    show 253 ≤ quarter.toNat
    omega
  · rw [htoNat, Int.toNat_of_nonneg (by omega)]
    exact hquarter

/-- The feerate of an answer of `estimatesmartfee`, in BTC/kvB. -/
def feerateBtc (answer : Option Json) : Option ℚ := answer.bind fun value => (value.index "feerate").asF64

/-- The feerate that a cell is fed by. -/
def Answers.rate (a : Answers) : ConfirmationTarget → Option ℚ
  | .maximumFeeEstimate => feerateBtc a.veryHighPrio
  | .urgentOnChainSweep => feerateBtc a.highPrio
  | .minAllowedAnchorChannelRemoteFee =>
    a.mempoolInfo.bind fun value => (value.index "mempoolminfee").asF64
  | .nonAnchorChannelFee => feerateBtc a.normal
  | _ => feerateBtc a.background

/-- What a cell holds less than its answer. -/
def reserve : ConfirmationTarget → UInt32
  | .minAllowedNonAnchorChannelRemoteFee => 250
  | _ => 0

theorem feerate_eq_map (answer : Option Json) : feerate answer = (feerateBtc answer).map satPerKw := by
  cases answer <;> rfl

theorem mempoolMin_eq_map {a : Answers} (hgood : a.Good) :
    a.mempoolMin = (a.rate .minAllowedAnchorChannelRemoteFee).map satPerKw := by
  obtain ⟨mempoolInfo, _, _, _, _⟩ := a
  have hsome := hgood.1
  unfold Answers.mempoolMin Answers.rate
  rcases mempoolInfo with _ | value
  · rfl
  · dsimp only [Option.bind_some] at hsome ⊢
    unfold mempoolMinFeeResponse at hsome ⊢
    split
    · rfl
    · next h =>
      rw [if_neg h] at hsome
      cases hsome

theorem estimate_feerate {fallback : UInt32} {answer : Option Json} {q : ℚ}
    (h : feerateBtc answer = some q) : estimate fallback (feerate answer) = max (satPerKw q) minFeerate := by
  rw [feerate_eq_map, h]
  rfl

/-- The value of a cell whose answer has a feerate. -/
theorem value_eq {a : Answers} (hgood : a.Good) {target : ConfirmationTarget} {q : ℚ}
    (h : a.rate target = some q) : a.value target = max (satPerKw q) minFeerate - reserve target := by
  cases target with
  | minAllowedAnchorChannelRemoteFee =>
    show a.mempoolminEstimate = _ - 0
    unfold Answers.mempoolminEstimate
    rw [mempoolMin_eq_map hgood, h, UInt32.sub_zero]
    rfl
  | minAllowedNonAnchorChannelRemoteFee =>
    show a.backgroundEstimate - 250 = _
    unfold Answers.backgroundEstimate
    rw [estimate_feerate h]
    rfl
  | maximumFeeEstimate | urgentOnChainSweep | anchorChannelFee | nonAnchorChannelFee
    | channelCloseMinimum | outputSpendingFee =>
    exact (estimate_feerate h).trans (UInt32.sub_zero _).symm

theorem value_quarter {a : Answers} (hgood : a.Good) {target : ConfirmationTarget} {n : ℚ}
    (h : a.rate target = some (f64.fl (n / 100000000))) (hlo : 253 ≤ n / 4)
    (hhi : n / 4 ≤ 2 ^ 32 - 1) :
    QuarterOf n ((a.value target).toNat + (reserve target).toNat : ℕ) := by
  obtain ⟨hmin, hquarter⟩ := satPerKw_in_range hlo hhi
  have hreserve : reserve target ≤ satPerKw (f64.fl (n / 100000000)) := by
    refine UInt32.le_trans ?_ hmin
    cases target <;> decide
  have hmax : max (satPerKw (f64.fl (n / 100000000))) minFeerate =
      satPerKw (f64.fl (n / 100000000)) := by
    rw [← UInt32.toNat_inj, toNat_max]
    exact Nat.max_eq_left (UInt32.le_iff_toNat_le.mp hmin)
  rw [value_eq hgood h, hmax, UInt32.toNat_sub_of_le _ _ hreserve,
    Nat.sub_add_cancel (UInt32.le_iff_toNat_le.mp hreserve)]
  exact hquarter

theorem good_of_exec {a : Answers} {s t : FeeTable} (h : (pollRound a).exec s = some ((), t)) :
    a.Good := by
  by_contra hgood
  rw [pollRound_of_not_good hgood] at h
  cases h

/-! ## The table -/

/-- What holds of the table while the first rounds are polled and after them. -/
structure FeesCorrect (rounds : List Answers) : Prop where
  /-- Before and after each store. -/
  bounded : ∀ fees, Crash.Leaves (pollForFeeEstimates rounds) initialFees fees → Bounded fees
  noUnderflow : ∀ a ∈ rounds, 250 ≤ a.backgroundEstimate
  returns : (∀ a ∈ rounds, a.Good) →
    ∃ fees, (pollForFeeEstimates rounds).exec initialFees = some ((), fees)
  /-- An answer of `n` satoshis for a thousand virtual bytes. -/
  stored : ∀ earlier a fees, rounds = earlier ++ [a] →
    (pollForFeeEstimates rounds).exec initialFees = some ((), fees) →
    ∀ target n, a.rate target = some (f64.fl (n / 100000000)) → 253 ≤ n / 4 → n / 4 ≤ 2 ^ 32 - 1 →
    ∃ v, getEstSatPer1000Weight fees target = some v ∧
      QuarterOf n (v.toNat + (reserve target).toNat : ℕ)

/-- **The fee table keeps its bounds**: for any number of rounds and whatever the answers, every
cell is found and has its least value at any moment, no subtraction underflows, and an answer in
range is stored as its quarter. -/
theorem fee_table_correct (rounds : List Answers) : FeesCorrect rounds where
  bounded _ h := (poll_bounded rounds).leaves initialFees_bounded h
  noUnderflow a _ := reserve_le_backgroundEstimate a
  returns hgood := poll_returns hgood initialFees_bounded
  stored earlier a fees hrounds h target n hrate hlo hhi := by
    subst hrounds
    obtain ⟨u, hu⟩ := Crash.exec_forEach_concat_inv (f := pollRound) h
    exact ⟨_, pollRound_stores hu target, value_quarter (good_of_exec hu) hrate hlo hhi⟩

section Examples

/-- An answer of so many satoshis for a thousand virtual bytes. -/
def feeAnswer (satPerKvb : ℚ) : Option Json :=
  some (.object [("feerate", .number (.float (f64.fl (satPerKvb / 100000000))))])

/-- Answers whose quarters are half-way between two whole numbers. -/
def halfwayAnswers : Answers where
  mempoolInfo := some (.object [("maxmempool", .number (.posInt 300000000))])
  background := feeAnswer 1014
  normal := feeAnswer 1534
  highPrio := feeAnswer 2002
  veryHighPrio := feeAnswer 2002

end Examples

/-- The double of 1014 satoshis is a little too small for 254, and stored as that; 1534 satoshis are
stored as 383. -/
theorem halfway_off : ∃ fees,
    (pollForFeeEstimates [halfwayAnswers]).exec initialFees = some ((), fees) ∧
    (∃ q, halfwayAnswers.rate .anchorChannelFee = some q ∧
      getEstSatPer1000Weight fees .anchorChannelFee = some 254 ∧
      ⌊q * 100000000 / 4 + 1 / 2⌋ = 253) ∧
    halfwayAnswers.rate .nonAnchorChannelFee = some (f64.fl (1534 / 100000000)) ∧
    getEstSatPer1000Weight fees .nonAnchorChannelFee = some 383 ∧
    ⌊(1534 : ℚ) / 4 + 1 / 2⌋ = 384 := by
  have hgood : halfwayAnswers.Good := ⟨by decide, rfl, rfl, rfl, rfl⟩
  obtain ⟨fees, hfees, -⟩ := pollRound_returns hgood initialFees_bounded
  have hanchor : halfwayAnswers.value .anchorChannelFee = 254 := by decide +kernel
  have hnonAnchor : halfwayAnswers.value .nonAnchorChannelFee = 383 := by decide +kernel
  refine ⟨fees, (Crash.exec_bind_some hfees).trans rfl, ⟨_, rfl, ?_, by decide +kernel⟩, rfl, ?_,
    by decide +kernel⟩
  · rw [pollRound_stores hfees, hanchor]
  · rw [pollRound_stores hfees, hnonAnchor]

end Bitcoind

end LdkSample
