import LdkSample.Bitcoind.FeeBounds

/-!
# The order of the fee targets

Answers that are in order give a table in order only where the fall-back of each missing answer
lies between its neighbours (`fees_ordered_iff`): the fall-backs are constants, and no estimate is
compared with another one. What the node asks of its own channels is stored as one value.
-/

namespace LdkSample

namespace Bitcoind

/-- A shorter target is never cheaper, and no target is below the minimum of the mempool. -/
def OrderedAnswers (a : Answers) : Prop :=
  [a.rate .minAllowedAnchorChannelRemoteFee, feerateBtc a.background, feerateBtc a.normal,
    feerateBtc a.highPrio, feerateBtc a.veryHighPrio].Pairwise fun x y => ∀ p ∈ x, ∀ q ∈ y, p ≤ q

/-- The node pays one rate on its own channels, and takes it from its peers as well. -/
structure OwnFees (value : ConfirmationTarget → UInt32) : Prop where
  close_eq : value .channelCloseMinimum = value .anchorChannelFee
  spending_eq : value .outputSpendingFee = value .anchorChannelFee
  minNonAnchor_le : value .minAllowedNonAnchorChannelRemoteFee ≤ value .anchorChannelFee

structure FeesOrdered (value : ConfirmationTarget → UInt32) : Prop extends OwnFees value where
  urgent_le : value .urgentOnChainSweep ≤ value .maximumFeeEstimate
  nonAnchor_le : value .nonAnchorChannelFee ≤ value .urgentOnChainSweep
  anchor_le : value .anchorChannelFee ≤ value .nonAnchorChannelFee
  minAnchor_le : value .minAllowedAnchorChannelRemoteFee ≤ value .anchorChannelFee

/-- What is taken for a missing answer lies between the answers next to it. -/
structure FallbacksFit (a : Answers) : Prop where
  background : feerate a.background = none → ∀ m ∈ a.mempoolMin, m ≤ minFeerate
  normal : feerate a.normal = none →
    (∀ b ∈ feerate a.background, b ≤ 2000) ∧ ∀ h ∈ feerate a.highPrio, 2000 ≤ h
  highPrio : feerate a.highPrio = none →
    (∀ n ∈ feerate a.normal, n ≤ 5000) ∧ ∀ v ∈ feerate a.veryHighPrio, 5000 ≤ v
  veryHighPrio : feerate a.veryHighPrio = none → ∀ h ∈ feerate a.highPrio, h ≤ 50000

/-! ## Two neighbours -/

theorem le_max_iff {a b c : UInt32} : a ≤ max b c ↔ a ≤ b ∨ a ≤ c := by
  simp only [UInt32.le_iff_toNat_le, toNat_max]
  omega

theorem max_le_iff {a b c : UInt32} : max a b ≤ c ↔ a ≤ c ∧ b ≤ c := by
  simp only [UInt32.le_iff_toNat_le, toNat_max]
  omega

/-- The order of two estimates, where the two answers are in order. -/
theorem estimate_le_estimate_iff {f g : UInt32} (hfg : f ≤ g) (hg : minFeerate ≤ g)
    {x y : Option UInt32} (hxy : ∀ p ∈ x, ∀ q ∈ y, p ≤ q) :
    estimate f x ≤ estimate g y ↔
      (x = none → ∀ q ∈ y, f ≤ q ∨ f ≤ minFeerate) ∧ (y = none → ∀ p ∈ x, p ≤ g) := by
  cases x with
  | none =>
    cases y with
    | none => simp [estimate, hfg]
    | some q => simp [estimate, le_max_iff]
  | some p =>
    cases y with
    | none => simp [estimate, max_le_iff, hg]
    | some q =>
      have hpq : max p minFeerate ≤ max q minFeerate :=
        max_le_iff.mpr ⟨le_max_iff.mpr (.inl (hxy p rfl q rfl)), le_max_iff.mpr (.inr (UInt32.le_refl _))⟩
      simp [estimate, hpq]

theorem satPerKw_pair {x y : Option ℚ} (h : ∀ p ∈ x, ∀ q ∈ y, p ≤ q) :
    ∀ p ∈ x.map satPerKw, ∀ q ∈ y.map satPerKw, p ≤ q := by
  intro p hp q hq
  obtain ⟨p', hp', rfl⟩ := Option.map_eq_some_iff.mp hp
  obtain ⟨q', hq', rfl⟩ := Option.map_eq_some_iff.mp hq
  exact satPerKw_mono (h p' hp' q' hq')

/-! ## The chain -/

theorem ownFees (a : Answers) : OwnFees a.value where
  close_eq := rfl
  spending_eq := rfl
  minNonAnchor_le := by
    show a.backgroundEstimate - 250 ≤ a.backgroundEstimate
    rw [UInt32.le_iff_toNat_le, UInt32.toNat_sub_of_le _ _ (reserve_le_backgroundEstimate a)]
    exact Nat.sub_le _ _

theorem feesOrdered_iff {a : Answers} (hgood : a.Good) (h : OrderedAnswers a) :
    FeesOrdered a.value ↔ FallbacksFit a := by
  unfold OrderedAnswers at h
  simp only [List.pairwise_cons, List.mem_cons, List.not_mem_nil, or_false, forall_eq_or_imp,
    forall_eq] at h
  obtain ⟨⟨hmb, -⟩, ⟨hbn, -⟩, ⟨hnh, -⟩, hhv, -⟩ := h
  have minAnchor : a.mempoolminEstimate ≤ a.backgroundEstimate ↔ _ :=
    estimate_le_estimate_iff (UInt32.le_refl _) (UInt32.le_refl _)
      (by rw [mempoolMin_eq_map hgood, feerate_eq_map]; exact satPerKw_pair hmb)
  have anchor : a.backgroundEstimate ≤ a.normalEstimate ↔ _ :=
    estimate_le_estimate_iff (by decide) (by decide)
      (by rw [feerate_eq_map, feerate_eq_map]; exact satPerKw_pair hbn)
  have nonAnchor : a.normalEstimate ≤ a.highPrioEstimate ↔ _ :=
    estimate_le_estimate_iff (by decide) (by decide)
      (by rw [feerate_eq_map, feerate_eq_map]; exact satPerKw_pair hnh)
  have urgent : a.highPrioEstimate ≤ a.veryHighPrioEstimate ↔ _ :=
    estimate_le_estimate_iff (by decide) (by decide)
      (by rw [feerate_eq_map, feerate_eq_map]; exact satPerKw_pair hhv)
  constructor
  · intro ⟨_, hu, hn, ha, hm⟩
    refine ⟨(minAnchor.mp hm).2, fun hnone => ⟨(anchor.mp ha).2 hnone, fun x hx => ?_⟩,
      fun hnone => ⟨(nonAnchor.mp hn).2 hnone, fun x hx => ?_⟩, (urgent.mp hu).2⟩
    · exact ((nonAnchor.mp hn).1 hnone x hx).resolve_right (by decide)
    · exact ((urgent.mp hu).1 hnone x hx).resolve_right (by decide)
  · intro ⟨hb, hn, hh, hv⟩
    refine ⟨ownFees a, urgent.mpr ⟨fun hnone x hx => .inl ((hh hnone).2 x hx), hv⟩,
      nonAnchor.mpr ⟨fun hnone x hx => .inl ((hn hnone).2 x hx), fun hnone => (hh hnone).1⟩,
      anchor.mpr ⟨fun _ _ _ => .inr (UInt32.le_refl _), fun hnone => (hn hnone).1⟩,
      minAnchor.mpr ⟨fun _ _ _ => .inr (UInt32.le_refl _), hb⟩⟩

/-- **The targets are in order exactly where the fall-backs fit**: after a round on answers that are
in order. The rate of the node's own channels is one value, and not below its minimum, in any
case. -/
theorem fees_ordered_iff {a : Answers} (h : OrderedAnswers a) {s fees : FeeTable}
    (hround : (pollRound a).exec s = some ((), fees)) :
    ∃ value, (∀ target, getEstSatPer1000Weight fees target = some (value target)) ∧
      OwnFees value ∧ (FeesOrdered value ↔ FallbacksFit a) :=
  ⟨a.value, pollRound_stores hround, ownFees a, feesOrdered_iff (good_of_exec hround) h⟩

section Examples

/-- Between 1500 and 2500 sat/kW, with 1250 for the mempool. -/
def steadyAnswers : Answers where
  mempoolInfo := some (.object [("maxmempool", .number (.posInt 300000000)),
    ("mempoolminfee", .number (.float (f64.fl (5000 / 100000000))))])
  background := feeAnswer 6000
  normal := feeAnswer 6000
  highPrio := feeAnswer 8000
  veryHighPrio := feeAnswer 10000

/-- The same, but for the long target bitcoind has no estimate. -/
def noBackground : Answers := { steadyAnswers with background := some (.object []) }

end Examples

theorem fees_ordered_iff_steady :
    ∃ fees, (pollRound steadyAnswers).exec initialFees = some ((), fees) ∧
      ∃ value, (∀ target, getEstSatPer1000Weight fees target = some (value target)) ∧
        OwnFees value ∧ (FeesOrdered value ↔ FallbacksFit steadyAnswers) := by
  have hgood : steadyAnswers.Good := ⟨by decide, rfl, rfl, rfl, rfl⟩
  have hordered : OrderedAnswers steadyAnswers := by
    unfold OrderedAnswers
    decide +kernel
  obtain ⟨fees, hfees, -⟩ := pollRound_returns hgood initialFees_bounded
  exact ⟨fees, hfees, fees_ordered_iff hordered hfees⟩

/-- The rate of the node's channels is below what it asks of its peers. -/
theorem fees_not_ordered : OrderedAnswers noBackground ∧
    ∃ fees, (pollRound noBackground).exec initialFees = some ((), fees) ∧
      getEstSatPer1000Weight fees .anchorChannelFee = some 253 ∧
      getEstSatPer1000Weight fees .minAllowedAnchorChannelRemoteFee = some 1250 ∧
      ¬ ∃ value, (∀ target, getEstSatPer1000Weight fees target = some (value target)) ∧
        FeesOrdered value := by
  have hgood : noBackground.Good := ⟨by decide, rfl, rfl, rfl, rfl⟩
  obtain ⟨fees, hfees, -⟩ := pollRound_returns hgood initialFees_bounded
  have hstores := pollRound_stores hfees
  have hmin : noBackground.value .minAllowedAnchorChannelRemoteFee = 1250 := by decide +kernel
  have hanchor : noBackground.value .anchorChannelFee = 253 := by decide +kernel
  refine ⟨by unfold OrderedAnswers; decide +kernel, fees, hfees, ?_, ?_, ?_⟩
  · rw [hstores, hanchor]
  · rw [hstores, hmin]
  · rintro ⟨value, hvalue, h⟩
    have hle := h.minAnchor_le
    have heq : ∀ target, value target = noBackground.value target := fun target =>
      Option.some_inj.mp ((hvalue target).symm.trans (hstores target))
    rw [heq, heq, hmin, hanchor] at hle
    exact absurd hle (by decide)

end Bitcoind

end LdkSample
