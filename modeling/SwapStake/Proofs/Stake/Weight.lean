import SwapStake.Proofs.Stake.Threshold
/-!
# The weight and the wait of a larger stake

A stake weighs its amount less the part `θ / 32768` of it, where `θ` is its angle. The angle is rounded to
units, so the weight does not grow with the amount throughout: where the angle grows by a unit, the weight
falls by that part of the whole amount (`larger_stake_may_wait_longer`). It does grow as long as the angle
does not, and whenever the amount has grown by a third (`stakeWeight_mono`), since no angle takes more than
a quarter. So a larger stake never waits more than a third longer (`larger_stake_timing`).
-/

namespace SwapStake

variable {a b knee : UInt64}

/-! ## The weight -/

theorem stakeAngle_le (amount knee : UInt64) : stakeAngle amount knee ≤ 8192 := by
  have hquarter : Angle.halfTurn / 2 = 8192 := rfl
  rw [stakeAngle, hquarter]
  omega

theorem amount_mul_stakeAngle_le (amount knee : UInt64) :
    amount.toNat * stakeAngle amount knee ≤ amount.toNat * 8192 :=
  Nat.mul_le_mul_left _ (stakeAngle_le amount knee)

theorem toNat_stakeWeight (amount knee : UInt64) : (stakeWeight amount knee).toNat =
    amount.toNat - amount.toNat * stakeAngle amount knee / 32768 := by
  have hcut := amount_mul_stakeAngle_le amount knee
  have hamount := amount.toNat_lt
  unfold stakeWeight
  split
  · rename_i hzero
    rw [hzero, UInt64.toNat_zero, Nat.zero_sub]
  · have hvalue : (UInt64.ofNat (amount.toNat * stakeAngle amount knee / 32768)).toNat =
        amount.toNat * stakeAngle amount knee / 32768 :=
      UInt64.toNat_ofNat_of_lt' (Nat.lt_of_le_of_lt (by omega) hamount)
    rw [UInt64.toNat_sub_of_le _ _ (by rw [UInt64.le_iff_toNat_le, hvalue]; omega), hvalue]

theorem three_mul_le_four_mul_stakeWeight (amount knee : UInt64) :
    3 * amount.toNat ≤ 4 * (stakeWeight amount knee).toNat := by
  have hcut := amount_mul_stakeAngle_le amount knee
  rw [toNat_stakeWeight]
  omega

theorem stakeWeight_le (amount knee : UInt64) : (stakeWeight amount knee).toNat ≤ amount.toNat := by
  rw [toNat_stakeWeight]
  exact Nat.sub_le _ _

theorem stakeWeight_le_stakeWeight
    (less : a.toNat * (32768 - stakeAngle a knee) ≤ b.toNat * (32768 - stakeAngle b knee)) :
    stakeWeight a knee ≤ stakeWeight b knee := by
  have hcut := amount_mul_stakeAngle_le a knee
  have hcut' := amount_mul_stakeAngle_le b knee
  rw [Nat.mul_sub, Nat.mul_sub] at less
  rw [UInt64.le_iff_toNat_le, toNat_stakeWeight, toNat_stakeWeight]
  omega

/-- **A larger amount weighs more if its angle is not larger, or if it is larger by a third.** -/
theorem stakeWeight_mono (le : a ≤ b)
    (apart : stakeAngle b knee ≤ stakeAngle a knee ∨ 4 * a.toNat ≤ 3 * b.toNat) :
    stakeWeight a knee ≤ stakeWeight b knee := by
  refine stakeWeight_le_stakeWeight ?_
  rcases apart with hangle | hthird
  · exact Nat.mul_le_mul (UInt64.le_iff_toNat_le.1 le) (Nat.sub_le_sub_left hangle _)
  · have hangle := stakeAngle_le b knee
    calc a.toNat * (32768 - stakeAngle a knee)
        ≤ a.toNat * 32768 := Nat.mul_le_mul_left _ (Nat.sub_le _ _)
      _ ≤ b.toNat * 24576 := by omega
      _ ≤ b.toNat * (32768 - stakeAngle b knee) := Nat.mul_le_mul_left _ (by omega)

/-! ## The wait -/

namespace StakeCandidate

/-- The candidate with another amount. -/
def withAmount (c : StakeCandidate) (amount : UInt64) : StakeCandidate :=
  { c with output := { c.output with amount := amount } }

variable (c : StakeCandidate) (info : MiningInfo)

theorem lastEarly_withAmount (amount knee : UInt64) : (c.withAmount amount).lastEarly info knee =
    timeOffset (stakeWeight amount knee) (baseTarget info.difficulty) c.target :=
  rfl

theorem nextBlockTime_anti (le : stakeWeight a knee ≤ stakeWeight b knee) :
    ((c.withAmount b).details info knee).nextBlockTime ≤ ((c.withAmount a).details info knee).nextBlockTime := by
  have hearlier : (c.withAmount b).lastEarly info knee ≤ (c.withAmount a).lastEarly info knee :=
    timeOffset_anti (Nat.mul_le_mul_right _ (UInt64.le_iff_toNat_le.1 le)) (UInt64.le_refl _)
  exact nextBlockTime_mono rfl hearlier

theorem lastEarly_le_of_le (knee : UInt64) (le : a ≤ b) :
    3 * ((c.withAmount b).lastEarly info knee).toNat < 4 * (((c.withAmount a).lastEarly info knee).toNat + 1) := by
  have hweight : 3 * (stakeWeight a knee).toNat ≤ 4 * (stakeWeight b knee).toNat :=
    calc 3 * (stakeWeight a knee).toNat
        ≤ 3 * b.toNat :=
          Nat.mul_le_mul_left _ ((stakeWeight_le a knee).trans (UInt64.le_iff_toNat_le.1 le))
      _ ≤ 4 * (stakeWeight b knee).toNat := three_mul_le_four_mul_stakeWeight b knee
  refine mul_timeOffset_lt (by decide) (by decide) ?_ (UInt64.le_refl _)
  rw [← Nat.mul_assoc, ← Nat.mul_assoc]
  exact Nat.mul_le_mul_right _ hweight

/-- **How much later a larger stake can be.** Of two stakes that differ in the amount only, the larger one's
block is planned for no later time whenever the part that its angle leaves is no smaller; so it is if its
angle is no larger, or if its amount is larger by a third. In all cases its wait is at most four thirds of
the other's, rounded up to a millisecond. -/
theorem larger_stake_timing (knee : UInt64) (le : a ≤ b) :
    (a.toNat * (32768 - stakeAngle a knee) ≤ b.toNat * (32768 - stakeAngle b knee) ∨
        stakeAngle b knee ≤ stakeAngle a knee ∨ 4 * a.toNat ≤ 3 * b.toNat →
      ((c.withAmount b).details info knee).nextBlockTime ≤ ((c.withAmount a).details info knee).nextBlockTime) ∧
    3 * (((c.withAmount b).details info knee).nextBlockTime.toNat - info.timestamp.toNat) ≤
      4 * (((c.withAmount a).details info knee).nextBlockTime.toNat - info.timestamp.toNat) + 3 := by
  have hwait := lastEarly_le_of_le c info knee le
  refine ⟨?_, by rw [nextBlockTime_eq_min, nextBlockTime_eq_min]; omega⟩
  rintro (hless | hapart)
  · exact nextBlockTime_anti c info (stakeWeight_le_stakeWeight hless)
  · exact nextBlockTime_anti c info (stakeWeight_mono le hapart)

/-- An output whose hash makes the target 269060000000. -/
def trialStake : StakeCandidate :=
  ⟨⟨default, coin, ⟨0⟩, 77, 0⟩, .ofBytes [0x00, 0xc9, 0x39, 0xa5, 0x3e]⟩

def trialStakeInfo : MiningInfo :=
  ⟨100, default, 1000000, 1000000⟩

theorem larger_stake_timing_trial :
    ((trialStake.withAmount (100 * coin)).details trialStakeInfo 1000000000000000).nextBlockTime ≤
        ((trialStake.withAmount coin).details trialStakeInfo 1000000000000000).nextBlockTime ∧
      3 * (((trialStake.withAmount 1000192000000000).details trialStakeInfo 1000000000000000).nextBlockTime.toNat -
          trialStakeInfo.timestamp.toNat) ≤
        4 * (((trialStake.withAmount 1000191000000000).details trialStakeInfo 1000000000000000).nextBlockTime.toNat -
          trialStakeInfo.timestamp.toNat) + 3 := by
  have hhundredfold := larger_stake_timing trialStake trialStakeInfo 1000000000000000
    (show coin ≤ 100 * coin by decide)
  have hneighbours := larger_stake_timing trialStake trialStakeInfo 1000000000000000
    (show (1000191000000000 : UInt64) ≤ 1000192000000000 by decide)
  exact ⟨hhundredfold.1 (.inr (.inr (by decide))), hneighbours.2⟩

/-- A larger stake may have to wait for longer: with a thousandth of a coin more the angle is a unit more,
and the last early millisecond is the second instead of the first. -/
theorem larger_stake_may_wait_longer :
    ¬ ∀ (c : StakeCandidate) (info : MiningInfo) (knee a b : UInt64), a ≤ b →
      ((c.withAmount b).details info knee).nextBlockTime ≤ ((c.withAmount a).details info knee).nextBlockTime := by
  intro hclaim
  have hle := hclaim trialStake trialStakeInfo 1000000000000000 1000191000000000 1000192000000000 (by decide)
  have htarget : trialStake.target = 269060000000 := by decide +kernel
  have hslope : baseTarget trialStakeInfo.difficulty = 153722867 := by decide +kernel
  have hweight : stakeWeight 1000191000000000 1000000000000000 = 875167125000000 := by decide +kernel
  have hweight' : stakeWeight 1000192000000000 1000000000000000 = 875137476562500 := by decide +kernel
  rw [UInt64.le_iff_toNat_le, nextBlockTime_eq_min, nextBlockTime_eq_min, lastEarly_withAmount,
    lastEarly_withAmount, htarget, hslope, hweight, hweight', toNat_timeOffset, toNat_timeOffset] at hle
  revert hle
  decide

end StakeCandidate

end SwapStake
