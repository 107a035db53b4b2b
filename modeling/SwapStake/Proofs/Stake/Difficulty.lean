import SwapStake.Proofs.Stake.Threshold
/-!
# Difficulty, target and the slot

The slope at which a stake gains on its target is the largest word divided by the longest wait of one coin,
and at least one (`toNat_baseTarget`). The wait saturates instead of wrapping, and a difficulty of zero
counts as one, so there is always something to divide by. The slope falls as the difficulty grows
(`baseTarget_anti`), and so neither a harder network nor a larger target brings a block forward
(`slot_monotone`).
-/

namespace SwapStake

variable {d d' : UInt64}

/-! ## The slope -/

/-- The longest wait of one coin in milliseconds, or the largest word if there is none for it. -/
def longestWait (difficulty : UInt64) : UInt64 :=
  Word64.mulSaturating (max difficulty 1) blockTime

theorem baseTarget_eq (d : UInt64) : baseTarget d = max (Word64.max / longestWait d) 1 := rfl

theorem toNat_longestWait (d : UInt64) :
    (longestWait d).toNat = min (max d.toNat 1 * 120000) (2 ^ 64 - 1) := by
  rw [longestWait, Word64.toNat_mulSaturating, toNat_max_word]
  rfl

theorem longestWait_pos (d : UInt64) : 0 < (longestWait d).toNat := by
  rw [toNat_longestWait]
  omega

theorem longestWait_mono (le : d ≤ d') : (longestWait d).toNat ≤ (longestWait d').toNat := by
  rw [UInt64.le_iff_toNat_le] at le
  rw [toNat_longestWait, toNat_longestWait]
  omega

theorem toNat_baseTarget (d : UInt64) :
    (baseTarget d).toNat = max ((2 ^ 64 - 1) / (longestWait d).toNat) 1 := by
  rw [baseTarget_eq, toNat_max_word, UInt64.toNat_div, Word64.toNat_max, UInt64.toNat_one]

theorem baseTarget_pos (d : UInt64) : 0 < (baseTarget d).toNat := by
  rw [toNat_baseTarget]
  omega

theorem baseTarget_anti (le : d ≤ d') : (baseTarget d').toNat ≤ (baseTarget d).toNat := by
  have hquotient : (2 ^ 64 - 1) / (longestWait d').toNat ≤ (2 ^ 64 - 1) / (longestWait d).toNat :=
    Nat.div_le_div_left (longestWait_mono le) (longestWait_pos d)
  rw [toNat_baseTarget, toNat_baseTarget]
  omega

/-! ## The slot -/

namespace StakeCandidate

variable (c : StakeCandidate) (info : MiningInfo) (knee : UInt64)

theorem lastEarly_mono_difficulty (le : d ≤ d') :
    c.lastEarly { info with difficulty := d } knee ≤ c.lastEarly { info with difficulty := d' } knee :=
  timeOffset_anti (Nat.mul_le_mul_left _ (baseTarget_anti le)) (UInt64.le_refl _)

theorem lastEarly_mono_target {hash hash' : Hash256} (le : hash.target ≤ hash'.target) :
    lastEarly { c with posHash := hash } info knee ≤ lastEarly { c with posHash := hash' } info knee :=
  timeOffset_anti (Nat.le_refl _) le

theorem nextBlockTime_bounds (fits : info.timestamp.toNat + max (c.lastEarly info knee).toNat 1 < 2 ^ 64) :
    1 ≤ (c.details info knee).nextBlockTime.toNat - info.timestamp.toNat ∧
      (c.details info knee).nextBlockTime.toNat - info.timestamp.toNat ≤ 2 ^ 32 - 1 := by
  have hlast : (c.lastEarly info knee).toNat < 2 ^ 32 := (timeOffset_spec _ _ _).1
  rw [nextBlockTime_eq_min]
  omega

/-- **A harder network or a larger target never brings a block forward.** With all else equal the slot is no
earlier at a higher difficulty, and no earlier for a hash with a larger target. Unless the time of the block
saturates, it is between one millisecond and `2 ^ 32 - 1` milliseconds after the top block. No difficulty
makes the slope divide by zero, or be zero. -/
theorem slot_monotone :
    (∀ d d' : UInt64, d ≤ d' → (c.details { info with difficulty := d } knee).nextBlockTime ≤
      (c.details { info with difficulty := d' } knee).nextBlockTime) ∧
    (∀ hash hash' : Hash256, hash.target ≤ hash'.target →
      (details { c with posHash := hash } info knee).nextBlockTime ≤
        (details { c with posHash := hash' } info knee).nextBlockTime) ∧
    (info.timestamp.toNat + max (c.lastEarly info knee).toNat 1 < 2 ^ 64 →
      1 ≤ (c.details info knee).nextBlockTime.toNat - info.timestamp.toNat ∧
        (c.details info knee).nextBlockTime.toNat - info.timestamp.toNat ≤ 2 ^ 32 - 1) ∧
    ∀ d : UInt64, baseTarget d = max (Word64.max / longestWait d) 1 ∧ longestWait d ≠ 0 ∧ baseTarget d ≠ 0 := by
  refine ⟨fun d d' le => nextBlockTime_mono rfl (lastEarly_mono_difficulty c info knee le),
    fun hash hash' le => nextBlockTime_mono rfl (lastEarly_mono_target c info knee le),
    nextBlockTime_bounds c info knee, fun d => ⟨baseTarget_eq d, ?_, ?_⟩⟩
  · intro hzero
    exact Nat.ne_of_gt (longestWait_pos d) (by rw [hzero, UInt64.toNat_zero])
  · intro hzero
    exact Nat.ne_of_gt (baseTarget_pos d) (by rw [hzero, UInt64.toNat_zero])

theorem slot_monotone_trial :
    (trialCoin.details { trialInfo with difficulty := 0 } Word64.max).nextBlockTime ≤
        (trialCoin.details { trialInfo with difficulty := 1 } Word64.max).nextBlockTime ∧
      (trialCoin.details { trialInfo with difficulty := Word64.max - 1 } Word64.max).nextBlockTime ≤
        (trialCoin.details { trialInfo with difficulty := Word64.max } Word64.max).nextBlockTime ∧
      (details { trialCoin with posHash := .ofBytes [0xe7, 0x03] } trialInfo Word64.max).nextBlockTime ≤
        (details { trialCoin with posHash := .ofBytes [0xe8, 0x03] } trialInfo Word64.max).nextBlockTime ∧
      1 ≤ (trialCoin.details trialInfo Word64.max).nextBlockTime.toNat - trialInfo.timestamp.toNat := by
  obtain ⟨hdifficulty, htarget, hbounds, -⟩ := slot_monotone trialCoin trialInfo Word64.max
  have hlast : (trialCoin.lastEarly trialInfo Word64.max).toNat < 2 ^ 32 := (timeOffset_spec _ _ _).1
  have htime : trialInfo.timestamp.toNat = 0 := rfl
  exact ⟨hdifficulty 0 1 (by decide), hdifficulty (Word64.max - 1) Word64.max (by decide),
    htarget (.ofBytes [0xe7, 0x03]) (.ofBytes [0xe8, 0x03]) (by decide +kernel), (hbounds (by omega)).1⟩

end StakeCandidate

end SwapStake
