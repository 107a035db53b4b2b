import SwapStake.Proofs.UInt128.MulDiv
import SwapStake.Stake.Slot
/-!
# The slot of a candidate

What a stake has gained grows with the time (`gained_le_gained`), so the times at which it has not gained
more than its target are those up to one last time, and the search finds it (`le_timeOffset_iff`). A
candidate is ripe from the millisecond after that time on. Its block is planned for the last time itself:
a millisecond before the candidate is ripe, unless it is ripe at once.
-/

namespace SwapStake

variable {weight slope target t u : UInt64}

/-! ## What a stake gains -/

theorem toNat_coin : coin.toNat = 1000000000000 := rfl

theorem toNat_gained (t weight slope : UInt64) : (gained t weight slope).toNat =
    min (weight.toNat * slope.toNat * t.toNat / coin.toNat) (2 ^ 128 - 1) := by
  have hnarrow : (UInt128.ofProduct weight slope).toNat * t.toNat < 2 ^ 192 := by
    have hproduct := (UInt128.ofProduct weight slope).toNat_lt
    have htime := t.toNat_lt
    calc (UInt128.ofProduct weight slope).toNat * t.toNat
        ≤ (2 ^ 128 - 1) * (2 ^ 64 - 1) := Nat.mul_le_mul (by omega) (by omega)
      _ < 2 ^ 192 := by decide
  rw [gained, UInt128.mulDiv_eq, UInt128.toNat_ofUInt64, UInt128.toNat_ofUInt64, if_neg (by decide)]
  rw [UInt128.toNat_ofProduct] at hnarrow ⊢
  by_cases hfits : weight.toNat * slope.toNat * t.toNat / coin.toNat < 2 ^ 128
  · rw [if_neg (by omega), if_neg (by simp)]
    dsimp only
    rw [UInt128.toNat_ofNat, Nat.mod_eq_of_lt hfits]
    omega
  · rw [if_pos (.inr (Nat.not_lt.1 hfits))]
    show 2 ^ 128 - 1 = _
    omega

theorem gained_le_gained (le : t ≤ u) (weight slope : UInt64) :
    (gained t weight slope).toNat ≤ (gained u weight slope).toNat := by
  rw [toNat_gained, toNat_gained]
  have hnumerator := Nat.mul_le_mul_left (weight.toNat * slope.toNat) (UInt64.le_iff_toNat_le.1 le)
  have hquotient := Nat.div_le_div_right (c := coin.toNat) hnumerator
  omega

theorem gained_zero (weight slope : UInt64) : (gained 0 weight slope).toNat = 0 := by
  simp [toNat_gained]

/-! ## The search -/

/-- A search between a time that is too early and one that is not, or that is out of reach, ends at a time
that is too early, with the next one not, or out of reach. -/
theorem searchTime_spec {lo hi : Nat} (lt : lo < hi)
    (early : gained (UInt64.ofNat lo) weight slope ≤ .ofUInt64 target)
    (late : hi = timeLimit ∨ ¬ gained (UInt64.ofNat hi) weight slope ≤ .ofUInt64 target) :
    let last := searchTime weight slope target lo hi
    last < hi ∧ gained (UInt64.ofNat last) weight slope ≤ .ofUInt64 target ∧
      (last + 1 = timeLimit ∨ ¬ gained (UInt64.ofNat (last + 1)) weight slope ≤ .ofUInt64 target) := by
  fun_induction searchTime weight slope target lo hi with
  | case1 lo hi narrow =>
    obtain rfl : hi = lo + 1 := by omega
    exact ⟨lt, early, late⟩
  | case2 lo hi wide mid tooEarly ih => exact ih (by omega) tooEarly late
  | case3 lo hi wide mid ripe ih =>
    obtain ⟨hlast, hrest⟩ := ih (by omega) early (.inr ripe)
    exact ⟨by omega, hrest⟩

theorem timeOffset_spec (weight slope target : UInt64) :
    (timeOffset weight slope target).toNat < timeLimit ∧
      gained (timeOffset weight slope target) weight slope ≤ .ofUInt64 target ∧
      ((timeOffset weight slope target).toNat + 1 = timeLimit ∨
        ¬ gained (UInt64.ofNat ((timeOffset weight slope target).toNat + 1)) weight slope ≤ .ofUInt64 target) := by
  have hearly : gained (UInt64.ofNat 0) weight slope ≤ .ofUInt64 target := by
    rw [UInt128.le_iff_toNat_le]
    exact (gained_zero weight slope).le.trans (Nat.zero_le _)
  obtain ⟨hlast, hrest⟩ := searchTime_spec (by decide) hearly (.inl rfl)
  have hvalue : (timeOffset weight slope target).toNat = searchTime weight slope target 0 timeLimit := by
    rw [timeOffset, UInt64.toNat_ofNat', Nat.mod_eq_of_lt (Nat.lt_trans hlast (by decide))]
  rw [hvalue]
  exact ⟨hlast, hrest⟩

/-- **The search finds the last time at which a stake has not gained more than its target.** -/
theorem le_timeOffset_iff (below : t.toNat < timeLimit) :
    t ≤ timeOffset weight slope target ↔ gained t weight slope ≤ .ofUInt64 target := by
  obtain ⟨hlast, hearly, hlate⟩ := timeOffset_spec weight slope target
  rw [UInt128.le_iff_toNat_le] at *
  constructor
  · intro hle
    exact Nat.le_trans (gained_le_gained hle weight slope) hearly
  · intro hgained
    by_contra hlater
    rw [UInt64.le_iff_toNat_le] at hlater
    have hnext : UInt64.ofNat ((timeOffset weight slope target).toNat + 1) ≤ t := by
      rw [UInt64.le_iff_toNat_le, UInt64.toNat_ofNat']
      exact Nat.le_trans (Nat.mod_le _ _) (by omega)
    rcases hlate with hlimit | hripe
    · omega
    · exact hripe (Nat.le_trans (gained_le_gained hnext weight slope) hgained)

/-! ## The slot -/

theorem toNat_max_word (a b : UInt64) : (max a b).toNat = max a.toNat b.toNat := by
  show (if a ≤ b then b else a).toNat = _
  by_cases hle : a ≤ b
  · rw [if_pos hle, max_eq_right (UInt64.le_iff_toNat_le.1 hle)]
  · rw [if_neg hle, max_eq_left (Nat.le_of_not_le (UInt64.le_iff_toNat_le.not.1 hle))]

namespace StakeCandidate

variable {c : StakeCandidate} {info : MiningInfo} {knee : UInt64}

/-- A candidate has gained more than its target `t` milliseconds after the top block. -/
def Ripe (c : StakeCandidate) (info : MiningInfo) (knee t : UInt64) : Prop :=
  .ofUInt64 c.target < gained t (stakeWeight c.output.amount knee) (baseTarget info.difficulty)

/-- The first millisecond after the top block at which a candidate is ripe. -/
structure FirstRipe (c : StakeCandidate) (info : MiningInfo) (knee first : UInt64) : Prop where
  later : 1 ≤ first
  ripe : c.Ripe info knee first
  least : ∀ t, 1 ≤ t → c.Ripe info knee t → first ≤ t

/-- The last millisecond at which a candidate is not ripe. -/
def lastEarly (c : StakeCandidate) (info : MiningInfo) (knee : UInt64) : UInt64 :=
  timeOffset (stakeWeight c.output.amount knee) (baseTarget info.difficulty) c.target

theorem ripe_iff (below : t.toNat < timeLimit) :
    c.Ripe info knee t ↔ (c.lastEarly info knee).toNat < t.toNat := by
  rw [lastEarly, ← Nat.not_le, ← UInt64.le_iff_toNat_le, le_timeOffset_iff below, UInt128.le_iff_toNat_le,
    Nat.not_le, Ripe, UInt128.lt_iff_toNat_lt]

theorem exists_firstRipe (below : t.toNat < timeLimit) (ripe : c.Ripe info knee t) :
    ∃ first, c.FirstRipe info knee first ∧ first.toNat = (c.lastEarly info knee).toNat + 1 := by
  have hearly := (ripe_iff below).1 ripe
  have hvalue : (UInt64.ofNat ((c.lastEarly info knee).toNat + 1)).toNat = (c.lastEarly info knee).toNat + 1 := by
    rw [UInt64.toNat_ofNat', Nat.mod_eq_of_lt]
    have htime := t.toNat_lt
    omega
  refine ⟨_, ⟨?_, ?_, fun u _ hu => ?_⟩, hvalue⟩
  · rw [UInt64.le_iff_toNat_le, hvalue]
    exact Nat.le_add_left _ _
  · rw [ripe_iff (by omega), hvalue]
    exact Nat.lt_succ_self _
  · rw [UInt64.le_iff_toNat_le, hvalue]
    by_cases hbelow : u.toNat < timeLimit
    · exact (ripe_iff hbelow).1 hu
    · omega

theorem nextBlockTime_eq_min (c : StakeCandidate) (info : MiningInfo) (knee : UInt64) :
    (c.details info knee).nextBlockTime.toNat =
      min (info.timestamp.toNat + max (c.lastEarly info knee).toNat 1) (2 ^ 64 - 1) := by
  show (Word64.addSaturating info.timestamp (max (c.lastEarly info knee) 1)).toNat = _
  rw [Word64.toNat_addSaturating, toNat_max_word, UInt64.toNat_one]

theorem nextBlockTime_mono {c' : StakeCandidate} {info' : MiningInfo} {knee' : UInt64}
    (same : info.timestamp = info'.timestamp) (le : c.lastEarly info knee ≤ c'.lastEarly info' knee') :
    (c.details info knee).nextBlockTime ≤ (c'.details info' knee').nextBlockTime := by
  rw [UInt64.le_iff_toNat_le] at le
  rw [UInt64.le_iff_toNat_le, nextBlockTime_eq_min, nextBlockTime_eq_min, same]
  omega

theorem nextBlockTime_toNat (c : StakeCandidate) (knee : UInt64)
    (fits : info.timestamp.toNat + timeLimit < 2 ^ 64) :
    (c.details info knee).nextBlockTime.toNat =
      info.timestamp.toNat + max (c.lastEarly info knee).toNat 1 := by
  have hlast : (c.lastEarly info knee).toNat < timeLimit := (timeOffset_spec _ _ _).1
  have hlimit : max (c.lastEarly info knee).toNat 1 ≤ timeLimit := max_le hlast.le (by decide)
  rw [nextBlockTime_eq_min]
  omega

/-- **A block is planned a millisecond before its candidate is ripe**, unless the candidate is ripe at
once. Wherever a candidate is ripe below the limit there is a first millisecond at which it is, and the
block is planned for the one before, but not for that of the top block. -/
theorem slot_precedes_ripeness (c : StakeCandidate) (info : MiningInfo) (knee : UInt64) {t : UInt64}
    (below : t.toNat < timeLimit) (ripe : c.Ripe info knee t)
    (fits : info.timestamp.toNat + timeLimit < 2 ^ 64) :
    ∃ first, c.FirstRipe info knee first ∧
      (c.details info knee).nextBlockTime.toNat = info.timestamp.toNat + max (first.toNat - 1) 1 ∧
      ((c.details info knee).nextBlockTime.toNat = info.timestamp.toNat + first.toNat ↔ first = 1) := by
  obtain ⟨first, hfirst, hvalue⟩ := exists_firstRipe below ripe
  have hslot := nextBlockTime_toNat c knee fits
  refine ⟨first, hfirst, by rw [hslot, hvalue, Nat.add_sub_cancel], ?_⟩
  rw [hslot, ← UInt64.toNat_inj, hvalue, UInt64.toNat_one]
  omega

/-- One coin whose hash makes its target a thousand. -/
def trialCoin : StakeCandidate :=
  ⟨⟨default, coin, ⟨0⟩, 0, 0⟩, .ofBytes [0xe8, 0x03]⟩

/-- The difficulty at which a coin gains one in a millisecond. -/
def trialInfo : MiningInfo :=
  ⟨0, default, Word64.max, 0⟩

theorem trialCoin_ripe_iff (t : UInt64) : trialCoin.Ripe trialInfo Word64.max t ↔ 1000 < t.toNat := by
  have htarget : trialCoin.target = 1000 := by decide +kernel
  have hweight : stakeWeight trialCoin.output.amount Word64.max = coin := by decide +kernel
  have hslope : baseTarget trialInfo.difficulty = 1 := by decide +kernel
  rw [Ripe, htarget, hweight, hslope, UInt128.lt_iff_toNat_lt, toNat_gained, UInt128.toNat_ofUInt64, toNat_coin]
  simp

theorem slot_precedes_ripeness_trial :
    ∃ first, trialCoin.FirstRipe trialInfo Word64.max first ∧
      (trialCoin.details trialInfo Word64.max).nextBlockTime.toNat = max (first.toNat - 1) 1 := by
  have hripe : trialCoin.Ripe trialInfo Word64.max 1001 := (trialCoin_ripe_iff _).2 (by decide)
  obtain ⟨first, hfirst, hslot, -⟩ := slot_precedes_ripeness trialCoin trialInfo Word64.max (by decide) hripe
    (by decide)
  exact ⟨first, hfirst, hslot.trans (Nat.zero_add _)⟩

/-- A block is not always planned for the first millisecond at which its candidate is ripe. -/
theorem slot_misses_first_ripe :
    ¬ ∀ (c : StakeCandidate) (info : MiningInfo) (knee : UInt64),
      (∃ t, 1 ≤ t ∧ t.toNat < timeLimit ∧ c.Ripe info knee t) →
      info.timestamp.toNat + timeLimit < 2 ^ 64 →
      c.FirstRipe info knee ((c.details info knee).nextBlockTime - info.timestamp) := by
  intro hclaim
  have hripe : trialCoin.Ripe trialInfo Word64.max 1001 := (trialCoin_ripe_iff _).2 (by decide)
  have hfirst := hclaim trialCoin trialInfo Word64.max ⟨1001, by decide, by decide, hripe⟩ (by decide)
  have hslot := nextBlockTime_toNat trialCoin Word64.max (show trialInfo.timestamp.toNat + timeLimit < 2 ^ 64 by decide)
  have hearly : (trialCoin.lastEarly trialInfo Word64.max).toNat < 1001 := (ripe_iff (by decide)).1 hripe
  have hlate : 1000 < (trialCoin.details trialInfo Word64.max).nextBlockTime.toNat := by
    have hclaimed := (trialCoin_ripe_iff _).1 hfirst.ripe
    rwa [show trialInfo.timestamp = 0 from rfl, UInt64.sub_zero] at hclaimed
  rw [hslot, show trialInfo.timestamp.toNat = 0 from rfl] at hlate
  omega

end StakeCandidate

end SwapStake
