import Mathlib.Order.Bounds.Defs
import SwapStake.Proofs.Stake.Slot
/-!
# The last early time

A stake has not gained more than its target as long as `weight * slope * t` is less than one coin above
the target (`gained_le_iff`). So the time that the search ends at has a formula (`toNat_timeOffset`), and
it falls as a stake gains faster and grows with the target (`timeOffset_anti`): in proportion, up to the
millisecond that it is rounded by (`mul_timeOffset_lt`), and the time of some units of the target more moves
it by no more than these take one by one (`mul_timeOffset_lt_add`).
-/

namespace SwapStake

variable {weight weight' slope slope' target target' t : UInt64}

theorem gained_le_iff : gained t weight slope ≤ .ofUInt64 target ↔
    weight.toNat * slope.toNat * t.toNat < (target.toNat + 1) * coin.toNat := by
  have htarget := target.toNat_lt
  rw [UInt128.le_iff_toNat_le, toNat_gained, UInt128.toNat_ofUInt64, ← Nat.div_lt_iff_lt_mul (by decide)]
  -- the target has 64 bits, so a gain that is cut off at the largest word is above it all the same
  omega

/-- **The last early time as a formula.** A stake that gains nothing is early at all times. -/
theorem toNat_timeOffset (weight slope target : UInt64) : (timeOffset weight slope target).toNat =
    if 0 < weight.toNat * slope.toNat then
      min (2 ^ 32 - 1) (((target.toNat + 1) * coin.toNat - 1) / (weight.toNat * slope.toNat))
    else 2 ^ 32 - 1 := by
  obtain ⟨hbelow, hearly, -⟩ := timeOffset_spec weight slope target
  rw [gained_le_iff] at hearly
  rw [timeLimit] at hbelow
  -- a time within the limit is not after the last early one if it is early itself
  have hlast : ∀ n < 2 ^ 32, weight.toNat * slope.toNat * n < (target.toNat + 1) * coin.toNat →
      n ≤ (timeOffset weight slope target).toNat := by
    intro n hn hgained
    have hvalue : (UInt64.ofNat n).toNat = n :=
      UInt64.toNat_ofNat_of_lt' (Nat.lt_trans hn (by decide))
    rw [← hvalue] at hn hgained
    have hle := (le_timeOffset_iff hn).2 (gained_le_iff.2 hgained)
    rwa [UInt64.le_iff_toNat_le, hvalue] at hle
  have hcoin : 0 < (target.toNat + 1) * coin.toNat := Nat.mul_pos (Nat.succ_pos _) (by decide)
  split
  · rename_i hpos
    have hupper : (timeOffset weight slope target).toNat ≤
        ((target.toNat + 1) * coin.toNat - 1) / (weight.toNat * slope.toNat) := by
      rw [Nat.le_div_iff_mul_le hpos, Nat.mul_comm]
      omega
    refine Nat.le_antisymm (Nat.le_min.2 ⟨by omega, hupper⟩) (hlast _ (by omega) ?_)
    have hquotient := Nat.mul_div_le ((target.toNat + 1) * coin.toNat - 1) (weight.toNat * slope.toNat)
    have hless := Nat.mul_le_mul_left (weight.toNat * slope.toNat) (Nat.min_le_right (2 ^ 32 - 1)
      (((target.toNat + 1) * coin.toNat - 1) / (weight.toNat * slope.toNat)))
    omega
  · rename_i hnothing
    have hend := hlast (2 ^ 32 - 1) (by omega)
      (by rwa [Nat.eq_zero_of_not_pos hnothing, Nat.zero_mul])
    omega

theorem timeOffset_bounds (weight slope target : UInt64) :
    (timeOffset weight slope target).toNat < timeLimit ∧
      weight.toNat * slope.toNat * (timeOffset weight slope target).toNat < (target.toNat + 1) * coin.toNat ∧
      ((timeOffset weight slope target).toNat + 1 = timeLimit ∨
        (target.toNat + 1) * coin.toNat ≤ weight.toNat * slope.toNat * ((timeOffset weight slope target).toNat + 1)) := by
  obtain ⟨hbelow, hearly, hlate⟩ := timeOffset_spec weight slope target
  have hnext : (UInt64.ofNat ((timeOffset weight slope target).toNat + 1)).toNat =
      (timeOffset weight slope target).toNat + 1 :=
    UInt64.toNat_ofNat_of_lt' (Nat.lt_of_le_of_lt hbelow (by decide))
  rw [gained_le_iff, Nat.not_lt, hnext] at hlate
  exact ⟨hbelow, gained_le_iff.1 hearly, hlate⟩

theorem mul_wait_lt_add {m n e gain gain' goal goal' last last' unit : Nat} (hm : 0 < m)
    (early : gain' * last' < goal' * coin.toNat) (ripe : goal * coin.toNat ≤ gain * (last + 1)) (hgoal : 0 < goal)
    (units : e * coin.toNat ≤ e * (gain' * (unit + 1)))
    (le : m * (goal' * gain) ≤ n * (goal * gain') + m * e * gain) :
    m * last' < n * (last + 1) + m * (e * (unit + 1)) := by
  have hgain : 0 < gain :=
    Nat.pos_of_mul_pos_right (Nat.lt_of_lt_of_le (Nat.mul_pos hgoal (by decide : 0 < coin.toNat)) ripe)
  -- both sides, times what the two stakes gain in a millisecond, lie on two sides of the goals
  refine Nat.lt_of_mul_lt_mul_left (a := gain * gain') ?_
  calc gain * gain' * (m * last')
      = m * gain * (gain' * last') := by ac_rfl
    _ < m * gain * (goal' * coin.toNat) := Nat.mul_lt_mul_of_pos_left early (Nat.mul_pos hm hgain)
    _ = m * (goal' * gain) * coin.toNat := by ac_rfl
    _ ≤ (n * (goal * gain') + m * e * gain) * coin.toNat := Nat.mul_le_mul_right _ le
    _ = n * (goal * gain') * coin.toNat + m * e * gain * coin.toNat := Nat.add_mul _ _ _
    _ = n * gain' * (goal * coin.toNat) + m * gain * (e * coin.toNat) := by ac_rfl
    _ ≤ n * gain' * (gain * (last + 1)) + m * gain * (e * (gain' * (unit + 1))) :=
        Nat.add_le_add (Nat.mul_le_mul_left _ ripe) (Nat.mul_le_mul_left _ units)
    _ = gain * gain' * (n * (last + 1)) + gain * gain' * (m * (e * (unit + 1))) := by ac_rfl
    _ = gain * gain' * (n * (last + 1) + m * (e * (unit + 1))) := (Nat.mul_add _ _ _).symm

theorem mul_timeOffset_lt_add {m n e : Nat} (hn : 0 < n) (hmn : m ≤ n)
    (le : m * ((target'.toNat + 1) * (weight.toNat * slope.toNat)) ≤
      n * ((target.toNat + 1) * (weight'.toNat * slope'.toNat)) + m * e * (weight.toNat * slope.toNat)) :
    m * (timeOffset weight' slope' target').toNat <
      n * ((timeOffset weight slope target).toNat + 1) + m * (e * ((timeOffset weight' slope' 0).toNat + 1)) := by
  obtain ⟨hbelow', hearly', -⟩ := timeOffset_bounds weight' slope' target'
  obtain ⟨-, -, hlate⟩ := timeOffset_bounds weight slope target
  obtain ⟨-, -, hunit⟩ := timeOffset_bounds weight' slope' 0
  generalize (timeOffset weight' slope' target').toNat = last' at hbelow' hearly' ⊢
  generalize (timeOffset weight slope target).toNat = last at hlate ⊢
  generalize (timeOffset weight' slope' 0).toNat = unit at hunit ⊢
  have hnext : 0 < n * (last + 1) := Nat.mul_pos hn (Nat.succ_pos _)
  rcases Nat.eq_zero_or_pos m with rfl | hm
  · omega
  -- a wait up to the limit is no shorter than any other, so only the two that end matter
  rcases hlate with hlimit | hripe
  · calc m * last' ≤ n * last' := Nat.mul_le_mul_right _ hmn
      _ < n * (last + 1) := Nat.mul_lt_mul_of_pos_left (by omega) hn
      _ ≤ n * (last + 1) + m * (e * (unit + 1)) := Nat.le_add_right _ _
  rcases Nat.eq_zero_or_pos e with rfl | he
  · exact mul_wait_lt_add hm hearly' hripe (Nat.succ_pos _) (by omega) le
  rcases hunit with hlimit | hgained
  · have hlong : last' ≤ e * (unit + 1) := Nat.le_trans (by omega) (Nat.le_mul_of_pos_left _ he)
    exact Nat.lt_of_le_of_lt (Nat.mul_le_mul_left m hlong) (Nat.lt_add_of_pos_left hnext)
  · rw [UInt64.toNat_zero, Nat.zero_add, Nat.one_mul] at hgained
    exact mul_wait_lt_add hm hearly' hripe (Nat.succ_pos _) (Nat.mul_le_mul_left e hgained) le

theorem mul_timeOffset_lt {m n : Nat} (hn : 0 < n) (hmn : m ≤ n)
    (faster : m * (weight.toNat * slope.toNat) ≤ n * (weight'.toNat * slope'.toNat)) (le : target' ≤ target) :
    m * (timeOffset weight' slope' target').toNat < n * ((timeOffset weight slope target).toNat + 1) := by
  rw [UInt64.le_iff_toNat_le] at le
  have hless : m * ((target'.toNat + 1) * (weight.toNat * slope.toNat)) ≤
      n * ((target.toNat + 1) * (weight'.toNat * slope'.toNat)) :=
    calc m * ((target'.toNat + 1) * (weight.toNat * slope.toNat))
        = (target'.toNat + 1) * (m * (weight.toNat * slope.toNat)) := by ac_rfl
      _ ≤ (target.toNat + 1) * (n * (weight'.toNat * slope'.toNat)) :=
          Nat.mul_le_mul (Nat.succ_le_succ le) faster
      _ = n * ((target.toNat + 1) * (weight'.toNat * slope'.toNat)) := by ac_rfl
  have hwait := mul_timeOffset_lt_add (e := 0) hn hmn (by simpa using hless)
  simpa using hwait

/-- **A stake that gains faster, or has a smaller target, is early for no longer.** -/
theorem timeOffset_anti (faster : weight.toNat * slope.toNat ≤ weight'.toNat * slope'.toNat)
    (le : target' ≤ target) : timeOffset weight' slope' target' ≤ timeOffset weight slope target := by
  rw [UInt64.le_iff_toNat_le]
  have hless : 1 * (timeOffset weight' slope' target').toNat < 1 * ((timeOffset weight slope target).toNat + 1) :=
    mul_timeOffset_lt Nat.one_pos (Nat.le_refl 1) (Nat.mul_le_mul_left 1 faster) le
  omega

/-- **The search finds the exact threshold.** What a stake has gained is the product in whole units, up to
the largest word. Of the times below the limit at which this is not more than the target, the search
answers the greatest; as a number it is the quotient of what is left below one unit more than the target
by what a millisecond brings, or the limit itself, less one. -/
theorem timeOffset_threshold (weight slope target : UInt64) :
    (∀ t, (gained t weight slope).toNat =
      min (weight.toNat * slope.toNat * t.toNat / coin.toNat) (2 ^ 128 - 1)) ∧
    IsGreatest {t : UInt64 | t.toNat < timeLimit ∧ gained t weight slope ≤ .ofUInt64 target}
      (timeOffset weight slope target) ∧
    (timeOffset weight slope target).toNat =
      if 0 < weight.toNat * slope.toNat then
        min (2 ^ 32 - 1) (((target.toNat + 1) * coin.toNat - 1) / (weight.toNat * slope.toNat))
      else 2 ^ 32 - 1 := by
  obtain ⟨hbelow, hearly, -⟩ := timeOffset_spec weight slope target
  exact ⟨fun t => toNat_gained t weight slope,
    ⟨⟨hbelow, hearly⟩, fun t ht => (le_timeOffset_iff ht.1).2 ht.2⟩, toNat_timeOffset weight slope target⟩

end SwapStake
