import SwapStake.Proofs.Angle.Bounds
import SwapStake.Proofs.Stake.Weight
/-!
# The bounds of a weight

The point whose angle cuts a stake lies in the first quadrant, so its angle is at most a quarter turn without
any clamping (`stakeAngle_eq_ofPoint`). What it cuts off is at most a quarter of the amount, and so the weight
is a difference of words that does not wrap (`stakeWeight_add_cut`) and keeps three quarters of the amount
(`three_quarters_le_stakeWeight`). The main statement has these bounds together with those of the angle that
they rest on (`angle_in_quadrant_weight_in_bounds`).
-/

namespace SwapStake

open Angle (FitsSigned InWords ofPoint_of_signs ofPoint_inWords)

/-! ## The angle of a stake -/

theorem stakePoint_inWords (amount knee : UInt64) : InWords amount.toNat (max knee.toNat 1) := by
  have hamount := amount.toNat_lt
  have hknee := knee.toNat_lt
  exact ofPoint_inWords (.of_natAbs_lt (by omega)) (.of_natAbs_lt (by omega))

theorem stakeAngle_eq_ofPoint (amount knee : UInt64) :
    (stakeAngle amount knee : Int) = Angle.ofPoint amount.toNat (max knee.toNat 1) := by
  obtain ⟨hfirst, -⟩ := ofPoint_of_signs amount.toNat (max knee.toNat 1)
  obtain ⟨hnonneg, hquarter⟩ := hfirst (by omega) (by omega)
  simp only [stakeAngle, Angle.halfTurn]
  omega

/-! ## The weight -/

theorem amount_mul_stakeAngle_lt (amount knee : UInt64) : amount.toNat * stakeAngle amount knee < 2 ^ 128 := by
  have hamount := amount.toNat_lt
  have hcut := amount_mul_stakeAngle_le amount knee
  omega

theorem stakeWeight_add_cut (amount knee : UInt64) :
    (stakeWeight amount knee).toNat + amount.toNat * stakeAngle amount knee / 32768 = amount.toNat := by
  have hcut := amount_mul_stakeAngle_le amount knee
  rw [toNat_stakeWeight]
  omega

theorem three_quarters_le_stakeWeight (amount knee : UInt64) :
    (3 * amount.toNat + 3) / 4 ≤ (stakeWeight amount knee).toNat := by
  have hleft := three_mul_le_four_mul_stakeWeight amount knee
  omega

theorem stakeWeight_pos {amount : UInt64} (positive : 0 < amount) (knee : UInt64) : 0 < stakeWeight amount knee := by
  have hleft := three_quarters_le_stakeWeight amount knee
  rw [UInt64.lt_iff_toNat_lt, UInt64.toNat_zero] at positive ⊢
  omega

/-- **An angle is found within words and lies in the quadrant of its point, so a weight is safe.** For all
coordinates that are signed words of 128 bits, no shift has too large a count, no number on the way to the angle
leaves its word, and the angle is one of the quadrant of the point, in units of which 8192 make a quarter turn.
So it is for the point of a stake, whatever the amount and the knee: its angle needs no clamping, its product
with the amount fits 128 bits, and the weight is the amount less a part of it, without wrapping. The weight is
at least three quarters of the amount, rounded up, and at most the amount, and it is positive if the amount is. -/
theorem angle_in_quadrant_weight_in_bounds {y x : Int} (hy : FitsSigned 128 y) (hx : FitsSigned 128 x)
    (amount knee : UInt64) :
    InWords y x ∧
    (0 ≤ y → 0 < x → 0 ≤ Angle.ofPoint y x ∧ Angle.ofPoint y x ≤ 8192) ∧
    (0 ≤ y → x < 0 → 8192 ≤ Angle.ofPoint y x ∧ Angle.ofPoint y x ≤ 16384) ∧
    (y < 0 → 0 < x → -8192 ≤ Angle.ofPoint y x ∧ Angle.ofPoint y x ≤ 0) ∧
    (y < 0 → x < 0 → -16384 ≤ Angle.ofPoint y x ∧ Angle.ofPoint y x ≤ -8192) ∧
    InWords amount.toNat (max knee.toNat 1) ∧
    (stakeAngle amount knee : Int) = Angle.ofPoint amount.toNat (max knee.toNat 1) ∧
    amount.toNat * stakeAngle amount knee < 2 ^ 128 ∧
    (stakeWeight amount knee).toNat + amount.toNat * stakeAngle amount knee / 32768 = amount.toNat ∧
    (3 * amount.toNat + 3) / 4 ≤ (stakeWeight amount knee).toNat ∧
    (stakeWeight amount knee).toNat ≤ amount.toNat ∧
    (0 < amount → 0 < stakeWeight amount knee) := by
  obtain ⟨hfirst, hsecond, hfourth, hthird⟩ := ofPoint_of_signs y x
  exact ⟨ofPoint_inWords hy hx, hfirst, hsecond, hfourth, hthird, stakePoint_inWords amount knee,
    stakeAngle_eq_ofPoint amount knee, amount_mul_stakeAngle_lt amount knee, stakeWeight_add_cut amount knee,
    three_quarters_le_stakeWeight amount knee, stakeWeight_le amount knee, (stakeWeight_pos · knee)⟩

theorem angle_in_quadrant_weight_in_bounds_extreme :
    FitsSigned 128 (-2 ^ 127) ∧ FitsSigned 128 (2 ^ 127 - 1) ∧
    InWords (-2 ^ 127) (-2 ^ 127) ∧
    (0 ≤ Angle.ofPoint (2 ^ 127 - 1) (2 ^ 127 - 1) ∧ Angle.ofPoint (2 ^ 127 - 1) (2 ^ 127 - 1) ≤ 8192) ∧
    (8192 ≤ Angle.ofPoint (2 ^ 127 - 1) (-2 ^ 127) ∧ Angle.ofPoint (2 ^ 127 - 1) (-2 ^ 127) ≤ 16384) ∧
    (-8192 ≤ Angle.ofPoint (-2 ^ 127) (2 ^ 127 - 1) ∧ Angle.ofPoint (-2 ^ 127) (2 ^ 127 - 1) ≤ 0) ∧
    (-16384 ≤ Angle.ofPoint (-2 ^ 127) (-2 ^ 127) ∧ Angle.ofPoint (-2 ^ 127) (-2 ^ 127) ≤ -8192) ∧
    0 < stakeWeight 18446744073709551615 0 := by
  have hlow : FitsSigned 128 (-2 ^ 127) := by norm_num [FitsSigned]
  have hhigh : FitsSigned 128 (2 ^ 127 - 1) := by norm_num [FitsSigned]
  obtain ⟨-, hfirst, -⟩ := angle_in_quadrant_weight_in_bounds hhigh hhigh 0 0
  obtain ⟨-, -, hsecond, -⟩ := angle_in_quadrant_weight_in_bounds hhigh hlow 0 0
  obtain ⟨-, -, -, hfourth, -⟩ := angle_in_quadrant_weight_in_bounds hlow hhigh 0 0
  obtain ⟨hwords, -, -, -, hthird, -, -, -, -, -, -, hpositive⟩ :=
    angle_in_quadrant_weight_in_bounds hlow hlow 18446744073709551615 0
  exact ⟨hlow, hhigh, hwords, hfirst (by norm_num) (by norm_num), hsecond (by norm_num) (by norm_num),
    hfourth (by norm_num) (by norm_num), hthird (by norm_num) (by norm_num), hpositive (by decide)⟩

end SwapStake
