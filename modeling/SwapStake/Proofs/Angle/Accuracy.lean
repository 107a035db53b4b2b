import Mathlib.Analysis.SpecialFunctions.Complex.Arg
import SwapStake.Proofs.Angle.Turning
/-!
# The accuracy of angles

`Angle.ofPoint` is within one unit of the exact angle (`ofPoint_within_one_unit`), which is `Complex.arg`, for
all whole coordinates, whatever their size and however far apart they are. The scaled point is near the exact
one (`normalize_near`), since its larger coordinate keeps 62 bits, so the fine angle of the magnitudes is right
up to sixteen fine units (`fineAngle_error`). Folding the angle into its quadrant keeps this error
(`abs_fold_sub`), and rounding adds half a unit, of which a fine unit is the 65536th part.
-/

namespace SwapStake.Angle

open Complex

/-! ## Scaling -/

theorem two_pow_le_of_bitLength {n : ℕ} (hn : n ≠ 0) :
    0 < bitLength n ∧ 2 ^ (bitLength n - 1) ≤ n := by
  rw [bitLength, if_neg hn]
  exact ⟨Nat.succ_pos _, Nat.log2_self_le hn⟩

theorem normalize_scales {x y : ℕ} (hpos : max x y ≠ 0) : ∃ c : ℝ, 0 < c ∧ 2 ^ 61 ≤ c * (max x y : ℕ) ∧
    |((normalize x y).1 : ℝ) - c * x| ≤ 1 ∧ |((normalize x y).2 : ℝ) - c * y| ≤ 1 := by
  obtain ⟨hbits, hle⟩ := two_pow_le_of_bitLength hpos
  have hlarge : (2 : ℝ) ^ (bitLength (max x y) - 1) ≤ (max x y : ℕ) := by exact_mod_cast hle
  simp only [normalize]
  generalize bitLength (max x y) = bits at *
  split
  · rename_i hlong
    simp only [scaledBits] at hlong ⊢
    have hshift (n : ℕ) : |((n >>> (bits - 62) : ℕ) : ℝ) - (1 / 2) ^ (bits - 62) * n| ≤ 1 := by
      have := abs_shiftRight_sub_le n (bits - 62)
      rw [mul_comm]
      exact_mod_cast this
    refine ⟨(1 / 2) ^ (bits - 62), by positivity, ?_, hshift x, hshift y⟩
    calc (2 : ℝ) ^ 61 = (1 / 2) ^ (bits - 62) * 2 ^ (bits - 1) := by
          rw [show bits - 1 = (bits - 62) + 61 by omega, pow_add, ← mul_assoc, ← mul_pow]
          norm_num
      _ ≤ (1 / 2) ^ (bits - 62) * (max x y : ℕ) := mul_le_mul_of_nonneg_left hlarge (by positivity)
  · rename_i hshort
    simp only [scaledBits] at hshort ⊢
    have hshift (n : ℕ) : |((n <<< (62 - bits) : ℕ) : ℝ) - 2 ^ (62 - bits) * n| ≤ 1 := by
      rw [Nat.shiftLeft_eq]
      push_cast
      rw [mul_comm, sub_self, abs_zero]
      exact zero_le_one
    refine ⟨2 ^ (62 - bits), by positivity, ?_, hshift x, hshift y⟩
    calc (2 : ℝ) ^ 61 = 2 ^ (62 - bits) * 2 ^ (bits - 1) := by
          rw [← pow_add]
          congr 1
          omega
      _ ≤ 2 ^ (62 - bits) * (max x y : ℕ) := mul_le_mul_of_nonneg_left hlarge (by positivity)

theorem normalize_near {x y : ℕ} (hpos : max x y ≠ 0) :
    Near (1 / 2 ^ 60) (arg ⟨x, y⟩) ⟨(normalize x y).1, (normalize x y).2⟩ := by
  obtain ⟨c, hc, hfar, hx, hy⟩ := normalize_scales hpos
  have hmax : ((max x y : ℕ) : ℝ) ≤ ‖(⟨x, y⟩ : ℂ)‖ := by
    rcases max_choice x y with h | h
    · rw [h]
      exact (le_abs_self _).trans (abs_re_le_norm (⟨x, y⟩ : ℂ))
    · rw [h]
      exact (le_abs_self _).trans (abs_im_le_norm (⟨x, y⟩ : ℂ))
  have hfar' : 2 ^ 61 ≤ c * ‖(⟨x, y⟩ : ℂ)‖ := hfar.trans (mul_le_mul_of_nonneg_left hmax hc.le)
  refine ⟨c * ‖(⟨x, y⟩ : ℂ)‖, by exact_mod_cast hfar', ?_⟩
  have hray : ((c * ‖(⟨x, y⟩ : ℂ)‖ : ℝ) : ℂ) * exp (arg ⟨x, y⟩ * I) = ⟨c * x, c * y⟩ := by
    rw [ofReal_mul, mul_assoc, norm_mul_exp_arg_mul_I]
    apply Complex.ext
    · rw [re_ofReal_mul]
    · rw [im_ofReal_mul]
  rw [hray]
  exact (norm_mk_sub_mk_le hx hy).trans (by linarith)

/-! ## The fine angle -/

theorem abs_clamp_sub_le {lo hi v : ℝ} (z : ℝ) (hlo : lo ≤ v) (hhi : v ≤ hi) :
    |max lo (min z hi) - v| ≤ |z - v| := by
  calc |max lo (min z hi) - v| = |max (min z hi) lo - max (min v hi) lo| := by
        rw [max_comm, min_eq_left hhi, max_eq_left hlo]
    _ ≤ |min z hi - min v hi| := abs_max_sub_max_le_abs _ _ _
    _ ≤ max |z - v| |hi - hi| := abs_min_sub_min_le_max _ _ _ _
    _ = |z - v| := by rw [sub_self, abs_zero, max_eq_left (abs_nonneg _)]

/-- **The angle of the magnitudes is right up to sixteen fine units.** -/
theorem fineAngle_error {x y : ℕ} (hpos : max x y ≠ 0) :
    |(fineAngle x y : ℝ) - perRadian * arg ⟨x, y⟩| ≤ 16 := by
  have hnonneg : 0 ≤ arg ⟨x, y⟩ := arg_nonneg_iff.2 (Nat.cast_nonneg y)
  have hquarter : arg ⟨x, y⟩ ≤ Real.pi / 2 := arg_le_pi_div_two_iff.2 (.inl (Nat.cast_nonneg x))
  have hhalf : ((fineHalfTurn / 2 : ℤ) : ℝ) = perRadian * (Real.pi / 2) := by
    rw [← mul_div_assoc, perRadian_mul_pi]
    norm_num [fineHalfTurn]
  have hturned := turned_error (normalize_near hpos) hnonneg hquarter
  refine le_trans ?_ hturned
  rw [fineAngle, Int.cast_max, Int.cast_min, Int.cast_zero, hhalf]
  exact abs_clamp_sub_le _ (mul_nonneg perRadian_pos.le hnonneg) (mul_le_mul_of_nonneg_left hquarter perRadian_pos.le)

/-! ## The quadrant -/

theorem arg_quadrant {x y : ℤ} (hy : y ≠ 0) : arg ⟨x, y⟩ =
    if y < 0 then -(if x < 0 then Real.pi - arg ⟨x.natAbs, y.natAbs⟩ else arg ⟨x.natAbs, y.natAbs⟩)
    else if x < 0 then Real.pi - arg ⟨x.natAbs, y.natAbs⟩ else arg ⟨x.natAbs, y.natAbs⟩ := by
  have hnorm : ‖(⟨x.natAbs, y.natAbs⟩ : ℂ)‖ = ‖(⟨x, y⟩ : ℂ)‖ := by
    rw [norm_def, norm_def, normSq_mk, normSq_mk, Nat.cast_natAbs, Nat.cast_natAbs, Int.cast_abs, Int.cast_abs,
      abs_mul_abs_self, abs_mul_abs_self]
  have hfirst : arg ⟨x.natAbs, y.natAbs⟩ = Real.arccos (x.natAbs / ‖(⟨x, y⟩ : ℂ)‖) := by
    rw [← hnorm]
    exact arg_of_im_pos (Nat.cast_pos.2 (Int.natAbs_pos.2 hy))
  have hhalf : Real.arccos (x / ‖(⟨x, y⟩ : ℂ)‖) =
      if x < 0 then Real.pi - arg ⟨x.natAbs, y.natAbs⟩ else arg ⟨x.natAbs, y.natAbs⟩ := by
    rw [hfirst, Nat.cast_natAbs, Int.cast_abs]
    split
    · rename_i hneg
      rw [← Real.arccos_neg, abs_of_neg (Int.cast_lt_zero.2 hneg), neg_div, neg_neg]
    · rename_i hpos
      rw [abs_of_nonneg (Int.cast_nonneg (not_lt.1 hpos))]
  rw [← hhalf]
  split
  · rename_i hneg
    exact arg_of_im_neg (Int.cast_lt_zero.2 hneg)
  · rename_i hpos
    exact arg_of_im_pos (Int.cast_pos.2 (by omega))

theorem abs_fold_sub {x y : ℤ} (hy : y ≠ 0) (fine : ℤ) : |(fold y x fine : ℝ) - perRadian * arg ⟨x, y⟩| =
    |(fine : ℝ) - perRadian * arg ⟨x.natAbs, y.natAbs⟩| := by
  have hmirror (f v : ℝ) : |fineHalfTurn - f - perRadian * (Real.pi - v)| = |f - perRadian * v| := by
    rw [mul_sub, perRadian_mul_pi, abs_sub_comm]
    congr 1
    ring
  have hflip (f v : ℝ) : |-f - perRadian * -v| = |f - perRadian * v| := by
    rw [mul_neg, ← neg_sub', abs_neg]
  rw [arg_quadrant hy]
  simp only [fold]
  split_ifs with hbelow hleft
  · rw [Int.cast_neg, hflip, Int.cast_sub, hmirror]
  · rw [Int.cast_neg, hflip]
  · rw [Int.cast_sub, hmirror]
  · rfl

/-! ## The angle -/

theorem abs_round_sub_le (fine : ℤ) : |(round fine : ℝ) - fine / 65536| ≤ 1 / 2 := by
  have hfloor : round fine * 65536 ≤ fine + 32768 ∧ fine + 32768 < round fine * 65536 + 65536 := by
    rw [round, Int.shiftRight_eq_div_pow]
    omega
  have hbelow : (round fine * 65536 : ℝ) ≤ fine + 32768 := by exact_mod_cast hfloor.1
  have habove : (fine + 32768 : ℝ) < round fine * 65536 + 65536 := by exact_mod_cast hfloor.2
  rw [abs_le]
  constructor <;> linarith

theorem ofPoint_error {x y : ℤ} (hx : x ≠ 0) (hy : y ≠ 0) :
    |(ofPoint y x : ℝ) - perRadian * arg ⟨x, y⟩ / 65536| ≤ 1 / 2 + 16 / 65536 := by
  have hpos : max x.natAbs y.natAbs ≠ 0 := by omega
  have hfine := fineAngle_error hpos
  rw [← abs_fold_sub hy] at hfine
  rw [ofPoint, if_neg hy, if_neg hx]
  generalize fold y x (fineAngle x.natAbs y.natAbs) = fine at hfine ⊢
  calc |(round fine : ℝ) - perRadian * arg ⟨x, y⟩ / 65536|
      = |((round fine : ℝ) - fine / 65536) + (fine - perRadian * arg ⟨x, y⟩) / 65536| := by
        congr 1
        ring
    _ ≤ 1 / 2 + 16 / 65536 := by
        refine (abs_add_le _ _).trans (add_le_add (abs_round_sub_le fine) ?_)
        rw [abs_div, abs_of_pos (by norm_num : (0 : ℝ) < 65536)]
        exact div_le_div_of_nonneg_right hfine (by norm_num)

/-- **An angle is within one unit of the exact one.** For all whole coordinates the angle, in units of which 16384
make the half turn, misses the argument of the complex number `x + y * I`, which is the exact angle of the
point in `(-π, π]`, by at most one unit. The origin has the angle zero in both. -/
theorem ofPoint_within_one_unit (y x : ℤ) : |(ofPoint y x : ℝ) - arg ⟨x, y⟩ * 16384 / Real.pi| ≤ 1 := by
  by_cases hy : y = 0
  · subst hy
    rw [ofPoint, if_pos rfl, Int.cast_zero]
    split
    · rename_i hx
      rw [arg_eq_zero_iff.2 ⟨Int.cast_nonneg hx, rfl⟩]
      norm_num
    · rename_i hx
      rw [arg_eq_pi_iff.2 ⟨Int.cast_lt_zero.2 (not_le.1 hx), rfl⟩, mul_div_cancel_left₀ _ Real.pi_ne_zero]
      norm_num [halfTurn]
  by_cases hx : x = 0
  · subst hx
    rw [ofPoint, if_neg hy, if_pos rfl, Int.cast_zero]
    have hquarter : Real.pi / 2 * 16384 / Real.pi = 8192 := by
      field_simp
      norm_num
    split
    · rename_i hpos
      rw [arg_eq_pi_div_two_iff.2 ⟨rfl, Int.cast_pos.2 hpos⟩, hquarter]
      norm_num [halfTurn]
    · rename_i hneg
      have hbelow : y < 0 := by omega
      rw [arg_eq_neg_pi_div_two_iff.2 ⟨rfl, Int.cast_lt_zero.2 hbelow⟩, neg_mul, neg_div, hquarter]
      norm_num [halfTurn]
  · have herror := ofPoint_error hx hy
    have hunits : perRadian * arg ⟨x, y⟩ / 65536 = arg ⟨x, y⟩ * 16384 / Real.pi := by
      rw [perRadian_mul]
      ring
    rw [hunits] at herror
    exact herror.trans (by norm_num)

end SwapStake.Angle
