import Mathlib.Analysis.Real.Pi.Bounds
import Mathlib.Analysis.SpecialFunctions.Complex.Arctan
import Mathlib.Analysis.SpecificLimits.Normed
import SwapStake.Angle
import SwapStake.Word64
/-!
# The angles of the rotations

The exact angle of the `i`-th rotation is `rotation i`, the arctangent of `2 ^ (-i)`. Two facts about these
angles are all that the accuracy of `Angle.ofPoint` rests on. No angle is more than twice the next one, so a
point that a rotation turns past the axis is brought back by the later ones (`rotation_le_reach`). And the
table has each angle rounded to the nearest fine unit (`rotations_rounded`): the arctangent lies between two
partial sums of its alternating series (`leibniz_le_arctan`, `arctan_le_leibniz`), and fifteen terms tell
where it is rounded to.
-/

namespace SwapStake.Angle

open Real

/-! ## Rotations by halved tangents -/

/-- The angle whose tangent is `2 ^ (-i)`. -/
noncomputable def rotation (i : ℕ) : ℝ :=
  arctan ((1 / 2) ^ i)

theorem rotation_nonneg (i : ℕ) : 0 ≤ rotation i :=
  arctan_nonneg.2 (by positivity)

theorem rotation_zero : rotation 0 = π / 4 := by
  rw [rotation, pow_zero, arctan_one]

theorem rotation_le_tangent (i : ℕ) : rotation i ≤ (1 / 2) ^ i := by
  have hle := le_tan (rotation_nonneg i) (arctan_lt_pi_div_two _)
  rwa [rotation, tan_arctan] at hle

theorem rotation_le_two_mul (i : ℕ) : rotation i ≤ 2 * rotation (i + 1) := by
  have hpos : (0 : ℝ) < (1 / 2) ^ i := by positivity
  have hle : ((1 : ℝ) / 2) ^ i ≤ 1 := pow_le_one₀ (by norm_num) (by norm_num)
  rw [rotation, rotation, pow_succ]
  generalize ((1 : ℝ) / 2) ^ i = t at hpos hle
  rw [two_mul_arctan (by linarith) (by linarith)]
  refine arctan_mono ?_
  rw [le_div_iff₀ (by nlinarith)]
  nlinarith [sq_nonneg t]

/-- How far `n` rotations from the `k`-th on can be off the axis and still bring a point back to it, up to
twice the angle that would be next. -/
noncomputable def reach : ℕ → ℕ → ℝ
  | k, 0 => 2 * rotation k
  | k, n + 1 => rotation k + reach (k + 1) n

theorem rotation_le_reach (k n : ℕ) : rotation k ≤ reach (k + 1) n := by
  induction n generalizing k with
  | zero => exact rotation_le_two_mul k
  | succ n ih =>
    have hnext := ih (k + 1)
    have hhalf := rotation_le_two_mul k
    rw [reach]
    linarith

/-! ## The series of the arctangent -/

/-- The first terms of the series of the arctangent. -/
def leibniz (terms : ℕ) (x : ℚ) : ℚ :=
  ∑ j ∈ Finset.range terms, (-1) ^ j * (x ^ (2 * j + 1) / (2 * j + 1))

theorem cast_leibniz (terms : ℕ) (x : ℚ) : (leibniz terms x : ℝ) =
    ∑ j ∈ Finset.range terms, (-1) ^ j * ((x : ℝ) ^ (2 * j + 1) / (2 * j + 1)) := by
  rw [leibniz]
  push_cast
  rfl

section Series

variable {x : ℚ} (hx : 0 ≤ x) (hx' : x < 1)
include hx hx'

theorem antitone_terms : Antitone fun j : ℕ => (x : ℝ) ^ (2 * j + 1) / (2 * j + 1) := by
  have h0 : (0 : ℝ) ≤ x := by exact_mod_cast hx
  have h1 : (x : ℝ) ≤ 1 := by exact_mod_cast hx'.le
  refine antitone_nat_of_succ_le fun j => ?_
  refine div_le_div₀ (by positivity) (pow_le_pow_of_le_one h0 h1 (by omega)) (by positivity) ?_
  push_cast
  linarith

theorem tendsto_leibniz : Filter.Tendsto
    (fun terms => ∑ j ∈ Finset.range terms, (-1) ^ j * ((x : ℝ) ^ (2 * j + 1) / (2 * j + 1)))
    Filter.atTop (nhds (arctan x)) := by
  have hnorm : ‖(x : ℝ)‖ < 1 := by
    rw [Real.norm_of_nonneg (by exact_mod_cast hx)]
    exact_mod_cast hx'
  have hsum := (hasSum_arctan hnorm).tendsto_sum_nat
  refine hsum.congr fun terms => Finset.sum_congr rfl fun j _ => ?_
  rw [mul_div_assoc]
  push_cast
  rfl

theorem leibniz_le_arctan (k : ℕ) : (leibniz (2 * k) x : ℝ) ≤ arctan x := by
  rw [cast_leibniz]
  exact (antitone_terms hx hx').alternating_series_le_tendsto (tendsto_leibniz hx hx') k

theorem arctan_le_leibniz (k : ℕ) : arctan x ≤ (leibniz (2 * k + 1) x : ℝ) := by
  rw [cast_leibniz]
  exact (antitone_terms hx hx').tendsto_le_alternating_series (tendsto_leibniz hx hx') k

end Series

/-! ## The table -/

/-- Fine units in a radian. -/
noncomputable def perRadian : ℝ :=
  fineHalfTurn / π

/-- The bounds of `π` that the table is checked with. -/
def piBelow : ℚ := 314159265358979323846 / 100000000000000000000

def piAbove : ℚ := 314159265358979323847 / 100000000000000000000

theorem piBelow_lt : (piBelow : ℝ) < π := by
  refine lt_of_eq_of_lt ?_ pi_gt_d20
  norm_num [piBelow]

theorem lt_piAbove : π < (piAbove : ℝ) := by
  refine lt_of_lt_of_eq pi_lt_d20 ?_
  norm_num [piAbove]

theorem rotations_enclosed : ∀ r ∈ rotations.zipIdx.tail,
    (2 * (r.1 : ℚ) - 1) * piAbove ≤ 2 * 1073741824 * leibniz 14 ((1 / 2) ^ r.2) ∧
      2 * 1073741824 * leibniz 15 ((1 / 2) ^ r.2) ≤ (2 * (r.1 : ℚ) + 1) * piBelow ∧
      1 ≤ r.1 ∧ 1 ≤ r.2 := by
  decide +kernel

theorem cast_fineHalfTurn : (fineHalfTurn : ℝ) = 1073741824 := by
  norm_num [fineHalfTurn]

theorem perRadian_pos : 0 < perRadian := by
  rw [perRadian, cast_fineHalfTurn]
  exact div_pos (by norm_num) pi_pos

theorem perRadian_mul_pi : perRadian * π = fineHalfTurn :=
  div_mul_cancel₀ _ pi_ne_zero

theorem perRadian_mul (θ : ℝ) : perRadian * θ = 1073741824 * θ / π := by
  rw [perRadian, cast_fineHalfTurn]
  ring

/-- **The table has the angles of the rotations, rounded to fine units.** -/
theorem rotations_rounded : ∀ r ∈ rotations.zipIdx, |(r.1 : ℝ) - perRadian * rotation r.2| ≤ 1 / 2 := by
  intro r hr
  have hsplit : rotations.zipIdx = (268435456, 0) :: rotations.zipIdx.tail := rfl
  rw [hsplit, List.mem_cons] at hr
  rw [perRadian_mul]
  rcases hr with rfl | hr
  · -- The first rotation is an eighth of a turn, a whole number of units.
    rw [rotation_zero, show 1073741824 * (π / 4) / π = 268435456 by field_simp; norm_num]
    norm_num
  · obtain ⟨hlower, hupper, hentry, hindex⟩ := rotations_enclosed r hr
    have htangent : (((1 / 2) ^ r.2 : ℚ) : ℝ) = (1 / 2) ^ r.2 := by push_cast; rfl
    have hlt : ((1 / 2) ^ r.2 : ℚ) < 1 := pow_lt_one₀ (by norm_num) (by norm_num) (by omega)
    have hbelow := leibniz_le_arctan (x := (1 / 2) ^ r.2) (by positivity) hlt 7
    have habove := arctan_le_leibniz (x := (1 / 2) ^ r.2) (by positivity) hlt 7
    rw [htangent, ← rotation] at hbelow habove
    have hlower' : (2 * (r.1 : ℝ) - 1) * piAbove ≤ 2 * 1073741824 * leibniz 14 ((1 / 2) ^ r.2) := by
      exact_mod_cast hlower
    have hupper' : 2 * 1073741824 * leibniz 15 ((1 / 2) ^ r.2) ≤ (2 * (r.1 : ℝ) + 1) * piBelow := by
      exact_mod_cast hupper
    have hpos : (1 : ℝ) ≤ r.1 := by exact_mod_cast hentry
    have hdown : (2 * (r.1 : ℝ) - 1) * π ≤ (2 * r.1 - 1) * piAbove :=
      mul_le_mul_of_nonneg_left lt_piAbove.le (by linarith)
    have hup : (2 * (r.1 : ℝ) + 1) * piBelow ≤ (2 * r.1 + 1) * π :=
      mul_le_mul_of_nonneg_left piBelow_lt.le (by linarith)
    rw [abs_le]
    constructor
    · rw [neg_le_sub_iff_le_add, div_le_iff₀ pi_pos]
      linarith
    · rw [sub_le_comm, le_div_iff₀ pi_pos]
      linarith

end SwapStake.Angle
