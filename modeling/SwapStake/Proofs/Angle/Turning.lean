import SwapStake.Proofs.Angle.Rotations
/-!
# Points on their way to the axis

A turning keeps whole coordinates, so each rotation rounds two of them down. `Near r θ z` says that the point
`z` is off some point at the angle `θ` by at most `r` of its distance from the origin, which is large. An exact
rotation keeps this ratio, and rounding adds a fixed small amount to it (`Near.turn`), so after all rotations
the point still tells on which side of the axis its angle is, up to twice the ratio (`Near.angle_ge`,
`Near.angle_le`). That is all that the choice of the direction needs: the angle that is left stays within the
reach of the rotations that follow, and what has been turned misses the angle by what is left and by the
rounding of the table (`turned_error`).
-/

namespace SwapStake.Angle

open Complex

/-- The point in the complex plane. -/
noncomputable def Turning.point (t : Turning) : ℂ :=
  ⟨t.x, t.y⟩

/-- A point that is off one at the angle `θ`, at a distance of at least `2 ^ 61`, by at most the part `r` of
this distance. -/
def Near (r θ : ℝ) (z : ℂ) : Prop :=
  ∃ ρ : ℝ, (2 ^ 61 : ℕ) ≤ ρ ∧ ‖z - ρ * exp (θ * I)‖ ≤ r * ρ

variable {r θ : ℝ} {z z' : ℂ}

theorem Near.nonneg (h : Near r θ z) : 0 ≤ r := by
  obtain ⟨ρ, hfar, hnear⟩ := h
  have hpos : (0 : ℝ) < ρ := lt_of_lt_of_le (by positivity) hfar
  exact nonneg_of_mul_nonneg_left ((norm_nonneg _).trans hnear) hpos

/-! ## One rotation -/

theorem one_sub_mul_I (t : ℝ) : (1 - t * I : ℂ) = √(1 + t ^ 2) * exp (-(Real.arctan t) * I) := by
  have hpos : 0 < √(1 + t ^ 2) := Real.sqrt_pos.2 (by positivity)
  rw [← ofReal_neg, exp_mul_I, ← ofReal_cos, ← ofReal_sin, Real.cos_neg, Real.sin_neg, Real.cos_arctan,
    Real.sin_arctan]
  apply Complex.ext
  · simp [hpos.ne']
  · simp
    field_simp

theorem norm_one_sub_mul_I (t : ℝ) : ‖(1 - t * I : ℂ)‖ = √(1 + t ^ 2) := by
  rw [one_sub_mul_I, norm_mul, ← ofReal_neg, norm_exp_ofReal_mul_I, mul_one, norm_real,
    Real.norm_of_nonneg (Real.sqrt_nonneg _)]

theorem Near.turn (h : Near r θ z) (t : ℝ) (rounded : ‖z' - z * (1 - t * I)‖ ≤ 2) :
    Near (r + 1 / 2 ^ 60) (θ - Real.arctan t) z' := by
  obtain ⟨ρ, hfar, hnear⟩ := h
  rw [Nat.cast_pow, Nat.cast_two] at hfar
  have hstretch : 1 ≤ √(1 + t ^ 2) := Real.one_le_sqrt.2 (by nlinarith [sq_nonneg t])
  have hfar' : 2 ^ 61 ≤ ρ * √(1 + t ^ 2) := by nlinarith
  have hray : ((ρ * √(1 + t ^ 2) : ℝ) : ℂ) * exp ((θ - Real.arctan t : ℝ) * I) =
      ρ * exp (θ * I) * (1 - t * I) := by
    rw [one_sub_mul_I, ofReal_mul, ofReal_sub, sub_eq_add_neg, add_mul, exp_add]
    ring
  refine ⟨ρ * √(1 + t ^ 2), by exact_mod_cast hfar', ?_⟩
  calc ‖z' - (ρ * √(1 + t ^ 2) : ℝ) * exp ((θ - Real.arctan t : ℝ) * I)‖
      = ‖(z' - z * (1 - t * I)) + (z - ρ * exp (θ * I)) * (1 - t * I)‖ := by
        rw [hray]
        ring_nf
    _ ≤ ‖z' - z * (1 - t * I)‖ + ‖z - ρ * exp (θ * I)‖ * √(1 + t ^ 2) := by
        rw [← norm_one_sub_mul_I, ← norm_mul]
        exact norm_add_le _ _
    _ ≤ 2 + r * ρ * √(1 + t ^ 2) :=
        add_le_add rounded (mul_le_mul_of_nonneg_right hnear (Real.sqrt_nonneg _))
    _ ≤ (r + 1 / 2 ^ 60) * (ρ * √(1 + t ^ 2)) := by
        rw [add_mul, mul_assoc]
        linarith

theorem abs_shiftRight_sub_le (n : ℤ) (i : ℕ) : |((n >>> i : ℤ) : ℝ) - n * (1 / 2) ^ i| ≤ 1 := by
  have hpos : (0 : ℤ) < 2 ^ i := by positivity
  have hbelow : ((n / 2 ^ i * 2 ^ i : ℤ) : ℝ) ≤ n := by exact_mod_cast Int.ediv_mul_le n hpos.ne'
  have habove : (n : ℝ) < ((n / 2 ^ i + 1) * 2 ^ i : ℤ) := by
    exact_mod_cast Int.lt_ediv_add_one_mul_self n hpos
  have hpow : (0 : ℝ) < 2 ^ i := by positivity
  rw [Int.shiftRight_eq_div_pow, one_div, inv_pow, ← div_eq_mul_inv, abs_le]
  push_cast at hbelow habove ⊢
  constructor
  · rw [neg_le_sub_iff_le_add, div_le_iff₀ hpow]
    exact habove.le
  · rw [sub_le_iff_le_add]
    have hquot := (le_div_iff₀ hpow).2 hbelow
    linarith

/-! ## The side of the axis -/

theorem le_two_mul_of_sin_le (hr : 0 ≤ r) (quarter : θ ≤ Real.pi / 2) (h : Real.sin θ ≤ r) : θ ≤ 2 * r := by
  rcases le_or_gt θ 0 with hneg | hpos
  · linarith
  · have hsin := (Real.mul_le_sin hpos.le quarter).trans h
    rw [div_mul_eq_mul_div, div_le_iff₀ Real.pi_pos] at hsin
    nlinarith [Real.pi_le_four]

theorem Near.abs_im_sub_le (h : Near r θ z) : ∃ ρ : ℝ, 0 < ρ ∧ |z.im - ρ * Real.sin θ| ≤ r * ρ := by
  obtain ⟨ρ, hfar, hnear⟩ := h
  refine ⟨ρ, lt_of_lt_of_le (by positivity) hfar, ?_⟩
  have him : (z - ρ * exp (θ * I)).im = z.im - ρ * Real.sin θ := by
    rw [sub_im, im_ofReal_mul, exp_ofReal_mul_I_im]
  rw [← him]
  exact (abs_im_le_norm _).trans hnear

theorem Near.angle_ge (h : Near r θ z) (quarter : |θ| ≤ Real.pi / 2) (above : 0 ≤ z.im) : -(2 * r) ≤ θ := by
  obtain ⟨ρ, hpos, hnear⟩ := h.abs_im_sub_le
  have hsin : Real.sin (-θ) ≤ r := by
    rw [Real.sin_neg]
    refine le_of_mul_le_mul_right ?_ hpos
    linarith [(abs_le.1 hnear).2]
  linarith [le_two_mul_of_sin_le h.nonneg (by linarith [(abs_le.1 quarter).1]) hsin]

theorem Near.angle_le (h : Near r θ z) (quarter : |θ| ≤ Real.pi / 2) (below : z.im ≤ 0) : θ ≤ 2 * r := by
  obtain ⟨ρ, hpos, hnear⟩ := h.abs_im_sub_le
  refine le_two_mul_of_sin_le h.nonneg (abs_le.1 quarter).2 (le_of_mul_le_mul_right ?_ hpos)
  linarith [(abs_le.1 hnear).1]

/-! ## One step -/

theorem mk_mul_one_sub_mul_I (x y t : ℝ) : (⟨x, y⟩ : ℂ) * (1 - t * I) = ⟨x + y * t, y - x * t⟩ := by
  apply Complex.ext
  · simp
  · simp
    ring

theorem norm_mk_sub_mk_le {x y x' y' : ℝ} (hx : |x - x'| ≤ 1) (hy : |y - y'| ≤ 1) :
    ‖(⟨x, y⟩ : ℂ) - ⟨x', y'⟩‖ ≤ 2 := by
  have hsum := norm_le_abs_re_add_abs_im ((⟨x, y⟩ : ℂ) - ⟨x', y'⟩)
  rw [sub_re, sub_im] at hsum
  linarith

/-- **A step turns towards the axis**, by the angle of the rotation and from the side `σ` that the point is on. -/
theorem step_towards {t : Turning} (near : Near r θ t.point) (quarter : |θ| ≤ Real.pi / 2) (a : ℤ) (i : ℕ) :
    ∃ σ : ℝ, (σ = 1 ∨ σ = -1) ∧ ((t.step a i).turned : ℝ) = t.turned + σ * a ∧
      Near (r + 1 / 2 ^ 60) (θ - σ * rotation i) (t.step a i).point ∧ -(2 * r) ≤ σ * θ := by
  have hx := abs_le.1 (abs_shiftRight_sub_le t.x i)
  have hy := abs_le.1 (abs_shiftRight_sub_le t.y i)
  by_cases hside : 0 ≤ t.y
  · have hpoint : (t.step a i).point = ⟨t.x + (t.y >>> i : ℤ), t.y - (t.x >>> i : ℤ)⟩ := by
      simp [Turning.step, if_pos hside, Turning.point]
    refine ⟨1, .inl rfl, by simp [Turning.step, if_pos hside], ?_, ?_⟩
    · rw [one_mul, hpoint]
      refine near.turn ((1 / 2) ^ i) ?_
      rw [Turning.point, mk_mul_one_sub_mul_I]
      exact norm_mk_sub_mk_le (abs_le.2 ⟨by linarith, by linarith⟩) (abs_le.2 ⟨by linarith, by linarith⟩)
    · rw [one_mul]
      exact near.angle_ge quarter (show (0 : ℝ) ≤ t.y by exact_mod_cast hside)
  · have hpoint : (t.step a i).point = ⟨t.x - (t.y >>> i : ℤ), t.y + (t.x >>> i : ℤ)⟩ := by
      simp [Turning.step, if_neg hside, Turning.point]
    refine ⟨-1, .inr rfl, by simp [Turning.step, if_neg hside, sub_eq_add_neg], ?_, ?_⟩
    · rw [hpoint, neg_one_mul, rotation, ← Real.arctan_neg]
      refine near.turn (-(1 / 2) ^ i) ?_
      rw [Turning.point, mk_mul_one_sub_mul_I]
      exact norm_mk_sub_mk_le (abs_le.2 ⟨by linarith, by linarith⟩) (abs_le.2 ⟨by linarith, by linarith⟩)
    · rw [neg_one_mul, neg_le_neg_iff]
      exact near.angle_le quarter (show (t.y : ℝ) ≤ 0 by exact_mod_cast (not_le.1 hside).le)

/-! ## The run -/

theorem rotation_le_eighth (i : ℕ) : rotation i ≤ Real.pi / 4 := by
  rw [← rotation_zero]
  exact Real.arctan_mono (pow_le_pow_of_le_one (by norm_num) (by norm_num) (Nat.zero_le i))

theorem abs_left_le {σ a s B : ℝ} (hσ : σ = 1 ∨ σ = -1) (hside : -s ≤ σ * θ) (past : a + s ≤ B)
    (before : |θ| ≤ a + B) : |θ - σ * a| ≤ B := by
  obtain ⟨hlower, hupper⟩ := abs_le.1 before
  rw [abs_le]
  rcases hσ with rfl | rfl
  · constructor <;> linarith
  · constructor <;> linarith

/-- **What has been turned misses the angle** by half a unit for each rotation, and by what is left after the
last one. The induction is on the rotations that are to come: the angle that is left stays within their reach,
up to the slack `ε` for points that are taken to be on the wrong side of the axis. -/
theorem turned_run {ε : ℝ} (small : ε ≤ Real.pi / 4) (l : List ℤ) {k : ℕ} {t : Turning}
    (entries : ∀ p ∈ l.zipIdx k, |(p.1 : ℝ) - perRadian * rotation p.2| ≤ 1 / 2)
    (near : Near r θ t.point) (room : 2 * (r + l.length / 2 ^ 60) ≤ ε)
    (quarter : |θ| ≤ Real.pi / 2) (within : |θ| ≤ reach k l.length + ε) :
    |(((l.zipIdx k).foldl (fun t p => t.step p.1 p.2) t).turned : ℝ) - (t.turned + perRadian * θ)| ≤
      l.length / 2 + perRadian * (2 * rotation (k + l.length) + ε) := by
  induction l generalizing k t r θ with
  | nil =>
    rw [List.length_nil, reach] at within
    simpa [abs_mul, abs_of_pos perRadian_pos] using mul_le_mul_of_nonneg_left within perRadian_pos.le
  | cons a l ih =>
    rw [List.zipIdx_cons, List.forall_mem_cons] at entries
    obtain ⟨hentry, hentries⟩ := entries
    obtain ⟨σ, hσ, hturned, hnear, hside⟩ := step_towards near quarter a k
    rw [List.length_cons, reach] at within
    rw [List.length_cons, Nat.cast_succ] at room
    have hr := near.nonneg
    have hrest : (0 : ℝ) ≤ l.length / 2 ^ 60 := by positivity
    have hreach := rotation_le_reach k l.length
    have heighth := rotation_le_eighth k
    have hleft : |θ - σ * rotation k| ≤ reach (k + 1) l.length + ε :=
      abs_left_le hσ hside (by linarith) (by linarith)
    have hquarter : |θ - σ * rotation k| ≤ Real.pi / 2 :=
      abs_left_le hσ hside (by linarith) (by linarith [rotation_nonneg k])
    have hrun := ih hentries hnear (by linarith) hquarter hleft
    have hmiss : |σ * (a - perRadian * rotation k)| ≤ 1 / 2 := by
      rw [abs_mul]
      rcases hσ with rfl | rfl <;> simpa using hentry
    rw [hturned, Nat.add_right_comm, Nat.add_assoc] at hrun
    rw [List.zipIdx_cons, List.foldl_cons, List.length_cons, Nat.cast_succ]
    generalize (((l.zipIdx (k + 1)).foldl _ (t.step a k)).turned : ℝ) = final at hrun ⊢
    calc |final - (t.turned + perRadian * θ)|
        = |final - (t.turned + σ * a + perRadian * (θ - σ * rotation k)) + σ * (a - perRadian * rotation k)| := by
          congr 1
          ring
      _ ≤ l.length / 2 + perRadian * (2 * rotation (k + (l.length + 1)) + ε) + 1 / 2 :=
          (abs_add_le _ _).trans (add_le_add hrun hmiss)
      _ = (l.length + 1) / 2 + perRadian * (2 * rotation (k + (l.length + 1)) + ε) := by ring

theorem turned_error {x y : ℕ} (near : Near (1 / 2 ^ 60) θ ⟨x, y⟩) (positive : 0 ≤ θ) (quarter : θ ≤ Real.pi / 2) :
    |((turnings x y).turned : ℝ) - perRadian * θ| ≤ 16 := by
  have hquarter : |θ| ≤ Real.pi / 2 := by rwa [abs_of_nonneg positive]
  have hpi := Real.pi_gt_three
  have hreach : Real.pi / 2 ≤ reach 0 30 := by
    have hrest := rotation_le_reach 0 29
    rw [reach, rotation_zero]
    rw [rotation_zero] at hrest
    linarith
  have hrun := turned_run (by norm_num; linarith) rotations (t := ⟨x, y, 0⟩) rotations_rounded near
    (show _ ≤ (1 / 2 ^ 54 : ℝ) by norm_num [rotations]) hquarter
    (hquarter.trans (show _ ≤ reach 0 30 + _ by linarith))
  have hlast : perRadian * (2 * rotation 30 + 1 / 2 ^ 54) ≤ 1 := by
    have hangle := rotation_le_tangent 30
    norm_num at hangle
    rw [perRadian_mul, div_le_one Real.pi_pos]
    linarith
  calc |((turnings x y).turned : ℝ) - perRadian * θ|
      = |((turnings x y).turned : ℝ) - ((⟨x, y, 0⟩ : Turning).turned + perRadian * θ)| := by
        rw [Int.cast_zero, zero_add]
    _ ≤ (30 : ℕ) / 2 + perRadian * (2 * rotation 30 + 1 / 2 ^ 54) := hrun
    _ ≤ 16 := by
        push_cast
        linarith

end SwapStake.Angle
