import Mathlib.Tactic.Linarith
import SwapStake.Angle
import SwapStake.Word64
/-!
# The bounds of turned points and of their angles

Angles are found in words: the coordinates on their way to the axis in signed words of 128 bits, the angles
in signed words of 64 bits. No number leaves its word for a point whose coordinates are signed words of 128
bits (`ofPoint_inWords`), and the angle is one of the quadrant of the point (`ofPoint_quadrant`).

The bounds of the coordinates are carried through the rotations together (`Turning.Bounded`). While the second
coordinate is within `2 ^ 62`, where scaling puts it, the rotation by the tangent `2 ^ (-n)` adds at most
`2 ^ (62 - n)` to the first one, which so stays below `3 * 2 ^ 62`. And while the first one has not grown by
more than that, the part of it that moves the second one is within `2 ^ 62` (`Turning.Bounded.x_le_mul`); since
the move is against its sign, the second coordinate stays within `2 ^ 62` as well.
-/

namespace SwapStake.Angle

/-- The numbers of a signed word. -/
def FitsSigned (bits : ℕ) (n : ℤ) : Prop :=
  -2 ^ (bits - 1) ≤ n ∧ n < 2 ^ (bits - 1)

theorem FitsSigned.of_natAbs_lt {bits : ℕ} {n : ℤ} (h : n.natAbs < 2 ^ (bits - 1)) : FitsSigned bits n := by
  have hcast : (n.natAbs : ℤ) < 2 ^ (bits - 1) := by exact_mod_cast h
  exact ⟨by omega, by omega⟩

/-! ## Shifts -/

theorem shiftRight_between {lo hi n : ℤ} {i : ℕ} (hlo : lo * 2 ^ i ≤ n) (hhi : n ≤ hi * 2 ^ i) :
    lo ≤ n >>> i ∧ n >>> i ≤ hi := by
  have hpos : (0 : ℤ) < 2 ^ i := by positivity
  rw [Int.shiftRight_eq_div_pow]
  exact ⟨Int.le_ediv_of_mul_le hpos hlo, Int.ediv_le_of_le_mul hpos hhi⟩

theorem FitsSigned.shiftRight {bits : ℕ} {n : ℤ} (h : FitsSigned bits n) (i : ℕ) :
    FitsSigned bits (n >>> i) := by
  obtain ⟨hlo, hhi⟩ := h
  have hword : (0 : ℤ) < 2 ^ (bits - 1) := by positivity
  have hpow : (1 : ℤ) ≤ 2 ^ i := one_le_pow₀ (by norm_num)
  obtain ⟨hge, hle⟩ : -2 ^ (bits - 1) ≤ n >>> i ∧ n >>> i ≤ 2 ^ (bits - 1) - 1 :=
    shiftRight_between (by nlinarith) (by nlinarith)
  exact ⟨hge, by omega⟩

/-! ## Scaling -/

theorem lt_two_pow_bitLength (n : ℕ) : n < 2 ^ bitLength n := by
  unfold bitLength
  split
  · rename_i hzero
    simp [hzero]
  · exact Nat.lt_log2_self

theorem bitLength_le {n bits : ℕ} (h : n < 2 ^ bits) : bitLength n ≤ bits := by
  unfold bitLength
  split
  · exact Nat.zero_le _
  · rename_i hne
    exact (Nat.log2_lt hne).2 h

theorem normalize_lt (x y : ℕ) :
    (normalize x y).1 < 2 ^ scaledBits ∧ (normalize x y).2 < 2 ^ scaledBits := by
  have hx := (le_max_left x y).trans_lt (lt_two_pow_bitLength _)
  have hy := (le_max_right x y).trans_lt (lt_two_pow_bitLength _)
  simp only [normalize]
  generalize bitLength (max x y) = bits at hx hy ⊢
  split
  · rename_i hlong
    rw [← Nat.pow_sub_mul_pow 2 hlong.le] at hx hy
    rw [Nat.shiftRight_eq_div_pow, Nat.shiftRight_eq_div_pow]
    exact ⟨Nat.div_lt_of_lt_mul hx, Nat.div_lt_of_lt_mul hy⟩
  · rename_i hshort
    have hpos := Nat.two_pow_pos (scaledBits - bits)
    rw [← pow_mul_pow_sub 2 (Nat.not_lt.1 hshort), Nat.shiftLeft_eq, Nat.shiftLeft_eq]
    exact ⟨Nat.mul_lt_mul_of_pos_right hx hpos, Nat.mul_lt_mul_of_pos_right hy hpos⟩

/-! ## Rotations -/

/-- What holds of a scaled point after its first `n` rotations. -/
structure Turning.Bounded (n : ℕ) (t : Turning) : Prop where
  x_nonneg : 0 ≤ t.x
  x_le : t.x + 2 * 2 ^ (scaledBits - n) ≤ 3 * 2 ^ scaledBits
  y_ge : -2 ^ scaledBits ≤ t.y
  y_le : t.y ≤ 2 ^ scaledBits
  turned_le : t.turned.natAbs ≤ n * 2 ^ 28

namespace Turning.Bounded

variable {n : ℕ} {t : Turning}

theorem x_le_mul (h : t.Bounded n) (hn : n ≤ scaledBits) : t.x ≤ 2 ^ scaledBits * 2 ^ n := by
  have hx := h.x_le
  have hpos : (0 : ℤ) < 2 ^ (scaledBits - n) := by positivity
  rw [← pow_sub_mul_pow 2 hn] at hx ⊢
  generalize (2 : ℤ) ^ (scaledBits - n) = unit at hx hpos ⊢
  cases n with
  | zero => linarith
  | succ n =>
    -- A power `p` of two is not strictly between one and two, so `3 * p - 2` is at most `p * p`.
    have hone : (1 : ℤ) ≤ 2 ^ n := one_le_pow₀ one_le_two
    have htwo : (2 : ℤ) ≤ 2 ^ (n + 1) := by
      rw [pow_succ]
      linarith
    generalize (2 : ℤ) ^ (n + 1) = p at hx htwo ⊢
    have hprod : 0 ≤ unit * ((p - 1) * (p - 2)) :=
      mul_nonneg hpos.le (mul_nonneg (by linarith) (by linarith))
    linarith

theorem step (h : t.Bounded n) (hn : n < scaledBits) {a : ℤ} (hnonneg : 0 ≤ a) (heighth : a ≤ 2 ^ 28) :
    (t.step a n).Bounded (n + 1) := by
  have hhalf : (2 : ℤ) ^ (scaledBits - n) = 2 * 2 ^ (scaledBits - (n + 1)) := by
    rw [← pow_succ']
    congr 1
    omega
  have hunit : (2 : ℤ) ^ (scaledBits - n) * 2 ^ n = 2 ^ scaledBits := pow_sub_mul_pow 2 hn.le
  obtain ⟨hdx, hdx'⟩ : 0 ≤ t.x >>> n ∧ t.x >>> n ≤ 2 ^ scaledBits :=
    shiftRight_between (by simpa using h.x_nonneg) (h.x_le_mul hn.le)
  obtain ⟨hx, hx', hy, hy', hturned⟩ := h
  -- On either side of the axis the first coordinate moves away from zero and the second one against its sign.
  unfold Turning.step
  split
  · rename_i habove
    obtain ⟨hdy, hdy'⟩ : 0 ≤ t.y >>> n ∧ t.y >>> n ≤ 2 ^ (scaledBits - n) :=
      shiftRight_between (by simpa using habove) (by rwa [hunit])
    constructor <;> dsimp only <;> omega
  · rename_i hbelow
    obtain ⟨hdy, hdy'⟩ : -2 ^ (scaledBits - n) ≤ t.y >>> n ∧ t.y >>> n ≤ 0 :=
      shiftRight_between (by rwa [neg_mul, hunit]) (by rw [zero_mul]; omega)
    constructor <;> dsimp only <;> omega

end Turning.Bounded

/-- A point of the first quadrant, scaled and turned by its first `n` rotations. -/
def turnedBy (n x y : ℕ) : Turning :=
  (rotations.take n).zipIdx.foldl (fun t r => t.step r.1 r.2) ⟨(normalize x y).1, (normalize x y).2, 0⟩

theorem turnedBy_succ {n : ℕ} (hn : n < rotations.length) (x y : ℕ) :
    turnedBy (n + 1) x y = (turnedBy n x y).step rotations[n] n := by
  rw [turnedBy, List.take_succ_eq_append_getElem hn, List.zipIdx_append, List.foldl_append, ← turnedBy]
  simp [hn.le]

theorem rotations_between : ∀ a ∈ rotations, 0 ≤ a ∧ a ≤ 2 ^ 28 := by
  decide

/-- **Every state on the way to the axis is bounded.** -/
theorem turnedBy_bounded {n : ℕ} (hn : n ≤ rotations.length) (x y : ℕ) : (turnedBy n x y).Bounded n := by
  induction n with
  | zero =>
    obtain ⟨hx, hy⟩ := normalize_lt x y
    simp only [scaledBits] at hx hy
    constructor <;> simp [turnedBy, scaledBits] <;> omega
  | succ n ih =>
    have hroom : rotations.length < scaledBits := by decide
    obtain ⟨hnonneg, heighth⟩ := rotations_between _ (List.getElem_mem hn)
    rw [turnedBy_succ hn]
    exact (ih (by omega)).step (by omega) hnonneg heighth

theorem fineAngle_eq (x y : ℕ) : fineAngle x y = max 0 (min (turnedBy 30 x y).turned (fineHalfTurn / 2)) :=
  rfl

theorem fineAngle_between (x y : ℕ) : 0 ≤ fineAngle x y ∧ fineAngle x y ≤ fineHalfTurn / 2 := by
  rw [fineAngle_eq]
  exact ⟨le_max_left _ _, max_le (by decide) (min_le_right _ _)⟩

/-! ## The quadrant -/

/-- Where the quadrant of a point begins, in quarter turns. -/
def quadrant (y x : ℤ) : ℤ :=
  if y < 0 then if x < 0 then -2 else -1 else if x < 0 then 1 else 0

theorem quadrant_between (y x : ℤ) : -2 ≤ quadrant y x ∧ quadrant y x ≤ 1 := by
  unfold quadrant
  split_ifs <;> omega

theorem fold_between (y x : ℤ) {fine : ℤ} (hnonneg : 0 ≤ fine) (hquarter : fine ≤ fineHalfTurn / 2) :
    quadrant y x * (fineHalfTurn / 2) ≤ fold y x fine ∧
      fold y x fine ≤ (quadrant y x + 1) * (fineHalfTurn / 2) := by
  simp only [fold, quadrant, fineHalfTurn] at hquarter ⊢
  split_ifs <;> omega

theorem round_between {lo hi fine : ℤ} (hlo : lo * 65536 ≤ fine) (hhi : fine ≤ hi * 65536) :
    lo ≤ round fine ∧ round fine ≤ hi := by
  rw [round, Int.shiftRight_eq_div_pow]
  -- a half is rounded up, also where it is negative, so a whole bound is not passed from below either
  omega

/-- **The angle of a point lies in its quadrant.** -/
theorem ofPoint_quadrant (y : ℤ) {x : ℤ} (hx : x ≠ 0) :
    quadrant y x * (halfTurn / 2) ≤ ofPoint y x ∧ ofPoint y x ≤ (quadrant y x + 1) * (halfTurn / 2) := by
  by_cases hy : y = 0
  · simp only [ofPoint, if_pos hy, quadrant, halfTurn]
    split_ifs <;> omega
  · obtain ⟨hnonneg, hquarter⟩ := fineAngle_between x.natAbs y.natAbs
    obtain ⟨hlo, hhi⟩ := fold_between y x hnonneg hquarter
    rw [ofPoint, if_neg hy, if_neg hx]
    simp only [fineHalfTurn, halfTurn] at hlo hhi ⊢
    exact round_between (by omega) (by omega)

theorem ofPoint_between (y x : ℤ) : -halfTurn ≤ ofPoint y x ∧ ofPoint y x ≤ halfTurn := by
  by_cases hx : x = 0
  · simp only [ofPoint, hx, halfTurn]
    split_ifs <;> omega
  · obtain ⟨hlo, hhi⟩ := ofPoint_quadrant y hx
    have hquadrant := quadrant_between y x
    simp only [halfTurn] at hlo hhi ⊢
    omega

theorem ofPoint_of_signs (y x : ℤ) :
    (0 ≤ y → 0 < x → 0 ≤ ofPoint y x ∧ ofPoint y x ≤ 8192) ∧
    (0 ≤ y → x < 0 → 8192 ≤ ofPoint y x ∧ ofPoint y x ≤ 16384) ∧
    (y < 0 → 0 < x → -8192 ≤ ofPoint y x ∧ ofPoint y x ≤ 0) ∧
    (y < 0 → x < 0 → -16384 ≤ ofPoint y x ∧ ofPoint y x ≤ -8192) := by
  have hquadrant (off : x ≠ 0) := ofPoint_quadrant y off
  simp only [quadrant, halfTurn] at hquadrant
  refine ⟨?_, ?_, ?_, ?_⟩
  all_goals
    intro hy hx
    have hbounds := hquadrant (by omega)
    split_ifs at hbounds <;> omega

/-! ## The words -/

/-- The angle of a point is found within words. No shift has a count of the width of its word or more, scaling
loses no bit at the upper end, the point that is turned fits signed words of 128 bits, each of its angles
fits one of 64 bits, and the result one of 32 bits. -/
structure InWords (y x : ℤ) : Prop where
  length_le : bitLength (max x.natAbs y.natAbs) ≤ 128
  rightCount_lt : bitLength (max x.natAbs y.natAbs) - scaledBits < 128
  leftCount_lt : scaledBits - bitLength (max x.natAbs y.natAbs) < 128
  scaled : (normalize x.natAbs y.natAbs).1 < 2 ^ scaledBits ∧ (normalize x.natAbs y.natAbs).2 < 2 ^ scaledBits
  turned : ∀ n ≤ 30, FitsSigned 128 (turnedBy n x.natAbs y.natAbs).x ∧
    FitsSigned 128 (turnedBy n x.natAbs y.natAbs).y ∧ FitsSigned 64 (turnedBy n x.natAbs y.natAbs).turned
  shifted : ∀ n ≤ 30, FitsSigned 128 ((turnedBy n x.natAbs y.natAbs).x >>> n) ∧
    FitsSigned 128 ((turnedBy n x.natAbs y.natAbs).y >>> n)
  mirrored : FitsSigned 64 (fineHalfTurn - fineAngle x.natAbs y.natAbs)
  folded : FitsSigned 64 (fold y x (fineAngle x.natAbs y.natAbs))
  rounded : FitsSigned 64 (fold y x (fineAngle x.natAbs y.natAbs) + 32768)
  result : FitsSigned 32 (ofPoint y x)

theorem Turning.Bounded.fits {n : ℕ} {t : Turning} (h : t.Bounded n) (hn : n ≤ 30) :
    FitsSigned 128 t.x ∧ FitsSigned 128 t.y ∧ FitsSigned 64 t.turned := by
  obtain ⟨hx, hx', hy, hy', hturned⟩ := h
  have hpos : (0 : ℤ) < 2 ^ (scaledBits - n) := by positivity
  generalize (2 : ℤ) ^ (scaledBits - n) = unit at hx' hpos
  simp only [scaledBits] at hx' hy hy'
  exact ⟨.of_natAbs_lt (by omega), .of_natAbs_lt (by omega), .of_natAbs_lt (by omega)⟩

theorem ofPoint_inWords {y x : ℤ} (hy : FitsSigned 128 y) (hx : FitsSigned 128 x) : InWords y x := by
  have hlength : bitLength (max x.natAbs y.natAbs) ≤ 128 := by
    apply bitLength_le
    simp only [FitsSigned] at hy hx
    omega
  have hturned {n : ℕ} (hn : n ≤ 30) := (turnedBy_bounded hn x.natAbs y.natAbs).fits hn
  obtain ⟨hnonneg, hquarter⟩ := fineAngle_between x.natAbs y.natAbs
  obtain ⟨hlo, hhi⟩ := fold_between y x hnonneg hquarter
  have hquadrant := quadrant_between y x
  have hresult := ofPoint_between y x
  simp only [fineHalfTurn, halfTurn] at hquarter hlo hhi hresult
  exact {
    length_le := hlength
    rightCount_lt := Nat.lt_of_le_of_lt (Nat.sub_le_sub_right hlength _) (by decide)
    leftCount_lt := Nat.lt_of_le_of_lt (Nat.sub_le _ _) (by decide)
    scaled := normalize_lt _ _
    turned := fun n hn => hturned hn
    shifted := fun n hn => ⟨(hturned hn).1.shiftRight n, (hturned hn).2.1.shiftRight n⟩
    mirrored := .of_natAbs_lt (by simp only [fineHalfTurn]; omega)
    folded := .of_natAbs_lt (by omega)
    rounded := .of_natAbs_lt (by omega)
    result := .of_natAbs_lt (by omega) }

end SwapStake.Angle
