import Mathlib.Data.Nat.Size
import SwapStake.Proofs.UInt128.Division
/-!
# Limbs stand for natural numbers

Two limbs stand for the number that they are the digits of, to the base `2 ^ 64`, and every operation on them
is the operation on numbers (`UInt128.limbs_refine`). Sum, difference and product answer the exact result
whenever it is the number of a word, and overflow otherwise: that a result is right is said by the
`_eq_ok_iff` lemmas, and that there is no other refusal by the `_eq_error` lemmas here. The length of a word
is the length of its upper limb above a whole lower one, or that of its lower limb.
-/

namespace SwapStake.UInt128

variable {a b c : UInt128} {e : ArithmeticError}

/-! ## Answers -/

theorem withUpper_eq_error {hi? : Option UInt64} {lo : UInt64}
    (h : (match hi? with
      | some hi => .ok ⟨hi, lo⟩
      | none => .error .overflow : Except ArithmeticError UInt128) = .error e) : e = .overflow := by
  cases hi? with
  | none => exact (Except.error.inj h).symm
  | some hi => cases h

theorem addChecked_eq_error (h : a.addChecked b = .error e) : e = .overflow :=
  withUpper_eq_error h

theorem subChecked_eq_error (h : a.subChecked b = .error e) : e = .overflow :=
  withUpper_eq_error h

theorem mulChecked_eq_error (h : a.mulChecked b = .error e) : e = .overflow := by
  simp only [mulChecked] at h
  split at h
  · exact (Except.error.inj h).symm
  · split at h
    · exact (Except.error.inj h).symm
    · exact withUpper_eq_error h

theorem map_toNat_of_iff {x : Except ArithmeticError UInt128} {n : Nat} (answers : ∀ c, x = .ok c ↔ n = c.toNat)
    (refuses : ∀ e, x = .error e → e = .overflow) :
    x.map toNat = if n < 2 ^ 128 then .ok n else .error .overflow := by
  by_cases hfits : n < 2 ^ 128
  · have hword : (ofNat n).toNat = n := by rw [toNat_ofNat, Nat.mod_eq_of_lt hfits]
    rw [if_pos hfits, (answers _).2 hword.symm]
    exact congrArg Except.ok hword
  · rw [if_neg hfits]
    cases x with
    | error e => exact congrArg Except.error (refuses e rfl)
    | ok c => exact absurd c.toNat_lt ((answers c).1 rfl ▸ hfits)

theorem toNat_addChecked (a b : UInt128) : (a.addChecked b).map toNat =
    if a.toNat + b.toNat < 2 ^ 128 then .ok (a.toNat + b.toNat) else .error .overflow :=
  map_toNat_of_iff (fun _ => addChecked_eq_ok_iff) fun _ => addChecked_eq_error

theorem toNat_mulChecked (a b : UInt128) : (a.mulChecked b).map toNat =
    if a.toNat * b.toNat < 2 ^ 128 then .ok (a.toNat * b.toNat) else .error .overflow :=
  map_toNat_of_iff (fun _ => mulChecked_eq_ok_iff) fun _ => mulChecked_eq_error

theorem toNat_subChecked (a b : UInt128) : (a.subChecked b).map toNat =
    if b.toNat ≤ a.toNat then .ok (a.toNat - b.toNat) else .error .overflow := by
  have ha := a.toNat_lt
  by_cases hle : b.toNat ≤ a.toNat
  · have hiff : ∀ c, a.subChecked b = .ok c ↔ a.toNat - b.toNat = c.toNat := fun c => by
      rw [subChecked_eq_ok_iff]
      omega
    rw [map_toNat_of_iff hiff fun _ => subChecked_eq_error, if_pos (by omega), if_pos hle]
  · rw [if_neg hle]
    cases hsub : a.subChecked b with
    | error e => exact congrArg Except.error (subChecked_eq_error hsub)
    | ok c => exact absurd (Nat.le.intro (subChecked_eq_ok_iff.1 hsub)) hle

/-! ## Lengths -/

theorem bitLength_eq_size (w : UInt64) : Word64.bitLength w = Nat.size w.toNat := by
  refine Nat.le_antisymm ?_ (Nat.size_le.2 (toNat_lt_two_pow_bitLength w))
  by_cases hzero : w = 0
  · rw [Word64.bitLength, if_pos hzero]
    exact Nat.zero_le _
  · obtain ⟨hpos, hle⟩ := bitLength_pos_and_two_pow_le hzero
    exact Nat.le_of_pred_lt (Nat.lt_size.2 hle)

theorem size_toNat_of_wide (wide : a.hi ≠ 0) : Nat.size a.toNat = Nat.size a.hi.toNat + 64 := by
  have hlo := a.lo.toNat_lt
  have hpos : 0 < Nat.size a.hi.toNat := Nat.size_pos.2 (Word64.toNat_pos wide)
  have hbelow := Nat.lt_size_self a.hi.toNat
  have habove := Nat.lt_size.1 (Nat.pred_lt (Nat.ne_of_gt hpos))
  refine Nat.le_antisymm (Nat.size_le.2 ?_) (Nat.le_of_pred_lt (Nat.lt_size.2 ?_))
  · have := Nat.mul_le_mul_right (2 ^ 64) (Nat.succ_le_of_lt hbelow)
    rw [Nat.pow_add]
    unfold toNat
    omega
  · have hsplit : (Nat.size a.hi.toNat + 64).pred = (Nat.size a.hi.toNat).pred + 64 := by
      rw [Nat.pred_eq_sub_one, Nat.pred_eq_sub_one]
      omega
    rw [hsplit, Nat.pow_add]
    exact (Nat.mul_le_mul_right _ habove).trans (Nat.le_add_right _ _)

theorem leadingZeros_add_size (a : UInt128) : a.leadingZeros + Nat.size a.toNat = 128 := by
  have hlo := bitLength_le a.lo
  have hhi := bitLength_le a.hi
  rw [bitLength_eq_size] at hlo hhi
  unfold leadingZeros
  split
  · rename_i hzero
    have hvalue : a.toNat = a.lo.toNat := by simp [toNat, hzero]
    rw [bitLength_eq_size, hvalue]
    omega
  · rename_i wide
    rw [bitLength_eq_size, size_toNat_of_wide wide]
    omega

/-! ## All operations -/

theorem divModWord_exact (n : UInt128) {d : UInt64} (hd : d ≠ 0) : ∃ q r, n.divModWord d = .ok (q, r) ∧
    n.toNat = q.toNat * d.toNat + r.toNat ∧ r.toNat < d.toNat := by
  obtain ⟨hq, hr⟩ := divWord_toNat n hd
  refine ⟨(divWord n d).1, (divWord n d).2, if_neg hd, ?_, ?_⟩
  · rw [hq, hr, Nat.mul_comm, Nat.div_add_mod]
  · rw [hr]
    exact Nat.mod_lt _ (Word64.toNat_pos hd)

/-- **The limbs of words refine the natural numbers.** Sum, difference and product are exact when they are
numbers of a word, and overflow otherwise. Division by a limb that is not zero is Euclidean division. Words are
ordered as their numbers. A shift to the left multiplies by a power of two modulo `2 ^ 128`, one to the right
divides by it, with the count taken modulo 128. The leading zeros make up for what the binary digits lack of
128. Words and the numbers below `2 ^ 128` are the same by the two conversions. -/
theorem limbs_refine (a b : UInt128) :
    ((a.addChecked b).map toNat =
      if a.toNat + b.toNat < 2 ^ 128 then .ok (a.toNat + b.toNat) else .error .overflow) ∧
    ((a.subChecked b).map toNat =
      if b.toNat ≤ a.toNat then .ok (a.toNat - b.toNat) else .error .overflow) ∧
    ((a.mulChecked b).map toNat =
      if a.toNat * b.toNat < 2 ^ 128 then .ok (a.toNat * b.toNat) else .error .overflow) ∧
    (∀ d : UInt64, d ≠ 0 → ∃ q r, a.divModWord d = .ok (q, r) ∧
      a.toNat = q.toNat * d.toNat + r.toNat ∧ r.toNat < d.toNat) ∧
    (a.cmp b = compare a.toNat b.toNat ∧ (a < b ↔ a.toNat < b.toNat) ∧ (a ≤ b ↔ a.toNat ≤ b.toNat)) ∧
    (∀ n : Nat, (a.shiftLeft n).toNat = a.toNat * 2 ^ (n % 128) % 2 ^ 128 ∧
      (a.shiftRight n).toNat = a.toNat / 2 ^ (n % 128)) ∧
    a.leadingZeros + Nat.size a.toNat = 128 ∧
    ofNat a.toNat = a ∧ ∀ n < 2 ^ 128, (ofNat n).toNat = n :=
  ⟨toNat_addChecked a b, toNat_subChecked a b, toNat_mulChecked a b, fun _ => divModWord_exact a,
    ⟨cmp_eq_compare a b, lt_iff_toNat_lt, le_iff_toNat_le⟩, fun n => ⟨toNat_shiftLeft a n, toNat_shiftRight a n⟩,
    leadingZeros_add_size a, ofNat_toNat a, fun n hn => by rw [toNat_ofNat, Nat.mod_eq_of_lt hn]⟩

theorem limbs_refine_max :
    (∃ q r, max.divModWord 10 = .ok (q, r) ∧
      max.toNat = q.toNat * (10 : UInt64).toNat + r.toNat ∧ r.toNat < (10 : UInt64).toNat) ∧
    (ofNat (2 ^ 128 - 1)).toNat = 2 ^ 128 - 1 := by
  obtain ⟨-, -, -, hdivides, -, -, -, -, hconverts⟩ := limbs_refine max zero
  exact ⟨hdivides 10 (by decide), hconverts _ (by decide)⟩

end SwapStake.UInt128
