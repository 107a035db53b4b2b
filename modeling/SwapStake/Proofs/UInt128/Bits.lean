import SwapStake.UInt128.Basic
/-!
# Lengths and shifts on natural numbers

The number of bits of a limb and of a word bounds its number from both sides. A shift by a count below
128 multiplies by a power of two and keeps what fits, or divides by one (`toNat_shiftLeft`,
`toNat_shiftRight`), whether it moves bits within the limbs, across them, or by a whole limb and more.
-/

namespace SwapStake.UInt128

/-! ## Lengths -/

theorem toNat_lt_two_pow_bitLength (w : UInt64) : w.toNat < 2 ^ Word64.bitLength w := by
  unfold Word64.bitLength
  split
  · rename_i h
    simp [h]
  · exact Nat.lt_log2_self

theorem bitLength_le (w : UInt64) : Word64.bitLength w ≤ 64 := by
  unfold Word64.bitLength
  split
  · omega
  · rename_i h
    have hne : w.toNat ≠ 0 := by
      rwa [ne_eq, ← UInt64.toNat_zero, UInt64.toNat_inj]
    have := (Nat.log2_lt hne).2 w.toNat_lt
    omega

theorem bitLength_pos_and_two_pow_le {w : UInt64} (h : w ≠ 0) :
    0 < Word64.bitLength w ∧ 2 ^ (Word64.bitLength w - 1) ≤ w.toNat := by
  have hne : w.toNat ≠ 0 := Nat.ne_of_gt (Word64.toNat_pos h)
  rw [Word64.bitLength, if_neg h]
  exact ⟨Nat.succ_pos _, Nat.log2_self_le hne⟩

theorem toNat_lt_two_pow_leadingZeros (a : UInt128) : a.toNat < 2 ^ (128 - a.leadingZeros) := by
  have hlo := toNat_lt_two_pow_bitLength a.lo
  have hhi := toNat_lt_two_pow_bitLength a.hi
  have hlo64 := bitLength_le a.lo
  have hhi64 := bitLength_le a.hi
  have hlt := a.lo.toNat_lt
  unfold leadingZeros
  split
  · rename_i h
    rw [show 128 - (128 - Word64.bitLength a.lo) = Word64.bitLength a.lo by omega]
    simpa [toNat, h] using hlo
  · rw [show 128 - (64 - Word64.bitLength a.hi) = Word64.bitLength a.hi + 64 by omega, Nat.pow_add]
    have := Nat.mul_le_mul_right (2 ^ 64) (Nat.succ_le_of_lt hhi)
    unfold toNat
    omega

/-! ## Shifts of a limb -/

theorem toNat_limb_shiftLeft (w : UInt64) {k : Nat} (hk : k < 64) :
    (w <<< UInt64.ofNat k).toNat = w.toNat * 2 ^ k % 2 ^ 64 := by
  rw [UInt64.toNat_shiftLeft, UInt64.toNat_ofNat', Nat.mod_eq_of_lt (by omega : k < 2 ^ 64),
    Nat.mod_eq_of_lt hk, Nat.shiftLeft_eq]

theorem toNat_limb_shiftRight (w : UInt64) {k : Nat} (hk : k < 64) :
    (w >>> UInt64.ofNat k).toNat = w.toNat / 2 ^ k := by
  rw [UInt64.toNat_shiftRight, UInt64.toNat_ofNat', Nat.mod_eq_of_lt (by omega : k < 2 ^ 64),
    Nat.mod_eq_of_lt hk, Nat.shiftRight_eq_div_pow]

/-! ## Shifts of a word -/

theorem two_pow_mul_two_pow {k : Nat} (hk : k ≤ 64) : 2 ^ k * 2 ^ (64 - k) = 2 ^ 64 := by
  rw [← Nat.pow_add, Nat.add_sub_cancel' hk]

/-- **A left shift multiplies** and drops what leaves the word. -/
theorem toNat_shiftLeft (a : UInt128) (n : Nat) :
    (a.shiftLeft n).toNat = a.toNat * 2 ^ (n % 128) % 2 ^ 128 := by
  have hlt : n % 128 < 128 := Nat.mod_lt _ (by decide)
  simp only [shiftLeft]
  generalize n % 128 = k at *
  have ha := a.toNat_lt
  split
  · rename_i hzero
    rw [hzero, Nat.pow_zero, Nat.mul_one, Nat.mod_eq_of_lt ha]
  · split
    · rename_i hsmall
      have hmoved : a.lo.toNat / 2 ^ (64 - k) = a.lo.toNat * 2 ^ k / 2 ^ 64 := by
        rw [← two_pow_mul_two_pow (k := k) (by omega), Nat.mul_comm (2 ^ k),
          Nat.mul_div_mul_right _ _ (Nat.two_pow_pos k)]
      show UInt64.toNat _ * 2 ^ 64 + UInt64.toNat _ = _
      rw [UInt64.toNat_add, toNat_limb_shiftLeft _ hsmall, toNat_limb_shiftRight _ (by omega),
        toNat_limb_shiftLeft _ hsmall, hmoved, toNat, Nat.add_mul, Nat.mul_right_comm]
      omega
    · rename_i hlarge
      have hpow : 2 ^ k = 2 ^ (k - 64) * 2 ^ 64 := by
        rw [← Nat.pow_add, Nat.sub_add_cancel (by omega)]
      show UInt64.toNat _ * 2 ^ 64 + UInt64.toNat 0 = _
      rw [toNat_limb_shiftLeft _ (by omega), hpow, toNat, ← Nat.mul_assoc, Nat.add_mul, Nat.mul_right_comm,
        UInt64.toNat_zero]
      omega

/-- **A right shift divides.** -/
theorem toNat_shiftRight (a : UInt128) (n : Nat) : (a.shiftRight n).toNat = a.toNat / 2 ^ (n % 128) := by
  have hlt : n % 128 < 128 := Nat.mod_lt _ (by decide)
  simp only [shiftRight]
  generalize n % 128 = k at *
  split
  · rename_i hzero
    rw [hzero, Nat.pow_zero, Nat.div_one]
  · split
    · rename_i hsmall
      have hsplit := two_pow_mul_two_pow (k := k) (by omega)
      have hpos : 0 < 2 ^ k := Nat.two_pow_pos k
      have hkept : a.hi.toNat / 2 ^ k = a.hi.toNat * 2 ^ (64 - k) / 2 ^ 64 := by
        rw [← hsplit, Nat.mul_div_mul_right _ _ (Nat.two_pow_pos _)]
      have hmoved : a.hi.toNat * 2 ^ (64 - k) % 2 ^ 64 + 2 ^ (64 - k) ≤ 2 ^ 64 := by
        rw [← hsplit, Nat.mul_mod_mul_right, ← Nat.succ_mul]
        exact Nat.mul_le_mul_right _ (Nat.succ_le_of_lt (Nat.mod_lt _ hpos))
      have hrest : a.lo.toNat / 2 ^ k < 2 ^ (64 - k) := by
        rw [Nat.div_lt_iff_lt_mul hpos, Nat.mul_comm, hsplit]
        exact a.lo.toNat_lt
      have hvalue : a.toNat / 2 ^ k = a.hi.toNat * 2 ^ (64 - k) + a.lo.toNat / 2 ^ k := by
        rw [toNat, ← hsplit, Nat.mul_left_comm, Nat.mul_add_div hpos]
      show UInt64.toNat _ * 2 ^ 64 + UInt64.toNat _ = _
      rw [UInt64.toNat_add, toNat_limb_shiftRight _ hsmall, toNat_limb_shiftRight _ hsmall,
        toNat_limb_shiftLeft _ (by omega), hkept, hvalue]
      generalize a.lo.toNat / 2 ^ k = rest at *
      generalize 2 ^ (64 - k) = room at *
      omega
    · rename_i hlarge
      have hpow : 2 ^ k = 2 ^ 64 * 2 ^ (k - 64) := by
        rw [← Nat.pow_add, Nat.add_sub_cancel' (by omega)]
      have hupper : a.toNat / 2 ^ 64 = a.hi.toNat := by
        have hlo := a.lo.toNat_lt
        unfold toNat
        omega
      show UInt64.toNat 0 * 2 ^ 64 + UInt64.toNat _ = _
      rw [toNat_limb_shiftRight _ (by omega), hpow, ← Nat.div_div_eq_div_mul, hupper, UInt64.toNat_zero,
        Nat.zero_mul, Nat.zero_add]

end SwapStake.UInt128
