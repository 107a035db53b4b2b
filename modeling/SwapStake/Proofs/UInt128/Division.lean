import SwapStake.Proofs.UInt128.MulDiv
/-!
# The division of words

`UInt128.divMod` is Euclidean division (`divMod_exact`). By a divisor of two limbs the quotient is first
tried: the divisor is cut to the limb that leads it once its highest bit is moved up, which is the divisor
without its low bits (`toNat_leadingLimb`), and the quotient by what is left is the quotient sought or one
more (`div_le_div_cut`, `div_cut_le`). One less than that is therefore the quotient or one below it
(`trialQuotient_bounds`), so the product by it can be taken off the dividend, and one correction is enough.
-/

namespace SwapStake.UInt128

variable {num den : UInt128}

/-! ## Differences -/

theorem sub?_bind_sub?_eq_some_iff {a b c d : UInt64} :
    (Word64.sub? a b).bind (Word64.sub? · c) = some d ↔ b.toNat + c.toNat + d.toNat = a.toNat := by
  rw [Option.bind_eq_some_iff]
  constructor
  · rintro ⟨t, ht, hd⟩
    rw [Word64.sub?_eq_some_iff] at ht hd
    omega
  · intro h
    have ha := a.toNat_lt
    have ht : (UInt64.ofNat (c.toNat + d.toNat)).toNat = c.toNat + d.toNat :=
      UInt64.toNat_ofNat_of_lt' (by show _ < 2 ^ 64; omega)
    exact ⟨_, Word64.sub?_eq_some_iff.2 (by rw [ht]; omega), Word64.sub?_eq_some_iff.2 ht.symm⟩

theorem subChecked_eq_ok_iff {a b c : UInt128} :
    a.subChecked b = .ok c ↔ b.toNat + c.toNat = a.toNat := by
  have h1 := a.lo.toNat_lt
  have h2 := b.lo.toNat_lt
  have h3 := c.lo.toNat_lt
  have hlo := UInt64.toNat_sub a.lo b.lo
  have hborrow : (if a.lo < b.lo then 1 else 0 : UInt64).toNat = if a.lo.toNat < b.lo.toNat then 1 else 0 := by
    simp only [UInt64.lt_iff_toNat_lt]
    split <;> rfl
  refine withUpper_eq_ok_iff.trans ?_
  rw [sub?_bind_sub?_eq_some_iff, hborrow, ← UInt64.toNat_inj, hlo]
  unfold toNat
  split <;> omega

/-! ## The leading limb -/

theorem bounds_of_wide (wide : den.hi ≠ 0) :
    0 < Word64.bitLength den.hi ∧ Word64.bitLength den.hi ≤ 64 ∧
      2 ^ 63 * 2 ^ Word64.bitLength den.hi ≤ den.toNat ∧ den.toNat < 2 ^ 64 * 2 ^ Word64.bitLength den.hi := by
  obtain ⟨hpos, hle⟩ := bitLength_pos_and_two_pow_le wide
  have hlt := toNat_lt_two_pow_bitLength den.hi
  have hlo := den.lo.toNat_lt
  have hhalf : 2 ^ Word64.bitLength den.hi = 2 * 2 ^ (Word64.bitLength den.hi - 1) := by
    rw [← Nat.pow_succ', Nat.succ_eq_add_one, Nat.sub_add_cancel hpos]
  refine ⟨hpos, bitLength_le den.hi, ?_, ?_⟩
  · rw [hhalf]
    unfold toNat
    omega
  · unfold toNat
    omega

/-- **The leading limb is the divisor without its low bits.** -/
theorem toNat_leadingLimb (wide : den.hi ≠ 0) :
    den.leadingLimb.toNat = den.toNat / 2 ^ Word64.bitLength den.hi := by
  obtain ⟨hpos, hle, -, hlt⟩ := bounds_of_wide wide
  have hsplit := two_pow_mul_two_pow hle
  have hfits : den.toNat * 2 ^ (64 - Word64.bitLength den.hi) < 2 ^ 128 :=
    calc den.toNat * 2 ^ (64 - Word64.bitLength den.hi)
        < 2 ^ 64 * 2 ^ Word64.bitLength den.hi * 2 ^ (64 - Word64.bitLength den.hi) :=
          Nat.mul_lt_mul_of_pos_right hlt (Nat.two_pow_pos _)
      _ = 2 ^ 128 := by rw [Nat.mul_assoc, hsplit]
  have hshift := toNat_shiftLeft den (64 - Word64.bitLength den.hi)
  rw [Nat.mod_eq_of_lt (by omega : 64 - Word64.bitLength den.hi < 128), Nat.mod_eq_of_lt hfits] at hshift
  have hupper : den.leadingLimb.toNat = (den.shiftLeft (64 - Word64.bitLength den.hi)).toNat / 2 ^ 64 := by
    have hlo := (den.shiftLeft (64 - Word64.bitLength den.hi)).lo.toNat_lt
    unfold leadingLimb toNat
    omega
  rw [hupper, hshift, ← hsplit, Nat.mul_div_mul_right _ _ (Nat.two_pow_pos _)]

theorem two_pow_le_leadingLimb (wide : den.hi ≠ 0) : 2 ^ 63 ≤ den.leadingLimb.toNat := by
  rw [toNat_leadingLimb wide, Nat.le_div_iff_mul_le (Nat.two_pow_pos _)]
  exact (bounds_of_wide wide).2.2.1

theorem half_lt_leadingLimb (num : UInt128) (wide : den.hi ≠ 0) : (num.shiftRight 1).hi < den.leadingLimb := by
  have hnum := num.toNat_lt
  have hhalf : (num.shiftRight 1).toNat = num.toNat / 2 := toNat_shiftRight num 1
  have hlead := two_pow_le_leadingLimb wide
  rw [UInt64.lt_iff_toNat_lt]
  unfold toNat at hhalf hnum
  omega

/-! ## The trial quotient -/

theorem toNat_shiftedBack (estimate : UInt64) {k : Nat} (hpos : 0 < k) (hk : k ≤ 64) :
    (((ofUInt64 estimate).shiftLeft (64 - k)).shiftRight 63).lo.toNat = estimate.toNat / 2 ^ (k - 1) := by
  have hsmall := estimate.toNat_lt
  have hroom : 2 ^ (64 - k) * 2 ^ (k - 1) = 2 ^ 63 := by
    rw [← Nat.pow_add, show 64 - k + (k - 1) = 63 by omega]
  have hfits : estimate.toNat * 2 ^ (64 - k) < 2 ^ 128 := by
    have hpow : 2 ^ (64 - k) ≤ 2 ^ 63 := Nat.pow_le_pow_right (by decide) (by omega)
    calc estimate.toNat * 2 ^ (64 - k) ≤ (2 ^ 64 - 1) * 2 ^ 63 := Nat.mul_le_mul (by omega) hpow
      _ < 2 ^ 128 := by decide
  have hback : (((ofUInt64 estimate).shiftLeft (64 - k)).shiftRight 63).toNat = estimate.toNat / 2 ^ (k - 1) := by
    rw [toNat_shiftRight, toNat_shiftLeft, toNat_ofUInt64, Nat.mod_eq_of_lt (by omega : 64 - k < 128),
      Nat.mod_eq_of_lt hfits, Nat.mod_eq_of_lt (by decide : 63 < 128), ← hroom, Nat.mul_comm,
      Nat.mul_div_mul_left _ _ (Nat.two_pow_pos _)]
  have hdrop := Nat.div_le_self estimate.toNat (2 ^ (k - 1))
  generalize estimate.toNat / 2 ^ (k - 1) = quotient at *
  unfold toNat at hback
  omega

theorem toNat_lessOne (q : UInt64) : (if q = 0 then q else q - 1).toNat = q.toNat - 1 := by
  split
  · rename_i hzero
    rw [hzero]
    rfl
  · rename_i hne
    have hle : (1 : UInt64) ≤ q := UInt64.le_iff_toNat_le.2 (Word64.toNat_pos hne)
    rw [UInt64.toNat_sub_of_le _ _ hle, UInt64.toNat_one]

/-- **The trial quotient is one less than the quotient by the divisor without its low bits.** -/
theorem toNat_trialQuotient (num : UInt128) (wide : den.hi ≠ 0) :
    (trialQuotient num den).toNat =
      num.toNat / (den.toNat / 2 ^ Word64.bitLength den.hi * 2 ^ Word64.bitLength den.hi) - 1 := by
  obtain ⟨hpos, hle, -, -⟩ := bounds_of_wide wide
  obtain ⟨hestimate, -⟩ := divLimb_toNat (half_lt_leadingLimb num wide)
  have hhalf : (num.shiftRight 1).toNat = num.toNat / 2 := toNat_shiftRight num 1
  rw [hhalf, toNat_leadingLimb wide] at hestimate
  have hback := toNat_shiftedBack (divLimb (num.shiftRight 1) den.leadingLimb).1 hpos hle
  have hdouble : 2 ^ Word64.bitLength den.hi = 2 * 2 ^ (Word64.bitLength den.hi - 1) := by
    rw [← Nat.pow_succ', Nat.succ_eq_add_one, Nat.sub_add_cancel hpos]
  have hvalue : 2 * (den.toNat / 2 ^ Word64.bitLength den.hi * 2 ^ (Word64.bitLength den.hi - 1)) =
      den.toNat / 2 ^ Word64.bitLength den.hi * 2 ^ Word64.bitLength den.hi := by
    generalize den.toNat / 2 ^ Word64.bitLength den.hi = lead
    rw [hdouble, Nat.mul_left_comm]
  rw [hestimate, Nat.div_div_eq_div_mul, Nat.div_div_eq_div_mul, hvalue] at hback
  rw [← hback]
  exact toNat_lessOne _

theorem div_le_div_cut {n d cut : Nat} (hcut : 0 < d / cut) : n / d ≤ n / (d / cut * cut) := by
  have hpos : 0 < cut := by
    by_contra hzero
    rw [Nat.eq_zero_of_not_pos hzero, Nat.div_zero] at hcut
    exact Nat.lt_irrefl 0 hcut
  exact Nat.div_le_div_left (Nat.div_mul_le_self d cut) (Nat.mul_pos hcut hpos)

theorem div_cut_le {n d k : Nat} (hn : n < 2 ^ 128) (hpos : 0 < k) (hk : k ≤ 64) (hd : 2 ^ 63 * 2 ^ k ≤ d) :
    n / (d / 2 ^ k * 2 ^ k) ≤ n / d + 1 := by
  have hlead : 2 ^ 63 ≤ d / 2 ^ k := (Nat.le_div_iff_mul_le (Nat.two_pow_pos k)).2 hd
  have hrest : d ≤ d / 2 ^ k * 2 ^ k + (2 ^ k - 1) := by
    have hmod := Nat.mod_add_div' d (2 ^ k)
    have hlt := Nat.mod_lt d (Nat.two_pow_pos k)
    omega
  have hroom : 2 ^ (65 - k) * 2 ^ k = 2 ^ 65 := by
    rw [← Nat.pow_add, Nat.sub_add_cancel (by omega)]
  have hquotient : n / d < 2 ^ (65 - k) := by
    rw [Nat.div_lt_iff_lt_mul (by have := Nat.two_pow_pos k; omega)]
    calc n < 2 ^ 63 * 2 ^ 65 := hn
      _ = 2 ^ (65 - k) * (2 ^ 63 * 2 ^ k) := by rw [← hroom, Nat.mul_left_comm]
      _ ≤ 2 ^ (65 - k) * d := Nat.mul_le_mul_left _ hd
  -- with one bit cut off the room is used up to the last unit, with more there is plenty
  have hcut : 2 ^ (65 - k) * (2 ^ k - 1) ≤ 2 ^ 63 * 2 ^ k := by
    rw [Nat.mul_sub, hroom, Nat.mul_one]
    obtain rfl | htwo : k = 1 ∨ 2 ≤ k := by omega
    · decide
    · calc 2 ^ 65 - 2 ^ (65 - k) ≤ 2 ^ 63 * 2 ^ 2 := Nat.sub_le _ _
        _ ≤ 2 ^ 63 * 2 ^ k := Nat.mul_le_mul_left _ (Nat.pow_le_pow_right (by decide) htwo)
  have hslack : (n / d + 1) * (2 ^ k - 1) ≤ d / 2 ^ k * 2 ^ k :=
    calc (n / d + 1) * (2 ^ k - 1) ≤ 2 ^ (65 - k) * (2 ^ k - 1) := Nat.mul_le_mul_right _ hquotient
      _ ≤ 2 ^ 63 * 2 ^ k := hcut
      _ ≤ d / 2 ^ k * 2 ^ k := Nat.mul_le_mul_right _ hlead
  have hcutpos : 0 < d / 2 ^ k * 2 ^ k := Nat.mul_pos (by omega) (Nat.two_pow_pos k)
  have hdpos : 0 < d := Nat.lt_of_lt_of_le hcutpos (Nat.div_mul_le_self d (2 ^ k))
  refine Nat.le_of_lt_succ ((Nat.div_lt_iff_lt_mul hcutpos).2 ?_)
  calc n < (n / d + 1) * d := Nat.lt_mul_of_div_lt (Nat.lt_succ_self _) hdpos
    _ ≤ (n / d + 1) * (d / 2 ^ k * 2 ^ k + (2 ^ k - 1)) := Nat.mul_le_mul_left _ hrest
    _ = (n / d + 1) * (d / 2 ^ k * 2 ^ k) + (n / d + 1) * (2 ^ k - 1) := Nat.mul_add _ _ _
    _ ≤ (n / d + 1) * (d / 2 ^ k * 2 ^ k) + d / 2 ^ k * 2 ^ k := Nat.add_le_add_left hslack _
    _ = (n / d + 2) * (d / 2 ^ k * 2 ^ k) := by ring

/-- **The trial quotient is the quotient or one below it.** -/
theorem trialQuotient_bounds (num : UInt128) (wide : den.hi ≠ 0) :
    (trialQuotient num den).toNat ≤ num.toNat / den.toNat ∧
      num.toNat / den.toNat ≤ (trialQuotient num den).toNat + 1 := by
  obtain ⟨hpos, hle, hden, -⟩ := bounds_of_wide wide
  have hlead := two_pow_le_leadingLimb wide
  rw [toNat_leadingLimb wide] at hlead
  have hbelow := div_cut_le num.toNat_lt hpos hle hden
  have habove := div_le_div_cut (n := num.toNat) (Nat.lt_of_lt_of_le (Nat.two_pow_pos 63) hlead)
  rw [toNat_trialQuotient num wide]
  generalize num.toNat / den.toNat = quotient at *
  generalize num.toNat / (den.toNat / _ * _) = cut at *
  omega

theorem trial_succeeds (num : UInt128) (wide : den.hi ≠ 0) : ∃ product rem,
    den.mulChecked (ofUInt64 (trialQuotient num den)) = .ok product ∧ num.subChecked product = .ok rem ∧
      den.toNat * (trialQuotient num den).toNat + rem.toNat = num.toNat := by
  have hfits : den.toNat * (trialQuotient num den).toNat ≤ num.toNat :=
    Nat.le_trans (Nat.mul_le_mul_left _ (trialQuotient_bounds num wide).1) (Nat.mul_div_le _ _)
  have hnum := num.toNat_lt
  refine ⟨ofNat (den.toNat * (trialQuotient num den).toNat),
    ofNat (num.toNat - den.toNat * (trialQuotient num den).toNat), ?_, ?_, ?_⟩
  · rw [mulChecked_eq_ok_iff, toNat_ofUInt64, toNat_ofNat, Nat.mod_eq_of_lt (by omega)]
  · rw [subChecked_eq_ok_iff, toNat_ofNat, toNat_ofNat, Nat.mod_eq_of_lt (by omega), Nat.mod_eq_of_lt (by omega)]
    omega
  · rw [toNat_ofNat, Nat.mod_eq_of_lt (by omega)]
    omega

/-! ## Division -/

theorem divMod_by_limb (num : UInt128) (narrow : den.hi = 0) (hden : den.toNat ≠ 0) : ∃ q r,
    divMod num den = .ok (q, r) ∧ q.toNat = num.toNat / den.toNat ∧ r.toNat = num.toNat % den.toNat := by
  obtain ⟨hi, lo⟩ := den
  obtain rfl : hi = 0 := narrow
  have hlo : (⟨0, lo⟩ : UInt128).toNat = lo.toNat := toNat_ofUInt64 lo
  rw [hlo] at hden ⊢
  have hne : lo ≠ 0 := by
    rintro rfl
    exact hden rfl
  obtain ⟨hq, hr⟩ := divWord_toNat num hne
  refine ⟨(divWord num lo).1, ofUInt64 (divWord num lo).2, ?_, hq, by rw [toNat_ofUInt64, hr]⟩
  have hzero : ¬ (⟨0, lo⟩ : UInt128).isZero := by rwa [isZero_iff, hlo]
  rw [divMod, if_neg hzero, if_pos rfl, divModWord, if_neg hne]
  rfl

theorem divMod_of_trial {product rem : UInt128} (wide : den.hi ≠ 0)
    (hmul : den.mulChecked (ofUInt64 (trialQuotient num den)) = .ok product)
    (hsub : num.subChecked product = .ok rem) :
    divMod num den = if den ≤ rem then
        (rem.subChecked den).map fun r => (ofUInt64 (trialQuotient num den + 1), r)
      else .ok (ofUInt64 (trialQuotient num den), rem) := by
  have hzero : ¬ den.isZero := fun h => wide (hi_eq_zero_iff.2 (by rw [isZero_iff.1 h]; decide))
  simp only [divMod, if_neg hzero, if_neg wide, hmul, hsub, bind, Except.bind]
  split
  · cases rem.subChecked den <;> rfl
  · rfl

theorem divMod_by_word (num : UInt128) (wide : den.hi ≠ 0) : ∃ q r,
    divMod num den = .ok (q, r) ∧ q.toNat = num.toNat / den.toNat ∧ r.toNat = num.toNat % den.toNat := by
  obtain ⟨-, habove⟩ := trialQuotient_bounds num wide
  obtain ⟨product, rem, hmul, hsub, hrem⟩ := trial_succeeds num wide
  have hdiv := divMod_of_trial wide hmul hsub
  generalize trialQuotient num den = trial at *
  have hlarge : 2 ^ 64 ≤ den.toNat := Nat.not_lt.1 (hi_eq_zero_iff.not.1 wide)
  have hpos : 0 < den.toNat := Nat.lt_of_lt_of_le (by decide) hlarge
  by_cases hmore : den ≤ rem
  · have hless := le_iff_toNat_le.1 hmore
    have hlast : (ofNat (rem.toNat - den.toNat)).toNat = rem.toNat - den.toNat := by
      rw [toNat_ofNat, Nat.mod_eq_of_lt (Nat.lt_of_le_of_lt (Nat.sub_le _ _) rem.toNat_lt)]
    have hsub' : rem.subChecked den = .ok (ofNat (rem.toNat - den.toNat)) := by
      rw [subChecked_eq_ok_iff, hlast, Nat.add_sub_cancel' hless]
    have hquotient : num.toNat / den.toNat = trial.toNat + 1 := by
      refine Nat.le_antisymm habove ((Nat.le_div_iff_mul_le hpos).2 ?_)
      rw [Nat.mul_comm, Nat.mul_add_one]
      omega
    have hlimb : num.toNat / den.toNat < 2 ^ 64 :=
      (Nat.div_lt_iff_lt_mul hpos).2 (Nat.lt_of_lt_of_le num.toNat_lt (Nat.mul_le_mul_left (2 ^ 64) hlarge))
    have hdivides := Nat.div_add_mod num.toNat den.toNat
    rw [hquotient] at hlimb hdivides ⊢
    rw [Nat.mul_add_one] at hdivides
    rw [if_pos hmore, hsub'] at hdiv
    refine ⟨_, _, hdiv, ?_, ?_⟩
    · rw [toNat_ofUInt64, UInt64.toNat_add, UInt64.toNat_one, Nat.mod_eq_of_lt hlimb]
    · rw [hlast]
      omega
  · rw [le_iff_toNat_le, Nat.not_le] at hmore
    rw [if_neg (by rwa [le_iff_toNat_le, Nat.not_le])] at hdiv
    refine ⟨_, _, hdiv, ?_⟩
    rw [toNat_ofUInt64, eq_comm, eq_comm (a := rem.toNat), Nat.div_mod_unique hpos]
    omega

/-- **A divisor that is not zero has a quotient and a remainder.** -/
theorem divMod_exact (num : UInt128) (hden : den.toNat ≠ 0) : ∃ q r,
    divMod num den = .ok (q, r) ∧ q.toNat = num.toNat / den.toNat ∧ r.toNat = num.toNat % den.toNat := by
  by_cases hhi : den.hi = 0
  · exact divMod_by_limb num hhi hden
  · exact divMod_by_word num hhi

/-- **The division of words is Euclidean division.** It fails for a divisor that is zero and no other, and
the quotient and the remainder that it answers make up the dividend, with a remainder below the divisor.
For a divisor of two limbs the halved dividend starts below the leading limb, as the division by that limb
requires, the trial quotient is the quotient or one below it, and so the product by it is formed and taken
off the dividend without an overflow. -/
theorem divMod_euclidean (num den : UInt128) :
    (divMod num den = .error .divisionByZero ↔ den.toNat = 0) ∧
    (0 < den.toNat → ∃ q r, divMod num den = .ok (q, r) ∧
      num.toNat = q.toNat * den.toNat + r.toNat ∧ r.toNat < den.toNat) ∧
    (den.hi ≠ 0 →
      (num.shiftRight 1).hi < den.leadingLimb ∧
      (trialQuotient num den).toNat ≤ num.toNat / den.toNat ∧
      num.toNat / den.toNat ≤ (trialQuotient num den).toNat + 1 ∧
      ∃ product rem, den.mulChecked (ofUInt64 (trialQuotient num den)) = .ok product ∧
        num.subChecked product = .ok rem) := by
  refine ⟨⟨fun hfails => ?_, fun hzero => ?_⟩, fun hpos => ?_, fun wide => ?_⟩
  · by_contra hden
    obtain ⟨q, r, hdiv, -⟩ := divMod_exact num hden
    rw [hdiv] at hfails
    cases hfails
  · rw [divMod, if_pos (isZero_iff.2 hzero)]
  · obtain ⟨q, r, hdiv, hq, hr⟩ := divMod_exact num (Nat.ne_of_gt hpos)
    refine ⟨q, r, hdiv, ?_, ?_⟩
    · rw [hq, hr, Nat.mul_comm, Nat.div_add_mod]
    · rw [hr]
      exact Nat.mod_lt _ hpos
  · obtain ⟨hbelow, habove⟩ := trialQuotient_bounds num wide
    obtain ⟨product, rem, hmul, hsub, -⟩ := trial_succeeds num wide
    exact ⟨half_lt_leadingLimb num wide, hbelow, habove, product, rem, hmul, hsub⟩

theorem divMod_euclidean_corrected :
    (∃ q r, divMod max ⟨1, 1⟩ = .ok (q, r) ∧
      max.toNat = q.toNat * (⟨1, 1⟩ : UInt128).toNat + r.toNat ∧ r.toNat < (⟨1, 1⟩ : UInt128).toNat) ∧
    (max.shiftRight 1).hi < (⟨1, 1⟩ : UInt128).leadingLimb ∧
    max.toNat / (⟨1, 1⟩ : UInt128).toNat = (trialQuotient max ⟨1, 1⟩).toNat + 1 := by
  obtain ⟨-, hdivides, htrial⟩ := divMod_euclidean max ⟨1, 1⟩
  exact ⟨hdivides (by decide), (htrial (by decide)).1, by decide +kernel⟩

end SwapStake.UInt128
