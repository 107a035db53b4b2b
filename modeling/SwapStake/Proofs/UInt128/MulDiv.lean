import Mathlib.Tactic.Ring
import SwapStake.Proofs.UInt128.Bits
import SwapStake.UInt128.Division
/-!
# The scaled quotient on natural numbers

What `UInt128.mulDiv` computes, told without limbs. The product of two words is formed exactly
(`mulFull_toNat`), and the division of three limbs gives quotient and remainder whenever the
quotient fits a word (`divThreeLimbs_of_lt`), whichever of its two ways it takes. By a divisor of
two limbs it goes bit by bit: after each bit the two words are quotient and remainder of the bits
taken in so far (`PartialQuotient.Holds`), and the lost 129th bit of the doubled remainder is made
up for by the subtraction that wraps. A quotient that does not fit is refused
(`divThreeLimbs_of_le`), so `mulDiv_frontier` can say exactly which operands have which answer.
-/

namespace SwapStake.UInt128

/-! ## Conversions, sums and products -/

theorem isZero_iff {a : UInt128} : a.isZero ↔ a.toNat = 0 := by
  rw [isZero, Bool.and_eq_true, beq_iff_eq, beq_iff_eq, ← UInt64.toNat_inj, ← UInt64.toNat_inj,
    UInt64.toNat_zero]
  unfold toNat
  omega

theorem toUInt64?_eq_some_iff {a : UInt128} {w : UInt64} : a.toUInt64? = some w ↔ a.toNat = w.toNat := by
  have hw := w.toNat_lt
  have ha := a.lo.toNat_lt
  rw [toUInt64?]
  unfold toNat
  split <;> rename_i h <;> rw [← UInt64.toNat_inj, UInt64.toNat_zero] at h
  · rw [Option.some_inj, ← UInt64.toNat_inj]
    omega
  · simp only [reduceCtorEq, false_iff]
    omega

theorem add?_bind_add?_eq_some_iff {a b c s : UInt64} :
    (Word64.add? a b).bind (Word64.add? · c) = some s ↔ a.toNat + b.toNat + c.toNat = s.toNat := by
  rw [Option.bind_eq_some_iff]
  constructor
  · rintro ⟨t, ht, hs⟩
    rw [Word64.add?_eq_some_iff] at ht hs
    rw [ht, hs]
  · intro h
    have hs := s.toNat_lt
    have ht : (UInt64.ofNat (a.toNat + b.toNat)).toNat = a.toNat + b.toNat :=
      UInt64.toNat_ofNat_of_lt' (by show _ < 2 ^ 64; omega)
    exact ⟨_, Word64.add?_eq_some_iff.2 ht.symm, Word64.add?_eq_some_iff.2 (by rw [ht, h])⟩

theorem withUpper_eq_ok_iff {hi? : Option UInt64} {lo : UInt64} {c : UInt128} :
    (match hi? with
      | some hi => .ok ⟨hi, lo⟩
      | none => .error .overflow : Except ArithmeticError UInt128) = .ok c ↔ hi? = some c.hi ∧ lo = c.lo := by
  obtain ⟨chi, clo⟩ := c
  cases hi? <;> simp

theorem addChecked_eq_ok_iff {a b c : UInt128} :
    a.addChecked b = .ok c ↔ a.toNat + b.toNat = c.toNat := by
  have hlo := UInt64.toNat_add a.lo b.lo
  have h1 := a.lo.toNat_lt
  have h2 := b.lo.toNat_lt
  have h3 := c.lo.toNat_lt
  have hcarry : (if a.lo + b.lo < a.lo then 1 else 0 : UInt64).toNat = (a.lo.toNat + b.lo.toNat) / 2 ^ 64 := by
    split <;> rename_i h <;> rw [UInt64.lt_iff_toNat_lt, hlo] at h
    · rw [UInt64.toNat_one]
      omega
    · rw [UInt64.toNat_zero]
      omega
  refine withUpper_eq_ok_iff.trans ?_
  rw [add?_bind_add?_eq_some_iff, hcarry, ← UInt64.toNat_inj, hlo]
  unfold toNat
  omega

theorem addChecked_ofUInt64 (a b : UInt64) :
    ∃ c, (ofUInt64 a).addChecked (ofUInt64 b) = .ok c ∧ c.toNat = a.toNat + b.toNat := by
  have ha := a.toNat_lt
  have hb := b.toNat_lt
  have hsum : (ofNat (a.toNat + b.toNat)).toNat = a.toNat + b.toNat := by
    rw [toNat_ofNat, Nat.mod_eq_of_lt (by omega)]
  refine ⟨ofNat (a.toNat + b.toNat), ?_, hsum⟩
  rw [addChecked_eq_ok_iff, hsum, toNat_ofUInt64, toNat_ofUInt64]

theorem toNat_subWrapping (a b : UInt128) :
    (a.subWrapping b).toNat = (2 ^ 128 - b.toNat + a.toNat) % 2 ^ 128 := by
  have h1 := a.lo.toNat_lt
  have h2 := b.lo.toNat_lt
  have h3 := a.hi.toNat_lt
  have h4 := b.hi.toNat_lt
  have hborrow : (if a.lo < b.lo then 1 else 0 : UInt64).toNat = if a.lo.toNat < b.lo.toNat then 1 else 0 := by
    simp only [UInt64.lt_iff_toNat_lt]
    split <;> rfl
  simp only [subWrapping, toNat, UInt64.toNat_sub, hborrow]
  split <;> omega

theorem toNat_shiftLeft_one (a : UInt128) : (a.shiftLeft 1).toNat = 2 * a.toNat % 2 ^ 128 := by
  rw [toNat_shiftLeft, Nat.mul_comm]

theorem toNat_mul_toNat (a b : UInt128) : a.toNat * b.toNat = (ofProduct a.lo b.lo).toNat +
    ((ofProduct a.lo b.hi).toNat + (ofProduct a.hi b.lo).toNat) * 2 ^ 64 +
      (ofProduct a.hi b.hi).toNat * 2 ^ 128 := by
  rw [toNat_ofProduct, toNat_ofProduct, toNat_ofProduct, toNat_ofProduct]
  unfold toNat
  ring

theorem hi_eq_zero_iff {a : UInt128} : a.hi = 0 ↔ a.toNat < 2 ^ 64 := by
  have hlo := a.lo.toNat_lt
  rw [← UInt64.toNat_inj, UInt64.toNat_zero]
  unfold toNat
  omega

theorem mulChecked_eq_ok_iff {a b c : UInt128} :
    a.mulChecked b = .ok c ↔ a.toNat * b.toNat = c.toNat := by
  have hsplit := toNat_mul_toNat a b
  have hc := c.toNat_lt
  have hclo := c.lo.toNat_lt
  simp only [mulChecked]
  split
  · rename_i hupper
    have hpos : 0 < (ofProduct a.hi b.hi).toNat := by
      rw [toNat_ofProduct]
      exact Nat.mul_pos (Word64.toNat_pos hupper.1) (Word64.toNat_pos hupper.2)
    simp only [reduceCtorEq, false_iff]
    omega
  · rename_i hupper
    have hzero : (ofProduct a.hi b.hi).toNat = 0 := by
      rw [toNat_ofProduct, Nat.mul_eq_zero]
      rcases not_and_or.1 hupper with h | h
      · exact .inl (by rw [not_not.1 h]; rfl)
      · exact .inr (by rw [not_not.1 h]; rfl)
    rw [hzero] at hsplit
    generalize ofProduct a.lo b.lo = low at *
    generalize ofProduct a.hi b.lo = crossA at *
    generalize ofProduct a.lo b.hi = crossB at *
    have hlo := low.lo.toNat_lt
    split
    · rename_i hcross
      rw [ne_eq, ne_eq, hi_eq_zero_iff, hi_eq_zero_iff] at hcross
      simp only [reduceCtorEq, false_iff]
      omega
    · rename_i hcross
      rw [not_or, not_not, not_not, ← UInt64.toNat_inj, ← UInt64.toNat_inj, UInt64.toNat_zero] at hcross
      refine withUpper_eq_ok_iff.trans ?_
      rw [add?_bind_add?_eq_some_iff, ← UInt64.toNat_inj]
      unfold toNat at hsplit ⊢
      omega

/-- **The product of two words is exact**: its four limbs lose nothing. -/
theorem mulFull_toNat (a b : UInt128) : (mulFull a b).toNat = a.toNat * b.toNat := by
  have hsplit := toNat_mul_toNat a b
  have hlt : a.toNat * b.toNat < 2 ^ 256 :=
    calc a.toNat * b.toNat ≤ (2 ^ 128 - 1) * (2 ^ 128 - 1) :=
          Nat.mul_le_mul (Nat.le_pred_of_lt a.toNat_lt) (Nat.le_pred_of_lt b.toNat_lt)
      _ < 2 ^ 256 := by decide
  generalize a.toNat * b.toNat = product at *
  unfold mulFull
  simp only [Limbs4.toNat, UInt64.toNat_add, UInt64.toNat_ofNat']
  generalize ofProduct a.lo b.lo = p00 at *
  generalize ofProduct a.lo b.hi = p01 at *
  generalize ofProduct a.hi b.lo = p10 at *
  generalize ofProduct a.hi b.hi = p11 at *
  have := p00.lo.toNat_lt
  have := p00.hi.toNat_lt
  have := p01.lo.toNat_lt
  have := p10.lo.toNat_lt
  have := p11.lo.toNat_lt
  have := p11.hi.toNat_lt
  unfold toNat at hsplit
  omega

/-! ## Division bit by bit -/

namespace PartialQuotient

/-- The two words are quotient and remainder of `n`. -/
def Holds (c : UInt128) (n : Nat) (s : PartialQuotient) : Prop :=
  s.quotient.toNat = n / c.toNat ∧ s.remainder.toNat = n % c.toNat

theorem toNat_doubled (r : UInt128) {bit : UInt64} (hbit : bit.toNat < 2) :
    (r.hi >>> 63).toNat * 2 ^ 128 +
      (⟨(r.hi <<< 1) + (r.lo >>> 63), (r.lo <<< 1) + bit⟩ : UInt128).toNat = 2 * r.toNat + bit.toNat := by
  have h1 := r.lo.toNat_lt
  have h2 := r.hi.toNat_lt
  simp only [toNat, UInt64.toNat_add, UInt64.toNat_shiftLeft, UInt64.toNat_shiftRight,
    UInt64.reduceToNat, Nat.reduceMod, Nat.shiftLeft_eq, Nat.shiftRight_eq_div_pow]
  omega

theorem toNat_shiftLeft_one_succ (q : UInt128) :
    (⟨(q.shiftLeft 1).hi, (q.shiftLeft 1).lo + 1⟩ : UInt128).toNat = (q.shiftLeft 1).toNat + 1 := by
  have hshift := toNat_shiftLeft_one q
  have hlo := UInt64.toNat_add (q.shiftLeft 1).lo 1
  have hlt := (q.shiftLeft 1).lo.toNat_lt
  rw [UInt64.toNat_one] at hlo
  unfold toNat at hshift ⊢
  simp only [hlo]
  omega

theorem div_mod_bit {n b c : Nat} (hb : b < 2) (hc : 0 < c) :
    ((2 * n + b) / c, (2 * n + b) % c) =
      if c ≤ 2 * (n % c) + b then (2 * (n / c) + 1, 2 * (n % c) + b - c)
      else (2 * (n / c), 2 * (n % c) + b) := by
  have hn : n % c + c * (n / c) = n := Nat.mod_add_div n c
  have hr : n % c < c := Nat.mod_lt _ hc
  split
  · rw [Prod.mk.injEq, Nat.div_mod_unique hc, Nat.mul_add, Nat.mul_left_comm]
    omega
  · rw [Prod.mk.injEq, Nat.div_mod_unique hc, Nat.mul_left_comm]
    omega

theorem step_holds {c : UInt128} {bit : UInt64} {n : Nat} {s : PartialQuotient}
    (hbit : bit.toNat < 2) (hfit : (2 * n + bit.toNat) / c.toNat < 2 ^ 128) (hc : 0 < c.toNat)
    (h : s.Holds c n) : (s.step c bit).Holds c (2 * n + bit.toNat) := by
  obtain ⟨hq, hr⟩ := h
  have hclt := c.toNat_lt
  have hrc : s.remainder.toNat < c.toNat := by
    rw [hr]
    exact Nat.mod_lt _ hc
  have hdm := div_mod_bit (n := n) hbit hc
  rw [← hq, ← hr] at hdm
  have hd := toNat_doubled s.remainder hbit
  have hone : s.remainder.hi >>> 63 = 1 ↔ (s.remainder.hi >>> 63).toNat = 1 := by
    rw [← UInt64.toNat_inj, UInt64.toNat_one]
  have hshift := toNat_shiftLeft_one s.quotient
  have hsucc := toNat_shiftLeft_one_succ s.quotient
  unfold Holds step
  simp only
  generalize (⟨(s.remainder.hi <<< 1) + (s.remainder.lo >>> 63), (s.remainder.lo <<< 1) + bit⟩ : UInt128) =
    doubled at *
  have hdlt := doubled.toNat_lt
  split <;> rename_i hge <;> rw [hone, le_iff_toNat_le] at hge
  · rw [if_pos (by omega), Prod.mk.injEq] at hdm
    rw [hdm.1] at hfit
    rw [hdm.1, hdm.2, hsucc, toNat_subWrapping]
    omega
  · rw [if_neg (by omega), Prod.mk.injEq] at hdm
    rw [hdm.1] at hfit
    rw [hdm.1, hdm.2]
    dsimp only
    omega

theorem foldr_step_holds {c : UInt128} (hc : 0 < c.toNat) (w : UInt64) :
    ∀ (k : Nat) (n : Nat) (s : PartialQuotient), k ≤ 64 →
      (n * 2 ^ k + w.toNat % 2 ^ k) / c.toNat < 2 ^ 128 → s.Holds c n →
      ((List.range k).foldr (fun i t => t.step c ((w >>> UInt64.ofNat i) % 2)) s).Holds c
        (n * 2 ^ k + w.toNat % 2 ^ k) := by
  intro k
  induction k with
  | zero =>
    intro n s _ _ h
    simpa [Nat.mod_one] using h
  | succ k ih =>
    intro n s hk hfit h
    have hbit : ((w >>> UInt64.ofNat k) % 2).toNat = w.toNat / 2 ^ k % 2 := by
      rw [UInt64.toNat_mod, toNat_limb_shiftRight _ (by omega)]
      rfl
    have hvalue : (2 * n + w.toNat / 2 ^ k % 2) * 2 ^ k + w.toNat % 2 ^ k =
        n * 2 ^ (k + 1) + w.toNat % 2 ^ (k + 1) := by
      rw [Nat.mod_pow_succ]
      ring
    rw [← hvalue] at hfit ⊢
    rw [List.range_succ, List.foldr_append]
    refine ih _ _ (by omega) hfit ?_
    show (s.step c ((w >>> UInt64.ofNat k) % 2)).Holds c _
    have hbig : 2 * n + w.toNat / 2 ^ k % 2 ≤ (2 * n + w.toNat / 2 ^ k % 2) * 2 ^ k + w.toNat % 2 ^ k :=
      Nat.le_add_right_of_le (Nat.le_mul_of_pos_right _ (Nat.two_pow_pos k))
    rw [← hbit] at hbig hfit ⊢
    exact step_holds (by rw [hbit]; exact Nat.mod_lt _ (by decide))
      (Nat.lt_of_le_of_lt (Nat.div_le_div_right hbig) hfit) hc h

theorem limb_holds {c : UInt128} (hc : 0 < c.toNat) {w : UInt64} {n : Nat} {s : PartialQuotient}
    (hfit : (n * 2 ^ 64 + w.toNat) / c.toNat < 2 ^ 128) (h : s.Holds c n) :
    (s.limb c w).Holds c (n * 2 ^ 64 + w.toNat) := by
  have hw : w.toNat % 2 ^ 64 = w.toNat := Nat.mod_eq_of_lt w.toNat_lt
  have := foldr_step_holds hc w 64 n s (Nat.le_refl _) (by rwa [hw]) h
  rwa [hw] at this

end PartialQuotient

/-! ## Division of three limbs -/

/-- The number of three limbs, the highest first. -/
def threeLimbs (l2 l1 l0 : UInt64) : Nat :=
  l2.toNat * 2 ^ 128 + l1.toNat * 2 ^ 64 + l0.toNat

theorem divThreeLimbs_by_limb {l2 d : UInt64} (l1 l0 : UInt64) (h : l2 < d) :
    ∃ q : UInt128, ∃ r : UInt64, divThreeLimbs l2 l1 l0 (ofUInt64 d) = .ok (q, ofUInt64 r) ∧
      q.toNat = threeLimbs l2 l1 l0 / d.toNat ∧ r.toNat = threeLimbs l2 l1 l0 % d.toNat := by
  have hd : 0 < d.toNat := by
    rw [UInt64.lt_iff_toNat_lt] at h
    omega
  obtain ⟨hq1, hr1⟩ := divLimb_toNat (n := ⟨l2, l1⟩) h
  generalize hupper : divLimb ⟨l2, l1⟩ d = upper at hq1 hr1
  have hrest : upper.2 < d := by
    rw [UInt64.lt_iff_toNat_lt, hr1]
    exact Nat.mod_lt _ hd
  obtain ⟨hq0, hr0⟩ := divLimb_toNat (n := ⟨upper.2, l0⟩) hrest
  have hsplit : threeLimbs l2 l1 l0 =
      (⟨upper.2, l0⟩ : UInt128).toNat + d.toNat * (upper.1.toNat * 2 ^ 64) := by
    have h1 := Nat.mod_add_div (⟨l2, l1⟩ : UInt128).toNat d.toNat
    rw [← hq1, ← hr1] at h1
    rw [← Nat.mul_assoc]
    unfold toNat at h1 ⊢
    unfold threeLimbs
    dsimp only at h1 ⊢
    generalize d.toNat * upper.1.toNat = whole at *
    omega
  refine ⟨⟨upper.1, (divLimb ⟨upper.2, l0⟩ d).1⟩, (divLimb ⟨upper.2, l0⟩ d).2, ?_, ?_, ?_⟩
  · simp only [divThreeLimbs, ofUInt64, if_true, if_neg (UInt64.not_le.2 h), hupper]
  · rw [hsplit, Nat.add_mul_div_left _ _ hd, ← hq0, Nat.add_comm]
    rfl
  · rw [hr0, hsplit, Nat.add_mul_mod_self_left]

theorem div_lt_of_wide {c : UInt128} (h : c.hi ≠ 0) {n : Nat} (hn : n < 2 ^ 192) : n / c.toNat < 2 ^ 128 := by
  have hhi := Word64.toNat_pos h
  have hc : 2 ^ 64 ≤ c.toNat := by
    unfold toNat
    omega
  rw [Nat.div_lt_iff_lt_mul (by omega)]
  have := Nat.mul_le_mul_left (2 ^ 128) hc
  omega

theorem threeLimbs_lt (l2 l1 l0 : UInt64) : threeLimbs l2 l1 l0 < 2 ^ 192 := by
  have h2 := l2.toNat_lt
  have h1 := l1.toNat_lt
  have h0 := l0.toNat_lt
  unfold threeLimbs
  omega

theorem divThreeLimbs_by_word {l2 l1 l0 : UInt64} {c : UInt128} (h : c.hi ≠ 0) :
    ∃ q r : UInt128, divThreeLimbs l2 l1 l0 c = .ok (q, r) ∧
      q.toNat = threeLimbs l2 l1 l0 / c.toNat ∧ r.toNat = threeLimbs l2 l1 l0 % c.toNat := by
  have hpos : 0 < c.toNat := by
    have := Word64.toNat_pos h
    unfold toNat
    omega
  have h2 := l2.toNat_lt
  have h1 := l1.toNat_lt
  have h0 := l0.toNat_lt
  have hzero : (PartialQuotient.mk zero zero).Holds c 0 := by
    constructor
    · rw [Nat.zero_div]
      rfl
    · rw [Nat.zero_mod]
      rfl
  have first := PartialQuotient.limb_holds hpos (w := l2) (div_lt_of_wide h (by omega)) hzero
  have second := PartialQuotient.limb_holds hpos (w := l1) (div_lt_of_wide h (by omega)) first
  obtain ⟨hq, hr⟩ := PartialQuotient.limb_holds hpos (w := l0) (div_lt_of_wide h (by omega)) second
  have hvalue : ((0 * 2 ^ 64 + l2.toNat) * 2 ^ 64 + l1.toNat) * 2 ^ 64 + l0.toNat = threeLimbs l2 l1 l0 := by
    unfold threeLimbs
    omega
  rw [hvalue] at hq hr
  exact ⟨_, _, by rw [divThreeLimbs, if_neg h], hq, hr⟩

theorem threeLimbs_div_lt_iff {l2 l1 l0 d : UInt64} (hd : 0 < d.toNat) :
    threeLimbs l2 l1 l0 / d.toNat < 2 ^ 128 ↔ l2 < d := by
  have h1 := l1.toNat_lt
  have h0 := l0.toNat_lt
  rw [Nat.div_lt_iff_lt_mul hd, UInt64.lt_iff_toNat_lt]
  unfold threeLimbs
  omega

/-- **Three limbs are divided exactly** whenever the quotient fits a word. -/
theorem divThreeLimbs_of_lt {l2 l1 l0 : UInt64} {c : UInt128} (hc : 0 < c.toNat)
    (h : threeLimbs l2 l1 l0 / c.toNat < 2 ^ 128) :
    ∃ q r : UInt128, divThreeLimbs l2 l1 l0 c = .ok (q, r) ∧
      q.toNat = threeLimbs l2 l1 l0 / c.toNat ∧ r.toNat = threeLimbs l2 l1 l0 % c.toNat := by
  by_cases hhi : c.hi = 0
  · obtain ⟨hi, lo⟩ := c
    obtain rfl : hi = 0 := hhi
    have hlo : (⟨0, lo⟩ : UInt128).toNat = lo.toNat := toNat_ofUInt64 lo
    rw [hlo] at hc h ⊢
    obtain ⟨q, r, hdiv, hq, hr⟩ := divThreeLimbs_by_limb l1 l0 ((threeLimbs_div_lt_iff hc).1 h)
    exact ⟨q, ofUInt64 r, hdiv, hq, by rw [toNat_ofUInt64, hr]⟩
  · exact divThreeLimbs_by_word hhi

theorem divThreeLimbs_of_le {l2 l1 l0 : UInt64} {c : UInt128} (hc : 0 < c.toNat)
    (h : 2 ^ 128 ≤ threeLimbs l2 l1 l0 / c.toNat) : divThreeLimbs l2 l1 l0 c = .error .overflow := by
  by_cases hhi : c.hi = 0
  · obtain ⟨hi, lo⟩ := c
    obtain rfl : hi = 0 := hhi
    have hlo : (⟨0, lo⟩ : UInt128).toNat = lo.toNat := toNat_ofUInt64 lo
    rw [hlo] at hc h
    -- a highest limb below the divisor would leave a quotient of two limbs
    have hle : lo ≤ l2 := UInt64.not_lt.1 fun hlt => Nat.not_lt.2 h ((threeLimbs_div_lt_iff hc).2 hlt)
    rw [divThreeLimbs, if_pos rfl, if_pos hle]
  · exact absurd (div_lt_of_wide hhi (threeLimbs_lt l2 l1 l0)) (Nat.not_lt.2 h)

/-! ## The scaled quotient -/

theorem limb3_eq_zero_iff (p : Limbs4) : p.limb3 = 0 ↔ p.toNat < 2 ^ 192 := by
  have h0 := p.limb0.toNat_lt
  have h1 := p.limb1.toNat_lt
  have h2 := p.limb2.toNat_lt
  rw [← UInt64.toNat_inj, UInt64.toNat_zero]
  unfold Limbs4.toNat
  omega

theorem threeLimbs_of_limb3 {p : Limbs4} (h : p.limb3 = 0) : threeLimbs p.limb2 p.limb1 p.limb0 = p.toNat := by
  unfold threeLimbs Limbs4.toNat
  rw [h, UInt64.toNat_zero]
  omega

/-- **The scaled quotient as one formula**, its refusals in the order in which they are found. -/
theorem mulDiv_eq (a b c : UInt128) (rounding : Rounding) :
    mulDiv a b c rounding =
      if c.toNat = 0 then .error .divisionByZero
      else if 2 ^ 192 ≤ a.toNat * b.toNat ∨ 2 ^ 128 ≤ a.toNat * b.toNat / c.toNat then .error .overflow
      else if rounding = .exact ∧ ¬ c.toNat ∣ a.toNat * b.toNat then .error .divisionNotExact
      else .ok (ofNat (a.toNat * b.toNat / c.toNat)) := by
  have hproduct := mulFull_toNat a b
  unfold mulDiv
  generalize mulFull a b = p at *
  rw [← hproduct]
  by_cases hzero : c.toNat = 0
  · rw [if_pos (isZero_iff.2 hzero), if_pos hzero]
  rw [if_neg (isZero_iff.not.2 hzero), if_neg hzero]
  by_cases hwide : p.limb3 = 0
  · have hlt := (limb3_eq_zero_iff p).1 hwide
    have hvalue := threeLimbs_of_limb3 hwide
    have hpos := Nat.pos_of_ne_zero hzero
    dsimp only
    rw [if_neg (not_not_intro hwide)]
    rcases Nat.lt_or_ge (p.toNat / c.toNat) (2 ^ 128) with hfits | hlarge
    · rw [← hvalue] at hfits
      obtain ⟨q, r, hdiv, hq, hr⟩ := divThreeLimbs_of_lt hpos hfits
      rw [hvalue] at hfits hq hr
      rw [hdiv, if_neg (by omega), ← hq, ofNat_toNat]
      have hrest : ¬ r.isZero ↔ ¬ c.toNat ∣ p.toNat := by
        rw [isZero_iff, hr, Nat.dvd_iff_mod_eq_zero]
      exact if_congr (and_congr_right' hrest) rfl rfl
    · rw [← hvalue] at hlarge
      rw [divThreeLimbs_of_le hpos hlarge, if_pos (.inr (by rwa [hvalue] at hlarge))]
      rfl
  · have hge := (limb3_eq_zero_iff p).not.1 hwide
    dsimp only
    rw [if_pos hwide, if_pos (.inl (Nat.not_lt.1 hge))]

/-- **A product of two limbs is divided exactly**: it never overflows. -/
theorem mulDiv_ofUInt64 (a b : UInt64) {c : UInt128} (hc : 0 < c.toNat) :
    mulDiv (ofUInt64 a) (ofUInt64 b) c .down = .ok (ofNat (a.toNat * b.toNat / c.toNat)) := by
  have hab : a.toNat * b.toNat < 2 ^ 128 := by
    rw [← toNat_ofProduct]
    exact toNat_lt _
  have hle := Nat.div_le_self (a.toNat * b.toNat) c.toNat
  rw [mulDiv_eq, toNat_ofUInt64, toNat_ofUInt64, if_neg (by omega), if_neg (by omega), if_neg (by simp)]

/-- **The frontier of the scaled quotient.** A divisor that is zero is refused first, then a product
that needs more than 192 bits or a quotient that needs more than 128, then a remainder where there must
be none; whatever is left has the quotient of the natural numbers for an answer. -/
theorem mulDiv_frontier (a b c : UInt128) (rounding : Rounding) :
    (mulDiv a b c rounding = .error .divisionByZero ↔ c.toNat = 0) ∧
    (mulDiv a b c rounding = .error .overflow ↔
      c.toNat ≠ 0 ∧ (2 ^ 192 ≤ a.toNat * b.toNat ∨ 2 ^ 128 ≤ a.toNat * b.toNat / c.toNat)) ∧
    (mulDiv a b c rounding = .error .divisionNotExact ↔
      c.toNat ≠ 0 ∧ a.toNat * b.toNat < 2 ^ 192 ∧ a.toNat * b.toNat / c.toNat < 2 ^ 128 ∧
        rounding = .exact ∧ ¬ c.toNat ∣ a.toNat * b.toNat) ∧
    ∀ q, mulDiv a b c rounding = .ok q ↔
      c.toNat ≠ 0 ∧ a.toNat * b.toNat < 2 ^ 192 ∧ a.toNat * b.toNat / c.toNat < 2 ^ 128 ∧
        (rounding = .down ∨ c.toNat ∣ a.toNat * b.toNat) ∧ q.toNat = a.toNat * b.toNat / c.toNat := by
  have hrounding : rounding = .down ↔ rounding ≠ .exact := by cases rounding <;> decide
  rw [mulDiv_eq, hrounding]
  generalize a.toNat * b.toNat = n
  split_ifs with hzero hwide hrest
  · simp [hzero]
  · have hnarrow : n < 2 ^ 192 → ¬ n / c.toNat < 2 ^ 128 := by omega
    exact ⟨by simp [hzero], iff_of_true rfl ⟨hzero, hwide⟩, iff_of_false nofun fun h => hnarrow h.2.1 h.2.2.1,
      fun q => iff_of_false nofun fun h => hnarrow h.2.1 h.2.2.1⟩
  · have hfits : n < 2 ^ 192 ∧ n / c.toNat < 2 ^ 128 := by omega
    exact ⟨by simp [hzero], iff_of_false nofun fun h => hwide h.2, iff_of_true rfl ⟨hzero, hfits.1, hfits.2, hrest⟩,
      fun q => iff_of_false nofun fun h => h.2.2.2.1.elim (· hrest.1) hrest.2⟩
  · have hfits : n < 2 ^ 192 ∧ n / c.toNat < 2 ^ 128 := by omega
    have hdivides : rounding ≠ .exact ∨ c.toNat ∣ n := by
      by_contra h
      exact hrest (by simpa using h)
    refine ⟨by simp [hzero], iff_of_false nofun fun h => hwide h.2, iff_of_false nofun fun h => hrest h.2.2.2,
      fun q => ?_⟩
    rw [Except.ok.injEq, ← toNat_inj, toNat_ofNat, Nat.mod_eq_of_lt hfits.2]
    exact ⟨fun h => ⟨hzero, hfits.1, hfits.2, hdivides, h.symm⟩, fun h => h.2.2.2.2.symm⟩

end SwapStake.UInt128
