import SwapStake.UInt128.Basic
/-!
# Division of 128-bit words

Everything rests on one step, `UInt128.divLimb`: a two-limb number by one limb whose quotient is
known to fit one limb. Division by a limb is two such steps. Division by a wider word normalises the
divisor, estimates the quotient from the upper limbs, and corrects the estimate once.
`UInt128.mulDiv` divides a product that may need 192 bits: by a limb in two steps again, by a wider
word one bit at a time.
-/

namespace SwapStake.UInt128

/-- Quotient and remainder of `n` by the limb `d`. The quotient is whole only for `n.hi < d`. -/
def divLimb (n : UInt128) (d : UInt64) : UInt64 × UInt64 :=
  (UInt64.ofNat (n.toNat / d.toNat), UInt64.ofNat (n.toNat % d.toNat))

theorem divLimb_toNat {n : UInt128} {d : UInt64} (h : n.hi < d) :
    (divLimb n d).1.toNat = n.toNat / d.toNat ∧ (divLimb n d).2.toNat = n.toNat % d.toNat := by
  rw [UInt64.lt_iff_toNat_lt] at h
  have hlo := n.lo.toNat_lt
  have hd := d.toNat_lt
  have hq : n.toNat / d.toNat < 2 ^ 64 := by
    rw [Nat.div_lt_iff_lt_mul (by omega)]
    have := Nat.mul_le_mul_left (2 ^ 64) (Nat.succ_le_of_lt h)
    unfold toNat
    omega
  have hr : n.toNat % d.toNat < 2 ^ 64 :=
    Nat.lt_trans (Nat.mod_lt _ (by omega)) hd
  simp only [divLimb, UInt64.toNat_ofNat']
  exact ⟨Nat.mod_eq_of_lt hq, Nat.mod_eq_of_lt hr⟩

/-- Quotient and remainder by a limb that is not zero. -/
def divWord (n : UInt128) (d : UInt64) : UInt128 × UInt64 :=
  let low := divLimb ⟨n.hi % d, n.lo⟩ d
  (⟨n.hi / d, low.1⟩, low.2)

/-- Quotient and remainder by a limb. -/
def divModWord (n : UInt128) (d : UInt64) : Except ArithmeticError (UInt128 × UInt64) :=
  if d = 0 then .error .divisionByZero else .ok (divWord n d)

/-- **Division by a limb is Euclidean division.** -/
theorem divWord_toNat (n : UInt128) {d : UInt64} (hd : d ≠ 0) :
    (divWord n d).1.toNat = n.toNat / d.toNat ∧ (divWord n d).2.toNat = n.toNat % d.toNat := by
  have hpos : 0 < d.toNat := by
    rw [Nat.pos_iff_ne_zero, ne_eq, ← UInt64.toNat_zero, UInt64.toNat_inj]
    exact hd
  have hlt : (⟨n.hi % d, n.lo⟩ : UInt128).hi < d := by
    rw [UInt64.lt_iff_toNat_lt, UInt64.toNat_mod]
    exact Nat.mod_lt _ hpos
  obtain ⟨hq, hr⟩ := divLimb_toNat hlt
  have hlow : (⟨n.hi % d, n.lo⟩ : UInt128).toNat = n.hi.toNat % d.toNat * 2 ^ 64 + n.lo.toNat := by
    simp [toNat]
  have hsplit : n.toNat =
      n.hi.toNat % d.toNat * 2 ^ 64 + n.lo.toNat + d.toNat * (n.hi.toNat / d.toNat * 2 ^ 64) := by
    have h := Nat.mod_add_div n.hi.toNat d.toNat
    have h2 : n.hi.toNat * 2 ^ 64 =
        n.hi.toNat % d.toNat * 2 ^ 64 + d.toNat * (n.hi.toNat / d.toNat * 2 ^ 64) := by
      calc n.hi.toNat * 2 ^ 64
          = (n.hi.toNat % d.toNat + d.toNat * (n.hi.toNat / d.toNat)) * 2 ^ 64 := by rw [h]
        _ = _ := by rw [Nat.add_mul, Nat.mul_assoc]
    unfold toNat
    rw [h2, Nat.add_right_comm]
  constructor
  · show (n.hi / d).toNat * 2 ^ 64 + (divLimb _ d).1.toNat = _
    rw [hq, hlow, UInt64.toNat_div, hsplit, Nat.add_mul_div_left _ _ hpos]
    omega
  · show (divLimb _ d).2.toNat = _
    rw [hr, hlow, hsplit, Nat.add_mul_mod_self_left]

/-! ## Division by a word -/

/-- The upper limb of a divisor that is shifted until its highest bit is set. -/
def leadingLimb (den : UInt128) : UInt64 :=
  (den.shiftLeft (64 - Word64.bitLength den.hi)).hi

/-- A first quotient for a divisor with an upper limb. The divisor is cut to its leading limb, and the
dividend is halved so that the quotient by that limb fits; undoing both shifts gives a number that is
at most one above the quotient, and one is taken off. -/
def trialQuotient (num den : UInt128) : UInt64 :=
  let shift := 64 - Word64.bitLength den.hi
  let estimate := (divLimb (num.shiftRight 1) den.leadingLimb).1
  let q := (((ofUInt64 estimate).shiftLeft shift).shiftRight 63).lo
  if q = 0 then q else q - 1

/-- Quotient and remainder of two words. The trial quotient is not above the quotient, and one
correction makes up for what it lacks. -/
def divMod (num den : UInt128) : Except ArithmeticError (UInt128 × UInt128) :=
  if den.isZero then .error .divisionByZero
  else if den.hi = 0 then do
    let (q, r) ← divModWord num den.lo
    pure (q, ofUInt64 r)
  else do
    let q := trialQuotient num den
    let rem ← num.subChecked (← den.mulChecked (ofUInt64 q))
    if den ≤ rem then
      pure (ofUInt64 (q + 1), ← rem.subChecked den)
    else
      pure (ofUInt64 q, rem)

def divChecked (num den : UInt128) : Except ArithmeticError UInt128 :=
  (divMod num den).map Prod.fst

def modChecked (num den : UInt128) : Except ArithmeticError UInt128 :=
  (divMod num den).map Prod.snd

/-! ## Products of 256 bits -/

/-- Four limbs, the lowest first. -/
structure Limbs4 where
  limb0 : UInt64
  limb1 : UInt64
  limb2 : UInt64
  limb3 : UInt64
deriving DecidableEq, Repr

def Limbs4.toNat (p : Limbs4) : Nat :=
  p.limb0.toNat + p.limb1.toNat * 2 ^ 64 + p.limb2.toNat * 2 ^ 128 + p.limb3.toNat * 2 ^ 192

/-- The full product of two words by the four products of their limbs. -/
def mulFull (a b : UInt128) : Limbs4 :=
  let p00 := ofProduct a.lo b.lo
  let p01 := ofProduct a.lo b.hi
  let p10 := ofProduct a.hi b.lo
  let p11 := ofProduct a.hi b.hi
  let middle := p00.hi.toNat + p01.lo.toNat + p10.lo.toNat
  let upper := p01.hi.toNat + p10.hi.toNat + p11.lo.toNat + middle / 2 ^ 64
  { limb0 := p00.lo
    limb1 := UInt64.ofNat middle
    limb2 := UInt64.ofNat upper
    limb3 := p11.hi + UInt64.ofNat (upper / 2 ^ 64) }

/-! ## Division of 192 bits -/

/-- What a bitwise division has found so far. -/
structure PartialQuotient where
  quotient : UInt128
  remainder : UInt128
deriving DecidableEq, Repr

/-- Take in the next bit of the dividend. The doubled remainder may need a 129th bit; it is then
certainly not below the divisor, and the subtraction modulo `2 ^ 128` is exact. -/
def PartialQuotient.step (c : UInt128) (bit : UInt64) (s : PartialQuotient) : PartialQuotient :=
  let carry := s.remainder.hi >>> 63
  let shifted : UInt128 :=
    ⟨(s.remainder.hi <<< 1) + (s.remainder.lo >>> 63), (s.remainder.lo <<< 1) + bit⟩
  let q := s.quotient.shiftLeft 1
  if carry = 1 ∨ c ≤ shifted then
    ⟨⟨q.hi, q.lo + 1⟩, shifted.subWrapping c⟩
  else
    ⟨q, shifted⟩

/-- Take in the 64 bits of a limb, the highest first. -/
def PartialQuotient.limb (c : UInt128) (w : UInt64) (s : PartialQuotient) : PartialQuotient :=
  (List.range 64).foldr (fun i t => t.step c ((w >>> UInt64.ofNat i) % 2)) s

/-- Quotient and remainder of the three limbs `l2 l1 l0`, the highest first, by a word that is not
zero. A divisor of two limbs always leaves a quotient below `2 ^ 128`; a divisor of one limb does so
only above `l2`. -/
def divThreeLimbs (l2 l1 l0 : UInt64) (c : UInt128) : Except ArithmeticError (UInt128 × UInt128) :=
  if c.hi = 0 then
    if c.lo ≤ l2 then .error .overflow
    else
      let upper := divLimb ⟨l2, l1⟩ c.lo
      let lower := divLimb ⟨upper.2, l0⟩ c.lo
      .ok (⟨upper.1, lower.1⟩, ofUInt64 lower.2)
  else
    let s := (((PartialQuotient.mk zero zero).limb c l2).limb c l1).limb c l0
    .ok (s.quotient, s.remainder)

/-- Whether a division may drop its remainder. -/
inductive Rounding where
  /-- The remainder is dropped. -/
  | down
  /-- There must be no remainder. -/
  | exact
deriving DecidableEq, Repr

/-- The quotient of `a * b` by `c`, through a product of 192 bits. -/
def mulDiv (a b c : UInt128) (rounding : Rounding) : Except ArithmeticError UInt128 :=
  if c.isZero then .error .divisionByZero
  else
    let p := mulFull a b
    if p.limb3 ≠ 0 then .error .overflow
    else do
      let (q, r) ← divThreeLimbs p.limb2 p.limb1 p.limb0 c
      if rounding = .exact ∧ ¬ r.isZero then .error .divisionNotExact else pure q

end SwapStake.UInt128
