/-!
# 64-bit words

Amounts, heights and limbs are words of 64 bits. This module has the operations on them that refuse
or saturate where the machine operation wraps, each with the lemma that states it on natural
numbers. All other modules reason through those lemmas.
-/

/-! ## Powers

A power with a natural exponent is the one of the core library, whatever else a module imports. So
it is the same term where the program runs and where something is proved about it. -/

attribute [instance (high), default_instance 20000] instPowNat

namespace SwapStake.Word64

/-! ## Operations -/

def max : UInt64 := 0xffffffffffffffff

/-- The sum, unless it needs a 65th bit. -/
def add? (a b : UInt64) : Option UInt64 :=
  if a.toNat + b.toNat < 2 ^ 64 then some (a + b) else none

/-- The difference, unless it is negative. -/
def sub? (a b : UInt64) : Option UInt64 :=
  if b ≤ a then some (a - b) else none

/-- The sum, or the largest word when the sum does not fit. -/
def addSaturating (a b : UInt64) : UInt64 :=
  (add? a b).getD max

/-- The difference, or zero when it is negative. -/
def subSaturating (a b : UInt64) : UInt64 :=
  (sub? a b).getD 0

/-- The product, or the largest word when the product does not fit. -/
def mulSaturating (a b : UInt64) : UInt64 :=
  if a.toNat * b.toNat < 2 ^ 64 then a * b else max

def distance (a b : UInt64) : UInt64 :=
  if a ≤ b then b - a else a - b

/-- The number of bits up to the highest one that is set. -/
def bitLength (a : UInt64) : Nat :=
  if a = 0 then 0 else a.toNat.log2 + 1

/-! ## On natural numbers -/

theorem add?_eq_some_iff {a b c : UInt64} :
    add? a b = some c ↔ a.toNat + b.toNat = c.toNat := by
  have hc := c.toNat_lt
  unfold add?
  split
  · rename_i h
    rw [Option.some_inj, ← UInt64.toNat_inj, UInt64.toNat_add, Nat.mod_eq_of_lt h]
  · simp only [reduceCtorEq, false_iff]
    omega

theorem add?_eq_none_iff {a b : UInt64} : add? a b = none ↔ 2 ^ 64 ≤ a.toNat + b.toNat := by
  simp [add?]

theorem toNat_addSaturating (a b : UInt64) :
    (addSaturating a b).toNat = min (a.toNat + b.toNat) (2 ^ 64 - 1) := by
  unfold addSaturating add?
  split
  · rename_i fits
    rw [Option.getD_some, UInt64.toNat_add, Nat.mod_eq_of_lt fits]
    omega
  · rw [Option.getD_none]
    show 2 ^ 64 - 1 = _
    omega

theorem toNat_mulSaturating (a b : UInt64) :
    (mulSaturating a b).toNat = min (a.toNat * b.toNat) (2 ^ 64 - 1) := by
  unfold mulSaturating
  split
  · rename_i fits
    rw [UInt64.toNat_mul, Nat.mod_eq_of_lt fits]
    omega
  · show 2 ^ 64 - 1 = _
    omega

theorem sub?_eq_some_iff {a b c : UInt64} :
    sub? a b = some c ↔ b.toNat + c.toNat = a.toNat := by
  have ha := a.toNat_lt
  unfold sub?
  split
  · rename_i h
    rw [UInt64.le_iff_toNat_le] at h
    rw [Option.some_inj, ← UInt64.toNat_inj, UInt64.toNat_sub_of_le _ _ (UInt64.le_iff_toNat_le.2 h)]
    omega
  · rename_i h
    rw [UInt64.le_iff_toNat_le] at h
    simp only [reduceCtorEq, false_iff]
    omega

theorem toNat_pos {a : UInt64} (h : a ≠ 0) : 0 < a.toNat :=
  UInt64.lt_iff_toNat_lt.1 (UInt64.pos_iff_ne_zero.2 h)

theorem toNat_sub_add {a b : UInt64} (h : b.toNat ≤ a.toNat) : (a - b).toNat + b.toNat = a.toNat := by
  rw [UInt64.toNat_sub_of_le _ _ (UInt64.le_iff_toNat_le.2 h), Nat.sub_add_cancel h]

theorem eq_sub_of_add {a b c : UInt64} (h : c.toNat + b.toNat = a.toNat) : c = a - b := by
  have hle : b.toNat ≤ a.toNat := by omega
  rw [← UInt64.toNat_inj, UInt64.toNat_sub_of_le _ _ (UInt64.le_iff_toNat_le.2 hle)]
  omega

theorem exists_toNat_eq_of_le {n : Nat} {w : UInt64} (h : n ≤ w.toNat) : ∃ v : UInt64, v.toNat = n ∧ v ≤ w := by
  have hv : (UInt64.ofNat n).toNat = n := UInt64.toNat_ofNat_of_lt' (Nat.lt_of_le_of_lt h w.toNat_lt)
  refine ⟨.ofNat n, hv, ?_⟩
  rwa [UInt64.le_iff_toNat_le, hv]

theorem toNat_max : max.toNat = 2 ^ 64 - 1 := rfl

end SwapStake.Word64
