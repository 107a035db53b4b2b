import SwapStake.ErrorKind
import SwapStake.Word64
/-!
# Unsigned words of 128 bits

A word is a pair of 64-bit limbs, and `UInt128.toNat` is the number it stands for. Sum, difference
and product refuse to leave the range `[0, 2 ^ 128)` instead of wrapping. Every operation works on
the limbs: the only wider step is the full product of two limbs, `UInt128.ofProduct`. Shift counts
are taken modulo 128, and a left shift drops the bits that leave the word.
-/

namespace SwapStake

/-- Why an arithmetic operation has no result. -/
inductive ArithmeticError where
  | overflow
  | divisionByZero
  | divisionNotExact
  | malformedDecimal
deriving DecidableEq, Repr

namespace ArithmeticError

def message : ArithmeticError → String
  | overflow => "arithmetic overflow"
  | divisionByZero => "division by zero"
  | divisionNotExact => "division not exact"
  | malformedDecimal => "malformed decimal string"

def kind : ArithmeticError → ErrorKind
  | overflow => .arithmeticOverflow
  | divisionByZero => .domainError
  | divisionNotExact => .divisionNotExact
  | malformedDecimal => .parseError

end ArithmeticError

/-- A word of 128 bits in two limbs. -/
structure UInt128 where
  hi : UInt64
  lo : UInt64
deriving DecidableEq, Repr, Inhabited

namespace UInt128

def zero : UInt128 := ⟨0, 0⟩

/-- The largest word, `2 ^ 128 - 1`. -/
def max : UInt128 := ⟨Word64.max, Word64.max⟩

/-! ## Views and conversions -/

/-- The number a word stands for. -/
def toNat (a : UInt128) : Nat :=
  a.hi.toNat * 2 ^ 64 + a.lo.toNat

/-- The word of a number, modulo `2 ^ 128`. -/
def ofNat (n : Nat) : UInt128 :=
  ⟨UInt64.ofNat (n / 2 ^ 64), UInt64.ofNat n⟩

/-- A limb as a word. -/
def ofUInt64 (w : UInt64) : UInt128 := ⟨0, w⟩

/-- The word as one limb, if it fits. -/
def toUInt64? (a : UInt128) : Option UInt64 :=
  if a.hi = 0 then some a.lo else none

/-- The word as one limb; a wider word is an overflow. -/
def narrow (a : UInt128) : Except ArithmeticError UInt64 :=
  match a.toUInt64? with
  | some w => .ok w
  | none => .error .overflow

def isZero (a : UInt128) : Bool :=
  a.hi == 0 && a.lo == 0

theorem toNat_lt (a : UInt128) : a.toNat < 2 ^ 128 := by
  have h1 := a.hi.toNat_lt
  have h2 := a.lo.toNat_lt
  unfold toNat
  omega

theorem toNat_inj {a b : UInt128} : a.toNat = b.toNat ↔ a = b := by
  refine ⟨fun h => ?_, fun h => by rw [h]⟩
  have h1 := a.lo.toNat_lt
  have h2 := b.lo.toNat_lt
  unfold toNat at h
  obtain ⟨ahi, alo⟩ := a
  obtain ⟨bhi, blo⟩ := b
  simp only [mk.injEq, ← UInt64.toNat_inj]
  simp only at h h1 h2
  omega

@[simp] theorem toNat_ofUInt64 (w : UInt64) : (ofUInt64 w).toNat = w.toNat := by
  simp [ofUInt64, toNat]

theorem toNat_ofNat (n : Nat) : (ofNat n).toNat = n % 2 ^ 128 := by
  simp only [ofNat, toNat, UInt64.toNat_ofNat']
  omega

theorem ofNat_toNat (a : UInt128) : ofNat a.toNat = a := by
  rw [← toNat_inj, toNat_ofNat, Nat.mod_eq_of_lt a.toNat_lt]

/-! ## Order -/

/-- The order of words: upper limbs first. -/
def cmp (a b : UInt128) : Ordering :=
  (compare a.hi b.hi).then (compare a.lo b.lo)

instance : Ord UInt128 := ⟨cmp⟩

instance : LT UInt128 := ⟨fun a b => a.hi < b.hi ∨ a.hi = b.hi ∧ a.lo < b.lo⟩

instance : LE UInt128 := ⟨fun a b => a.hi < b.hi ∨ a.hi = b.hi ∧ a.lo ≤ b.lo⟩

instance (a b : UInt128) : Decidable (a < b) :=
  inferInstanceAs (Decidable (a.hi < b.hi ∨ a.hi = b.hi ∧ a.lo < b.lo))

instance (a b : UInt128) : Decidable (a ≤ b) :=
  inferInstanceAs (Decidable (a.hi < b.hi ∨ a.hi = b.hi ∧ a.lo ≤ b.lo))

theorem lt_iff_toNat_lt {a b : UInt128} : a < b ↔ a.toNat < b.toNat := by
  have h1 := a.lo.toNat_lt
  have h2 := b.lo.toNat_lt
  show a.hi < b.hi ∨ a.hi = b.hi ∧ a.lo < b.lo ↔ _
  unfold toNat
  rw [UInt64.lt_iff_toNat_lt, UInt64.lt_iff_toNat_lt, ← UInt64.toNat_inj]
  omega

theorem le_iff_toNat_le {a b : UInt128} : a ≤ b ↔ a.toNat ≤ b.toNat := by
  have h1 := a.lo.toNat_lt
  have h2 := b.lo.toNat_lt
  show a.hi < b.hi ∨ a.hi = b.hi ∧ a.lo ≤ b.lo ↔ _
  unfold toNat
  rw [UInt64.lt_iff_toNat_lt, UInt64.le_iff_toNat_le, ← UInt64.toNat_inj]
  omega

theorem cmp_eq_lt_iff {a b : UInt128} : a.cmp b = .lt ↔ a < b := by
  rw [cmp, Ordering.then_eq_lt, Std.compare_eq_lt, Std.compare_eq_lt, Std.compare_eq_iff_eq]
  rfl

theorem cmp_eq_gt_iff {a b : UInt128} : a.cmp b = .gt ↔ b < a := by
  rw [cmp, Ordering.then_eq_gt, Std.compare_eq_gt, Std.compare_eq_gt, Std.compare_eq_iff_eq, eq_comm]
  rfl

theorem cmp_eq_compare (a b : UInt128) : a.cmp b = compare a.toNat b.toNat := by
  rcases Nat.lt_trichotomy a.toNat b.toNat with hlt | heq | hgt
  · rw [Nat.compare_eq_lt.2 hlt, cmp_eq_lt_iff, lt_iff_toNat_lt]
    exact hlt
  · rw [toNat_inj.1 heq, Nat.compare_eq_eq.2 rfl]
    simp [cmp]
  · rw [Nat.compare_eq_gt.2 hgt, cmp_eq_gt_iff, lt_iff_toNat_lt]
    exact hgt

/-! ## Bits -/

/-- The number of zero bits above the highest bit that is set. -/
def leadingZeros (a : UInt128) : Nat :=
  if a.hi = 0 then 128 - Word64.bitLength a.lo else 64 - Word64.bitLength a.hi

/-- Shift towards the upper limb by `n` modulo 128. The bits that the upper limb keeps and those
that move up into it do not overlap, so their sum is their union. -/
def shiftLeft (a : UInt128) (n : Nat) : UInt128 :=
  let k := n % 128
  if k = 0 then a
  else if k < 64 then
    ⟨(a.hi <<< UInt64.ofNat k) + (a.lo >>> UInt64.ofNat (64 - k)), a.lo <<< UInt64.ofNat k⟩
  else
    ⟨a.lo <<< UInt64.ofNat (k - 64), 0⟩

/-- Shift towards the lower limb by `n` modulo 128. -/
def shiftRight (a : UInt128) (n : Nat) : UInt128 :=
  let k := n % 128
  if k = 0 then a
  else if k < 64 then
    ⟨a.hi >>> UInt64.ofNat k, (a.lo >>> UInt64.ofNat k) + (a.hi <<< UInt64.ofNat (64 - k))⟩
  else
    ⟨0, a.hi >>> UInt64.ofNat (k - 64)⟩

/-! ## Sum, difference, product -/

/-- The sum, limb by limb with a carry. -/
def addChecked (a b : UInt128) : Except ArithmeticError UInt128 :=
  let lo := a.lo + b.lo
  let carry : UInt64 := if lo < a.lo then 1 else 0
  match (Word64.add? a.hi b.hi).bind (Word64.add? · carry) with
  | some hi => .ok ⟨hi, lo⟩
  | none => .error .overflow

/-- The difference, limb by limb with a borrow. -/
def subChecked (a b : UInt128) : Except ArithmeticError UInt128 :=
  let lo := a.lo - b.lo
  let borrow : UInt64 := if a.lo < b.lo then 1 else 0
  match (Word64.sub? a.hi b.hi).bind (Word64.sub? · borrow) with
  | some hi => .ok ⟨hi, lo⟩
  | none => .error .overflow

/-- The difference modulo `2 ^ 128`. -/
def subWrapping (a b : UInt128) : UInt128 :=
  let borrow : UInt64 := if a.lo < b.lo then 1 else 0
  ⟨a.hi - b.hi - borrow, a.lo - b.lo⟩

/-- The full product of two limbs. -/
def ofProduct (a b : UInt64) : UInt128 :=
  ofNat (a.toNat * b.toNat)

/-- The product. Two upper limbs that are both set overflow at once; otherwise at most one of the
two cross products is not zero, and it has to fit the upper limb beside the carry of the lower
product. -/
def mulChecked (a b : UInt128) : Except ArithmeticError UInt128 :=
  if a.hi ≠ 0 ∧ b.hi ≠ 0 then .error .overflow
  else
    let low := ofProduct a.lo b.lo
    let crossA := ofProduct a.hi b.lo
    let crossB := ofProduct a.lo b.hi
    if crossA.hi ≠ 0 ∨ crossB.hi ≠ 0 then .error .overflow
    else
      match (Word64.add? low.hi crossA.lo).bind (Word64.add? · crossB.lo) with
      | some hi => .ok ⟨hi, low.lo⟩
      | none => .error .overflow

theorem toNat_ofProduct (a b : UInt64) : (ofProduct a b).toNat = a.toNat * b.toNat := by
  rw [ofProduct, toNat_ofNat, Nat.mod_eq_of_lt]
  have ha := a.toNat_lt
  have hb := b.toNat_lt
  calc a.toNat * b.toNat ≤ (2 ^ 64 - 1) * (2 ^ 64 - 1) :=
        Nat.mul_le_mul (by omega) (by omega)
    _ < 2 ^ 128 := by decide

end UInt128

end SwapStake
