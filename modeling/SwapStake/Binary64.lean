import SwapStake.Word64
/-!
# Binary64 numbers as exact values

Rates, price impacts and slippages are binary64 floating-point numbers. To print one, or to read one
from a decimal, its exact value is needed: `Binary64.ofBits` takes the bits apart into a sign, a
whole mantissa and a power of two, and `Binary64.nearest` goes the other way, from a quotient of two
numbers to the bits of the nearest number. Both directions are exact arithmetic on natural numbers.
-/

namespace SwapStake

/-- The value of a binary64 number; a finite one is `± mantissa * 2 ^ exponent`. -/
inductive Binary64 where
  | nan
  | infinite (negative : Bool)
  | finite (negative : Bool) (mantissa : Nat) (exponent : Int)
deriving DecidableEq, Repr

namespace Binary64

/-- The exponent of the smallest positive number. -/
def minExponent : Int := -1074

def infinityBits : Nat := 0x7ff0000000000000

/-- Take 64 bits apart: one for the sign, eleven for the exponent, the rest for the mantissa. -/
def ofBits (bits : UInt64) : Binary64 :=
  let n := bits.toNat
  let negative : Bool := 2 ^ 63 ≤ n
  let field : Nat := n / 2 ^ 52 % 2 ^ 11
  let fraction : Nat := n % 2 ^ 52
  if field = 2047 then
    if fraction = 0 then .infinite negative else .nan
  else if field = 0 then
    .finite negative fraction minExponent
  else
    .finite negative (2 ^ 52 + fraction) ((field : Int) - 1075)

def ofFloat (x : Float) : Binary64 :=
  ofBits x.toBits

/-- The whole number nearest to `num / den`; a half goes to the even neighbour. -/
def roundQuotient (num den : Nat) : Nat :=
  let q := num / den
  let r := num % den
  if 2 * r < den then q
  else if den < 2 * r then q + 1
  else q + q % 2

/-- `num / den * 2 ^ e`, rounded to a whole number. -/
def roundScaled (num den : Nat) (e : Int) : Nat :=
  match e with
  | .ofNat k => roundQuotient (num * 2 ^ k) den
  | .negSucc k => roundQuotient num (den * 2 ^ (k + 1))

/-- The greatest `k` with `2 ^ k ≤ num / den`, for positive `num` and `den`. -/
def floorLog (num den : Nat) : Int :=
  let k : Int := (num.log2 : Int) - den.log2
  let reached : Bool := match k with
    | .ofNat j => den * 2 ^ j ≤ num
    | .negSucc j => den ≤ num * 2 ^ (j + 1)
  if reached then k else k - 1

/-- The bits of the number nearest to `num / den`, for positive `den`; a half goes to the even
mantissa, and what is too large becomes infinite. A mantissa that is rounded up to the next power of
two carries into the exponent, where it belongs. -/
def nearest (num den : Nat) : Nat :=
  if num = 0 then 0
  else
    let e := max (floorLog num den - 52) minExponent
    let m := roundScaled num den (-e)
    if e > 971 then infinityBits
    else if m < 2 ^ 52 then m
    else min infinityBits ((e + 1075).toNat * 2 ^ 52 + (m - 2 ^ 52))

/-! ## From decimals

The number nearest to `digits * 10 ^ exponent`. A decimal so large or so small that its order of
magnitude already decides is not expanded, so a long exponent costs nothing. -/

/-- Orders of magnitude from which on a decimal is infinite, and below whose negative it is zero. -/
def decisiveOrder : Int := 400

/-- The bits of the number nearest to `digits * 10 ^ exponent`. -/
def decimalBits (digits : Nat) (exponent : Int) : Nat :=
  let order := ((Nat.toDigits 10 digits).length : Int) + exponent
  if digits = 0 then 0
  else if decisiveOrder < order then infinityBits
  else if order < -decisiveOrder then 0
  else match exponent with
    | .ofNat k => nearest (digits * 10 ^ k) 1
    | .negSucc k => nearest digits (10 ^ (k + 1))

/-- The number nearest to a decimal with a sign. -/
def ofDecimal (negative : Bool) (digits : Nat) (exponent : Int) : Float :=
  Float.ofBits (UInt64.ofNat (decimalBits digits exponent + if negative then 2 ^ 63 else 0))

/-! ## Texts with fixed places

The exact value is rounded, a half to the even neighbour, so no digit is the result of an earlier
rounding. The sign of a negative number stays, also where all digits are zero. -/

/-- The magnitude `m * 2 ^ e` in units of the last of `places` digits. -/
def scaledToPlaces (places m : Nat) (e : Int) : Nat :=
  roundScaled (m * 10 ^ places) 1 e

/-- A number of units of the last place as a numeral with a point. -/
def pointed (places n : Nat) : List Char :=
  let fraction := Nat.toDigits 10 (n % 10 ^ places)
  Nat.toDigits 10 (n / 10 ^ places) ++
    if places = 0 then [] else '.' :: (List.replicate (places - fraction.length) '0' ++ fraction)

def signed (negative : Bool) (text : List Char) : List Char :=
  if negative then '-' :: text else text

/-- The text of a value with `places` digits after the point. -/
def fixed (places : Nat) : Binary64 → String
  | nan => "NaN"
  | infinite negative => String.ofList (signed negative "inf".toList)
  | finite negative m e => String.ofList (signed negative (pointed places (scaledToPlaces places m e)))

def fixedText (places : Nat) (x : Float) : String :=
  fixed places (ofFloat x)

/-! ## Whole numbers

A count that is published as a binary64 number loses what its mantissa cannot hold, and its text is
the shortest one that still reads back as the same number: the leading digits that decide, then
zeros. Below `2 ^ 53` nothing is lost and the text is the numeral of the count. -/

/-- A whole number `mantissa * 2 ^ exponent`. -/
structure Whole where
  mantissa : Nat
  exponent : Nat
deriving DecidableEq, Repr

namespace Whole

def value (w : Whole) : Nat := w.mantissa * 2 ^ w.exponent

/-- The binary64 number nearest to `n`. -/
def nearest (n : Nat) : Whole :=
  match ofBits (UInt64.ofNat (Binary64.nearest n 1)) with
  | .finite _ m (.ofNat e) => ⟨m, e⟩
  | _ => ⟨n, 0⟩

/-- Twice the distance to the lower end of the numbers that round to `w`. Below a power of two the
numbers lie twice as dense. -/
def roomBelow (w : Whole) : Nat :=
  if w.mantissa = 2 ^ 52 ∧ w.exponent ≠ 0 then 2 ^ (w.exponent - 1) else 2 ^ w.exponent

/-- Twice the distance to the upper end of the numbers that round to `w`. -/
def roomAbove (w : Whole) : Nat := 2 ^ w.exponent

/-- Whether `n` rounds to `w`; the ends do for an even mantissa. -/
def reads (w : Whole) (n : Nat) : Bool :=
  let inside (d room : Nat) : Bool := 2 * d < room || (2 * d == room && w.mantissa % 2 == 0)
  if n ≤ w.value then inside (w.value - n) w.roomBelow else inside (n - w.value) w.roomAbove

/-- The multiple of `grid` nearest to `w` that reads back as `w`, if there is one. -/
def onGrid? (w : Whole) (grid : Nat) : Option Nat :=
  let below := w.value / grid * grid
  let above := below + grid
  match w.reads below, w.reads above with
  | true, true => some (if 2 * (w.value - below) ≤ grid then below else above)
  | true, false => some below
  | false, true => some above
  | false, false => none

/-- The number with the most trailing zeros that reads back as `w`, among those with at most `zeros`
of them. -/
def shortest (w : Whole) : Nat → Nat
  | 0 => w.value
  | zeros + 1 => (w.onGrid? (10 ^ (zeros + 1))).getD (w.shortest zeros)

end Whole

/-- The text of a count as a binary64 number. -/
def wholeText (n : Nat) : String :=
  if n < 2 ^ 53 then n.repr
  else
    let w := Whole.nearest n
    (w.shortest (Nat.toDigits 10 w.value).length).repr

end Binary64

end SwapStake
