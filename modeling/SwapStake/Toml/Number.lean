import SwapStake.Binary64
import SwapStake.Toml.Text
/-!
# Numbers of TOML

Integers are decimal with a sign, or hexadecimal, octal or binary without one, and have to fit 64
bits with a sign. Floats have a fraction, an exponent or both; a positive one that is too large for
binary64 is refused. Underscores may stand between two digits, and a decimal integer part has no
leading zero. Every reader here takes a whole token.
-/

namespace SwapStake.Toml

/-- The digits of a token in which single underscores stand between digits. -/
def groupedDigits? (isDigit : Char → Bool) : List Char → Option (List Char)
  | [] => none
  | [c] => if isDigit c then some [c] else none
  | c :: '_' :: rest => if isDigit c then (groupedDigits? isDigit rest).map (c :: ·) else none
  | c :: rest => if isDigit c then (groupedDigits? isDigit rest).map (c :: ·) else none

/-- The number that digits of any base up to sixteen stand for. -/
def ofDigits (base : Nat) (digits : List Char) : Nat :=
  digits.foldl (fun n c => n * base + (hexValue? c).getD 0) 0

/-- A sign and what follows it. -/
def splitSign : List Char → Bool × List Char
  | '-' :: rest => (true, rest)
  | '+' :: rest => (false, rest)
  | s => (false, s)

/-- Decimal digits without a leading zero. -/
def decimalDigits? (s : List Char) : Option (List Char) :=
  match groupedDigits? Char.isDigit s with
  | some ('0' :: _ :: _) => none
  | digits => digits

def inSigned64 (n : Int) : Bool :=
  -(2 ^ 63) ≤ n && n < 2 ^ 63

def basedInteger? (base : Nat) (isDigit : Char → Bool) (s : List Char) : Option Int := do
  let n : Int := ofDigits base (← groupedDigits? isDigit s)
  if inSigned64 n then some n else none

def integer? : List Char → Option Int
  | '0' :: 'x' :: rest => basedInteger? 16 (fun c => (hexValue? c).isSome) rest
  | '0' :: 'o' :: rest => basedInteger? 8 (fun c => '0' ≤ c ∧ c ≤ '7') rest
  | '0' :: 'b' :: rest => basedInteger? 2 (fun c => c = '0' ∨ c = '1') rest
  | s => do
    let (negative, s) := splitSign s
    let n : Int := ofDigits 10 (← decimalDigits? s)
    let n := if negative then -n else n
    if inSigned64 n then some n else none

/-! ## Floats -/

/-- A token cut at its first `e`, if it has one. -/
def splitExponent (s : List Char) : List Char × Option (List Char) :=
  match s.span fun c => c ≠ 'e' ∧ c ≠ 'E' with
  | (s, _ :: e) => (s, some e)
  | (s, []) => (s, none)

/-- A token cut at its first point, if it has one. -/
def splitFraction (s : List Char) : List Char × Option (List Char) :=
  match s.span fun c => c ≠ '.' with
  | (s, _ :: f) => (s, some f)
  | (s, []) => (s, none)

def exponent? : Option (List Char) → Option Int
  | none => some 0
  | some s => do
    let (negative, s) := splitSign s
    let n : Int := ofDigits 10 (← groupedDigits? Char.isDigit s)
    some (if negative then -n else n)

def fraction? : Option (List Char) → Option (List Char)
  | none => some []
  | some s => groupedDigits? Char.isDigit s

/-- A float with digits. -/
def decimalFloat? (s : List Char) : Option Float := do
  let (negative, s) := splitSign s
  let (s, exponent) := splitExponent s
  let (whole, fraction) := splitFraction s
  if exponent.isNone ∧ fraction.isNone then none
  else
    let whole ← decimalDigits? whole
    let fraction ← fraction? fraction
    let exponent ← exponent? exponent
    let x := Binary64.ofDecimal negative (ofDigits 10 (whole ++ fraction)) (exponent - fraction.length)
    if x.isInf ∧ ¬ negative then none else some x

/-- A float of any form: with digits, infinite, or not a number. -/
def float? (s : List Char) : Option Float :=
  match splitSign s with
  | (negative, ['i', 'n', 'f']) => some (if negative then -(1.0 / 0.0) else 1.0 / 0.0)
  | (_, ['n', 'a', 'n']) => some (0.0 / 0.0)
  | _ => decimalFloat? s

end SwapStake.Toml
