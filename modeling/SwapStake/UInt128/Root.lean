import SwapStake.UInt128.Basic
/-!
# Integer square root

The root of a word is found by Newton's iteration on natural numbers, from a power of two that is
not below it. The iterates fall as long as they are above the root, so the first one that does not
fall is the root.
-/

namespace SwapStake.UInt128

/-- One step of Newton's iteration for the root of `n`. -/
def newtonStep (n x : Nat) : Nat :=
  (x + n / x) / 2

/-- Iterate from `x` for as long as the iterates fall. -/
def newtonDescent (n x : Nat) : Nat :=
  if newtonStep n x < x then newtonDescent n (newtonStep n x) else x
termination_by x

/-- Where the descent starts: a power of two whose square is above the word. -/
def rootStart (a : UInt128) : Nat :=
  2 ^ ((128 - a.leadingZeros + 1) / 2)

/-- The root of a word, rounded down. -/
def isqrt (a : UInt128) : UInt64 :=
  if a.toNat < 2 then UInt64.ofNat a.toNat else UInt64.ofNat (newtonDescent a.toNat a.rootStart)

end SwapStake.UInt128
