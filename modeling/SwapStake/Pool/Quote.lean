import SwapStake.Pool.Basic
import SwapStake.UInt128.Division
/-!
# Quotes and swaps

Prices of a constant-product pool. Products go through 128 bits, quotients are rounded down, and a
result that does not fit 64 bits is an error. The interest is counted in thousandths; buying and
selling charge it on the quote, the inverse quote takes it from the reserve first.

A swap is what one exchange does to one pool: its reserves before and after, with the pool's own
first token first. It is planned apart from the pool and applied later, and a pool whose reserves
have moved in between refuses it.
-/

namespace SwapStake

/-- The whole that interest is a part of. -/
def interestWhole : UInt64 := 1000

/-- The rounded-down quotient `a * b / c` as one limb. A zero divisor and a quotient that does not
fit both leave nothing. -/
def mulDivWord? (a b : UInt64) (c : UInt128) : Option UInt64 :=
  match UInt128.mulDiv (.ofUInt64 a) (.ofUInt64 b) c .down with
  | .ok q => q.toUInt64?
  | .error _ => none

/-- A value that must be there. -/
def orPoolError (e : PoolError) : Option α → Except PoolError α
  | some a => .ok a
  | none => .error e

/-- `amount * reserve / denominator`, rounded down. -/
def ratioQuote (amount reserve : UInt64) (denominator : UInt128) : Except PoolError UInt64 :=
  orPoolError .ratioOverflow (mulDivWord? amount reserve denominator)

/-- The interest on an amount, rounded down. -/
def interestOn (amount : UInt64) (interest : UInt32) : Except PoolError UInt64 :=
  if interestWhole < interest.toUInt64 then .error .invalidInterest
  else orPoolError .interestOverflow (mulDivWord? amount interest.toUInt64 (.ofUInt64 interestWhole))

namespace Reserves

/-- What it costs in the second token to take `amount` of the first out of the pool, with interest.
-/
def buyCost (r : Reserves) (amount : UInt64) (interest : UInt32) : Except PoolError UInt64 :=
  if r.reserve1 ≤ amount then .error .drainingDisallowed
  else do
    let q ← ratioQuote amount r.reserve2 (.ofUInt64 (r.reserve1 - amount))
    let fee ← interestOn q interest
    orPoolError .interestOverflow (Word64.add? q fee)

/-- What the pool pays in the second token for `amount` of the first, less interest. -/
def saleProceeds (r : Reserves) (amount : UInt64) (interest : UInt32) : Except PoolError UInt64 :=
  match (UInt128.ofUInt64 r.reserve1).addChecked (.ofUInt64 amount) with
  | .error _ => .error .ratioOverflow
  | .ok denominator =>
    if denominator.isZero then .error .invalidLiquidity
    else do
      let q ← ratioQuote amount r.reserve2 denominator
      let fee ← interestOn q interest
      orPoolError .interestOverflow (Word64.sub? q fee)

/-- How much of the first token takes `amount` of the second out of the pool. The interest is taken
from the second reserve before the quote, and what then remains cannot be taken whole. -/
def depositFor (r : Reserves) (amount : UInt64) (interest : UInt32) : Except PoolError UInt64 := do
  let available := r.reserve2 - (← interestOn r.reserve2 interest)
  if available ≤ amount then .error .drainingDisallowed
  else ratioQuote amount r.reserve1 (.ofUInt64 (available - amount))

/-- By how many percent the rate of `proposed` is off the rate of the pool. For display only. -/
def priceImpact (pool proposed : Reserves) : Float :=
  (proposed.rate / pool.rate - 1.0) * 100.0

end Reserves

/-! ## Swaps -/

/-- The reserves of two tokens before and after an exchange. -/
structure Swap where
  token1 : TokenId
  token2 : TokenId
  before : Reserves
  after : Reserves
deriving DecidableEq, Repr, Inhabited

namespace Swap

/-- How much of each token has moved. -/
def traded (s : Swap) : Reserves :=
  ⟨Word64.distance s.before.reserve1 s.after.reserve1, Word64.distance s.before.reserve2 s.after.reserve2⟩

/-- By how many percent the rate of the exchange is off the rate before it. -/
def priceImpact (s : Swap) : Float :=
  s.before.priceImpact s.traded

end Swap

/-- The pool after a planned swap. -/
def Pool.applySwap (p : Pool) (s : Swap) : Except PoolError Pool :=
  if s.token1 ≠ p.token1 ∨ s.token2 ≠ p.token2 then .error .poolMismatch
  else if s.before ≠ p.reserves then .error .staleState
  else .ok { p with reserves := s.after }

end SwapStake
