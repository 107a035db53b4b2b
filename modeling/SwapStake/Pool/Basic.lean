import SwapStake.Token.Basic
import SwapStake.Word64
/-!
# Liquidity pools

A pool holds reserves of two tokens and has issued shares of itself, which are a token too. Reserves
can be looked at from either side: `Reserves.inverted` swaps the sides, `Pool.oriented?` puts a given
token first. Amounts are 64-bit words, counted in the smallest unit of their token.
-/

namespace SwapStake

/-- Amounts of two tokens at one moment. -/
structure Reserves where
  reserve1 : UInt64
  reserve2 : UInt64
deriving DecidableEq, Repr, Inhabited

namespace Reserves

/-- The same reserves from the other side. -/
def inverted (r : Reserves) : Reserves :=
  ⟨r.reserve2, r.reserve1⟩

def product (r : Reserves) : Nat :=
  r.reserve1.toNat * r.reserve2.toNat

/-- How much of the first token there is for one unit of the second. For display only. -/
def rate (r : Reserves) : Float :=
  r.reserve1.toFloat / r.reserve2.toFloat

def text (r : Reserves) : String :=
  r.reserve1.toNat.repr ++ ":" ++ r.reserve2.toNat.repr

end Reserves

/-- A constant-product pool of two tokens in direct order. -/
structure Pool where
  /-- The token that its shares are. -/
  share : TokenId
  token1 : TokenId
  token2 : TokenId
  /-- Shares issued. -/
  supply : UInt64
  reserves : Reserves
deriving DecidableEq, Repr, Inhabited

namespace Pool

def contains (p : Pool) (t : TokenId) : Bool :=
  p.token1 = t ∨ p.token2 = t

/-- The token of the pool that is not `t`. -/
def other? (p : Pool) (t : TokenId) : Option TokenId :=
  if t = p.token1 then some p.token2
  else if t = p.token2 then some p.token1
  else none

/-- The reserves with the one of `t` first. -/
def oriented? (p : Pool) (t : TokenId) : Option Reserves :=
  if t = p.token1 then some p.reserves
  else if t = p.token2 then some p.reserves.inverted
  else none

def reserveOf? (p : Pool) (t : TokenId) : Option UInt64 :=
  (p.oriented? t).map Reserves.reserve1

end Pool

/-! ## Errors

Why a quote, a deposit, a withdrawal or a swap is refused. -/

inductive PoolError where
  /-- A quote or a reserve does not fit 64 bits. -/
  | ratioOverflow
  /-- The interest, or the quote with its interest, does not fit 64 bits. -/
  | interestOverflow
  /-- The exchange would take all that is there. -/
  | drainingDisallowed
  /-- Empty reserves, an empty deposit, or shares that the pool has not issued. -/
  | invalidLiquidity
  /-- The amount of shares does not fit 64 bits. -/
  | shareOverflow
  /-- The interest is more than the whole. -/
  | invalidInterest
  | identicalTokens
  /-- The swap is one of another pool. -/
  | poolMismatch
  /-- The reserves have changed since the swap was planned. -/
  | staleState
deriving DecidableEq, Repr

namespace PoolError

def message : PoolError → String
  | ratioOverflow => "ratio overflow"
  | interestOverflow => "interest overflow"
  | drainingDisallowed => "cannot drain all pool liquidity"
  | invalidLiquidity => "invalid liquidity"
  | shareOverflow => "lp token overflow"
  | invalidInterest => "invalid pool interest"
  | identicalTokens => "identical pool tokens"
  | poolMismatch => "transfer does not match pool"
  | staleState => "stale pool state"

def kind : PoolError → ErrorKind
  | ratioOverflow | interestOverflow | shareOverflow => .arithmeticOverflow
  | staleState => .stateError
  | drainingDisallowed | invalidLiquidity | invalidInterest | identicalTokens | poolMismatch => .domainError

end PoolError

end SwapStake
