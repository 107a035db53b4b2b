import SwapStake.Pool.Quote
import SwapStake.UInt128.Root
/-!
# Shares

A pool is worth the root of the product of its reserves, rounded down, in shares. Deposits and
withdrawals move the supply of shares in proportion: a deposit by the growth of that root, a
withdrawal by the part of the supply that is handed in.
-/

namespace SwapStake

namespace Reserves

/-- The shares that reserves are worth. -/
def worth (r : Reserves) : UInt64 :=
  (UInt128.ofProduct r.reserve1 r.reserve2).isqrt

/-- The supply after the reserves have moved from `old` to `new`: scaled by the roots, or the new
worth when there is nothing to scale. -/
def rescaledSupply (old new : Reserves) (supply : UInt64) : Except PoolError UInt64 :=
  if old.worth = 0 ∨ supply = 0 then .ok new.worth
  else orPoolError .shareOverflow (mulDivWord? supply new.worth (.ofUInt64 old.worth))

/-- The shares to issue when the reserves grow from `old` to `new`. -/
def sharesIssued (old new : Reserves) (supply : UInt64) : Except PoolError UInt64 := do
  orPoolError .invalidLiquidity (Word64.sub? (← rescaledSupply old new supply) supply)

/-- The shares to take back when the reserves shrink from `old` to `new`. -/
def sharesReturned (old new : Reserves) (supply : UInt64) : Except PoolError UInt64 := do
  orPoolError .invalidLiquidity (Word64.sub? supply (← rescaledSupply old new supply))

end Reserves

/-- The first deposit into a pool has some of both tokens. -/
def checkFirstDeposit (amount1 amount2 : UInt64) : Except PoolError Unit :=
  if amount1 = 0 ∨ amount2 = 0 then .error .invalidLiquidity else .ok ()

namespace Pool

/-- A new pool and the shares issued for its first deposit. -/
def create (share token1 token2 : TokenId) (amount1 amount2 : UInt64) : Except PoolError (Pool × UInt64) :=
  if token1 = token2 then .error .identicalTokens
  else do
    checkFirstDeposit amount1 amount2
    let reserves : Reserves := ⟨amount1, amount2⟩
    pure (⟨share, token1, token2, reserves.worth, reserves⟩, reserves.worth)

/-- The pool after a deposit of both tokens, and the shares issued for it. -/
def addLiquidity (p : Pool) (amount1 amount2 : UInt64) : Except PoolError (Pool × UInt64) :=
  if amount1 = 0 ∨ amount2 = 0 then .error .invalidLiquidity
  else do
    let reserve1 ← orPoolError .ratioOverflow (Word64.add? p.reserves.reserve1 amount1)
    let reserve2 ← orPoolError .ratioOverflow (Word64.add? p.reserves.reserve2 amount2)
    let issued ← p.reserves.sharesIssued ⟨reserve1, reserve2⟩ p.supply
    let supply ← orPoolError .shareOverflow (Word64.add? p.supply issued)
    pure ({ p with supply, reserves := ⟨reserve1, reserve2⟩ }, issued)

/-- The part of a reserve that `shares` of the supply stand for. -/
def shareOf (p : Pool) (reserve shares : UInt64) : Except PoolError UInt64 :=
  orPoolError .shareOverflow (mulDivWord? reserve shares (.ofUInt64 p.supply))

/-- The pool after shares are handed in, and the reserves paid out for them. -/
def takeLiquidity (p : Pool) (shares : UInt64) : Except PoolError (Pool × Reserves) :=
  if shares = 0 ∨ p.supply < shares then .error .invalidLiquidity
  else do
    let paid1 ← p.shareOf p.reserves.reserve1 shares
    let paid2 ← p.shareOf p.reserves.reserve2 shares
    let reserves : Reserves := ⟨p.reserves.reserve1 - paid1, p.reserves.reserve2 - paid2⟩
    pure ({ p with supply := p.supply - shares, reserves }, ⟨paid1, paid2⟩)

end Pool

end SwapStake
