import SwapStake.Route.Plan
/-!
# Legs of an exchange

An exchange moves money twice: the wallet pays the source token to the account that holds the
reserves of all pools, and that account pays the destination token back to the wallet.
-/

namespace SwapStake

/-- Who pays for a leg. -/
inductive Party where
  /-- The wallet of the caller. -/
  | wallet
  /-- The account that holds the reserves. -/
  | lpAccount
deriving DecidableEq, Repr

/-- One movement of money. -/
structure Leg where
  origin : Party
  token : TokenId
  amount : UInt64
  /-- The address that receives it. -/
  destination : String
deriving DecidableEq, Repr

/-- The two legs of a planned exchange. -/
def Plan.legs (p : Plan) (lpAddress walletAddress : String) : List Leg :=
  [⟨.wallet, p.request.source, p.amountIn, lpAddress⟩,
    ⟨.lpAccount, p.request.destination, p.amountOut, walletAddress⟩]

end SwapStake
