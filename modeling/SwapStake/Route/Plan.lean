import SwapStake.Pool.Quote
import SwapStake.Route.Path
/-!
# Plans

A request says what is paid and what is received, and fixes one of the two amounts. Its plan over a
path has one swap for each pool and a summary between the two ends. A sale is walked forward, each
hop putting in what the hop before it paid out; a purchase is walked backward from the wanted
amount, each hop having to pay out what the hop after it costs. Planning changes no pool.
-/

namespace SwapStake

/-- Which amount of a request is fixed. -/
inductive Side where
  /-- What the caller receives. -/
  | buy
  /-- What the caller pays. -/
  | sell
deriving DecidableEq, Repr

structure SwapRequest where
  source : TokenId
  destination : TokenId
  amount : UInt64
  /-- The interest of every pool on the way, in thousandths. -/
  interest : UInt32
  side : Side
deriving DecidableEq, Repr

/-- Reserves before and after a hop, those of the entering token first. -/
structure HopChange where
  before : Reserves
  after : Reserves
deriving DecidableEq, Repr

namespace HopChange

/-- The change when `paid` enters and `received` leaves. -/
def of (before : Reserves) (paid received : UInt64) : Except PoolError HopChange := do
  let reserve1 ← orPoolError .ratioOverflow (Word64.add? before.reserve1 paid)
  pure ⟨before, ⟨reserve1, before.reserve2 - received⟩⟩

/-- The change as a swap of the pool, in the pool's own orientation. -/
def toSwap (c : HopChange) (p : Pool) (entering : TokenId) : Swap :=
  if entering = p.token1 then ⟨p.token1, p.token2, c.before, c.after⟩
  else ⟨p.token1, p.token2, c.before.inverted, c.after.inverted⟩

end HopChange

/-- The reserves with the side of the entering token first. A token that is not the pool's first is
its second. -/
def Pool.facing (p : Pool) (entering : TokenId) : Reserves :=
  if entering = p.token1 then p.reserves else p.reserves.inverted

namespace Plan

/-- Put `paid` into the first pool, what it pays out into the next, and so on. The changes and the
last output. -/
def sellAlong (interest : UInt32) (paid : UInt64) :
    List Reserves → Except RouteError (List HopChange × UInt64)
  | [] => .ok ([], paid)
  | r :: rest => do
    let received ← onRoute (r.saleProceeds paid interest)
    if received = 0 then .error .zeroOutput
    else
      let change ← onRoute (HopChange.of r paid received)
      let (changes, output) ← sellAlong interest received rest
      pure (change :: changes, output)

/-- Take `wanted` out of the last pool, what that costs out of the pool before it, and so on. The
changes in path order and the cost at the first pool. -/
def buyAlong (interest : UInt32) (wanted : UInt64) :
    List Reserves → Except RouteError (List HopChange × UInt64)
  | [] => .ok ([], wanted)
  | r :: rest => do
    let (changes, output) ← buyAlong interest wanted rest
    let cost ← onRoute (r.inverted.buyCost output interest)
    if cost = 0 then .error .zeroOutput
    else
      let change ← onRoute (HopChange.of r cost output)
      pure (change :: changes, cost)

end Plan

structure Plan where
  request : SwapRequest
  /-- One swap for each pool, in path order. -/
  swaps : List Swap
  /-- The net effect between the two ends: the source first, the destination second. -/
  summary : Swap
  /-- How much of the source is paid. -/
  amountIn : UInt64
  /-- How much of the destination is received. -/
  amountOut : UInt64
deriving DecidableEq, Repr

namespace Plan

/-- What is paid and received, as a pair of amounts. -/
def effectiveRatio (p : Plan) : Reserves :=
  ⟨p.amountIn, p.amountOut⟩

/-- The changes along the path, and the amounts at its two ends. -/
def changesAlong (request : SwapRequest) (walk : List Reserves) :
    Except RouteError (List HopChange × UInt64 × UInt64) :=
  match request.side with
  | .sell => (sellAlong request.interest request.amount walk).map fun (cs, out) => (cs, request.amount, out)
  | .buy => (buyAlong request.interest request.amount walk).map fun (cs, cost) => (cs, cost, request.amount)

/-- Plan over the pools of a path. -/
def along (pools : List Pool) (request : SwapRequest) : Except RouteError Plan :=
  if request.amount = 0 then .error .zeroAmount
  else do
    let tokens ← Path.tokens pools request.source request.destination
    let walk := List.zipWith Pool.facing pools tokens
    match ← changesAlong request walk with
    | ([], _, _) => .error .emptyPath
    | (first :: rest, amountIn, amountOut) =>
      let last := rest.getLastD first
      let entries := pools.zip tokens
      pure
        { request
          swaps := List.zipWith (fun e c => c.toSwap e.1 e.2) entries (first :: rest)
          summary :=
            { token1 := request.source
              token2 := request.destination
              before := ⟨first.before.reserve1, last.before.reserve2⟩
              after := ⟨first.after.reserve1, last.after.reserve2⟩ }
          amountIn
          amountOut }

/-- Plan in exactly one pool. -/
def inPool (pools : List Pool) (request : SwapRequest) : Except RouteError Plan :=
  match pools with
  | [p] =>
    if ¬ p.contains request.source then .error (.tokenNotInPool request.source)
    else if ¬ p.contains request.destination then .error (.tokenNotInPool request.destination)
    else along [p] request
  | _ => .error (.poolCount pools.length)

/-- Plan through an ordered chain of pools; a chain of one is an exchange in that pool. -/
def through (pools : List Pool) (request : SwapRequest) : Except RouteError Plan :=
  match pools with
  | [] => .error .emptyPath
  | [p] => inPool [p] request
  | _ => along pools request

end Plan

end SwapStake
