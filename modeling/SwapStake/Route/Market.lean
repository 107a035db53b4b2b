import SwapStake.Route.Plan

/-!
# Markets

All pools that requests can be routed through. A path names pools by their places in the market.
A trade plans over the pools of its path and then applies each swap of the plan, in path order, to
the pool that it was planned for; a pool that refuses its swap stays as it is.
-/

namespace SwapStake

structure Market (n : Nat) where
  pools : Vector Pool n
deriving DecidableEq, Repr

namespace Market

def pool (m : Market n) (i : Fin n) : Pool :=
  m.pools.get i

def onPath (m : Market n) (path : List (Fin n)) : List Pool :=
  path.map m.pool

def set (m : Market n) (i : Fin n) (p : Pool) : Market n :=
  ⟨m.pools.set i p⟩

/-- Apply swaps one after the other, and tell what became of each. -/
def settle (m : Market n) : List (Fin n × Swap) → List (Except PoolError Pool) × Market n
  | [] => ([], m)
  | (i, s) :: rest =>
    let changed := (m.pool i).applySwap s
    let next := match changed with
      | .ok p => m.set i p
      | .error _ => m
    let (later, final) := next.settle rest
    (changed :: later, final)

structure Outcome (n : Nat) where
  plan : Plan
  /-- What became of each swap of the plan. -/
  applied : List (Except PoolError Pool)
  market : Market n

/-- Plan a request over a path and settle the plan. -/
def trade (planner : List Pool → SwapRequest → Except RouteError Plan) (m : Market n)
    (path : List (Fin n)) (request : SwapRequest) : Except RouteError (Outcome n) :=
  (planner (m.onPath path) request).map fun plan =>
    let (applied, market) := m.settle (path.zip plan.swaps)
    { plan, applied, market }

end Market

end SwapStake
