import SwapStake.Pool.Basic
/-!
# Paths through pools

A path is an ordered list of pools. Followed from a source token, each pool is entered with one of
its tokens and left with the other, until the destination is reached. No pool may be used twice,
though a token may be met twice. The first violation in walk order is reported.
-/

namespace SwapStake

/-! ## Errors of routes

Why a request cannot be planned over a chain of pools. An error of a pool on the way keeps its own
text and kind; all others lie outside the domain of planning. -/

inductive RouteError where
  /-- An exchange in a single pool was given another number of pools. -/
  | poolCount (count : Nat)
  /-- A token of the request is not in the pool. -/
  | tokenNotInPool (token : TokenId)
  | emptyPath
  | identicalTokens
  /-- The path does not begin at the source or does not end at the destination. -/
  | endpointMismatch
  /-- The pool at this place of the path does not have the token that leaves the pool before it. -/
  | brokenPath (hop : Nat)
  /-- The path uses the pool of this share twice. -/
  | duplicatePool (share : TokenId)
  | zeroAmount
  /-- A hop moves nothing. -/
  | zeroOutput
  /-- A pool refuses its hop. -/
  | pool (error : PoolError)
deriving DecidableEq, Repr

namespace RouteError

def message : RouteError → String
  | poolCount n => "expected exactly one pool, got " ++ n.repr
  | tokenNotInPool t => "token " ++ t.text ++ " not in pool"
  | emptyPath => "empty path"
  | identicalTokens => "identical tokens"
  | endpointMismatch => "path endpoints do not match request"
  | brokenPath hop => "path broken at hop " ++ hop.repr
  | duplicatePool t => "pool " ++ t.text ++ " used twice"
  | zeroAmount => "zero amount"
  | zeroOutput => "exchange rounds down to zero"
  | pool e => e.message

def kind : RouteError → ErrorKind
  | pool e => e.kind
  | _ => .domainError

end RouteError

/-- An answer of a pool as an answer on a route. -/
def onRoute (r : Except PoolError α) : Except RouteError α :=
  r.mapError .pool

/-! ## The walk -/

namespace Path

/-- Follow the pools from `current`, which is the token that enters the pool at place `hop`; `used`
are the pools passed before. The tokens met are returned, the destination last. -/
def follow (destination : TokenId) (hop : Nat) (used : List TokenId) (current : TokenId) :
    List Pool → Except RouteError (List TokenId)
  | [] => if current = destination then .ok [current] else .error .endpointMismatch
  | p :: rest =>
    if p.share ∈ used then .error (.duplicatePool p.share)
    else
      match p.other? current with
      | none => .error (if hop = 0 then .endpointMismatch else .brokenPath hop)
      | some next => (follow destination (hop + 1) (p.share :: used) next rest).map (current :: ·)

/-- The tokens met on the way through the pools: the source, what enters each further pool, and the
destination. -/
def tokens (pools : List Pool) (source destination : TokenId) : Except RouteError (List TokenId) :=
  if pools = [] then .error .emptyPath
  else if source = destination then .error .identicalTokens
  else follow destination 0 [] source pools

end Path

end SwapStake
