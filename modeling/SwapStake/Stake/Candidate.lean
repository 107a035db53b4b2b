import SwapStake.Chain.Basic
import SwapStake.UInt128.Basic
/-!
# Candidates

Which outputs of a wallet may make the next block, and which of them is the best. An output that may
stake gets a hash of its own for the next block; the first eight bytes of the hash, read as a number
with the lowest byte first, are its target. The best candidate has the least target for its amount.
Quotients are compared by their cross products, so nothing is rounded, and of equals the first in
the list wins.
-/

namespace SwapStake

/-- Which outputs may stake. -/
structure StakePolicy where
  /-- The native coin; nothing else stakes. -/
  native : TokenId
  minAmount : UInt64
  /-- How many blocks an output has to be buried under. -/
  maturity : UInt64
deriving DecidableEq, Repr

/-- Whether an output may stake at a height. An output whose maturity lies beyond all heights may
not. -/
def StakePolicy.eligible (p : StakePolicy) (o : WalletOutput) (unlocked : Bool) (height : UInt64) : Bool :=
  o.token = p.native && p.minAmount ≤ o.amount && unlocked &&
    match Word64.add? o.height p.maturity with
    | some mature => mature ≤ height
    | none => false

/-- The hash of an output for the block after one with the hash `prev`. -/
def posHash (hasher : Hasher) (keyImage prev : Hash256) : Hash256 :=
  hasher (keyImage.toList ++ prev.toList)

/-- The number that the first eight bytes of a hash are, the lowest first. -/
def Hash256.target (h : Hash256) : UInt64 :=
  UInt64.ofNat ((h.toList.take 8).foldr (fun b n => b.toNat + 256 * n) 0)

/-- An output that may stake and its hash for the next block. -/
structure StakeCandidate where
  output : WalletOutput
  posHash : Hash256
deriving DecidableEq, Repr, Inhabited

namespace StakeCandidate

def target (c : StakeCandidate) : UInt64 := c.posHash.target

/-- The order by target for the amount, through cross products. -/
def cmp (a b : StakeCandidate) : Ordering :=
  (UInt128.ofProduct b.output.amount a.target).cmp (UInt128.ofProduct a.output.amount b.target)

/-- The better of two candidates; of equals the first. -/
def better (a b : StakeCandidate) : StakeCandidate :=
  if a.cmp b = .gt then b else a

def best : List StakeCandidate → Option StakeCandidate
  | [] => none
  | c :: rest => some (rest.foldl better c)

/-- The best output that may stake, with its hash. -/
def select (policy : StakePolicy) (hasher : Hasher) (unlocked : WalletOutput → Bool) (height : UInt64)
    (prev : Hash256) (outputs : List WalletOutput) : Option StakeCandidate :=
  best ((outputs.filter fun o => policy.eligible o (unlocked o) height).map fun o =>
    ⟨o, SwapStake.posHash hasher o.keyImage prev⟩)

end StakeCandidate

end SwapStake
