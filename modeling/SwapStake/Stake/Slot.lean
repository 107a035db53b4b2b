import SwapStake.Angle
import SwapStake.Stake.Candidate
import SwapStake.UInt128.Division
/-!
# The weight of a stake and the time of its block

A stake weighs its amount less a part that grows with the angle of the amount over a knee: nothing
for small amounts, a quarter far beyond the knee. Its candidate may make the next block once
`weight * slope * t` exceeds the target, where `t` is the time since the top block in milliseconds,
the slope falls with the difficulty, and the weight counts in whole coins. The last time that is too
early is found by halving an interval. It is the time that the block is planned for, unless that is
the time of the top block itself.
-/

namespace SwapStake

/-! ## The weight -/

/-- The angle of an amount over the knee, at most a quarter turn. A knee of zero counts as one. -/
def stakeAngle (amount knee : UInt64) : Nat :=
  (max 0 (min (Angle.ofPoint amount.toNat (max knee.toNat 1)) (Angle.halfTurn / 2))).toNat

def stakeWeight (amount knee : UInt64) : UInt64 :=
  if amount = 0 then 0
  else amount - UInt64.ofNat (amount.toNat * stakeAngle amount knee / 32768)

/-! ## The time -/

/-- All times that are searched lie below this. -/
def timeLimit : Nat := 2 ^ 32

/-- The longest wait of one coin at difficulty one, in milliseconds. -/
def blockTime : UInt64 := 120000

/-- By how much one coin gains on its target in a millisecond. -/
def baseTarget (difficulty : UInt64) : UInt64 :=
  max (Word64.max / Word64.mulSaturating (max difficulty 1) blockTime) 1

/-- What a stake has gained after `t` milliseconds; the largest word when that does not fit. -/
def gained (t weight slope : UInt64) : UInt128 :=
  match UInt128.mulDiv (.ofProduct weight slope) (.ofUInt64 t) (.ofUInt64 coin) .down with
  | .ok g => g
  | .error _ => .max

/-- Narrow `[lo, hi)` down to the last time at which a stake has not gained more than its target. -/
def searchTime (weight slope target : UInt64) (lo hi : Nat) : Nat :=
  if hi - lo ≤ 1 then lo
  else
    let mid := lo + (hi - lo) / 2
    if gained (UInt64.ofNat mid) weight slope ≤ .ofUInt64 target then
      searchTime weight slope target mid hi
    else
      searchTime weight slope target lo mid
termination_by hi - lo

/-- The last time below the limit at which a stake has not gained more than its target. -/
def timeOffset (weight slope target : UInt64) : UInt64 :=
  UInt64.ofNat (searchTime weight slope target 0 timeLimit)

/-- The block that a candidate can make on top of the one that `info` describes. -/
def StakeCandidate.details (c : StakeCandidate) (info : MiningInfo) (knee : UInt64) : StakeDetails :=
  let weight := stakeWeight c.output.amount knee
  let offset := timeOffset weight (baseTarget info.difficulty) c.target
  { posHash := c.posHash
    amount := c.output.amount
    index := c.output.index
    nextBlockTime := Word64.addSaturating info.timestamp (max offset 1)
    difficulty := info.difficulty }

end SwapStake
