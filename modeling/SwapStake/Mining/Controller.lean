import SwapStake.Metrics
import SwapStake.Settings.Basic
import SwapStake.Stake.Slot

/-!
# The mining controller

While it mines, the controller plans a block for each new head of the chain, and makes the block
when it is told that its time has come. A head is remembered once it has been dealt with, so it is
planned for once; a head whose plan could not be made is forgotten, and the next look at the chain
tries again. A block is only made if the head is still the one that was planned for, with the stake
that is best at that time.
-/

namespace SwapStake

/-! ## What mining asks others for

The daemon knows the head of the chain and the parameters of the next block; the wallet knows its
outputs, and it builds, signs and submits a block. A poll and an attempt to mine ask each of them at
most once, so all that they can answer meanwhile is one value of `MiningServices`. `MiningEffect` is
everything that mining does to the world, in the order in which it does it. -/

structure MiningServices where
  head : Except ServiceError ChainHead
  info : Except ServiceError MiningInfo
  /-- The unspent outputs of the wallet. -/
  outputs : Except ServiceError (List WalletOutput)
  unlocked : WalletOutput → Bool
  /-- Build and submit a block with a stake and the address that is rewarded. -/
  submit : StakeDetails → String → Except ServiceError Hash256

/-- What mining does to the world. -/
inductive MiningEffect where
  | askedHead
  | askedInfo
  | askedOutputs
  | submitted (details : StakeDetails) (address : String)
  /-- The height of the chain is published. -/
  | sawHeight (height : UInt64)
  | counted (counter : Counter)
deriving DecidableEq, Repr

/-- The metrics after some effects. -/
def Metrics.afterMining (m : Metrics) (effects : List MiningEffect) : Metrics :=
  effects.foldl (fun m e => match e with
    | .counted c => m.count c
    | .sawHeight h => m.seeHeight h
    | _ => m) m

/-! ## The controller -/

/-- What can be seen of a controller. The two counts have no largest value where words would come round
to zero, so a controller stands for one that counts fewer than `2 ^ 64` blocks of each sort. -/
structure MiningSnapshot where
  mining : Bool := false
  /-- The height of the last head that was new. -/
  chainHeight : UInt64 := 0
  /-- The amount of the stake that is planned. -/
  candidateAmount : Option UInt64 := none
  /-- The time of the block that is planned. -/
  nextBlockTime : Option UInt64 := none
  /-- How many blocks it has submitted. -/
  submitted : Nat := 0
  /-- How many blocks somebody else made first. -/
  lost : Nat := 0
  lastError : Option ServiceError := none
deriving DecidableEq, Repr

/-- What a look at the chain leads to. -/
inductive HeadOutcome where
  | unchanged
  /-- A block with a stake is planned on top of a head. -/
  | scheduled (head : ChainHead) (details : StakeDetails)
  | noCandidate
  | failed (error : ServiceError)
deriving DecidableEq, Repr

/-- What an attempt to make a block leads to. -/
inductive MineOutcome where
  | submitted (block : Hash256)
  /-- The head is not the one that was planned for. -/
  | lost
  | noCandidate
  | failed (error : ServiceError)
deriving DecidableEq, Repr

structure MiningController where
  policy : StakePolicy
  /-- The amount around which the weight of a stake begins to flatten. -/
  knee : UInt64
  hasher : Hasher
  /-- The address that is rewarded, while mining. -/
  rewardAddress : Option String := none
  /-- The head that was dealt with last. -/
  plannedHead : Option ChainHead := none
  snapshot : MiningSnapshot := {}

namespace MiningController

def new (settings : MiningSettings) (native : TokenId) (hasher : Hasher) : MiningController :=
  { policy := ⟨native, settings.minStake, settings.maturity⟩
    knee := settings.knee
    hasher }

def isMining (c : MiningController) : Bool :=
  c.rewardAddress.isSome

/-- Begin to mine for an address, and tell whether this is new. -/
def start (c : MiningController) (address : String) : Bool × MiningController :=
  if c.isMining then (false, c)
  else
    (true, { c with
      rewardAddress := some address
      plannedHead := none
      snapshot := { c.snapshot with mining := true } })

/-- Stop to mine and forget what was planned. -/
def stop (c : MiningController) : MiningController :=
  { c with
    rewardAddress := none
    plannedHead := none
    snapshot := { c.snapshot with mining := false, candidateAmount := none, nextBlockTime := none } }

def recordError (c : MiningController) (e : ServiceError) : MiningController :=
  { c with snapshot := { c.snapshot with lastError := some e } }

/-- Show the stake that is planned, or that there is none. -/
def present (c : MiningController) (details : Option StakeDetails) : MiningController :=
  { c with snapshot := { c.snapshot with
      candidateAmount := details.map StakeDetails.amount
      nextBlockTime := details.map StakeDetails.nextBlockTime } }

/-- The best stake for the next block, if there is one. -/
def derive (s : MiningServices) (c : MiningController) :
    Except ServiceError (Option StakeDetails) × List MiningEffect :=
  match s.info with
  | .error e => (.error e, [.askedInfo])
  | .ok info =>
    (s.outputs.map fun outputs =>
        (StakeCandidate.select c.policy c.hasher s.unlocked info.height info.posHash outputs).map
          fun best => best.details info c.knee,
      [.askedInfo, .askedOutputs])

/-- Look at the chain, and plan a block if the head is new. -/
def onChainHead (s : MiningServices) (c : MiningController) :
    HeadOutcome × MiningController × List MiningEffect :=
  if ¬ c.isMining then (.unchanged, c, [])
  else
    match s.head with
    | .error e => (.failed e, c.recordError e, [.askedHead])
    | .ok head =>
      if c.plannedHead = some head then (.unchanged, c, [.askedHead])
      else
        let c := { c with
          plannedHead := some head
          snapshot := { c.snapshot with chainHeight := head.height } }
        let (derived, effects) := c.derive s
        let effects := [.askedHead, .sawHeight head.height] ++ effects
        match derived with
        | .ok (some details) => (.scheduled head details, c.present (some details), effects)
        | .ok none => (.noCandidate, c.present none, effects)
        | .error e => (.failed e, { c with plannedHead := none }.recordError e, effects)

/-- Make a block on top of a head, if it is still the head. -/
def onMineDue (s : MiningServices) (c : MiningController) (expected : ChainHead) :
    MineOutcome × MiningController × List MiningEffect :=
  match c.rewardAddress with
  | none => (.noCandidate, c, [])
  | some address =>
    match s.head with
    | .error e => (.failed e, c.recordError e, [.askedHead])
    | .ok head =>
      if head ≠ expected then
        (.lost, { c with snapshot := { c.snapshot with lost := c.snapshot.lost + 1 } },
          [.askedHead, .counted .blocksLost])
      else
        let (derived, effects) := c.derive s
        let effects := .askedHead :: effects
        match derived with
        | .error e => (.failed e, c.recordError e, effects)
        | .ok none => (.noCandidate, c, effects)
        | .ok (some details) =>
          let effects := effects ++ [.submitted details address]
          match s.submit details address with
          | .error e => (.failed e, c.recordError e, effects)
          | .ok block =>
            (.submitted block,
              { c with snapshot := { c.snapshot with submitted := c.snapshot.submitted + 1 } },
              effects ++ [.counted .blocksSubmitted])

end MiningController

end SwapStake
