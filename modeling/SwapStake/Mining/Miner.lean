import SwapStake.Mining.Controller
import SwapStake.Schedule.Scheduler

/-!
# The miner

A miner drives a controller by the tasks of its own scheduler: a recurring one that looks at the
chain, and one for the block that is planned. A task of the second kind carries a sequence number.
When its event is handled, it may have been replaced or cancelled meanwhile, so an event with
another number than that of the task that is waited for is passed over, and so is one for a head
that is no longer planned for.
-/

namespace SwapStake

/-- The two clocks of a miner: the one that tasks are scheduled by, and the one that blocks are
dated by. Both count milliseconds. -/
structure Clocks where
  now : Nat
  wall : UInt64
deriving DecidableEq, Repr

/-- What the tasks of a miner are for. -/
inductive MinerJob where
  /-- Look at the chain. -/
  | poll
  /-- Make the block that was planned on top of a head, as the plan with this number. -/
  | mine (head : ChainHead) (sequence : Nat)
deriving DecidableEq, Repr

inductive MinerEvent where
  | start (address : String)
  | stop
  | due (job : MinerJob)
deriving DecidableEq, Repr

structure Miner where
  controller : MiningController
  scheduler : Scheduler MinerJob := {}
  /-- How often the chain is looked at. -/
  pollInterval : Nat
  /-- How long before its time a block is put together. -/
  lead : UInt64
  pollTask : Option TaskHandle := none
  /-- The task for the block that is planned, with its sequence number. -/
  mineTask : Option (Nat × TaskHandle) := none
  /-- The number of the last plan. It has no largest value where a word would come round to zero, so a
  miner stands for one that makes fewer than `2 ^ 64` plans. -/
  sequence : Nat := 0

namespace Miner

/-- A miner that does not mine, and whose scheduler has not been started. -/
def new (settings : MiningSettings) (native : TokenId) (hasher : Hasher) : Miner :=
  { controller := .new settings native hasher
    pollInterval := max settings.pollInterval.toNat 1
    lead := settings.lead }

def cancel (m : Miner) (h : Option TaskHandle) : Miner :=
  match h with
  | some h => { m with scheduler := (m.scheduler.remove h).2 }
  | none => m

def cancelMining (m : Miner) : Miner :=
  { m.cancel (m.mineTask.map Prod.snd) with mineTask := none }

def cancelPolling (m : Miner) : Miner :=
  { m.cancel m.pollTask with pollTask := none }

def start (clocks : Clocks) (m : Miner) (address : String) : Bool × Miner :=
  match m.controller.start address with
  | (false, _) => (false, m)
  | (true, controller) =>
    match m.scheduler.scheduleEvery .poll clocks.now m.pollInterval with
    | .ok (h, scheduler) => (true, { m with controller, scheduler, pollTask := some h })
    | .error _ => (false, { m with controller := controller.stop })

def stop (m : Miner) : Miner :=
  let m := m.cancelPolling.cancelMining
  { m with controller := m.controller.stop }

/-- Plan to make a block: at its time less the lead, or at once if that has passed. -/
def scheduleMining (clocks : Clocks) (m : Miner) (head : ChainHead) (details : StakeDetails) : Miner :=
  let m := m.cancelMining
  let sequence := m.sequence + 1
  let beginning := Word64.subSaturating details.nextBlockTime m.lead
  let delay := Word64.subSaturating beginning clocks.wall
  let m := { m with sequence }
  match m.scheduler.scheduleAt (.mine head sequence) (clocks.now + delay.toNat) with
  | .ok (h, scheduler) => { m with scheduler, mineTask := some (sequence, h) }
  | .error _ => m

def due (s : MiningServices) (clocks : Clocks) (m : Miner) : MinerJob → Miner × List MiningEffect
  | .poll =>
    let (outcome, controller, effects) := m.controller.onChainHead s
    let m := { m with controller }
    match outcome with
    | .scheduled head details => (m.scheduleMining clocks head details, effects)
    | .noCandidate => (m.cancelMining, effects)
    | .unchanged | .failed _ => (m, effects)
  | .mine head sequence =>
    if m.mineTask.map Prod.fst ≠ some sequence then (m, [])
    else
      let m := { m with mineTask := none }
      if m.controller.plannedHead ≠ some head then (m, [])
      else
        let (_, controller, effects) := m.controller.onMineDue s head
        ({ m with controller }, effects)

def handle (s : MiningServices) (clocks : Clocks) (m : Miner) : MinerEvent → Miner × List MiningEffect
  | .start address => ((m.start clocks address).2, [])
  | .stop => (m.stop, [])
  | .due job => m.due s clocks job

end Miner

end SwapStake
