import SwapStake.Mining.Miner
import SwapStake.Schedule.Timeline

/-!
# Mining in virtual time

A run of a miner whose tasks are dispatched in virtual time while the wall clock stands still. At an
instant all that is due is dispatched and handled in the order of dispatch, and what was scheduled
for now meanwhile follows in the same way. When what the miner runs on is gone, nothing happens any
more, and what was seen last stays.
-/

namespace SwapStake

structure MiningTimeline where
  now : Nat := 0
  /-- What the wall clock shows. -/
  wall : UInt64
  miner : Miner
  alive : Bool := true

namespace MiningTimeline

/-- A run of a new miner. -/
def new (settings : MiningSettings) (native : TokenId) (hasher : Hasher) (wall : UInt64) : MiningTimeline :=
  let miner := Miner.new settings native hasher
  { wall, miner := { miner with scheduler := miner.scheduler.start.toOption.getD miner.scheduler } }

def clocks (t : MiningTimeline) : Clocks := ⟨t.now, t.wall⟩

def snapshot (t : MiningTimeline) : MiningSnapshot := t.miner.controller.snapshot

def handleAll (s : MiningServices) (t : MiningTimeline) : List MinerJob → MiningTimeline × List MiningEffect
  | [] => (t, [])
  | job :: rest =>
    let (miner, first) := t.miner.handle s t.clocks (.due job)
    let (t, later) := handleAll s { t with miner } rest
    (t, first ++ later)

/-- Dispatch and handle, at most `n` times. -/
def settleUpTo (s : MiningServices) : Nat → MiningTimeline → MiningTimeline × List MiningEffect
  | 0, t => (t, [])
  | n + 1, t =>
    match t.miner.scheduler.dispatch t.now with
    | ([], _) => (t, [])
    | (firings, scheduler) =>
      let t := { t with miner := { t.miner with scheduler } }
      let (t, handled) := t.handleAll s (firings.map Firing.job)
      let (t, later) := settleUpTo s n t
      (t, firings.map (fun _ => .counted .tasksFired) ++ handled ++ later)

/-- Dispatch and handle until nothing is due. Only a look at the chain schedules anything, at most
one block, so there are at most twice as many tasks as are due. -/
def settle (s : MiningServices) (t : MiningTimeline) : MiningTimeline × List MiningEffect :=
  settleUpTo s (2 * t.miner.scheduler.queue.firings t.now + 1) t

/-- All that happens at an instant. -/
def arrive (s : MiningServices) (time : Nat) (t : MiningTimeline) : MiningTimeline × List MiningEffect :=
  settle s { t with now := time }

/-- The next instant at which something happens. -/
def nextInstant (t : MiningTimeline) : Option Nat :=
  if t.alive then t.miner.scheduler.nextDispatch else none

def sleep (s : MiningServices) (t : MiningTimeline) (duration : Nat) :
    MiningTimeline × List MiningEffect :=
  let target := t.now + duration
  let (t, effects) := passTime nextInstant (arrive s) target t.now t
  ({ t with now := target }, effects)

def start (s : MiningServices) (t : MiningTimeline) (address : String) :
    Bool × MiningTimeline × List MiningEffect :=
  if t.alive then
    let (started, miner) := t.miner.start t.clocks address
    (started, settle s { t with miner })
  else (false, t, [])

def stop (s : MiningServices) (t : MiningTimeline) : MiningTimeline × List MiningEffect :=
  if t.alive then settle s { t with miner := t.miner.stop } else (t, [])

/-- What the miner runs on is gone. -/
def kill (t : MiningTimeline) : MiningTimeline :=
  { t with alive := false }

end MiningTimeline

end SwapStake
