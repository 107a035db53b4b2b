import SwapStake.Mining.Timeline
import SwapStake.Proofs.Mining.Controller
/-!
# What a miner does in one turn

In a turn a miner handles an event, or its scheduler dispatches what is due. A dispatched task only
sends its event, so the two are apart: between them the event may wait for as long as it likes, while
looks at the chain replace the plan or mining is stopped. `TurnResult` has the ways in which a turn can
end. The scheduler is left open in all of them, since no event asks it what it holds.
-/

namespace SwapStake

inductive MinerTurn where
  | handles (services : MiningServices) (clocks : Clocks) (event : MinerEvent)
  /-- Send the events of all that is due. -/
  | dispatches (now : Nat)

namespace Miner

/-- A new miner, as its scheduler has been started. -/
def ready (settings : MiningSettings) (native : TokenId) (hasher : Hasher) : Miner :=
  { new settings native hasher with scheduler := { started := true } }

theorem timeline_ready (settings : MiningSettings) (native : TokenId) (hasher : Hasher) (wall : UInt64) :
    (MiningTimeline.new settings native hasher wall).miner = ready settings native hasher := rfl

def take (m : Miner) : MinerTurn → Miner × List MiningEffect
  | .handles services clocks event => m.handle services clocks event
  | .dispatches now =>
    let (firings, scheduler) := m.scheduler.dispatch now
    ({ m with scheduler }, firings.map fun _ => .counted .tasksFired)

/-- How a turn ends. -/
inductive TurnResult (m : Miner) : MinerTurn → Miner × List MiningEffect → Prop
  | dispatched {now n : Nat} {scheduler : Scheduler MinerJob} :
      TurnResult m (.dispatches now) ({ m with scheduler }, List.replicate n (.counted .tasksFired))
  | refused {s : MiningServices} {clocks : Clocks} {address : String} (mining : m.controller.isMining)
      (refusal : (m.start clocks address).1 = false) :
      TurnResult m (.handles s clocks (.start address)) (m, [])
  | started {s : MiningServices} {clocks : Clocks} {address : String} {scheduler : Scheduler MinerJob}
      {task : TaskHandle} (idle : ¬ m.controller.isMining) (acceptance : (m.start clocks address).1 = true) :
      TurnResult m (.handles s clocks (.start address))
        ({ m with controller := (m.controller.start address).2, scheduler, pollTask := some task }, [])
  | unstarted {s : MiningServices} {clocks : Clocks} {address : String} (idle : ¬ m.controller.isMining)
      (refusal : (m.start clocks address).1 = false) :
      TurnResult m (.handles s clocks (.start address))
        ({ m with controller := (m.controller.start address).2.stop }, [])
  | stopped {s : MiningServices} {clocks : Clocks} {scheduler : Scheduler MinerJob} :
      TurnResult m (.handles s clocks .stop)
        ({ m with controller := m.controller.stop, scheduler, pollTask := none, mineTask := none }, [])
  | looked {s : MiningServices} {clocks : Clocks} {outcome : HeadOutcome} {controller : MiningController}
      {effects : List MiningEffect} (result : m.controller.onChainHead s = (outcome, controller, effects))
      (quiet : outcome = .unchanged ∨ ∃ e, outcome = .failed e) :
      TurnResult m (.handles s clocks (.due .poll)) ({ m with controller }, effects)
  | barren {s : MiningServices} {clocks : Clocks} {controller : MiningController}
      {effects : List MiningEffect} {scheduler : Scheduler MinerJob}
      (result : m.controller.onChainHead s = (.noCandidate, controller, effects)) :
      TurnResult m (.handles s clocks (.due .poll)) ({ m with controller, scheduler, mineTask := none }, effects)
  | planned {s : MiningServices} {clocks : Clocks} {head : ChainHead} {details : StakeDetails}
      {controller : MiningController} {effects : List MiningEffect} {scheduler : Scheduler MinerJob}
      {task : Option TaskHandle}
      (result : m.controller.onChainHead s = (.scheduled head details, controller, effects)) :
      TurnResult m (.handles s clocks (.due .poll))
        ({ m with
          controller
          scheduler
          mineTask := task.map fun h => (m.sequence + 1, h)
          sequence := m.sequence + 1 }, effects)
  | stale {s : MiningServices} {clocks : Clocks} {head : ChainHead} {sequence : Nat}
      (other : m.mineTask.map Prod.fst ≠ some sequence) :
      TurnResult m (.handles s clocks (.due (.mine head sequence))) (m, [])
  | abandoned {s : MiningServices} {clocks : Clocks} {head : ChainHead} {sequence : Nat}
      (live : m.mineTask.map Prod.fst = some sequence) (other : m.controller.plannedHead ≠ some head) :
      TurnResult m (.handles s clocks (.due (.mine head sequence))) ({ m with mineTask := none }, [])
  | attempted {s : MiningServices} {clocks : Clocks} {head : ChainHead} {sequence : Nat} {outcome : MineOutcome}
      {controller : MiningController} {effects : List MiningEffect}
      (live : m.mineTask.map Prod.fst = some sequence) (planned : m.controller.plannedHead = some head)
      (result : m.controller.onMineDue s head = (outcome, controller, effects)) :
      TurnResult m (.handles s clocks (.due (.mine head sequence)))
        ({ m with controller, mineTask := none }, effects)

section Events

variable (s : MiningServices) (clocks : Clocks) (m : Miner)

theorem cancel_eq (h : Option TaskHandle) : ∃ scheduler, m.cancel h = { m with scheduler } := by
  cases h with
  | none => exact ⟨m.scheduler, rfl⟩
  | some h => exact ⟨(m.scheduler.remove h).2, rfl⟩

theorem cancelMining_eq : ∃ scheduler, m.cancelMining = { m with scheduler, mineTask := none } := by
  obtain ⟨scheduler, hcancel⟩ := m.cancel_eq (m.mineTask.map Prod.snd)
  exact ⟨scheduler, by rw [cancelMining, hcancel]⟩

theorem stop_eq : ∃ scheduler, m.stop =
    { m with controller := m.controller.stop, scheduler, pollTask := none, mineTask := none } := by
  obtain ⟨first, hpolling⟩ := m.cancel_eq m.pollTask
  obtain ⟨second, hmining⟩ := cancelMining_eq { m with scheduler := first, pollTask := none }
  exact ⟨second, by rw [stop, cancelPolling, hpolling, hmining]⟩

theorem scheduleMining_eq (head : ChainHead) (details : StakeDetails) :
    ∃ scheduler task, m.scheduleMining clocks head details =
      { m with
        scheduler
        mineTask := Option.map (fun h => (m.sequence + 1, h)) task
        sequence := m.sequence + 1 } := by
  obtain ⟨scheduler, hcancel⟩ := m.cancelMining_eq
  rw [scheduleMining, hcancel]
  dsimp only
  cases scheduler.scheduleAt (.mine head (m.sequence + 1)) (clocks.now +
      (Word64.subSaturating (Word64.subSaturating details.nextBlockTime m.lead) clocks.wall).toNat) with
  | error e => exact ⟨scheduler, none, rfl⟩
  | ok answer => exact ⟨answer.2, some answer.1, rfl⟩

theorem start_result (address : String) :
    TurnResult m (.handles s clocks (.start address)) ((m.start clocks address).2, []) := by
  by_cases hmining : m.controller.isMining
  · have hrefused : m.start clocks address = (false, m) := by
      rw [start, MiningController.start, if_pos hmining]
    have hrefusal := congrArg Prod.fst hrefused
    rw [hrefused]
    exact .refused hmining hrefusal
  · have hstart : m.controller.start address = (true, (m.controller.start address).2) := by
      rw [MiningController.start, if_neg hmining]
    cases hschedule : m.scheduler.scheduleEvery .poll clocks.now m.pollInterval with
    | error e =>
      have hunstarted : m.start clocks address =
          (false, { m with controller := (m.controller.start address).2.stop }) := by
        rw [start, hstart, hschedule]
      have hrefusal := congrArg Prod.fst hunstarted
      rw [hunstarted]
      exact .unstarted hmining hrefusal
    | ok answer =>
      have hstarted : m.start clocks address =
          (true, { m with
            controller := (m.controller.start address).2
            scheduler := answer.2
            pollTask := some answer.1 }) := by
        rw [start, hstart, hschedule]
      have hacceptance := congrArg Prod.fst hstarted
      rw [hstarted]
      exact .started hmining hacceptance

theorem poll_result : TurnResult m (.handles s clocks (.due .poll)) (m.due s clocks .poll) := by
  rw [due]
  rcases hlook : m.controller.onChainHead s with ⟨outcome, controller, effects⟩
  dsimp only
  cases outcome with
  | unchanged => exact .looked hlook (.inl rfl)
  | failed e => exact .looked hlook (.inr ⟨e, rfl⟩)
  | noCandidate =>
    obtain ⟨scheduler, hcancel⟩ := cancelMining_eq { m with controller }
    dsimp only
    rw [hcancel]
    exact .barren hlook
  | scheduled head details =>
    obtain ⟨scheduler, task, hschedule⟩ := scheduleMining_eq clocks { m with controller } head details
    dsimp only
    rw [hschedule]
    exact .planned hlook

theorem mine_result (head : ChainHead) (sequence : Nat) :
    TurnResult m (.handles s clocks (.due (.mine head sequence))) (m.due s clocks (.mine head sequence)) := by
  rw [due]
  by_cases hlive : m.mineTask.map Prod.fst = some sequence
  · rw [if_neg (not_not_intro hlive)]
    dsimp only
    by_cases hplanned : m.controller.plannedHead = some head
    · rw [if_neg (not_not_intro hplanned)]
      exact .attempted hlive hplanned rfl
    · rw [if_pos hplanned]
      exact .abandoned hlive hplanned
  · rw [if_pos hlive]
    exact .stale hlive

end Events

/-- **Every turn ends in one of these ways.** -/
theorem take_result (m : Miner) (turn : MinerTurn) : TurnResult m turn (m.take turn) := by
  cases turn with
  | dispatches now =>
    rw [take]
    dsimp only
    rw [List.map_const']
    exact .dispatched
  | handles s clocks event =>
    cases event with
    | start address => exact start_result s clocks m address
    | stop =>
      obtain ⟨scheduler, hstop⟩ := m.stop_eq
      rw [take, handle, hstop]
      exact .stopped
    | due job =>
      cases job with
      | poll => exact poll_result s clocks m
      | mine head sequence => exact mine_result s clocks m head sequence

end Miner

end SwapStake
