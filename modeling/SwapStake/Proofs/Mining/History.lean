import SwapStake.Proofs.Mining.Miner
/-!
# Histories of a miner

A history is the list of the turns of a miner, the latest first. Its events come in any order, and those
of planned blocks with any number and head: more than the scheduler ever sends, and as late and as often
as one likes. What the miner should know is told from the history alone: how many blocks were planned
(`Miner.plans`), the plan that still waits for its time (`Miner.waiting`), and the address of the last
start that was accepted (`Miner.lastStart`). The task that a miner waits for is always that of the plan
that waits (`Miner.after_mineTask`), while the plan may wait without a task, if it could not be
scheduled.
-/

namespace SwapStake

def HeadOutcome.scheduled? : HeadOutcome → Option ChainHead
  | .scheduled head _ => some head
  | _ => none

/-- The number of the plan whose event is handled. -/
def MinerTurn.number? : MinerTurn → Option Nat
  | .handles _ _ (.due (.mine _ number)) => some number
  | _ => none

namespace Miner

open MiningController

/-! ## One turn -/

/-- The head on which a turn plans a block. -/
def planIn (m : Miner) : MinerTurn → Option ChainHead
  | .handles s _ (.due .poll) => (m.controller.onChainHead s).1.scheduled?
  | _ => none

/-- Whether a turn ends the wait of a plan: mining stops, a look at the chain finds no stake, or the
event of the plan is handled. -/
def ends (m : Miner) (number : Nat) : MinerTurn → Bool
  | .handles _ _ .stop => true
  | .handles s _ (.due .poll) => (m.controller.onChainHead s).1 = .noCandidate
  | .handles _ _ (.due (.mine _ number')) => number' = number
  | _ => false

/-- The address for which a turn begins to mine. -/
def startIn (m : Miner) : MinerTurn → Option String
  | .handles _ clocks (.start address) => if (m.start clocks address).1 then some address else none
  | _ => none

section Turn

variable {s : MiningServices} {clocks : Clocks} {m m' : Miner} {turn : MinerTurn} {effects : List MiningEffect}
  {outcome : HeadOutcome} {controller : MiningController}

theorem planIn_poll (result : m.controller.onChainHead s = (outcome, controller, effects)) :
    m.planIn (.handles s clocks (.due .poll)) = outcome.scheduled? := by
  rw [planIn, result]

theorem ends_poll (number : Nat) (result : m.controller.onChainHead s = (outcome, controller, effects)) :
    m.ends number (.handles s clocks (.due .poll)) = decide (outcome = .noCandidate) := by
  rw [ends, result]

theorem scheduled?_of_quiet (quiet : outcome = .unchanged ∨ ∃ e, outcome = .failed e) :
    outcome.scheduled? = none ∧ outcome ≠ .noCandidate := by
  rcases quiet with rfl | ⟨e, rfl⟩
  · exact ⟨rfl, nofun⟩
  · exact ⟨rfl, nofun⟩

namespace TurnResult

theorem sequence (h : TurnResult m turn (m', effects)) :
    m'.sequence = m.sequence + (m.planIn turn).toList.length := by
  cases h with
  | looked result quiet => rw [planIn_poll result, (scheduled?_of_quiet quiet).1]; rfl
  | barren result => rw [planIn_poll result]; rfl
  | planned result => rw [planIn_poll result]; rfl
  | _ => rfl

theorem rewardAddress (h : TurnResult m turn (m', effects)) {address : String}
    (mining : m'.controller.rewardAddress = some address) :
    (m.startIn turn).or m.controller.rewardAddress = some address := by
  cases h with
  | dispatched | stale | abandoned => exact mining
  | refused _ refusal =>
    rw [startIn, refusal]
    exact mining
  | started idle acceptance =>
    rw [startIn, acceptance]
    rw [MiningController.start, if_neg idle] at mining
    exact mining
  | unstarted | stopped => cases mining
  | looked result | barren result | planned result =>
    exact (HeadResult.of_eq result).rewardAddress ▸ mining
  | attempted _ _ result => exact (AttemptResult.of_eq result).rewardAddress ▸ mining

theorem mineTask (h : TurnResult m turn (m', effects)) {number : Nat}
    (live : m'.mineTask.map Prod.fst = some number) :
    (∃ head, m.planIn turn = some head ∧ number = m.sequence + 1 ∧ m'.controller.plannedHead = some head) ∨
      (m.planIn turn = none ∧ ¬ m.ends number turn ∧ m.mineTask.map Prod.fst = some number ∧
        (m'.controller.plannedHead = m.controller.plannedHead ∨ m'.controller.plannedHead = none)) := by
  cases h with
  | dispatched => exact .inr ⟨rfl, nofun, live, .inl rfl⟩
  | refused => exact .inr ⟨rfl, nofun, live, .inl rfl⟩
  | started idle =>
    refine .inr ⟨rfl, nofun, live, .inr ?_⟩
    rw [MiningController.start, if_neg idle]
  | unstarted => exact .inr ⟨rfl, nofun, live, .inr rfl⟩
  | stopped | barren | abandoned | attempted => cases live
  | looked result quiet =>
    obtain ⟨hplan, hcandidate⟩ := scheduled?_of_quiet quiet
    refine .inr ⟨by rw [planIn_poll result, hplan], ?_, live, (HeadResult.of_eq result).plannedHead_of_quiet quiet⟩
    rw [ends_poll number result, decide_eq_true_eq]
    exact hcandidate
  | @planned _ _ head _ _ _ _ task result =>
    obtain ⟨h, -, rfl⟩ : ∃ h, task = some h ∧ m.sequence + 1 = number := by
      simpa using live
    exact .inl ⟨head, planIn_poll result, rfl, (HeadResult.of_eq result).plannedHead_of_scheduled.1⟩
  | stale other =>
    refine .inr ⟨rfl, ?_, live, .inl rfl⟩
    rw [ends, decide_eq_true_eq]
    rintro rfl
    exact other live

end TurnResult

end Turn

/-! ## Histories -/

/-- The miner after some turns. -/
def after (initial : Miner) : List MinerTurn → Miner
  | [] => initial
  | turn :: past => ((after initial past).take turn).1

/-- What a turn does after some others. -/
def effects (initial : Miner) (past : List MinerTurn) (turn : MinerTurn) : List MiningEffect :=
  ((after initial past).take turn).2

/-- How many blocks were planned. -/
def plans (initial : Miner) : List MinerTurn → Nat
  | [] => 0
  | turn :: past => plans initial past + ((after initial past).planIn turn).toList.length

/-- The plan that waits for its time: its number and its head. It is the last one, until a turn ends
its wait. -/
def waiting (initial : Miner) : List MinerTurn → Option (Nat × ChainHead)
  | [] => none
  | turn :: past =>
    match (after initial past).planIn turn with
    | some head => some (plans initial past + 1, head)
    | none => (waiting initial past).filter fun plan => !(after initial past).ends plan.1 turn

/-- The address of the last start that was accepted. -/
def lastStart (initial : Miner) : List MinerTurn → Option String
  | [] => none
  | turn :: past => ((after initial past).startIn turn).or (lastStart initial past)

theorem turn_result (initial : Miner) (past : List MinerTurn) (turn : MinerTurn) :
    TurnResult (after initial past) turn (after initial (turn :: past), effects initial past turn) :=
  take_result (after initial past) turn

section Ready

variable (settings : MiningSettings) (native : TokenId) (hasher : Hasher) (past : List MinerTurn)

theorem after_sequence : (after (ready settings native hasher) past).sequence =
    plans (ready settings native hasher) past := by
  induction past with
  | nil => rfl
  | cons turn past ih => rw [(turn_result _ past turn).sequence, ih, plans]

theorem after_rewardAddress {address : String}
    (mining : (after (ready settings native hasher) past).controller.rewardAddress = some address) :
    lastStart (ready settings native hasher) past = some address := by
  induction past with
  | nil => cases mining
  | cons turn past ih =>
    have hbefore := (turn_result _ past turn).rewardAddress mining
    rw [lastStart]
    rcases Option.or_eq_some_iff.1 hbefore with hnew | ⟨hnone, hkept⟩
    · rw [hnew, Option.some_or]
    · rw [hnone, Option.none_or, ih hkept]

/-- The task that a miner waits for is that of the plan that waits, and no other head is planned for. -/
theorem after_mineTask {number : Nat}
    (live : (after (ready settings native hasher) past).mineTask.map Prod.fst = some number) :
    ∃ head, waiting (ready settings native hasher) past = some (number, head) ∧
      ∀ planned, (after (ready settings native hasher) past).controller.plannedHead = some planned →
        planned = head := by
  induction past with
  | nil => cases live
  | cons turn past ih =>
    rcases (turn_result _ past turn).mineTask live with
      ⟨head, hplan, hnumber, hplanned⟩ | ⟨hplan, hends, hbefore, hplanned⟩
    · refine ⟨head, ?_, fun planned h => Option.some.inj (h.symm.trans hplanned)⟩
      rw [waiting, hplan, hnumber, after_sequence]
    · obtain ⟨head, hwaiting, hhead⟩ := ih hbefore
      refine ⟨head, ?_, fun planned h => ?_⟩
      · rw [waiting, hplan]
        dsimp only
        rw [hwaiting, Option.filter_some, if_pos (by simpa using hends)]
      · rcases hplanned with hsame | hnone
        · exact hhead planned (hsame ▸ h)
        · rw [hnone] at h
          cases h

end Ready

section Waiting

variable {initial : Miner} {past : List MinerTurn} {turn : MinerTurn} {number : Nat} {head : ChainHead}

theorem waiting_cons (waits : waiting initial (turn :: past) = some (number, head)) :
    ((after initial past).planIn turn = some head ∧ number = plans initial past + 1) ∨
      ((after initial past).planIn turn = none ∧ ¬ (after initial past).ends number turn ∧
        waiting initial past = some (number, head)) := by
  rw [waiting] at waits
  cases hplan : (after initial past).planIn turn with
  | some planned =>
    rw [hplan] at waits
    obtain ⟨rfl, rfl⟩ := Prod.mk.inj (Option.some.inj waits)
    exact .inl ⟨rfl, rfl⟩
  | none =>
    rw [hplan] at waits
    obtain ⟨hwaits, hends⟩ := Option.filter_eq_some_iff.1 waits
    exact .inr ⟨rfl, by simpa using hends, hwaits⟩

theorem waiting_last (waits : waiting initial past = some (number, head)) : number = plans initial past := by
  induction past with
  | nil => cases waits
  | cons turn past ih =>
    rw [plans]
    rcases waiting_cons waits with ⟨hplan, hnumber⟩ | ⟨hplan, -, hwaits⟩
    · rw [hplan, hnumber]
      rfl
    · rw [hplan]
      exact ih hwaits

end Waiting

end Miner

end SwapStake
