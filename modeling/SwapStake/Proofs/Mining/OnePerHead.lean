import SwapStake.Proofs.Mining.Submission
/-!
# One block for one head

While the daemon names one head and mining is not stopped, the wallet is asked for at most one block.
What is left to ask for is `Miner.allowance`: nothing once the head has been dealt with and no task
waits, and one block otherwise. No turn raises it (`Miner.TurnResult.allowance`), and a turn that asks
uses it up. A head that was forgotten is planned for again, but its older task then only waits until
the new plan replaces it.
-/

namespace SwapStake

/-- A turn in which mining is not stopped, and the daemon names no other head. -/
def MinerTurn.StaysAt (head : ChainHead) (effects : List MiningEffect) : MinerTurn → Prop
  | .handles s _ event => event ≠ .stop ∧ (.askedHead ∈ effects → ∀ named, s.head = .ok named → named = head)
  | .dispatches _ => True

namespace Miner

open MiningController

/-! ## One turn -/

/-- How many blocks the wallet may still be asked for on top of a head. -/
def allowance (m : Miner) (head : ChainHead) : Nat :=
  if m.controller.plannedHead = some head then m.mineTask.toList.length else 1

section Turn

variable {m m' : Miner} {turn : MinerTurn} {effects : List MiningEffect} {head : ChainHead}

theorem allowance_le_one (m : Miner) (head : ChainHead) : m.allowance head ≤ 1 := by
  rw [allowance]
  split
  · cases m.mineTask with
    | none => exact Nat.zero_le _
    | some task => exact Nat.le_refl _
  · exact Nat.le_refl _

theorem allowance_le_of_new (new : m.controller.plannedHead ≠ some head) (m' : Miner) :
    m'.allowance head ≤ m.allowance head := by
  have hwhole : m.allowance head = 1 := if_neg new
  rw [hwhole]
  exact allowance_le_one m' head

theorem allowance_le_of_task (hplanned : m'.controller.plannedHead = m.controller.plannedHead)
    (htask : m'.mineTask = m.mineTask ∨ m'.mineTask = none) : m'.allowance head ≤ m.allowance head := by
  rw [allowance, allowance, hplanned]
  split
  · rcases htask with hsame | hnone
    · exact Nat.le_of_eq (by rw [hsame])
    · rw [hnone]
      exact Nat.zero_le _
  · exact Nat.le_refl _

theorem Submits.allowance {details : StakeDetails} {address : String} {number : Nat}
    (h : Submits m turn m' effects details address number head) :
    m.allowance head = 1 ∧ m'.allowance head = 0 := by
  obtain ⟨task, htask, -⟩ := Option.map_eq_some_iff.1 h.live
  constructor
  · rw [Miner.allowance, if_pos h.planned, htask]
    rfl
  · rw [Miner.allowance, if_pos h.kept, h.consumed]
    rfl

namespace TurnResult

theorem idle (h : TurnResult m turn (m', effects))
    (before : ¬ m.controller.isMining → m.controller.plannedHead = none) :
    ¬ m'.controller.isMining → m'.controller.plannedHead = none := by
  intro hidle
  cases h with
  | dispatched | refused | stale | abandoned => exact before hidle
  | started idle =>
    rw [MiningController.start, if_neg idle]
  | unstarted | stopped => rfl
  | looked result | barren result | planned result =>
    have hlook := HeadResult.of_eq result
    have hidle' : ¬ m.controller.isMining := by
      rw [isMining, ← hlook.rewardAddress]
      exact hidle
    dsimp only
    rw [hlook.of_idle hidle']
    exact before hidle'
  | attempted _ _ result =>
    have hattempt := AttemptResult.of_eq result
    rw [isMining, hattempt.rewardAddress] at hidle
    exact hattempt.plannedHead.trans (before hidle)

theorem allowance (h : TurnResult m turn (m', effects)) (stays : turn.StaysAt head effects)
    (before : ¬ m.controller.isMining → m.controller.plannedHead = none) :
    (effects.filterMap MiningEffect.submission?).length + m'.allowance head ≤ m.allowance head := by
  rcases h.submissions with hnone | ⟨details, address, number, tried, hsubmits⟩
  · -- Nobody is asked. If the planned head changes, it was not `head` before, so the allowance was whole.
    rw [hnone, List.length_nil, Nat.zero_add]
    cases h with
    | dispatched | refused | stale => exact Nat.le_refl _
    | started idle | unstarted idle =>
      refine allowance_le_of_new ?_ _
      rw [before idle]
      exact nofun
    | stopped => exact absurd rfl stays.1
    | looked result | barren result =>
      rcases (HeadResult.of_eq result).plannedHead with hsame | ⟨hasked, named, hanswer, hnew⟩
      · exact allowance_le_of_task hsame (by simp)
      · obtain rfl := stays.2 hasked named hanswer
        exact allowance_le_of_new hnew _
    | planned result =>
      rcases (HeadResult.of_eq result).plannedHead with hsame | ⟨hasked, named, hanswer, hnew⟩
      · obtain ⟨hnow, hnew⟩ := (HeadResult.of_eq result).plannedHead_of_scheduled
        exact absurd (hsame.symm.trans hnow) hnew
      · obtain rfl := stays.2 hasked named hanswer
        exact allowance_le_of_new hnew _
    | abandoned => exact allowance_le_of_task rfl (.inr rfl)
    | attempted _ _ result => exact allowance_le_of_task (AttemptResult.of_eq result).plannedHead (.inr rfl)
  · obtain ⟨s, clocks, rfl, hanswer⟩ := hsubmits.event
    obtain rfl := stays.2 hsubmits.asked tried hanswer
    obtain ⟨hbefore, hafter⟩ := hsubmits.allowance
    rw [hsubmits.once, hbefore, hafter]
    exact Nat.le_refl _

end TurnResult

end Turn

/-! ## Histories -/

/-- How many times the wallet was asked for a block. -/
def asked (initial : Miner) : List MinerTurn → Nat
  | [] => 0
  | turn :: past => (submissions initial past turn).length + asked initial past

/-- Through a continuation mining is not stopped, and the daemon never names another head. -/
def Steady (initial : Miner) (past : List MinerTurn) (head : ChainHead) : List MinerTurn → Prop
  | [] => True
  | turn :: later =>
    Steady initial past head later ∧ turn.StaysAt head (effects initial (later ++ past) turn)

section Ready

variable (settings : MiningSettings) (native : TokenId) (hasher : Hasher)

theorem after_idle (past : List MinerTurn)
    (idle : ¬ (after (ready settings native hasher) past).controller.isMining) :
    (after (ready settings native hasher) past).controller.plannedHead = none := by
  induction past with
  | nil => rfl
  | cons turn past ih => exact (turn_result _ past turn).idle ih idle

theorem asked_allowance (past later : List MinerTurn) (head : ChainHead)
    (steady : Steady (ready settings native hasher) past head later) :
    asked (ready settings native hasher) (later ++ past) +
        (after (ready settings native hasher) (later ++ past)).allowance head ≤
      asked (ready settings native hasher) past + (after (ready settings native hasher) past).allowance head := by
  induction later with
  | nil => exact Nat.le_refl _
  | cons turn later ih =>
    obtain ⟨hsteady, hstays⟩ := steady
    have hearlier := ih hsteady
    have hturn := (turn_result _ (later ++ past) turn).allowance hstays
      (after_idle settings native hasher (later ++ past))
    rw [List.cons_append, asked, submissions]
    omega

/-- **The wallet is asked for at most one block on top of one head.** Wherever a miner stands, as long as
mining is not stopped and the daemon, when it answers, names the same head, at most one block is asked
for, whatever else fails and in whatever order events are handled. -/
theorem one_block_per_head (past later : List MinerTurn) (head : ChainHead)
    (steady : Steady (ready settings native hasher) past head later) :
    asked (ready settings native hasher) (later ++ past) ≤ asked (ready settings native hasher) past + 1 := by
  have hasked := asked_allowance settings native hasher past later head steady
  have hone := allowance_le_one (after (ready settings native hasher) past) head
  omega

end Ready

/-- The event of the plan is handled, the chain is looked at again, and the event is handled once more. -/
def trialRest : List MinerTurn :=
  [trialDue, .handles trialMining ⟨1000, 1000⟩ (.due .poll), trialDue]

theorem one_block_per_head_trial :
    asked trialMiner trialPlan = 0 ∧ asked trialMiner (trialRest ++ trialPlan) = 1 ∧
      asked trialMiner (trialRest ++ trialPlan) ≤ asked trialMiner trialPlan + 1 := by
  have hnames : ∀ named, trialMining.head = .ok named → named = ⟨99, default⟩ :=
    fun named h => (Except.ok.inj h).symm
  have hsteady : Steady trialMiner trialPlan ⟨99, default⟩ trialRest :=
    ⟨⟨⟨trivial, nofun, fun _ => hnames⟩, nofun, fun _ => hnames⟩, nofun, fun _ => hnames⟩
  refine ⟨by decide +kernel, by decide +kernel, ?_⟩
  exact one_block_per_head {} ⟨0⟩ (fun _ => default) trialPlan trialRest ⟨99, default⟩ hsteady

end Miner

end SwapStake
