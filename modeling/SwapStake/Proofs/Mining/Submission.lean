import SwapStake.Proofs.Mining.History
/-!
# When the wallet is asked for a block

The event of a plan may be handled long after it was sent, or once more. Three checks stand between it
and the wallet: the number must be that of the task that is waited for, the head must still be planned
for, and the daemon must answer with that head. `Miner.Timely` is what they amount to over a whole
history. A number is used up when its task is given up, so a plan is tried at most once
(`Miner.attempts_le_one`), and each plan is counted as made or lost at most once (`Miner.after_settled`).
-/

namespace SwapStake

namespace Miner

open MiningController

/-! ## One turn -/

/-- A turn in which the plan of the task that is waited for is tried, and the wallet is asked. -/
structure Submits (m : Miner) (turn : MinerTurn) (m' : Miner) (effects : List MiningEffect)
    (details : StakeDetails) (address : String) (number : Nat) (head : ChainHead) : Prop where
  event : ∃ s clocks, turn = .handles s clocks (.due (.mine head number)) ∧ s.head = .ok head
  asked : .askedHead ∈ effects
  once : effects.filterMap MiningEffect.submission? = [(details, address)]
  mining : m.controller.rewardAddress = some address
  planned : m.controller.plannedHead = some head
  kept : m'.controller.plannedHead = some head
  live : m.mineTask.map Prod.fst = some number
  consumed : m'.mineTask = none

section Turn

variable {m m' : Miner} {turn : MinerTurn} {effects : List MiningEffect}

namespace TurnResult

theorem submissions (h : TurnResult m turn (m', effects)) :
    effects.filterMap MiningEffect.submission? = [] ∨
      ∃ details address number head, Submits m turn m' effects details address number head := by
  cases h with
  | @dispatched now n =>
    refine .inl ?_
    rw [List.filterMap_replicate_of_none rfl]
  | refused | started | unstarted | stopped | stale | abandoned => exact .inl rfl
  | looked result | barren result | planned result => exact .inl (HeadResult.of_eq result).submissions
  | @attempted s clocks head number _ _ _ live planned result =>
    have hattempt := AttemptResult.of_eq result
    rcases hattempt.submissions with hnone | ⟨details, address, honce, hmining, hhead, hasked⟩
    · exact .inl hnone
    · exact .inr ⟨details, address, number, head, ⟨s, clocks, rfl, hhead⟩, hasked, honce, hmining, planned,
        hattempt.plannedHead.trans planned, live, rfl⟩

theorem settled (h : TurnResult m turn (m', effects)) :
    m'.controller.snapshot.settled + m'.mineTask.toList.length ≤
      m.controller.snapshot.settled + m.mineTask.toList.length + (m.planIn turn).toList.length := by
  cases h with
  | dispatched | refused | stale => exact Nat.le_refl _
  | started =>
    rw [start_settled]
    exact Nat.le_refl _
  | @unstarted _ _ address =>
    show (m.controller.start address).2.snapshot.settled + _ ≤ _
    rw [start_settled]
    exact Nat.le_refl _
  | stopped | abandoned => exact Nat.le_add_right _ _
  | looked result =>
    rw [(HeadResult.of_eq result).settled]
    exact Nat.le_add_right _ _
  | barren result =>
    rw [(HeadResult.of_eq result).settled, Nat.add_assoc]
    exact Nat.add_le_add_left (Nat.zero_le _) _
  | @planned _ _ head _ _ _ _ task result =>
    rw [(HeadResult.of_eq result).settled, planIn_poll result, Nat.add_assoc]
    refine Nat.add_le_add_left ?_ _
    cases task with
    | none => exact Nat.zero_le _
    | some h => exact Nat.le_add_left 1 _
  | attempted live _ result =>
    obtain ⟨task, htask, -⟩ := Option.map_eq_some_iff.1 live
    rw [htask]
    exact (AttemptResult.of_eq result).settled_le

end TurnResult

theorem take_of_forgotten (m : Miner) (s : MiningServices) (clocks : Clocks) {head : ChainHead}
    (forgotten : m.controller.plannedHead ≠ some head) (number : Nat) :
    (m.take (.handles s clocks (.due (.mine head number)))).1.controller = m.controller ∧
      (m.take (.handles s clocks (.due (.mine head number)))).2 = [] := by
  have hresult := take_result m (.handles s clocks (.due (.mine head number)))
  generalize m.take (.handles s clocks (.due (.mine head number))) = result at hresult ⊢
  cases hresult with
  | stale | abandoned => exact ⟨rfl, rfl⟩
  | attempted _ planned => exact absurd planned forgotten

end Turn

/-! ## Histories -/

/-- What the wallet is asked for in a turn. -/
def submissions (initial : Miner) (past : List MinerTurn) (turn : MinerTurn) : List (StakeDetails × String) :=
  (effects initial past turn).filterMap MiningEffect.submission?

/-- How many times the wallet was asked while the event of a plan was handled. -/
def attempts (initial : Miner) (number : Nat) : List MinerTurn → Nat
  | [] => 0
  | turn :: past => attempts initial number past +
      if turn.number? = some number then (submissions initial past turn).length else 0

/-- The wallet is asked in time: the plan whose event is handled is the last, and it still waits; its
head is planned for and has just been read; and mining is for the address that began it. -/
structure Timely (initial : Miner) (past : List MinerTurn) (turn : MinerTurn) (address : String) (number : Nat)
    (head : ChainHead) : Prop where
  event : ∃ s clocks, turn = .handles s clocks (.due (.mine head number)) ∧ s.head = .ok head
  asked : .askedHead ∈ effects initial past turn
  mining : (after initial past).controller.isMining
  started : lastStart initial past = some address
  latest : number = plans initial past
  waits : waiting initial past = some (number, head)
  planned : (after initial past).controller.plannedHead = some head

/-- A plan that was made and does not wait any more. -/
def GivenUp (initial : Miner) (number : Nat) (past : List MinerTurn) : Prop :=
  number ≤ plans initial past ∧ ∀ head, waiting initial past ≠ some (number, head)

section GivenUp

variable {initial : Miner} {number : Nat} {past : List MinerTurn} {turn : MinerTurn}

theorem GivenUp.cons (h : GivenUp initial number past) : GivenUp initial number (turn :: past) := by
  refine ⟨Nat.le_trans h.1 (Nat.le_add_right _ _), fun head hwaits => ?_⟩
  rcases waiting_cons hwaits with ⟨-, rfl⟩ | ⟨-, -, hbefore⟩
  · exact Nat.not_succ_le_self _ h.1
  · exact h.2 head hbefore

theorem givenUp_of_turn (made : number ≤ plans initial past)
    (gone : ((after initial past).planIn turn).isSome ∨ (after initial past).ends number turn) :
    GivenUp initial number (turn :: past) := by
  refine ⟨Nat.le_trans made (Nat.le_add_right _ _), fun head hwaits => ?_⟩
  rcases waiting_cons hwaits with ⟨-, rfl⟩ | ⟨hplan, hends, -⟩
  · exact Nat.not_succ_le_self _ made
  · rw [hplan] at gone
    exact hends (gone.resolve_left nofun)

theorem GivenUp.append (h : GivenUp initial number past) (later : List MinerTurn) :
    GivenUp initial number (later ++ past) := by
  induction later with
  | nil => exact h
  | cons turn later ih => exact ih.cons

end GivenUp

section Ready

variable (settings : MiningSettings) (native : TokenId) (hasher : Hasher) (past : List MinerTurn)

theorem live_last {number : Nat}
    (live : (after (ready settings native hasher) past).mineTask.map Prod.fst = some number) :
    number = plans (ready settings native hasher) past := by
  obtain ⟨head, hwaiting, -⟩ := after_mineTask settings native hasher past live
  exact waiting_last hwaiting

theorem attempts_fresh {number : Nat} (fresh : plans (ready settings native hasher) past < number ∨
      (after (ready settings native hasher) past).mineTask.map Prod.fst = some number) :
    attempts (ready settings native hasher) number past = 0 := by
  induction past with
  | nil => rfl
  | cons turn past ih =>
    have hbefore : plans (ready settings native hasher) past < number ∨
        (after (ready settings native hasher) past).mineTask.map Prod.fst = some number := by
      rcases fresh with hahead | hlive
      · exact .inl (Nat.lt_of_le_of_lt (Nat.le_add_right _ _) hahead)
      · rcases (turn_result _ past turn).mineTask hlive with ⟨head, -, hnumber, -⟩ | ⟨-, -, hkept, -⟩
        · rw [hnumber, after_sequence]
          exact .inl (Nat.lt_succ_self _)
        · exact .inr hkept
    rw [attempts, ih hbefore, Nat.zero_add]
    rcases (turn_result _ past turn).submissions with hnone | ⟨details, address, tried, head, hsubmits⟩
    · rw [submissions, hnone]
      exact ite_self _
    · -- What is tried now was the last plan, and is given up: neither case of `fresh` is left for it.
      obtain ⟨s, clocks, rfl, -⟩ := hsubmits.event
      refine if_neg fun hnumber => ?_
      obtain rfl : tried = number := Option.some.inj hnumber
      rcases fresh with hahead | hlive
      · have hlast := live_last settings native hasher past hsubmits.live
        rw [plans] at hahead
        omega
      · rw [hsubmits.consumed] at hlive
        cases hlive

theorem attempts_le_one (number : Nat) : attempts (ready settings native hasher) number past ≤ 1 := by
  induction past with
  | nil => exact Nat.zero_le _
  | cons turn past ih =>
    rw [attempts]
    rcases (turn_result _ past turn).submissions with hnone | ⟨details, address, tried, head, hsubmits⟩
    · rw [submissions, hnone, List.length_nil, ite_self]
      exact ih
    · split
      · rename_i hnumber
        obtain ⟨s, clocks, rfl, -⟩ := hsubmits.event
        obtain rfl : tried = number := Option.some.inj hnumber
        rw [attempts_fresh settings native hasher past (.inr hsubmits.live), submissions, hsubmits.once]
        exact Nat.le_refl _
      · exact ih

theorem timely_of_submits {turn : MinerTurn} {m' : Miner} {details : StakeDetails} {address : String}
    {number : Nat} {head : ChainHead}
    (h : Submits (after (ready settings native hasher) past) turn m'
      (effects (ready settings native hasher) past turn) details address number head) :
    Timely (ready settings native hasher) past turn address number head where
  event := h.event
  asked := h.asked
  mining := Option.isSome_of_mem h.mining
  started := after_rewardAddress settings native hasher past h.mining
  latest := live_last settings native hasher past h.live
  waits := by
    obtain ⟨planned, hwaiting, hhead⟩ := after_mineTask settings native hasher past h.live
    rw [hhead head h.planned]
    exact hwaiting
  planned := h.planned

theorem timely_of_submitted {turn : MinerTurn} {details : StakeDetails} {address : String}
    (submitted : .submitted details address ∈ effects (ready settings native hasher) past turn) :
    ∃ number head, Timely (ready settings native hasher) past turn address number head := by
  rw [← mem_filterMap_submission] at submitted
  rcases (turn_result _ past turn).submissions with hnone | ⟨details', address', number, head, hsubmits⟩
  · rw [hnone] at submitted
    cases submitted
  · rw [hsubmits.once, List.mem_singleton] at submitted
    obtain ⟨-, rfl⟩ := Prod.mk.inj submitted
    exact ⟨number, head, timely_of_submits settings native hasher past hsubmits⟩

theorem take_of_givenUp {number : Nat} (h : GivenUp (ready settings native hasher) number past)
    (s : MiningServices) (clocks : Clocks) (head : ChainHead) :
    (after (ready settings native hasher) past).take (.handles s clocks (.due (.mine head number))) =
      (after (ready settings native hasher) past, []) := by
  have hother : (after (ready settings native hasher) past).mineTask.map Prod.fst ≠ some number := by
    intro hlive
    obtain ⟨planned, hwaiting, -⟩ := after_mineTask settings native hasher past hlive
    exact h.2 planned hwaiting
  rw [take, handle, due, if_pos hother]

theorem after_settled : (after (ready settings native hasher) past).controller.snapshot.settled +
    (after (ready settings native hasher) past).mineTask.toList.length ≤ plans (ready settings native hasher) past := by
  induction past with
  | nil => exact Nat.le_refl _
  | cons turn past ih => exact Nat.le_trans (turn_result _ past turn).settled (Nat.add_le_add_right ih _)

end Ready

/-- **The wallet is asked for a block at most once for each plan, and only in time.** Whatever the order
in which events are handled and whatever is answered: the plan whose event asks the wallet is the last
one, still waits, and is for the head that is planned for and that the daemon names; mining is for the
address of the last start that was accepted. So no more blocks are counted as made or lost than were
planned. Once a plan has been replaced, or a turn has ended its wait, its event changes nothing and asks
nobody; the event of a plan whose head has been forgotten is used up, and asks nobody either. -/
theorem submission_in_time (settings : MiningSettings) (native : TokenId) (hasher : Hasher)
    (past : List MinerTurn) :
    let miner := ready settings native hasher
    (∀ turn details address, .submitted details address ∈ effects miner past turn →
      ∃ number head, Timely miner past turn address number head) ∧
    (∀ number, attempts miner number past ≤ 1) ∧
    (after miner past).controller.snapshot.submitted + (after miner past).controller.snapshot.lost ≤
      plans miner past ∧
    (∀ later turn earlier number, past = later ++ turn :: earlier → number ≤ plans miner earlier →
      ((after miner earlier).planIn turn).isSome ∨ (after miner earlier).ends number turn →
        ∀ s clocks head,
          (after miner past).take (.handles s clocks (.due (.mine head number))) = (after miner past, [])) ∧
    (∀ s clocks head number, (after miner past).controller.plannedHead ≠ some head →
      (after miner (.handles s clocks (.due (.mine head number)) :: past)).controller =
          (after miner past).controller ∧
        effects miner past (.handles s clocks (.due (.mine head number))) = []) := by
  intro miner
  refine ⟨fun turn details address => timely_of_submitted settings native hasher past,
    attempts_le_one settings native hasher past, ?_,
    fun later turn earlier number hpast made gone s clocks head => ?_,
    fun s clocks head number hforgotten => take_of_forgotten (after miner past) s clocks hforgotten number⟩
  · have hsettled := after_settled settings native hasher past
    rw [MiningSnapshot.settled] at hsettled
    exact Nat.le_of_add_right_le hsettled
  · have hgivenUp : GivenUp miner number past := by
      rw [hpast]
      exact (givenUp_of_turn made gone).append later
    exact take_of_givenUp settings native hasher past hgivenUp s clocks head

/-- A wallet with one output that may stake, and a chain that does not move. -/
def trialMining : MiningServices where
  head := .ok ⟨99, default⟩
  info := .ok ⟨100, default, 1, 0⟩
  outputs := .ok [⟨default, coin, ⟨0⟩, 0, 0⟩]
  unlocked := fun _ => true
  submit := fun _ _ => .ok default

def trialMiner : Miner :=
  ready {} ⟨0⟩ fun _ => default

/-- Mining is started, and a look at the chain plans a block. -/
def trialPlan : List MinerTurn :=
  [.handles trialMining ⟨0, 0⟩ (.due .poll), .handles trialMining ⟨0, 0⟩ (.start "miner")]

/-- The time of the planned block. -/
def trialDue : MinerTurn :=
  .handles trialMining ⟨0, 0⟩ (.due (.mine ⟨99, default⟩ 1))

theorem submission_in_time_first_block :
    ∃ details, .submitted details "miner" ∈ effects trialMiner trialPlan trialDue ∧
      ∃ number head, Timely trialMiner trialPlan trialDue "miner" number head := by
  have haddresses : (submissions trialMiner trialPlan trialDue).map Prod.snd = ["miner"] := by
    decide +kernel
  obtain ⟨⟨details, address⟩, hsubmission, rfl⟩ : ∃ submission ∈ submissions trialMiner trialPlan trialDue,
      submission.2 = "miner" := by
    rw [← List.mem_map, haddresses]
    exact .head _
  have hsubmitted := mem_filterMap_submission.1 hsubmission
  exact ⟨details, hsubmitted, (submission_in_time {} ⟨0⟩ (fun _ => default) trialPlan).1 trialDue details _
    hsubmitted⟩

end Miner

end SwapStake
