import SwapStake.Proofs.Mining.RememberedHead
/-!
# Which plan is shown

The snapshot of a controller shows the amount and the block time of a stake. It is the one that was derived
last since mining was stopped (`MiningController.lastDerived`), and it was derived for the head that is
remembered, if there is one. Stopping clears both the snapshot and the memory, and so does a look that
finds that there is nothing to stake with. A look whose derivation fails forgets the head, but it leaves the
snapshot alone, so that goes on to show the plan for an earlier head
(`MiningController.plan_shown_without_head`). Nothing else takes a plan away and leaves it shown
(`MiningController.shown_plan`).
-/

namespace SwapStake.MiningController

variable {s : MiningServices} {c c' : MiningController} {outcome : HeadOutcome} {effects : List MiningEffect}
  {find : Option (ChainHead × Except ServiceError (Option StakeDetails))} {stake : Option StakeDetails}

/-! ## One turn -/

/-- The stake that is shown after a look at the chain, if another one was shown before. -/
def derivedOr (c : MiningController) (s : MiningServices) (before : Option StakeDetails) : Option StakeDetails :=
  match c.finds s with
  | some (_, .ok stake) => stake
  | _ => before

/-- What a controller shows and remembers, by the last find and the last stake that was derived. -/
structure Presents (c : MiningController) (find : Option (ChainHead × Except ServiceError (Option StakeDetails)))
    (stake : Option StakeDetails) : Prop where
  amount : c.snapshot.candidateAmount = stake.map StakeDetails.amount
  time : c.snapshot.nextBlockTime = stake.map StakeDetails.nextBlockTime
  /-- While a head is remembered, what is shown was derived for it. -/
  remembered : ∀ head, c.plannedHead = some head → find = some (head, .ok stake)
  /-- Without a head nothing is shown, unless the last derivation has failed. -/
  forgotten : c.plannedHead = none → stake = none ∨ ∃ head e, find = some (head, .error e)

theorem Presents.of_same (hc : c.Presents find stake) (shown : c'.snapshot.candidateAmount = c.snapshot.candidateAmount)
    (timed : c'.snapshot.nextBlockTime = c.snapshot.nextBlockTime) (planned : c'.plannedHead = c.plannedHead) :
    c'.Presents find stake where
  amount := shown.trans hc.amount
  time := timed.trans hc.time
  remembered head h := hc.remembered head (planned.symm.trans h)
  forgotten h := hc.forgotten (planned.symm.trans h)

theorem presents_none (planned : c.plannedHead = none) (amount : c.snapshot.candidateAmount = none)
    (time : c.snapshot.nextBlockTime = none) : c.Presents find none where
  amount := amount
  time := time
  remembered head h := by cases planned.symm.trans h
  forgotten _ := .inl rfl

theorem Presents.of_none (hc : c.Presents find stake) (shown : c.snapshot.candidateAmount = none) : stake = none :=
  Option.map_eq_none_iff.1 (hc.amount.symm.trans shown)

theorem HeadResult.presents (h : HeadResult s c (outcome, c', effects)) (hc : c.Presents find stake) :
    c'.Presents ((c.finds s).or find) (c.derivedOr s stake) := by
  cases h with
  | idle ended =>
    rw [derivedOr, finds_of_idle ended]
    exact hc
  | unanswered _ answer =>
    rw [derivedOr, finds_of_failed answer]
    exact hc.of_same rfl rfl rfl
  | unchanged _ answer known =>
    rw [derivedOr, finds_of_known answer known]
    exact hc
  | planned mining answer new derived | barren mining answer new derived =>
    rw [derivedOr, finds_eq_some_iff.2 ⟨answer, mining, new, derived⟩]
    refine ⟨rfl, rfl, fun head planned => ?_, fun planned => ?_⟩
    · rw [← Option.some.inj planned]
      rfl
    · cases planned
  | underived mining answer new derived =>
    rw [derivedOr, finds_eq_some_iff.2 ⟨answer, mining, new, derived⟩]
    refine ⟨hc.amount, hc.time, fun head planned => ?_, fun _ => .inr ⟨_, _, rfl⟩⟩
    cases planned

theorem AttemptResult.presents {expected : ChainHead} {outcome : MineOutcome}
    (h : AttemptResult s c expected (outcome, c', effects)) (hc : c.Presents find stake) : c'.Presents find stake := by
  cases h with
  | idle | barren => exact hc
  | unanswered | late | underived | refused | made => exact hc.of_same rfl rfl rfl

/-! ## Histories -/

/-- The stake that was derived last since mining was stopped; none if it turned out that there was none. -/
def lastDerived (initial : MiningController) : List ControllerTurn → Option StakeDetails
  | [] | .stop :: _ => none
  | .looks s :: past => (after initial past).derivedOr s (lastDerived initial past)
  | .start _ :: past | .attempts _ _ :: past => lastDerived initial past

section New

variable (settings : MiningSettings) (native : TokenId) (hasher : Hasher) (past : List ControllerTurn)

theorem after_presents : (after (new settings native hasher) past).Presents
    (lastFind (new settings native hasher) past) (lastDerived (new settings native hasher) past) := by
  induction past with
  | nil => exact presents_none rfl rfl rfl
  | cons turn past ih =>
    rw [after]
    cases turn with
    | start address =>
      rw [lastFind, lastDerived]
      by_cases hmining : (after (new settings native hasher) past).isMining
      · rw [take, start_of_mining hmining]
        exact ih
      · -- Nothing was shown without mining, so a new start has nothing to clear.
        obtain ⟨-, hamount, htime⟩ := (after_truthful settings native hasher past).idle hmining
        rw [take, start, if_neg hmining, ih.of_none hamount]
        exact presents_none rfl hamount htime
    | stop => exact presents_none rfl rfl rfl
    | looks s => exact (onChainHead_result s _).presents ih
    | attempts s expected => exact (onMineDue_result s _ expected).presents ih

end New

/-- **What the snapshot shows of a plan.** Wherever a controller stands, its snapshot shows the stake that was
derived last since mining was stopped. While a head is remembered, that was derived for this head. While none
is remembered, no stake is shown, as long as the derivation for the last find has not failed. -/
theorem shown_plan (settings : MiningSettings) (native : TokenId) (hasher : Hasher) (past : List ControllerTurn) :
    let initial := new settings native hasher
    let c := after initial past
    c.snapshot.candidateAmount = (lastDerived initial past).map StakeDetails.amount ∧
    c.snapshot.nextBlockTime = (lastDerived initial past).map StakeDetails.nextBlockTime ∧
    (∀ head, c.plannedHead = some head → lastFind initial past = some (head, .ok (lastDerived initial past))) ∧
    (c.plannedHead = none → (∀ head e, lastFind initial past ≠ some (head, .error e)) →
      c.snapshot.candidateAmount = none ∧ c.snapshot.nextBlockTime = none) := by
  intro initial c
  obtain ⟨hamount, htime, hremembered, hforgotten⟩ := after_presents settings native hasher past
  refine ⟨hamount, htime, hremembered, fun hnone hderived => ?_⟩
  rcases hforgotten hnone with hstake | ⟨head, e, hfailed⟩
  · exact ⟨hamount.trans (by rw [hstake, Option.map_none]), htime.trans (by rw [hstake, Option.map_none])⟩
  · exact absurd hfailed (hderived head e)

/-- A wallet with one output that may stake. -/
def stakedWallet (height : UInt64) : MiningServices :=
  { emptyWallet height with outputs := .ok [⟨.ofBytes [0x00, 0xe8, 0x03], coin, ⟨0⟩, 1, 0⟩] }

/-- A block is planned on the first head. -/
def plannedTurns : List ControllerTurn :=
  [.looks (stakedWallet 100), .start "reward"]

theorem shown_plan_stopped :
    let initial := new {} ⟨0⟩ Hash256.ofBytes
    (after initial plannedTurns).snapshot.candidateAmount = some coin ∧
      lastFind initial plannedTurns =
        some (⟨100, default⟩, .ok (lastDerived initial plannedTurns)) ∧
      (after initial (.stop :: plannedTurns)).snapshot.candidateAmount = none := by
  intro initial
  obtain ⟨hamount, -, hremembered, -⟩ := shown_plan {} ⟨0⟩ Hash256.ofBytes plannedTurns
  obtain ⟨-, -, -, hforgotten⟩ := shown_plan {} ⟨0⟩ Hash256.ofBytes (.stop :: plannedTurns)
  have hfind := hremembered ⟨100, default⟩ (by decide +kernel)
  refine ⟨hamount.trans (by decide +kernel), hfind, (hforgotten rfl fun head e hfailed => ?_).1⟩
  cases hfailed.symm.trans hfind

/-- A plan may be shown although there is none: on the next head the wallet fails, so that head is forgotten, and
the stake that was derived for the head before is still shown. -/
theorem plan_shown_without_head :
    ¬ ∀ (settings : MiningSettings) (native : TokenId) (hasher : Hasher) (past : List ControllerTurn),
      let c := after (new settings native hasher) past
      c.plannedHead = none → c.snapshot.candidateAmount = none ∧ c.snapshot.nextBlockTime = none := by
  intro hclaim
  obtain ⟨hamount, -⟩ := hclaim {} ⟨0⟩ Hash256.ofBytes (.looks (lostWallet 101) :: plannedTurns) (by decide +kernel)
  revert hamount
  decide +kernel

end SwapStake.MiningController
