import SwapStake.Mining.Controller
/-!
# What the mining controller can do

`HeadResult` has the ways in which a look at the chain can end, `AttemptResult` those of an attempt to
make a block. Each way is told with what the daemon has answered, the controller that is left and the
effects, so that all other facts about the controller are read off these cases. Two of them carry the
proofs about whole runs: a look that plans nothing keeps the planned head or forgets it
(`HeadResult.plannedHead_of_quiet`), and only an attempt asks the wallet for a block, once, on the head
that is both expected and read (`AttemptResult.submissions`).
-/

namespace SwapStake

/-- The block that the wallet is asked to make: its stake, and the address that is rewarded. -/
def MiningEffect.submission? : MiningEffect → Option (StakeDetails × String)
  | .submitted details address => some (details, address)
  | _ => none

theorem mem_filterMap_submission {effects : List MiningEffect} {details : StakeDetails} {address : String} :
    (details, address) ∈ effects.filterMap MiningEffect.submission? ↔ .submitted details address ∈ effects := by
  rw [List.mem_filterMap]
  constructor
  · rintro ⟨e, he, hsubmission⟩
    cases e with
    | submitted details' address' =>
      obtain ⟨rfl, rfl⟩ : details' = details ∧ address' = address := by
        simpa [MiningEffect.submission?] using hsubmission
      exact he
    | _ => cases hsubmission
  · intro h
    exact ⟨_, h, rfl⟩

/-- How many plans have come to an end that is counted: a block was made, or somebody else was first. -/
def MiningSnapshot.settled (s : MiningSnapshot) : Nat :=
  s.submitted + s.lost

namespace MiningController

variable {s : MiningServices} {c : MiningController}

/-- The controller that has read a head that is new to it. -/
def reads (c : MiningController) (head : ChainHead) : MiningController :=
  { c with plannedHead := some head, snapshot := { c.snapshot with chainHeight := head.height } }

/-- The controller whose plan could not be made: it forgets the head. -/
def forgets (c : MiningController) (head : ChainHead) (e : ServiceError) : MiningController :=
  { c.reads head with plannedHead := none }.recordError e

/-- The controller that was too late for its plan. -/
def loses (c : MiningController) : MiningController :=
  { c with snapshot := { c.snapshot with lost := c.snapshot.lost + 1 } }

/-- The controller that has made a block. -/
def wins (c : MiningController) : MiningController :=
  { c with snapshot := { c.snapshot with submitted := c.snapshot.submitted + 1 } }

theorem start_settled (c : MiningController) (address : String) :
    (c.start address).2.snapshot.settled = c.snapshot.settled := by
  rw [start]
  split
  · rfl
  · rfl

/-! ## Looks at the chain -/

/-- How a look at the chain ends. -/
inductive HeadResult (s : MiningServices) (c : MiningController) :
    HeadOutcome × MiningController × List MiningEffect → Prop
  | idle (ended : ¬ c.isMining) : HeadResult s c (.unchanged, c, [])
  | unanswered {e : ServiceError} (mining : c.isMining) (answer : s.head = .error e) :
      HeadResult s c (.failed e, c.recordError e, [.askedHead])
  | unchanged {head : ChainHead} (mining : c.isMining) (answer : s.head = .ok head)
      (known : c.plannedHead = some head) : HeadResult s c (.unchanged, c, [.askedHead])
  | planned {head : ChainHead} {details : StakeDetails} (mining : c.isMining) (answer : s.head = .ok head)
      (new : c.plannedHead ≠ some head) (derived : (c.derive s).1 = .ok (some details)) :
      HeadResult s c (.scheduled head details, (c.reads head).present (some details),
        [.askedHead, .sawHeight head.height] ++ (c.derive s).2)
  | barren {head : ChainHead} (mining : c.isMining) (answer : s.head = .ok head)
      (new : c.plannedHead ≠ some head) (derived : (c.derive s).1 = .ok none) :
      HeadResult s c (.noCandidate, (c.reads head).present none,
        [.askedHead, .sawHeight head.height] ++ (c.derive s).2)
  | underived {head : ChainHead} {e : ServiceError} (mining : c.isMining) (answer : s.head = .ok head)
      (new : c.plannedHead ≠ some head) (derived : (c.derive s).1 = .error e) :
      HeadResult s c (.failed e, c.forgets head e, [.askedHead, .sawHeight head.height] ++ (c.derive s).2)

theorem derive_reads (s : MiningServices) (c : MiningController) (head : ChainHead) :
    (c.reads head).derive s = c.derive s := rfl

theorem onChainHead_result (s : MiningServices) (c : MiningController) : HeadResult s c (c.onChainHead s) := by
  unfold onChainHead
  by_cases hmining : c.isMining
  · rw [if_neg (not_not_intro hmining)]
    cases hanswer : s.head with
    | error e => exact .unanswered hmining hanswer
    | ok head =>
      dsimp only
      by_cases hknown : c.plannedHead = some head
      · rw [if_pos hknown]
        exact .unchanged hmining hanswer hknown
      · rw [if_neg hknown]
        rw [← reads, derive_reads]
        rcases hderived : (c.derive s).1 with e | (_ | details)
        · exact .underived hmining hanswer hknown hderived
        · exact .barren hmining hanswer hknown hderived
        · exact .planned hmining hanswer hknown hderived
  · rw [if_pos hmining]
    exact .idle hmining

theorem derive_submissions (s : MiningServices) (c : MiningController) :
    (c.derive s).2.filterMap MiningEffect.submission? = [] := by
  rw [derive]
  cases s.info with
  | error e => rfl
  | ok info => rfl

namespace HeadResult

variable {outcome : HeadOutcome} {c' : MiningController} {effects : List MiningEffect}

theorem of_eq (h : c.onChainHead s = (outcome, c', effects)) : HeadResult s c (outcome, c', effects) :=
  h ▸ onChainHead_result s c

theorem rewardAddress (h : HeadResult s c (outcome, c', effects)) : c'.rewardAddress = c.rewardAddress := by
  cases h <;> rfl

theorem isMining (h : HeadResult s c (outcome, c', effects)) : c'.isMining = c.isMining :=
  congrArg Option.isSome h.rewardAddress

theorem settled (h : HeadResult s c (outcome, c', effects)) : c'.snapshot.settled = c.snapshot.settled := by
  cases h <;> rfl

theorem submissions (h : HeadResult s c (outcome, c', effects)) :
    effects.filterMap MiningEffect.submission? = [] := by
  cases h with
  | planned | barren | underived =>
    rw [List.filterMap_append, derive_submissions]
    rfl
  | _ => rfl

theorem of_idle (h : HeadResult s c (outcome, c', effects)) (idle : ¬ c.isMining) : c' = c := by
  cases h with
  | idle => rfl
  | unanswered mining | unchanged mining | planned mining | barren mining | underived mining =>
    exact absurd mining idle

theorem plannedHead (h : HeadResult s c (outcome, c', effects)) :
    c'.plannedHead = c.plannedHead ∨
      (.askedHead ∈ effects ∧ ∃ head, s.head = .ok head ∧ c.plannedHead ≠ some head) := by
  cases h with
  | idle | unanswered | unchanged => exact .inl rfl
  | planned _ answer new | barren _ answer new | underived _ answer new =>
    exact .inr ⟨.head _, _, answer, new⟩

theorem plannedHead_of_scheduled {head : ChainHead} {details : StakeDetails}
    (h : HeadResult s c (.scheduled head details, c', effects)) :
    c'.plannedHead = some head ∧ c.plannedHead ≠ some head := by
  cases h with
  | planned _ _ new _ => exact ⟨rfl, new⟩

theorem plannedHead_of_quiet (h : HeadResult s c (outcome, c', effects))
    (quiet : outcome = .unchanged ∨ ∃ e, outcome = .failed e) :
    c'.plannedHead = c.plannedHead ∨ c'.plannedHead = none := by
  cases h with
  | idle | unanswered | unchanged => exact .inl rfl
  | underived => exact .inr rfl
  | planned | barren =>
    obtain h | ⟨e, h⟩ := quiet
    · cases h
    · cases h

end HeadResult

/-! ## Attempts to make a block -/

/-- How an attempt to make a block ends. -/
inductive AttemptResult (s : MiningServices) (c : MiningController) (expected : ChainHead) :
    MineOutcome × MiningController × List MiningEffect → Prop
  | idle (ended : c.rewardAddress = none) : AttemptResult s c expected (.noCandidate, c, [])
  | unanswered {e : ServiceError} (answer : s.head = .error e) :
      AttemptResult s c expected (.failed e, c.recordError e, [.askedHead])
  | late {head : ChainHead} (answer : s.head = .ok head) (moved : head ≠ expected) :
      AttemptResult s c expected (.lost, c.loses, [.askedHead, .counted .blocksLost])
  | underived {e : ServiceError} (answer : s.head = .ok expected) (derived : (c.derive s).1 = .error e) :
      AttemptResult s c expected (.failed e, c.recordError e, .askedHead :: (c.derive s).2)
  | barren (answer : s.head = .ok expected) (derived : (c.derive s).1 = .ok none) :
      AttemptResult s c expected (.noCandidate, c, .askedHead :: (c.derive s).2)
  | refused {details : StakeDetails} {address : String} {e : ServiceError}
      (mining : c.rewardAddress = some address) (answer : s.head = .ok expected)
      (derived : (c.derive s).1 = .ok (some details)) (refusal : s.submit details address = .error e) :
      AttemptResult s c expected (.failed e, c.recordError e,
        .askedHead :: (c.derive s).2 ++ [.submitted details address])
  | made {details : StakeDetails} {address : String} {block : Hash256}
      (mining : c.rewardAddress = some address) (answer : s.head = .ok expected)
      (derived : (c.derive s).1 = .ok (some details)) (acceptance : s.submit details address = .ok block) :
      AttemptResult s c expected (.submitted block, c.wins,
        .askedHead :: (c.derive s).2 ++ [.submitted details address] ++ [.counted .blocksSubmitted])

theorem onMineDue_result (s : MiningServices) (c : MiningController) (expected : ChainHead) :
    AttemptResult s c expected (c.onMineDue s expected) := by
  unfold onMineDue
  rw [← loses, ← wins]
  cases hmining : c.rewardAddress with
  | none => exact .idle hmining
  | some address =>
    dsimp only
    cases hanswer : s.head with
    | error e => exact .unanswered hanswer
    | ok head =>
      dsimp only
      by_cases hmoved : head ≠ expected
      · rw [if_pos hmoved]
        exact .late hanswer hmoved
      · rw [if_neg hmoved]
        obtain rfl := Decidable.not_not.1 hmoved
        rcases hderived : (c.derive s).1 with e | (_ | details)
        · exact .underived hanswer hderived
        · exact .barren hanswer hderived
        · dsimp only
          cases hsubmit : s.submit details address with
          | error e => exact .refused hmining hanswer hderived hsubmit
          | ok block => exact .made hmining hanswer hderived hsubmit

namespace AttemptResult

variable {expected : ChainHead} {outcome : MineOutcome} {c' : MiningController} {effects : List MiningEffect}

theorem of_eq (h : c.onMineDue s expected = (outcome, c', effects)) :
    AttemptResult s c expected (outcome, c', effects) :=
  h ▸ onMineDue_result s c expected

theorem rewardAddress (h : AttemptResult s c expected (outcome, c', effects)) :
    c'.rewardAddress = c.rewardAddress := by
  cases h <;> rfl

theorem isMining (h : AttemptResult s c expected (outcome, c', effects)) : c'.isMining = c.isMining :=
  congrArg Option.isSome h.rewardAddress

theorem plannedHead (h : AttemptResult s c expected (outcome, c', effects)) :
    c'.plannedHead = c.plannedHead := by
  cases h <;> rfl

theorem settled_le (h : AttemptResult s c expected (outcome, c', effects)) :
    c'.snapshot.settled ≤ c.snapshot.settled + 1 := by
  cases h with
  | late => exact Nat.le_refl _
  | made =>
    show c.snapshot.submitted + 1 + c.snapshot.lost ≤ c.snapshot.submitted + c.snapshot.lost + 1
    omega
  | _ => exact Nat.le_succ _

/-- Either the wallet is not asked, or it is asked once: for the address that mines, on the head
that was expected and read. -/
theorem submissions (h : AttemptResult s c expected (outcome, c', effects)) :
    effects.filterMap MiningEffect.submission? = [] ∨
      ∃ details address, effects.filterMap MiningEffect.submission? = [(details, address)] ∧
        c.rewardAddress = some address ∧ s.head = .ok expected ∧ .askedHead ∈ effects := by
  cases h with
  | idle | unanswered | late => exact .inl rfl
  | underived | barren => exact .inl (derive_submissions s c)
  | @refused details address _ mining answer _ _ =>
    refine .inr ⟨details, address, ?_, mining, answer, .head _⟩
    rw [List.filterMap_append, List.filterMap_cons_none rfl, derive_submissions]
    rfl
  | @made details address _ mining answer _ _ =>
    refine .inr ⟨details, address, ?_, mining, answer, .head _⟩
    rw [List.filterMap_append, List.filterMap_append, List.filterMap_cons_none rfl, derive_submissions]
    rfl

end AttemptResult

end MiningController

end SwapStake
