import SwapStake.Proofs.Mining.Controller
/-!
# Which head is remembered

A controller is started, stopped, made to look at the chain and to attempt a block in any order, and what
others answer may be different each time. A history lists these turns, the latest first. What a look finds
out is told by the answers alone: a head other than the one that is remembered, and what is derived for it
(`MiningController.finds`). A head is remembered only if it is the latest find since the last start, and
its derivation did not fail (`MiningController.after_plannedHead`). After one that failed nothing is
remembered until a look is answered in full (`MiningController.after_awaits`), and that look deals with
the head that it is told (`MiningController.onChainHead_of_awaits`).
-/

namespace SwapStake

/-- What a controller is made to do, with what others answer meanwhile. -/
inductive ControllerTurn where
  | start (address : String)
  | stop
  /-- A look at the chain. -/
  | looks (s : MiningServices)
  /-- An attempt to make a block on top of a head. -/
  | attempts (s : MiningServices) (expected : ChainHead)

/-- Everything that a look at the chain asks for is answered. -/
def MiningServices.Answer (s : MiningServices) : Prop :=
  ∃ head info outputs, s.head = .ok head ∧ s.info = .ok info ∧ s.outputs = .ok outputs

/-- Mining is not stopped, and it is not all answered that a look asks for. -/
def ControllerTurn.LeavesWaiting : ControllerTurn → Prop
  | .stop => False
  | .looks s => ¬ s.Answer
  | .start _ | .attempts _ _ => True

namespace MiningController

variable {s : MiningServices} {c c' : MiningController} {outcome : HeadOutcome} {effects : List MiningEffect}
  {head : ChainHead}

/-- What a look at the chain finds: a head that is not the one that is remembered, and what is derived for
it. -/
def finds (c : MiningController) (s : MiningServices) :
    Option (ChainHead × Except ServiceError (Option StakeDetails)) :=
  match s.head with
  | .ok head => if c.isMining ∧ c.plannedHead ≠ some head then some (head, (c.derive s).1) else none
  | .error _ => none

theorem finds_eq_some_iff {derived : Except ServiceError (Option StakeDetails)} :
    c.finds s = some (head, derived) ↔
      s.head = .ok head ∧ c.isMining ∧ c.plannedHead ≠ some head ∧ (c.derive s).1 = derived := by
  rw [finds]
  cases s.head with
  | error e => simp
  | ok named =>
    rw [Option.ite_none_right_eq_some, Option.some_inj, Prod.mk.injEq, Except.ok.injEq]
    constructor
    · rintro ⟨⟨hmining, hnew⟩, rfl, hderived⟩
      exact ⟨rfl, hmining, hnew, hderived⟩
    · rintro ⟨rfl, hmining, hnew, hderived⟩
      exact ⟨⟨hmining, hnew⟩, rfl, hderived⟩

theorem finds_of_failed {e : ServiceError} (answer : s.head = .error e) : c.finds s = none := by
  rw [finds, answer]

theorem finds_of_known (answer : s.head = .ok head) (known : c.plannedHead = some head) :
    c.finds s = none := by
  rw [finds, answer]
  exact if_neg fun hnew => hnew.2 known

theorem finds_of_idle (ended : ¬ c.isMining) : c.finds s = none :=
  Option.eq_none_iff_forall_not_mem.2 fun _ hfound => ended (finds_eq_some_iff.1 hfound).2.1

theorem exists_derived_iff : (∃ stake, (c.derive s).1 = .ok stake) ↔
    ∃ info outputs, s.info = .ok info ∧ s.outputs = .ok outputs := by
  rw [derive]
  cases s.info with
  | error e => simp
  | ok info =>
    cases s.outputs with
    | error e => simp [Except.map]
    | ok outputs => simp [Except.map]

/-! ## One turn -/

def take (c : MiningController) : ControllerTurn → MiningController
  | .start address => (c.start address).2
  | .stop => c.stop
  | .looks s => (c.onChainHead s).2.1
  | .attempts s expected => (c.onMineDue s expected).2.1

theorem start_of_mining (mining : c.isMining) (address : String) : c.start address = (false, c) := by
  rw [start, if_pos mining]

/-- What is shown is so, and nothing is shown or remembered without mining. -/
structure Truthful (c : MiningController) : Prop where
  mining : c.isMining = c.snapshot.mining
  idle : ¬ c.isMining →
    c.plannedHead = none ∧ c.snapshot.candidateAmount = none ∧ c.snapshot.nextBlockTime = none

theorem HeadResult.mining (h : HeadResult s c (outcome, c', effects)) : c'.snapshot.mining = c.snapshot.mining := by
  cases h <;> rfl

theorem HeadResult.truthful (h : HeadResult s c (outcome, c', effects)) (hc : c.Truthful) : c'.Truthful := by
  refine ⟨h.isMining.trans (hc.mining.trans h.mining.symm), fun hidle => ?_⟩
  rw [h.isMining] at hidle
  rw [h.of_idle hidle]
  exact hc.idle hidle

theorem AttemptResult.truthful {expected : ChainHead} {outcome : MineOutcome}
    (h : AttemptResult s c expected (outcome, c', effects)) (hc : c.Truthful) : c'.Truthful := by
  cases h with
  | idle | barren => exact hc
  | unanswered | late | underived | refused | made => exact ⟨hc.mining, hc.idle⟩

theorem Truthful.take (hc : c.Truthful) (turn : ControllerTurn) : (c.take turn).Truthful := by
  cases turn with
  | start address =>
    rw [MiningController.take, start]
    by_cases hmining : c.isMining
    · rw [if_pos hmining]
      exact hc
    · rw [if_neg hmining]
      exact ⟨rfl, fun hidle => absurd rfl hidle⟩
  | stop => exact ⟨rfl, fun _ => ⟨rfl, rfl, rfl⟩⟩
  | looks s => exact (onChainHead_result s c).truthful hc
  | attempts s expected => exact (onMineDue_result s c expected).truthful hc

theorem HeadResult.remembered (h : HeadResult s c (outcome, c', effects)) (planned : c'.plannedHead = some head) :
    (∃ stake, c.finds s = some (head, .ok stake)) ∨ (c.finds s = none ∧ c.plannedHead = some head) := by
  cases h with
  | idle ended => exact .inr ⟨finds_of_idle ended, planned⟩
  | unanswered mining answer => exact .inr ⟨finds_of_failed answer, planned⟩
  | unchanged mining answer known => exact .inr ⟨finds_of_known answer known, planned⟩
  | planned mining answer new derived | barren mining answer new derived =>
    obtain rfl := Option.some.inj planned
    exact .inl ⟨_, finds_eq_some_iff.2 ⟨answer, mining, new, derived⟩⟩
  | underived => cases planned

theorem HeadResult.of_unchanged (h : HeadResult s c (.unchanged, c', effects)) (mining : c.isMining) :
    ∃ head, s.head = .ok head ∧ c.plannedHead = some head := by
  cases h with
  | idle ended => exact absurd mining ended
  | unchanged _ answer known => exact ⟨_, answer, known⟩

/-! ## Until all is answered -/

/-- Mining goes on, and the next head that is named is one to deal with. -/
structure Awaits (c : MiningController) : Prop where
  mining : c.isMining
  forgotten : c.plannedHead = none

theorem HeadResult.awaits (h : HeadResult s c (outcome, c', effects)) (hc : c.Awaits) (unanswered : ¬ s.Answer) :
    c'.Awaits := by
  refine ⟨h.isMining.trans hc.mining, ?_⟩
  cases h with
  | idle | unanswered => exact hc.forgotten
  | unchanged _ _ known => exact absurd (hc.forgotten.symm.trans known) nofun
  | planned _ answer _ derived | barren _ answer _ derived =>
    obtain ⟨info, outputs, hinfo, houtputs⟩ := exists_derived_iff.1 ⟨_, derived⟩
    exact absurd ⟨_, info, outputs, answer, hinfo, houtputs⟩ unanswered
  | underived => rfl

theorem Awaits.take {turn : ControllerTurn} (hc : c.Awaits) (waiting : turn.LeavesWaiting) : (c.take turn).Awaits := by
  cases turn with
  | start address =>
    rw [MiningController.take, start_of_mining hc.mining]
    exact hc
  | stop => exact waiting.elim
  | looks s => exact (onChainHead_result s c).awaits hc waiting
  | attempts s expected =>
    have hattempt := onMineDue_result s c expected
    exact ⟨hattempt.isMining.trans hc.mining, hattempt.plannedHead.trans hc.forgotten⟩

theorem awaits_of_failed {e : ServiceError} (failed : c.finds s = some (head, .error e)) :
    (c.take (.looks s)).Awaits := by
  obtain ⟨hanswer, hmining, hnew, hderived⟩ := finds_eq_some_iff.1 failed
  have hlook := onChainHead_result s c
  refine ⟨hlook.isMining.trans hmining, ?_⟩
  cases hplanned : (c.take (.looks s)).plannedHead with
  | none => rfl
  | some planned =>
    rcases hlook.remembered hplanned with ⟨stake, hfound⟩ | ⟨hnone, -⟩
    · cases (Prod.mk.inj (Option.some.inj (failed.symm.trans hfound))).2
    · cases failed.symm.trans hnone

theorem onChainHead_of_awaits (hc : c.Awaits) (answer : s.Answer) : ∃ head, s.head = .ok head ∧
    ((∃ details, (c.onChainHead s).1 = .scheduled head details) ∨ (c.onChainHead s).1 = .noCandidate) := by
  obtain ⟨head, info, outputs, hhead, hinfo, houtputs⟩ := answer
  obtain ⟨stake, hderived⟩ := exists_derived_iff (c := c).2 ⟨info, outputs, hinfo, houtputs⟩
  refine ⟨head, hhead, ?_⟩
  rcases hresult : c.onChainHead s with ⟨outcome, c', effects⟩
  cases HeadResult.of_eq hresult with
  | idle ended => exact absurd hc.mining ended
  | unanswered _ failed => cases hhead.symm.trans failed
  | unchanged _ _ known => cases hc.forgotten.symm.trans known
  | planned _ named =>
    obtain rfl := Except.ok.inj (hhead.symm.trans named)
    exact .inl ⟨_, rfl⟩
  | barren => exact .inr rfl
  | underived _ _ _ failed => cases hderived.symm.trans failed

/-! ## Histories -/

/-- The controller after some turns. -/
def after (initial : MiningController) : List ControllerTurn → MiningController
  | [] => initial
  | turn :: past => (after initial past).take turn

/-- What was found last since the last start that was accepted. -/
def lastFind (initial : MiningController) :
    List ControllerTurn → Option (ChainHead × Except ServiceError (Option StakeDetails))
  | [] => none
  | .start address :: past => if ((after initial past).start address).1 then none else lastFind initial past
  | .looks s :: past => ((after initial past).finds s).or (lastFind initial past)
  | .stop :: past | .attempts _ _ :: past => lastFind initial past

theorem after_awaits {initial : MiningController} {past later : List ControllerTurn}
    (hpast : (after initial past).Awaits) (waiting : ∀ turn ∈ later, turn.LeavesWaiting) :
    (after initial (later ++ past)).Awaits := by
  induction later with
  | nil => exact hpast
  | cons turn later ih =>
    obtain ⟨hturn, hlater⟩ := List.forall_mem_cons.1 waiting
    exact (ih hlater).take hturn

section New

variable (settings : MiningSettings) (native : TokenId) (hasher : Hasher) (past : List ControllerTurn)

theorem after_truthful : (after (new settings native hasher) past).Truthful := by
  induction past with
  | nil => exact ⟨rfl, fun _ => ⟨rfl, rfl, rfl⟩⟩
  | cons turn past ih => exact ih.take turn

theorem after_plannedHead {head : ChainHead}
    (planned : (after (new settings native hasher) past).plannedHead = some head) :
    ∃ stake, lastFind (new settings native hasher) past = some (head, .ok stake) := by
  induction past with
  | nil => cases planned
  | cons turn past ih =>
    rw [after] at planned
    -- A stop and a start that is accepted leave nothing remembered; only a look can add to what is found.
    cases turn with
    | start address =>
      by_cases hmining : (after (new settings native hasher) past).isMining
      · rw [take, start_of_mining hmining] at planned
        rw [lastFind, start_of_mining hmining]
        exact ih planned
      · rw [take, start, if_neg hmining] at planned
        cases planned
    | stop => cases planned
    | looks s =>
      rw [lastFind]
      rcases (onChainHead_result s _).remembered planned with ⟨stake, hfound⟩ | ⟨hnone, hbefore⟩
      · exact ⟨stake, by rw [hfound, Option.some_or]⟩
      · rw [hnone, Option.none_or]
        exact ih hbefore
    | attempts s expected => exact ih ((onMineDue_result s _ expected).plannedHead.symm.trans planned)

end New

/-- **A head is remembered only once it has been dealt with.** Wherever a controller stands: what it shows
of mining is so, and without mining it remembers no head and shows no stake. If it remembers a head, then
that is the one that was found last since the last start, and its derivation did not fail, with or without
a stake. So nothing is new to it, while it mines, only on such a head. After a look whose derivation failed,
as long as mining is not stopped, the next look that is answered in full deals with the head that it is
told, be it the same as before or not. -/
theorem remembered_once_dealt_with (settings : MiningSettings) (native : TokenId) (hasher : Hasher)
    (past : List ControllerTurn) :
    let c := after (new settings native hasher) past
    c.isMining = c.snapshot.mining ∧
    (¬ c.isMining →
      c.plannedHead = none ∧ c.snapshot.candidateAmount = none ∧ c.snapshot.nextBlockTime = none) ∧
    (∀ head, c.plannedHead = some head →
      ∃ stake, lastFind (new settings native hasher) past = some (head, .ok stake)) ∧
    (∀ s, c.isMining → (c.onChainHead s).1 = .unchanged →
      ∃ head stake, s.head = .ok head ∧ lastFind (new settings native hasher) past = some (head, .ok stake)) ∧
    ∀ s head e later s', c.finds s = some (head, .error e) → (∀ turn ∈ later, turn.LeavesWaiting) → s'.Answer →
      ∃ named, s'.head = .ok named ∧
        ((∃ details, ((after (new settings native hasher) (later ++ .looks s :: past)).onChainHead s').1 =
            .scheduled named details) ∨
          ((after (new settings native hasher) (later ++ .looks s :: past)).onChainHead s').1 = .noCandidate) := by
  have htruthful := after_truthful settings native hasher past
  refine ⟨htruthful.mining, htruthful.idle, fun head => after_plannedHead settings native hasher past,
    fun s mining hunchanged => ?_, fun s head e later s' failed waiting answer => ?_⟩
  · rcases hresult : (after (new settings native hasher) past).onChainHead s with ⟨outcome, c', effects⟩
    rw [hresult] at hunchanged
    obtain rfl : outcome = .unchanged := hunchanged
    obtain ⟨head, hanswer, hplanned⟩ := (HeadResult.of_eq hresult).of_unchanged mining
    obtain ⟨stake, hfound⟩ := after_plannedHead settings native hasher past hplanned
    exact ⟨head, stake, hanswer, hfound⟩
  · exact onChainHead_of_awaits (after_awaits (awaits_of_failed failed) waiting) answer

/-- A wallet without outputs, and a daemon that names a head of some height. -/
def emptyWallet (height : UInt64) : MiningServices where
  head := .ok ⟨height, default⟩
  info := .ok ⟨height, default, 1, 0⟩
  outputs := .ok []
  unlocked := fun _ => true
  submit := fun _ _ => .ok default

/-- The same without an answer of the wallet. -/
def lostWallet (height : UInt64) : MiningServices :=
  { emptyWallet height with outputs := .error .network }

/-- Mining begins, and there is nothing to mine with on the first head. -/
def trialTurns : List ControllerTurn :=
  [.looks (emptyWallet 99), .start "miner"]

/-- A look that the daemon does not answer, and an attempt that is too late. -/
def trialWait : List ControllerTurn :=
  [.attempts (emptyWallet 100) ⟨99, default⟩, .looks { emptyWallet 100 with head := .error .busy }]

theorem remembered_once_dealt_with_trial :
    let initial := new {} ⟨0⟩ fun _ => default
    let waited := after initial (trialWait ++ .looks (lostWallet 100) :: trialTurns)
    (after initial trialTurns).plannedHead = some ⟨99, default⟩ ∧
      (∃ stake, lastFind initial trialTurns = some (⟨99, default⟩, .ok stake)) ∧
      (after initial trialTurns).finds (lostWallet 100) = some (⟨100, default⟩, .error .network) ∧
      ∃ named, (emptyWallet 100).head = .ok named ∧
        ((∃ details, (waited.onChainHead (emptyWallet 100)).1 = .scheduled named details) ∨
          (waited.onChainHead (emptyWallet 100)).1 = .noCandidate) := by
  intro initial waited
  obtain ⟨-, -, hremembered, -, hretried⟩ := remembered_once_dealt_with {} ⟨0⟩ (fun _ => default) trialTurns
  have hplanned : (after initial trialTurns).plannedHead = some ⟨99, default⟩ := by decide
  -- the wallet fails on the next head, so the look that is answered some turns later finds that head again
  have hfailed : (after initial trialTurns).finds (lostWallet 100) = some (⟨100, default⟩, .error .network) := rfl
  have hunanswered : ¬ MiningServices.Answer { emptyWallet 100 with head := .error .busy } := by
    rintro ⟨head, info, outputs, hhead, -⟩
    cases hhead
  have hwaiting : ∀ turn ∈ trialWait, turn.LeavesWaiting := by
    simp [trialWait, ControllerTurn.LeavesWaiting, hunanswered]
  exact ⟨hplanned, hremembered _ hplanned, hfailed,
    hretried _ _ _ _ (emptyWallet 100) hfailed hwaiting ⟨_, _, _, rfl, rfl, rfl⟩⟩

end MiningController

end SwapStake
