import SwapStake.Proofs.Exchange.Completion
/-!
# The pace of the rounds

A block brings a round at once if no transaction is outstanding. Else it has to be so many blocks above the
last one that brought a round, or, if none has, above the first one that the exchange saw. The exchange
keeps only the height that this comes to: it is set by the first block, moved by every round that a block
brings and by nothing else, and forgotten at a start (`after_nextHeight`). So `block_pacing` tells which
blocks bring a round from the history alone, whatever came between them and in whichever order their
heights were.
-/

namespace SwapStake

def ExchangeEvent.height? : ExchangeEvent → Option UInt64
  | .block height => some height
  | _ => none

/-- The exchange, waiting for another height. -/
def Exchange.waitingFor (x : Exchange) (next : Option UInt64) : Exchange :=
  { x with nextHeight := next }

namespace ExchangeDesk

/-! ## One turn -/

section Turn

variable {s : ExchangeServices} {d : ExchangeDesk} {e : ExchangeEvent} {x : Exchange} {height : UInt64}

/-- The height of a block that brings something about. -/
def triggered (d : ExchangeDesk) (s : ExchangeServices) (e : ExchangeEvent) : Option UInt64 :=
  if (d.step s e).2.isEmpty then none else e.height?

/-- The height of a block that comes while an exchange runs. -/
def seen (d : ExchangeDesk) (e : ExchangeEvent) : Option UInt64 :=
  if d.inProgress then e.height? else none

/-- The height that a desk waits for while transactions are outstanding. -/
def nextHeight (d : ExchangeDesk) : Option UInt64 :=
  d.current.bind Exchange.nextHeight

/-- The height to wait for after an event: so many blocks above one that brings something about; else as
before; else so many blocks above one that is seen. -/
def heightAfter (d : ExchangeDesk) (s : ExchangeServices) (e : ExchangeEvent) (before : Option UInt64) :
    Option UInt64 :=
  ((d.triggered s e).map (Word64.addSaturating · d.blocksBetween)).or
    (before.or ((d.seen e).map (Word64.addSaturating · d.blocksBetween)))

/-- A block brings a round of the exchange that runs; after it, the exchange waits for the height `next`. -/
def BringsRound (d : ExchangeDesk) (s : ExchangeServices) (e : ExchangeEvent) : Prop :=
  ∃ x next, d.current = some x ∧ x.running ∧
    d.step s e = ({ d with current := some ((x.waitingFor next).runRound s).1 }, ((x.waitingFor next).runRound s).2)

/-- Nothing comes of a block but the height that the exchange waits for. -/
def WaitsOut (d : ExchangeDesk) (s : ExchangeServices) (e : ExchangeEvent) : Prop :=
  ∃ x next, d.current = some x ∧ d.step s e = ({ d with current := some (x.waitingFor next) }, [])

theorem step_blocksBetween (s : ExchangeServices) (d : ExchangeDesk) (e : ExchangeEvent) :
    (d.step s e).1.blocksBetween = d.blocksBetween := by
  have h := step_result s d e
  generalize d.step s e = result at h ⊢
  cases h <;> rfl

theorem nextHeight_of_current (h : d.current = some x) : d.nextHeight = x.nextHeight := by
  rw [nextHeight, h]
  rfl

section Block

variable (kept : d.current = some x) (s : ExchangeServices)

include kept

theorem step_block_of_kept : d.step s (.block height) =
    ({ d with current := some (x.block s d.blocksBetween height).1 }, (x.block s d.blocksBetween height).2) := by
  rw [step, modify, kept]

theorem triggered_of_silent (hsilent : (x.block s d.blocksBetween height).2 = []) :
    d.triggered s (.block height) = none := by
  rw [triggered, step_block_of_kept kept]
  exact if_pos (List.isEmpty_iff.2 hsilent)

theorem block_of_due (hrunning : x.running) (hdue : x.Due d.blocksBetween height) :
    d.BringsRound s (.block height) ∧ d.triggered s (.block height) = some height := by
  have hround := Exchange.block_of_due s hrunning hdue
  have hnoticed : ¬ (x.block s d.blocksBetween height).2.isEmpty := by
    rw [hround, List.isEmpty_iff]
    exact Exchange.runRound_effects_ne_nil s hrunning
  refine ⟨⟨x, some (Word64.addSaturating height d.blocksBetween), kept, hrunning, ?_⟩, ?_⟩
  · rw [step_block_of_kept kept, hround]
    rfl
  · rw [triggered, step_block_of_kept kept]
    exact if_neg hnoticed

theorem block_of_early (hrunning : x.running) (hearly : ¬ x.Due d.blocksBetween height) :
    d.WaitsOut s (.block height) ∧ d.triggered s (.block height) = none := by
  have hwaits := Exchange.block_of_early s hrunning hearly
  refine ⟨⟨x, some (x.nextHeight.getD (Word64.addSaturating height d.blocksBetween)), kept, ?_⟩,
    triggered_of_silent kept s (by rw [hwaits])⟩
  rw [step_block_of_kept kept, hwaits]
  rfl

end Block

theorem BringsRound.not_waitsOut (h : d.BringsRound s e) : ¬ d.WaitsOut s e := by
  obtain ⟨x, next, -, hrunning, hround⟩ := h
  rintro ⟨y, next', -, hwaits⟩
  have hsilent := congrArg Prod.snd (hround.symm.trans hwaits)
  exact Exchange.runRound_effects_ne_nil s (x := x.waitingFor next) hrunning hsilent

theorem triggered_eq_some (h : d.triggered s e = some height) : e = .block height ∧ d.inProgress := by
  have hevent : e = .block height := by
    rw [triggered] at h
    split at h
    · cases h
    · cases e with
      | block height' => rw [Option.some.inj h]
      | _ => cases h
  subst hevent
  refine ⟨rfl, ?_⟩
  cases hcurrent : d.current with
  | none =>
    rw [triggered, step, modify, hcurrent] at h
    cases h
  | some x =>
    rw [inProgress_of_current hcurrent]
    refine Decidable.byContradiction fun hended => ?_
    rw [triggered_of_silent hcurrent s (by rw [Exchange.block_of_ended s hended])] at h
    cases h

theorem block_nextHeight (s : ExchangeServices) (d : ExchangeDesk) (height : UInt64) :
    (d.step s (.block height)).1.nextHeight = d.heightAfter s (.block height) d.nextHeight := by
  rw [heightAfter]
  cases hcurrent : d.current with
  | none => simp [step, modify, triggered, seen, nextHeight, inProgress, hcurrent]
  | some x =>
    rw [seen, inProgress_of_current hcurrent, nextHeight_of_current hcurrent, step_block_of_kept hcurrent,
      nextHeight_of_current rfl]
    by_cases hrunning : x.running
    · by_cases hdue : x.Due d.blocksBetween height
      · rw [(block_of_due hcurrent s hrunning hdue).2, Exchange.block_of_due s hrunning hdue,
          Exchange.runRound_nextHeight]
        rfl
      · rw [(block_of_early hcurrent s hrunning hdue).2, Exchange.block_of_early s hrunning hdue, if_pos hrunning]
        cases x.nextHeight <;> rfl
    · have hblock : x.block s d.blocksBetween height = (x, []) := Exchange.block_of_ended s hrunning
      rw [triggered_of_silent hcurrent s (by rw [hblock]), hblock, if_neg hrunning]
      exact (Option.or_none).symm

theorem modify_nextHeight {f : Exchange → Exchange × List ExchangeEffect}
    (h : ∀ x, (f x).1.nextHeight = x.nextHeight) (d : ExchangeDesk) : (d.modify f).1.nextHeight = d.nextHeight := by
  rw [modify]
  cases hcurrent : d.current with
  | none => rfl
  | some x =>
    rw [nextHeight_of_current rfl, nextHeight_of_current hcurrent]
    exact h x

theorem heightAfter_of_other (h : e.height? = none) (before : Option UInt64) :
    d.heightAfter s e before = before := by
  rw [heightAfter, triggered, seen, h, ite_self, ite_self]
  exact Option.or_none

/-- **What moves the height that a desk waits for.** A start forgets it. -/
theorem step_nextHeight (s : ExchangeServices) (d : ExchangeDesk) (e : ExchangeEvent) :
    (d.step s e).1.nextHeight = d.heightAfter s e (if e.starts then none else d.nextHeight) := by
  cases e with
  | block height => exact block_nextHeight s d height
  | start order =>
    rw [heightAfter_of_other rfl]
    exact Exchange.runRound_nextHeight s { order }
  | round =>
    rw [heightAfter_of_other rfl]
    exact modify_nextHeight (Exchange.runRound_nextHeight s) d
  | confirmed t =>
    rw [heightAfter_of_other rfl]
    exact modify_nextHeight (fun _ => Exchange.confirmed_nextHeight) d
  | stop =>
    rw [heightAfter_of_other rfl]
    exact modify_nextHeight (fun _ => rfl) d

end Turn

/-! ## Histories -/

/-- The height of the last block since the last start that brought something about. -/
def lastTrigger (settings : ExchangeSettings) : List DeskTurn → Option UInt64
  | [] => none
  | turn :: past => ((after settings past).triggered turn.services turn.event).or
      (if turn.event.starts then none else lastTrigger settings past)

/-- The height of the first block since the last start that came while the exchange was running. -/
def firstSeen (settings : ExchangeSettings) : List DeskTurn → Option UInt64
  | [] => none
  | turn :: past => (if turn.event.starts then none else firstSeen settings past).or
      ((after settings past).seen turn.event)

/-- The height from which the blocks are counted that a round has to wait for, when a block comes. -/
def countedFrom (settings : ExchangeSettings) (past : List DeskTurn) (height : UInt64) : UInt64 :=
  ((lastTrigger settings past).or (firstSeen settings past)).getD height

/-- A block at the height `first` brought a round, and since then no exchange was started, and no block
brought a round but while a transaction was outstanding. -/
inductive PacedSince (settings : ExchangeSettings) (first : UInt64) : List DeskTurn → Prop
  | triggered {turn : DeskTurn} {past : List DeskTurn}
      (trigger : (after settings past).triggered turn.services turn.event = some first) :
      PacedSince settings first (turn :: past)
  | later {turn : DeskTurn} {past : List DeskTurn} (since : PacedSince settings first past)
      (later : ¬ turn.event.starts)
      (outstanding : ∀ height, (after settings past).triggered turn.services turn.event = some height →
        (after settings past).pending ≠ []) :
      PacedSince settings first (turn :: past)

variable {settings : ExchangeSettings} {past : List DeskTurn} {turn : DeskTurn} {s : ExchangeServices}
  {height first : UInt64} {x : Exchange}

theorem after_blocksBetween (settings : ExchangeSettings) (past : List DeskTurn) :
    (after settings past).blocksBetween = max settings.blocksBetweenRounds 1 := by
  induction past with
  | nil => rfl
  | cons turn past ih => rw [after, step_blocksBetween, ih]

/-- **The height that a desk waits for, from the history alone.** -/
theorem after_nextHeight (settings : ExchangeSettings) (past : List DeskTurn) :
    (after settings past).nextHeight = ((lastTrigger settings past).or (firstSeen settings past)).map
      (Word64.addSaturating · (max settings.blocksBetweenRounds 1)) := by
  induction past with
  | nil => rfl
  | cons turn past ih =>
    rw [after, step_nextHeight, ih, heightAfter, after_blocksBetween, lastTrigger, firstSeen]
    split
    · simp [Option.map_or]
    · simp [Option.map_or, Option.or_assoc]

/-- The height that a block has to reach for a round that does not wait for transactions, so many blocks
above the one that it counts from. -/
def dueHeight (settings : ExchangeSettings) (counted : UInt64) : Nat :=
  min (counted.toNat + (max settings.blocksBetweenRounds 1).toNat) (2 ^ 64 - 1)

theorem le_dueHeight (settings : ExchangeSettings) (counted : UInt64) : counted.toNat ≤ dueHeight settings counted := by
  have hword := counted.toNat_lt
  unfold dueHeight
  omega

theorem dueHeight_mono (settings : ExchangeSettings) {a b : UInt64} (le : a ≤ b) :
    dueHeight settings a ≤ dueHeight settings b := by
  rw [UInt64.le_iff_toNat_le] at le
  unfold dueHeight
  omega

theorem due_iff (kept : (after settings past).current = some x) (height : UInt64) :
    x.Due (after settings past).blocksBetween height ↔ (after settings past).pending = [] ∨
      dueHeight settings (countedFrom settings past height) ≤ height.toNat := by
  have hnext : x.nextHeight.getD (Word64.addSaturating height (after settings past).blocksBetween) =
      Word64.addSaturating (countedFrom settings past height) (max settings.blocksBetweenRounds 1) := by
    rw [← nextHeight_of_current kept, after_nextHeight, after_blocksBetween, countedFrom]
    exact Option.getD_map _ _ _
  rw [Exchange.Due, hnext, pending_of_current kept, List.isEmpty_iff, UInt64.le_iff_toNat_le,
    Word64.toNat_addSaturating, dueHeight]

/-! ## The pace -/

theorem block_turn (busy : (after settings past).inProgress) (s : ExchangeServices) (height : UInt64) :
    let due := (after settings past).pending = [] ∨
      dueHeight settings (countedFrom settings past height) ≤ height.toNat
    (due → (after settings past).BringsRound s (.block height) ∧
        (after settings past).triggered s (.block height) = some height) ∧
      (¬ due → (after settings past).WaitsOut s (.block height) ∧
        (after settings past).triggered s (.block height) = none) := by
  obtain ⟨x, hcurrent, hrunning⟩ := exists_running busy
  rw [← due_iff hcurrent]
  exact ⟨block_of_due hcurrent s hrunning, block_of_early hcurrent s hrunning⟩

theorem bringsRound_iff (busy : (after settings past).inProgress) (s : ExchangeServices) (height : UInt64) :
    (after settings past).BringsRound s (.block height) ↔ (after settings past).pending = [] ∨
      dueHeight settings (countedFrom settings past height) ≤ height.toNat := by
  obtain ⟨hdue, hearly⟩ := block_turn busy s height
  refine ⟨fun hround => Classical.byContradiction fun hnot => ?_, fun h => (hdue h).1⟩
  exact hround.not_waitsOut (hearly hnot).1

theorem triggered_iff (busy : (after settings past).inProgress) (s : ExchangeServices) (height : UInt64) :
    (after settings past).triggered s (.block height) = some height ↔
      (after settings past).BringsRound s (.block height) := by
  obtain ⟨hdue, hearly⟩ := block_turn busy s height
  rw [bringsRound_iff busy]
  refine ⟨fun htriggered => Classical.byContradiction fun hnot => ?_, fun h => (hdue h).2⟩
  rw [(hearly hnot).2] at htriggered
  cases htriggered

theorem PacedSince.le_lastTrigger (h : PacedSince settings first past) :
    ∃ last, lastTrigger settings past = some last ∧ first ≤ last := by
  induction h with
  | @triggered turn past trigger =>
    rw [lastTrigger, trigger]
    exact ⟨first, rfl, UInt64.le_refl first⟩
  | @later turn past since later outstanding ih =>
    obtain ⟨last, hlast, hle⟩ := ih
    rw [lastTrigger, if_neg later, hlast]
    cases htriggered : (after settings past).triggered turn.services turn.event with
    | none => exact ⟨last, rfl, hle⟩
    | some height =>
      have houtstanding := outstanding height htriggered
      obtain ⟨hevent, hbusy⟩ := triggered_eq_some htriggered
      rw [hevent, triggered_iff hbusy, bringsRound_iff hbusy, or_iff_right houtstanding, countedFrom, hlast]
        at htriggered
      refine ⟨height, rfl, UInt64.le_trans hle (UInt64.le_iff_toNat_le.2 ?_)⟩
      exact Nat.le_trans (le_dueHeight settings last) htriggered

/-- **Which blocks bring a round.** While an exchange runs, a block brings a round if and only if no
transaction is outstanding, or its height is at least so many blocks above that of the last block that
brought a round since the start, or, if none has, above that of the first block seen since then, which may
be the block itself. Any other block changes nothing but the height that is waited for. So as long as no
block brings a round but while a transaction is outstanding, each round is due only that many blocks above
every earlier one, or at the largest height of all. -/
theorem block_pacing (settings : ExchangeSettings) (past : List DeskTurn) (s : ExchangeServices) (height : UInt64)
    (busy : (after settings past).inProgress) :
    ((after settings past).BringsRound s (.block height) ↔ (after settings past).pending = [] ∨
      dueHeight settings (((lastTrigger settings past).or (firstSeen settings past)).getD height) ≤ height.toNat) ∧
    ((after settings past).triggered s (.block height) = some height ↔
      (after settings past).BringsRound s (.block height)) ∧
    (¬ (after settings past).BringsRound s (.block height) → (after settings past).WaitsOut s (.block height)) ∧
    (∀ first, PacedSince settings first past → (after settings past).pending ≠ [] →
      (after settings past).BringsRound s (.block height) → dueHeight settings first ≤ height.toNat) := by
  have hround := bringsRound_iff busy s height
  refine ⟨hround, triggered_iff busy s height, fun hnot => ?_, fun first hpaced houtstanding hbrings => ?_⟩
  · exact ((block_turn busy s height).2 (mt hround.2 hnot)).1
  · obtain ⟨last, hlast, hle⟩ := hpaced.le_lastTrigger
    rw [hround, or_iff_right houtstanding, countedFrom, hlast] at hbrings
    exact Nat.le_trans (dueHeight_mono settings hle) hbrings

/-- A sale whose second round is brought by the block 15, and whose transactions wait. -/
def pacedSale : List DeskTurn :=
  [⟨trialServices 2000000 2, .block 15⟩, ⟨trialServices 2000000 1, .block 10⟩,
    ⟨trialServices 2000000 1, .start trialSale⟩]

theorem block_pacing_second_round :
    (after {} pacedSale).inProgress ∧ lastTrigger {} pacedSale = some 15 ∧ (after {} pacedSale).pending ≠ [] ∧
      ∀ height, (after {} pacedSale).BringsRound (trialServices 2000000 3) (.block height) →
        dueHeight {} 15 ≤ height.toNat := by
  have hbusy : (after {} pacedSale).inProgress := by decide +kernel
  have hlast : lastTrigger {} pacedSale = some 15 := by decide +kernel
  have hpaced : PacedSince {} 15 pacedSale := .triggered (by decide +kernel)
  have houtstanding : (after {} pacedSale).pending ≠ [] := by
    rw [ne_eq, ← List.isEmpty_iff]
    decide +kernel
  refine ⟨hbusy, hlast, houtstanding, fun height => ?_⟩
  exact (block_pacing {} pacedSale (trialServices 2000000 3) height hbusy).2.2.2 15 hpaced houtstanding

end ExchangeDesk

end SwapStake
