import SwapStake.Proofs.Exchange.Round
/-!
# Histories of a desk

A history is the list of the turns of a desk, the latest first: what happened, and what the services
answered meanwhile. `ExchangeDesk.after` is the desk that a history leaves. What the desk keeps of an
exchange is also told from the history alone, by going back to the last start: the order
(`after_order`), the rate of the first quote (`after_firstRate`), and, while the exchange runs, the
number of transactions that the wallet was asked to relay (`after_round`).
-/

namespace SwapStake

/-- One event at a desk, and the services during it. -/
structure DeskTurn where
  services : ExchangeServices
  event : ExchangeEvent

namespace ExchangeEvent

def starts : ExchangeEvent → Bool
  | .start _ => true
  | _ => false

def order? : ExchangeEvent → Option ExchangeOrder
  | .start order => some order
  | _ => none

theorem order?_of_not_starts {e : ExchangeEvent} (h : ¬ e.starts) : e.order? = none := by
  cases e with
  | start order => exact absurd rfl h
  | _ => rfl

end ExchangeEvent

namespace ExchangeDesk

/-! ## One turn -/

/-- The exchange whose round an event brings, as that round finds it. -/
def roundIn (d : ExchangeDesk) : ExchangeEvent → Option Exchange
  | .start order => some { order }
  | .round => d.current
  | .block height =>
    let later := Word64.addSaturating height d.blocksBetween
    d.current.bind fun x =>
      if x.running ∧ (x.pending.isEmpty ∨ x.nextHeight.getD later ≤ height) then
        some { x with nextHeight := some later }
      else none
  | .confirmed _ | .stop => none

/-- What a start tells the caller before. -/
def opening (d : ExchangeDesk) : ExchangeEvent → List ExchangeEffect
  | .start _ => replaced d.current
  | _ => []

/-- What an event leads to. -/
inductive StepResult (s : ExchangeServices) (d : ExchangeDesk) :
    ExchangeEvent → ExchangeDesk × List ExchangeEffect → Prop
  | round {e : ExchangeEvent} {x : Exchange} (met : d.roundIn e = some x) :
      StepResult s d e ({ d with current := some (x.runRound s).1 }, d.opening e ++ (x.runRound s).2)
  | empty {e : ExchangeEvent} (fresh : d.current = none) (later : ¬ e.starts) (none : d.roundIn e = none) :
      StepResult s d e (d, [])
  | waits {height : UInt64} {next : Option UInt64} {x : Exchange} (kept : d.current = some x)
      (none : d.roundIn (.block height) = none) :
      StepResult s d (.block height) ({ d with current := some { x with nextHeight := next } }, [])
  | confirmed {t : Hash256} {x : Exchange} (kept : d.current = some x) :
      StepResult s d (.confirmed t) ({ d with current := some (x.confirmed t).1 }, (x.confirmed t).2)
  | stopped {x : Exchange} (kept : d.current = some x) :
      StepResult s d .stop ({ d with current := some x.stop.1 }, x.stop.2)

theorem step_of_empty {s : ExchangeServices} {d : ExchangeDesk} {e : ExchangeEvent} (fresh : d.current = none)
    (later : ¬ e.starts) : StepResult s d e (d, []) ∧ d.step s e = (d, []) := by
  cases e with
  | start order => exact absurd rfl later
  | round => exact ⟨.empty fresh later fresh, by rw [step, modify, fresh]⟩
  | block height => exact ⟨.empty fresh later (by rw [roundIn, fresh]; rfl), by rw [step, modify, fresh]⟩
  | confirmed t => exact ⟨.empty fresh later rfl, by rw [step, modify, fresh]⟩
  | stop => exact ⟨.empty fresh later rfl, by rw [step, modify, fresh]⟩

theorem block_result {d : ExchangeDesk} {x : Exchange} (kept : d.current = some x) (s : ExchangeServices)
    (height : UInt64) :
    StepResult s d (.block height)
      ({ d with current := some (x.block s d.blocksBetween height).1 }, (x.block s d.blocksBetween height).2) := by
  have hround : d.roundIn (.block height) =
      if x.running ∧ (x.pending.isEmpty ∨ x.nextHeight.getD (Word64.addSaturating height d.blocksBetween) ≤ height) then
        some { x with nextHeight := some (Word64.addSaturating height d.blocksBetween) }
      else none := by
    rw [roundIn, kept]
    rfl
  by_cases hrunning : x.running
  · by_cases hdue : x.pending.isEmpty ∨ x.nextHeight.getD (Word64.addSaturating height d.blocksBetween) ≤ height
    · rw [if_pos ⟨hrunning, hdue⟩] at hround
      rw [Exchange.block_of_due s hrunning hdue]
      exact .round hround
    · rw [if_neg (fun h => hdue h.2)] at hround
      rw [Exchange.block_of_early s hrunning hdue]
      exact .waits kept hround
  · rw [if_neg (fun h => hrunning h.1)] at hround
    rw [Exchange.block_of_ended s hrunning]
    exact .waits kept hround

/-- **An event brings a round, or is waited out, or confirms a transaction, or ends the exchange.** -/
theorem step_result (s : ExchangeServices) (d : ExchangeDesk) (e : ExchangeEvent) :
    StepResult s d e (d.step s e) := by
  by_cases hstarts : e.starts
  · cases e with
    | start order => exact .round rfl
    | _ => cases hstarts
  · cases hcurrent : d.current with
    | none =>
      obtain ⟨hempty, hstep⟩ := step_of_empty (s := s) hcurrent hstarts
      rwa [hstep]
    | some x =>
      cases e with
      | start order => exact absurd rfl hstarts
      | round =>
        rw [step, modify, hcurrent]
        exact .round hcurrent
      | block height =>
        rw [step, modify, hcurrent]
        exact block_result hcurrent s height
      | confirmed t =>
        rw [step, modify, hcurrent]
        exact .confirmed hcurrent
      | stop =>
        rw [step, modify, hcurrent]
        exact .stopped hcurrent

theorem roundIn_eq_some {d : ExchangeDesk} {e : ExchangeEvent} {x : Exchange} (h : d.roundIn e = some x) :
    (∃ order, e = .start order ∧ x = { order }) ∨
      (¬ e.starts ∧ ∃ y height, d.current = some y ∧ x = { y with nextHeight := height }) := by
  cases e with
  | start order => exact .inl ⟨order, rfl, (Option.some.inj h).symm⟩
  | round => exact .inr ⟨nofun, x, x.nextHeight, h, rfl⟩
  | block height =>
    obtain ⟨y, hcurrent, hdue⟩ := Option.bind_eq_some_iff.1 h
    split at hdue
    · exact .inr ⟨nofun, y, _, hcurrent, (Option.some.inj hdue).symm⟩
    · cases hdue
  | confirmed t => cases h
  | stop => cases h

theorem step_of_round {s : ExchangeServices} {d : ExchangeDesk} {e : ExchangeEvent} {x : Exchange}
    (met : d.roundIn e = some x) :
    d.step s e = ({ d with current := some (x.runRound s).1 }, d.opening e ++ (x.runRound s).2) := by
  have h := step_result s d e
  generalize d.step s e = result at h ⊢
  cases h with
  | round met' =>
    obtain rfl := Option.some.inj (met.symm.trans met')
    rfl
  | empty _ _ none => cases met.symm.trans none
  | waits _ none => cases met.symm.trans none
  | confirmed => cases met
  | stopped => cases met

/-! ## What a turn leaves behind -/

section Turn

variable {s : ExchangeServices} {d d' : ExchangeDesk} {e : ExchangeEvent} {effects : List ExchangeEffect}
  {x : Exchange}

theorem opening_result (d : ExchangeDesk) (e : ExchangeEvent) :
    d.opening e = [] ∨ ∃ x, d.current = some x ∧ x.running ∧ d.opening e = (x.fail .replaced).2 := by
  cases e with
  | start order =>
    rw [opening]
    cases d.current with
    | none => exact .inl rfl
    | some x =>
      rw [replaced]
      by_cases hrunning : x.running
      · exact .inr ⟨x, rfl, hrunning, if_pos hrunning⟩
      · exact .inl (if_neg hrunning)
  | _ => exact .inl rfl

theorem opening_quiet (d : ExchangeDesk) (e : ExchangeEvent) :
    ∀ effect ∈ d.opening e, effect.committed? = none ∧ effect.completes = false := by
  rcases d.opening_result e with hnone | ⟨x, -, -, hend⟩
  · rw [hnone]
    exact List.forall_mem_nil _
  · rw [hend]
    exact Exchange.fail_quiet x .replaced

theorem roundIn_order (h : d.roundIn e = some x) : some x.order = e.order?.or (d.current.map Exchange.order) := by
  rcases roundIn_eq_some h with ⟨order, rfl, rfl⟩ | ⟨hlater, y, height, hcurrent, rfl⟩
  · rfl
  · rw [ExchangeEvent.order?_of_not_starts hlater, hcurrent]
    rfl

theorem roundIn_firstRate (h : d.roundIn e = some x) :
    x.firstRate = if e.starts then none else d.current.bind Exchange.firstRate := by
  rcases roundIn_eq_some h with ⟨order, rfl, rfl⟩ | ⟨hlater, y, height, hcurrent, rfl⟩
  · rfl
  · rw [if_neg hlater, hcurrent]
    rfl

namespace StepResult

theorem order (h : StepResult s d e (d', effects)) :
    d'.current.map Exchange.order = e.order?.or (d.current.map Exchange.order) := by
  cases h with
  | round met =>
    rw [← roundIn_order met, Option.map_some, Exchange.runRound_order]
  | empty _ later => rw [ExchangeEvent.order?_of_not_starts later, Option.none_or]
  | waits kept => rw [kept]; rfl
  | confirmed kept => rw [kept, Option.map_some, Exchange.confirmed_order]; rfl
  | stopped kept => rw [kept]; rfl

theorem firstRate (h : StepResult s d e (d', effects)) :
    d'.current.bind Exchange.firstRate = (if e.starts then none else d.current.bind Exchange.firstRate).or
      (((d.roundIn e).bind (Exchange.quotedPlan? s)).map Plan.rate) := by
  cases h with
  | round met =>
    rw [← roundIn_firstRate met, met, Option.bind_some, Option.bind_some, Exchange.runRound_firstRate]
  | empty _ later none => rw [none, if_neg later, Option.bind_none, Option.map_none, Option.or_none]
  | waits kept none => rw [none, kept, Option.bind_none, Option.map_none, Option.or_none]; rfl
  | confirmed kept => rw [kept, Option.bind_some, Exchange.confirmed_firstRate]; exact (Option.or_none).symm
  | stopped kept => rw [kept]; exact (Option.or_none).symm

theorem commits (h : StepResult s d e (d', effects)) :
    effects.filterMap ExchangeEffect.committed? =
      ((d.roundIn e).map fun x => (x.runRound s).2.filterMap ExchangeEffect.committed?).getD [] := by
  cases h with
  | round met =>
    rw [met, List.filterMap_append, Exchange.filterMap_committed_of_quiet (opening_quiet d e)]
    rfl
  | empty _ _ none => rw [none]; rfl
  | waits _ none => rw [none]; rfl
  | confirmed => exact Exchange.confirmed_commits _ _
  | stopped => exact Exchange.filterMap_committed_of_quiet (Exchange.stop_quiet _)

theorem round_toNat (h : StepResult s d e (d', effects)) {x' : Exchange} (hcurrent : d'.current = some x')
    (hrunning : x'.running) {before : Nat}
    (hbefore : ∀ x, d.current = some x → x.running → x.round.toNat = before) :
    x'.round.toNat = (if e.starts then 0 else before) + (effects.filterMap ExchangeEffect.committed?).length := by
  have hcommits := h.commits
  cases h with
  | @round _ x met =>
    obtain rfl := Option.some.inj hcurrent
    obtain ⟨hmet, hround⟩ := Exchange.runRound_round s x hrunning
    rw [hcommits, met, hround]
    rcases roundIn_eq_some met with ⟨order, rfl, rfl⟩ | ⟨hlater, y, height, hy, rfl⟩
    · rfl
    · rw [if_neg hlater, ← hbefore y hy hmet]
      rfl
  | empty fresh =>
    rw [fresh] at hcurrent
    cases hcurrent
  | @waits _ _ x kept =>
    obtain rfl := Option.some.inj hcurrent
    exact hbefore x kept hrunning
  | @confirmed t x kept =>
    obtain rfl := Option.some.inj hcurrent
    rw [Exchange.confirmed_commits]
    cases hlookup : x.pending.lookup t with
    | none =>
      rw [Exchange.confirmed_of_unknown hlookup] at hrunning ⊢
      exact hbefore x kept hrunning
    | some r => exact absurd hrunning (Exchange.confirmed_ends hlookup)
  | stopped =>
    obtain rfl := Option.some.inj hcurrent
    cases hrunning

end StepResult

end Turn

/-! ## Histories -/

/-- The desk after some turns. -/
def after (settings : ExchangeSettings) : List DeskTurn → ExchangeDesk
  | [] => new settings
  | turn :: past => ((after settings past).step turn.services turn.event).1

/-- What a turn does after some others. -/
def effects (settings : ExchangeSettings) (past : List DeskTurn) (turn : DeskTurn) : List ExchangeEffect :=
  ((after settings past).step turn.services turn.event).2

/-- The order of the last start. -/
def lastOrder : List DeskTurn → Option ExchangeOrder
  | [] => none
  | turn :: past => turn.event.order?.or (lastOrder past)

/-- The plan that is quoted in a turn. -/
def quoteIn (settings : ExchangeSettings) (past : List DeskTurn) (turn : DeskTurn) : Option Plan :=
  ((after settings past).roundIn turn.event).bind (Exchange.quotedPlan? turn.services)

/-- The first plan that was quoted since the last start. -/
def firstQuote (settings : ExchangeSettings) : List DeskTurn → Option Plan
  | [] => none
  | turn :: past => (if turn.event.starts then none else firstQuote settings past).or (quoteIn settings past turn)

/-- How many transactions the wallet was asked to relay since the last start. -/
def commits (settings : ExchangeSettings) : List DeskTurn → Nat
  | [] => 0
  | turn :: past => (if turn.event.starts then 0 else commits settings past) +
      ((effects settings past turn).filterMap ExchangeEffect.committed?).length

variable {settings : ExchangeSettings} {past : List DeskTurn} {turn : DeskTurn} {x : Exchange}

theorem turn_result (settings : ExchangeSettings) (past : List DeskTurn) (turn : DeskTurn) :
    StepResult turn.services (after settings past) turn.event
      (after settings (turn :: past), effects settings past turn) :=
  step_result turn.services (after settings past) turn.event

theorem after_order (settings : ExchangeSettings) (past : List DeskTurn) :
    (after settings past).current.map Exchange.order = lastOrder past := by
  induction past with
  | nil => rfl
  | cons turn past ih => rw [(turn_result settings past turn).order, ih, lastOrder]

theorem after_firstRate (settings : ExchangeSettings) (past : List DeskTurn) :
    (after settings past).current.bind Exchange.firstRate = (firstQuote settings past).map Plan.rate := by
  induction past with
  | nil => rfl
  | cons turn past ih =>
    rw [(turn_result settings past turn).firstRate, ih, firstQuote, Option.map_or, quoteIn]
    split
    · rfl
    · rfl

theorem firstQuote_of_round {plan : Plan} (met : (after settings past).roundIn turn.event = some x)
    (hquote : x.quotedPlan? turn.services = some plan) :
    ∃ first, firstQuote settings (turn :: past) = some first ∧ x.firstRate.getD plan.rate = first.rate := by
  have hrate := roundIn_firstRate met
  rw [after_firstRate] at hrate
  have hin : quoteIn settings past turn = some plan := by
    rw [quoteIn, met, Option.bind_some, hquote]
  rw [firstQuote, hin]
  by_cases hstarts : turn.event.starts
  · rw [if_pos hstarts] at hrate ⊢
    exact ⟨plan, rfl, by rw [hrate]; rfl⟩
  · rw [if_neg hstarts] at hrate ⊢
    cases hfirst : firstQuote settings past with
    | none => exact ⟨plan, rfl, by rw [hrate, hfirst]; rfl⟩
    | some first => exact ⟨first, rfl, by rw [hrate, hfirst]; rfl⟩

theorem after_round (settings : ExchangeSettings) (past : List DeskTurn) :
    ∀ x, (after settings past).current = some x → x.running → x.round.toNat = commits settings past := by
  induction past with
  | nil => exact nofun
  | cons turn past ih => exact fun x hx hrunning => (turn_result settings past turn).round_toNat hx hrunning ih

end ExchangeDesk

/-! ## A desk to try -/

/-- Two tokens, the first of them native. -/
def trialDirectory : TokenDirectory where
  nameOf? t := if t = ⟨1⟩ then some "COIN" else if t = ⟨2⟩ then some "ABC" else none
  idOf? name := if name = "COIN" then some ⟨1⟩ else if name = "ABC" then some ⟨2⟩ else none
  isNative t := t = ⟨1⟩

/-- Services that never refuse: the pool holds `reserve` of the native coin, and the wallet builds the
transaction of the number `id`. -/
def trialServices (reserve : UInt64) (id : UInt8) : ExchangeServices where
  directory := trialDirectory
  lpAddress := "pools"
  walletAddress _ := "wallet"
  pool _ := .ok ⟨⟨10⟩, ⟨2⟩, ⟨1⟩, 100, ⟨1000000, reserve⟩⟩
  build _ := .ok [⟨.ofBytes [id], 7⟩]
  commit _ := .ok ()

def trialSale : ExchangeOrder where
  caller := "caller"
  account := 0
  request := ⟨⟨2⟩, ⟨1⟩, 1000, 3, .sell⟩
  maxRounds := 5
  maxSlippage := 0.05
  fakeOuts := 15

end SwapStake
