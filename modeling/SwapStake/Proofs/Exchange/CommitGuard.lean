import SwapStake.Proofs.Exchange.History
/-!
# The commit guard

The wallet is asked to relay a transaction only in a round that is cleared, and the price that clears
it is compared with the first one that was quoted since the exchange was started. `commit_guard` says
so of every turn of every history; a round that is not cleared relays nothing and ends the exchange.
-/

namespace SwapStake.ExchangeDesk

/-- What stands behind a transaction that the wallet is asked to relay in a turn: the round of an
exchange, the order that it was started with, its first quote, and the plan that the transaction was
built for, before it is relayed. -/
structure Guarded (settings : ExchangeSettings) (past : List DeskTurn) (turn : DeskTurn) (t : Transaction)
    (ok : Bool) (x : Exchange) (base plan : Plan) : Prop where
  met : (after settings past).roundIn turn.event = some x
  order : lastOrder (turn :: past) = some x.order
  first : firstQuote settings (turn :: past) = some base
  relayed : ok = turn.services.relays t
  cleared : ∃ name pool earlier later, x.Cleared turn.services base.rate name pool plan t ∧
    effects settings past turn = earlier ++ .committed t ok :: later ∧
    .asked name ∈ earlier ∧ .built (x.buildOrder turn.services plan) ∈ earlier

variable {settings : ExchangeSettings} {past : List DeskTurn} {turn : DeskTurn} {x : Exchange}

theorem refused_of_history (met : (after settings past).roundIn turn.event = some x)
    (hrefused : ∀ first name pool plan t, firstQuote settings (turn :: past) = some first →
      ¬ x.Cleared turn.services first.rate name pool plan t) (name : String) (pool : Pool) (plan : Plan)
    (t : Transaction) : ¬ x.Cleared turn.services (x.firstRate.getD plan.rate) name pool plan t := by
  intro hcleared
  obtain ⟨first, hfirst, hrate⟩ := firstQuote_of_round met hcleared.quote
  rw [hrate] at hcleared
  exact hrefused first name pool plan t hfirst hcleared

theorem effects_of_cleared (met : (after settings past).roundIn turn.event = some x) {name : String}
    {pool : Pool} {plan : Plan} {t : Transaction}
    (hcleared : x.Cleared turn.services (x.firstRate.getD plan.rate) name pool plan t) :
    ∃ earlier later, effects settings past turn = earlier ++ .committed t (turn.services.relays t) :: later ∧
      .asked name ∈ earlier ∧ .built (x.buildOrder turn.services plan) ∈ earlier := by
  obtain ⟨told, later, hround⟩ := Exchange.runRound_effects_of_cleared hcleared
  refine ⟨(after settings past).opening turn.event ++ told, later, ?_, ?_, ?_⟩
  · rw [effects, step_of_round met, hround.1, List.append_assoc]
  · exact List.mem_append_right _ hround.2.1
  · exact List.mem_append_right _ hround.2.2

theorem cleared_of_commit {t : Transaction} {ok : Bool} (h : .committed t ok ∈ effects settings past turn) :
    ok = turn.services.relays t ∧ ∃ x name pool plan, (after settings past).roundIn turn.event = some x ∧
      x.Cleared turn.services (x.firstRate.getD plan.rate) name pool plan t := by
  have hcommit := mem_filterMap_committed.2 h
  rw [(turn_result settings past turn).commits] at hcommit
  cases met : (after settings past).roundIn turn.event with
  | none =>
    rw [met] at hcommit
    cases hcommit
  | some x =>
    rw [met, Option.map_some, Option.getD_some] at hcommit
    rcases Exchange.cleared_or_refused turn.services x with ⟨name, pool, plan, t', hcleared⟩ | hrefused
    · rw [Exchange.runRound_commits_of_cleared hcleared, List.mem_singleton] at hcommit
      obtain ⟨rfl, rfl⟩ : t = t' ∧ ok = turn.services.relays t' := by simpa using hcommit
      exact ⟨rfl, x, name, pool, plan, rfl, hcleared⟩
    · rw [(Exchange.runRound_of_refused hrefused).1] at hcommit
      cases hcommit

theorem guarded_of_commit {t : Transaction} {ok : Bool} (h : .committed t ok ∈ effects settings past turn) :
    ∃ x base plan, Guarded settings past turn t ok x base plan := by
  obtain ⟨rfl, x, name, pool, plan, met, hcleared⟩ := cleared_of_commit h
  obtain ⟨base, hbase, hrate⟩ := firstQuote_of_round met hcleared.quote
  obtain ⟨earlier, later, heffects⟩ := effects_of_cleared met hcleared
  have horder : lastOrder (turn :: past) = some x.order := by
    rw [roundIn_order met, after_order, lastOrder]
  rw [hrate] at hcleared
  exact ⟨x, base, plan, met, horder, hbase, rfl, name, pool, earlier, later, hcleared, heffects⟩

theorem commits_le_one : ((effects settings past turn).filterMap ExchangeEffect.committed?).length ≤ 1 := by
  rw [(turn_result settings past turn).commits]
  cases (after settings past).roundIn turn.event with
  | none => exact Nat.zero_le 1
  | some x =>
    rcases Exchange.cleared_or_refused turn.services x with ⟨name, pool, plan, t, hcleared⟩ | hrefused
    · rw [Option.map_some, Option.getD_some, Exchange.runRound_commits_of_cleared hcleared]
      exact Nat.le_refl 1
    · rw [Option.map_some, Option.getD_some, (Exchange.runRound_of_refused hrefused).1]
      exact Nat.zero_le 1

theorem ended_of_refused (met : (after settings past).roundIn turn.event = some x)
    (hrefused : ∀ name pool plan t, ¬ x.Cleared turn.services (x.firstRate.getD plan.rate) name pool plan t) :
    (effects settings past turn).filterMap ExchangeEffect.committed? = [] ∧
      (after settings (turn :: past)).inProgress = false := by
  obtain ⟨hcommits, hended, -⟩ := Exchange.runRound_of_refused hrefused
  constructor
  · rw [(turn_result settings past turn).commits, met]
    exact hcommits
  · rw [after, step_of_round met]
    exact Bool.eq_false_iff.2 hended

/-- **Nothing is relayed without the guard.** Whatever a turn asks the wallet to relay is guarded, and it
is at most one transaction. A round that is not cleared asks for nothing and leaves no exchange
running. The rate that rounds are compared with is that of the first quote since the last start, and
only a start gives it up. -/
theorem commit_guard (settings : ExchangeSettings) (past : List DeskTurn) (turn : DeskTurn) :
    (∀ t ok, .committed t ok ∈ effects settings past turn →
      ∃ x base plan, Guarded settings past turn t ok x base plan) ∧
    ((effects settings past turn).filterMap ExchangeEffect.committed?).length ≤ 1 ∧
    (∀ x, (after settings past).roundIn turn.event = some x →
      (∀ base name pool plan t, firstQuote settings (turn :: past) = some base →
        ¬ x.Cleared turn.services base.rate name pool plan t) →
      (effects settings past turn).filterMap ExchangeEffect.committed? = [] ∧
        (after settings (turn :: past)).inProgress = false) ∧
    ((after settings past).current.bind Exchange.firstRate = (firstQuote settings past).map Plan.rate) ∧
    (¬ turn.event.starts → ∀ rate, (after settings past).current.bind Exchange.firstRate = some rate →
      (after settings (turn :: past)).current.bind Exchange.firstRate = some rate) := by
  refine ⟨fun t ok => guarded_of_commit, commits_le_one, fun x met hrefused => ?_,
    after_firstRate settings past, fun hlater rate hrate => ?_⟩
  · exact ended_of_refused met (refused_of_history met hrefused)
  · rw [(turn_result settings past turn).firstRate, if_neg hlater, hrate]
    rfl

theorem commit_guard_second_round : ∃ x base plan,
    Guarded {} [⟨trialServices 2000000 1, .start trialSale⟩] ⟨trialServices 1990000 2, .round⟩
      ⟨.ofBytes [2], 7⟩ true x base plan := by
  have hcommit : (⟨.ofBytes [2], 7⟩, true) ∈
      (effects {} [⟨trialServices 2000000 1, .start trialSale⟩] ⟨trialServices 1990000 2, .round⟩).filterMap
        ExchangeEffect.committed? := by decide +kernel
  exact (commit_guard {} _ _).1 _ _ (mem_filterMap_committed.1 hcommit)

end SwapStake.ExchangeDesk
