import SwapStake.Proofs.Exchange.CommitGuard
import SwapStake.Proofs.Exchange.Completion
/-!
# The round budget

An order allows so many rounds that submit a transaction, and its exchange has at most one more, in
which it finds that none is left. While an exchange runs, each round that it has entered has built one
transaction and submitted it, so the number of its round counts all three (`Spent.even`); a round that
does not is its last. A confirmation may set the number back to that of an earlier round, but then the
exchange is over. `round_budget` puts the bounds together.
-/

namespace SwapStake

/-- What the wallet is asked to build. -/
def ExchangeEffect.built? : ExchangeEffect → Option BuildOrder
  | .built order => some order
  | _ => none

namespace Exchange

/-! ## What a round builds -/

section Builds

variable {s : ExchangeServices} {x : Exchange}

theorem finish_builds (x : Exchange) (notice : Notice) (transaction : Option Hash256) :
    (x.finish notice transaction).2.filterMap ExchangeEffect.built? = [] := by
  unfold finish
  cases x.running <;> rfl

theorem confirmed_builds (x : Exchange) (t : Hash256) :
    (x.confirmed t).2.filterMap ExchangeEffect.built? = [] := by
  unfold confirmed
  cases x.pending.lookup t with
  | none => rfl
  | some r =>
    dsimp only
    split
    · exact finish_builds _ _ _
    · exact finish_builds _ _ _

theorem submit_builds (s : ExchangeServices) (x : Exchange) (plan : Plan) (t : Transaction) :
    (x.submit s plan t).2.filterMap ExchangeEffect.built? = [] := by
  unfold submit
  cases s.commit t <;> rfl

theorem buildAndSubmit_builds (s : ExchangeServices) (x : Exchange) (plan : Plan) :
    (x.buildAndSubmit s plan).2.filterMap ExchangeEffect.built? = [x.buildOrder s plan] := by
  by_cases hbuilt : ∃ t, s.build (x.buildOrder s plan) = .ok [t]
  · obtain ⟨t, hbuilt⟩ := hbuilt
    rw [buildAndSubmit_of_built hbuilt, precededBy, List.filterMap_append, submit_builds]
    rfl
  · obtain ⟨failure, hfailed⟩ := buildAndSubmit_of_unbuilt (not_exists.1 hbuilt)
    rw [hfailed, precededBy, List.filterMap_append, fail, finish_builds]
    rfl

theorem accept_builds_le (s : ExchangeServices) (x : Exchange) (plan : Plan) :
    ((x.accept s plan).2.filterMap ExchangeEffect.built?).length ≤ 1 := by
  unfold accept
  split
  · rw [precededBy, List.filterMap_append, fail, finish_builds]
    exact Nat.zero_le 1
  · rw [buildAndSubmit_builds]
    exact Nat.le_refl 1

theorem runRound_builds_le (s : ExchangeServices) (x : Exchange) :
    ((x.runRound s).2.filterMap ExchangeEffect.built?).length ≤
      if x.running ∧ x.round < x.order.maxRounds then 1 else 0 := by
  unfold runRound
  by_cases hrunning : x.running
  · rw [if_neg (not_not_intro hrunning)]
    by_cases hspent : x.order.maxRounds ≤ x.round
    · rw [if_pos hspent, fail, finish_builds]
      exact Nat.zero_le _
    · rw [if_neg hspent, if_pos ⟨hrunning, UInt32.not_le.1 hspent⟩]
      cases s.poolName x.order.request with
      | error e =>
        dsimp only
        rw [fail, finish_builds]
        exact Nat.zero_le 1
      | ok name =>
        dsimp only
        cases s.planIn name x.order.request with
        | error e =>
          dsimp only
          rw [precededBy, List.filterMap_append, fail, finish_builds]
          exact Nat.zero_le 1
        | ok plan =>
          dsimp only
          rw [precededBy, List.filterMap_append]
          exact accept_builds_le s (x.quoted plan) plan
  · rw [if_pos hrunning]
    exact Nat.zero_le _

theorem runRound_of_ended (s : ExchangeServices) (h : ¬ x.running) : x.runRound s = (x, []) := by
  rw [runRound, if_pos h]

theorem runRound_builds_of_cleared {name : String} {pool : Pool} {plan : Plan} {t : Transaction}
    (hcleared : x.Cleared s (x.firstRate.getD plan.rate) name pool plan t) :
    (x.runRound s).2.filterMap ExchangeEffect.built? = [x.buildOrder s plan] := by
  rw [runRound_of_cleared hcleared, List.filterMap_append, submit_builds]
  rfl

theorem fail_notice {failure : ExchangeFailure} {rep : ExchangeReport}
    (h : .reported rep ∈ (x.fail failure).2) : rep.notice = .failed failure := by
  rcases List.mem_append.1 h with h | h
  · split at h
    · cases List.mem_singleton.1 h
    · cases h
  · obtain rfl := ExchangeEffect.reported.inj (List.mem_singleton.1 h)
    rfl

theorem submit_notCommitted {plan : Plan} {t : Transaction} {rep : ExchangeReport} {error : ServiceError}
    (h : .reported rep ∈ (x.submit s plan t).2) (hnotice : rep.notice = .notCommitted error) :
    rep.round = x.round + 1 := by
  unfold submit at h
  cases hcommit : s.commit t with
  | ok _ =>
    rw [hcommit] at h
    obtain rfl : rep = _ := by simpa [report] using h
    cases hnotice
  | error e =>
    rw [hcommit] at h
    rcases (by simpa [report] using h : rep = _ ∨ rep = _) with rfl | rfl
    · cases hnotice
    · rfl

end Builds

/-! ## What a round costs -/

/-- The numbers that an exchange shows or may come back to lie within its budget. -/
structure WithinBudget (x : Exchange) : Prop where
  round : x.round ≤ x.order.maxRounds
  pending : ∀ kept ∈ x.pending, kept.2.number ≤ x.order.maxRounds

/-- What a round of an exchange that runs costs: it builds and submits one transaction, and the
exchange goes on with the next number; or it submits none, and the exchange is over. -/
inductive RoundCost (s : ExchangeServices) (x : Exchange) : Prop
  | spent (left : x.round < x.order.maxRounds) (running : (x.runRound s).1.running)
      (round : (x.runRound s).1.round.toNat = x.round.toNat + 1)
      (builds : ((x.runRound s).2.filterMap ExchangeEffect.built?).length = 1)
      (commits : ((x.runRound s).2.filterMap ExchangeEffect.committed?).length = 1)
  | last (ended : ¬ (x.runRound s).1.running) (round : (x.runRound s).1.round = x.round)
      (builds : ((x.runRound s).2.filterMap ExchangeEffect.built?).length ≤
        if x.running ∧ x.round < x.order.maxRounds then 1 else 0)
      (commits : (x.runRound s).2.filterMap ExchangeEffect.committed? = [])

section Cost

variable {s : ExchangeServices} {x : Exchange}

theorem runRound_round_of_refused
    (hrefused : ∀ name pool plan t, ¬ x.Cleared s (x.firstRate.getD plan.rate) name pool plan t) :
    (x.runRound s).1.round = x.round := by
  have h := runRound_result s x
  generalize x.runRound s = result at h ⊢
  cases h with
  | idle => rfl
  | failed _ resembles => exact resembles.round
  | submitted cleared => exact absurd cleared (hrefused _ _ _ _)

theorem runRound_cost (s : ExchangeServices) (x : Exchange) : x.RoundCost s := by
  rcases cleared_or_refused s x with ⟨name, pool, plan, t, hcleared⟩ | hrefused
  · have hrunning : (x.runRound s).1.running := by
      rw [runRound_of_cleared hcleared, submit_running]
      exact hcleared.running
    have hcommits := runRound_commits_of_cleared hcleared
    refine .spent hcleared.budget hrunning ?_ ?_ ?_
    · rw [(runRound_round s x hrunning).2, hcommits]
      rfl
    · rw [runRound_builds_of_cleared hcleared]
      rfl
    · rw [hcommits]
      rfl
  · obtain ⟨hcommits, hended, -⟩ := runRound_of_refused hrefused
    exact .last hended (runRound_round_of_refused hrefused) (runRound_builds_le s x) hcommits

theorem runRound_withinBudget (s : ExchangeServices) (h : x.WithinBudget) : (x.runRound s).1.WithinBudget := by
  rcases cleared_or_refused s x with ⟨name, pool, plan, t, hcleared⟩ | hrefused
  · have hbudget := UInt32.lt_iff_toNat_lt.1 hcleared.budget
    have hmax := x.order.maxRounds.toNat_lt
    have hnext : x.round + 1 ≤ x.order.maxRounds := by
      rw [UInt32.le_iff_toNat_le, UInt32.toNat_add, UInt32.toNat_one]
      omega
    rw [runRound_of_cleared hcleared]
    refine ⟨?_, fun kept hkept => ?_⟩
    · rw [submit_round, submit_order]
      exact hnext
    · rw [submit_order]
      rcases (mem_submit_pending s (x.quoted plan) plan t).1 hkept with ⟨-, -, hnumber⟩ | ⟨-, hold⟩
      · rw [hnumber]
        exact hnext
      · exact h.pending kept hold
  · obtain ⟨-, -, hpending⟩ := runRound_of_refused hrefused
    refine ⟨?_, ?_⟩
    · rw [runRound_round_of_refused hrefused, runRound_order]
      exact h.round
    · rw [hpending, runRound_order]
      exact h.pending

theorem confirmed_withinBudget (t : Hash256) (h : x.WithinBudget) : (x.confirmed t).1.WithinBudget := by
  cases hlookup : x.pending.lookup t with
  | none => rwa [confirmed_of_unknown hlookup]
  | some r =>
    have hnumber : r.number ≤ x.order.maxRounds := by
      obtain ⟨before, later, hpending, -⟩ := List.lookup_eq_some_iff.1 hlookup
      exact h.pending (t, r) (by rw [hpending]; simp)
    by_cases hrunning : x.running
    · rw [confirmed_of_running hlookup hrunning]
      exact ⟨hnumber, nofun⟩
    · rw [confirmed_of_ended hlookup hrunning]
      exact ⟨hnumber, fun kept hkept => h.pending kept (List.mem_filter.1 hkept).1⟩

end Cost

end Exchange

namespace ExchangeDesk

/-! ## One turn -/

section Turn

variable {s : ExchangeServices} {d d' : ExchangeDesk} {e : ExchangeEvent} {effects : List ExchangeEffect}

theorem opening_builds (d : ExchangeDesk) (e : ExchangeEvent) :
    (d.opening e).filterMap ExchangeEffect.built? = [] := by
  rcases d.opening_result e with hnone | ⟨x, -, -, hend⟩
  · rw [hnone]
    rfl
  · rw [hend]
    exact Exchange.finish_builds _ _ _

theorem opening_notCommitted {rep : ExchangeReport} (h : .reported rep ∈ d.opening e) (error : ServiceError) :
    rep.notice ≠ .notCommitted error := by
  rcases d.opening_result e with hnone | ⟨x, -, -, hend⟩
  · rw [hnone] at h
    cases h
  · rw [hend] at h
    simp [Exchange.fail_notice h]

theorem StepResult.builds (h : StepResult s d e (d', effects)) :
    effects.filterMap ExchangeEffect.built? =
      ((d.roundIn e).map fun x => (x.runRound s).2.filterMap ExchangeEffect.built?).getD [] := by
  cases h with
  | round met =>
    rw [met, List.filterMap_append, opening_builds]
    rfl
  | empty _ _ none => rw [none]; rfl
  | waits _ none => rw [none]; rfl
  | confirmed => exact Exchange.confirmed_builds _ _
  | stopped => exact Exchange.finish_builds _ _ _

theorem roundIn_withinBudget {x : Exchange} (met : d.roundIn e = some x)
    (hd : ∀ x, d.current = some x → x.WithinBudget) : x.WithinBudget := by
  rcases roundIn_eq_some met with ⟨order, rfl, rfl⟩ | ⟨-, y, height, hcurrent, rfl⟩
  · exact ⟨UInt32.zero_le, nofun⟩
  · exact ⟨(hd y hcurrent).round, (hd y hcurrent).pending⟩

theorem StepResult.withinBudget (h : StepResult s d e (d', effects))
    (hd : ∀ x, d.current = some x → x.WithinBudget) : ∀ x, d'.current = some x → x.WithinBudget := by
  intro x' hx'
  cases h with
  | @round _ x met =>
    obtain rfl := Option.some.inj hx'
    exact Exchange.runRound_withinBudget s (roundIn_withinBudget met hd)
  | empty => exact hd x' hx'
  | @waits _ _ x kept =>
    obtain rfl := Option.some.inj hx'
    exact ⟨(hd x kept).round, (hd x kept).pending⟩
  | @confirmed t x kept =>
    obtain rfl := Option.some.inj hx'
    exact Exchange.confirmed_withinBudget t (hd x kept)
  | @stopped x kept =>
    obtain rfl := Option.some.inj hx'
    exact ⟨(hd x kept).round, nofun⟩

end Turn

/-! ## Histories -/

/-- How much some turns come to since the last start, that turn included. -/
def sinceStart (amount : List DeskTurn → DeskTurn → Nat) : List DeskTurn → Nat
  | [] => 0
  | turn :: past => (if turn.event.starts then 0 else sinceStart amount past) + amount past turn

/-- How many times the wallet was asked to build since the last start. -/
def builds (settings : ExchangeSettings) : List DeskTurn → Nat :=
  sinceStart fun past turn => ((effects settings past turn).filterMap ExchangeEffect.built?).length

/-- The exchange that runs and has a round in a turn. -/
def entered (settings : ExchangeSettings) (past : List DeskTurn) (turn : DeskTurn) : Option Exchange :=
  ((after settings past).roundIn turn.event).filter Exchange.running

/-- How many rounds the exchange has entered, while it was running, since the last start. -/
def rounds (settings : ExchangeSettings) : List DeskTurn → Nat :=
  sinceStart fun past turn => (entered settings past turn).toList.length

variable {settings : ExchangeSettings} {past : List DeskTurn} {turn : DeskTurn} {x : Exchange}

/-- What has been spent of a budget. -/
structure Spent (settings : ExchangeSettings) (past : List DeskTurn) : Prop where
  even : (after settings past).inProgress →
    builds settings past = commits settings past ∧ rounds settings past = commits settings past
  commits_le : ∀ order, lastOrder past = some order → commits settings past ≤ order.maxRounds.toNat
  builds_le : ∀ order, lastOrder past = some order → builds settings past ≤ order.maxRounds.toNat
  rounds_le : ∀ order, lastOrder past = some order → rounds settings past ≤ order.maxRounds.toNat + 1

theorem after_withinBudget (settings : ExchangeSettings) (past : List DeskTurn) :
    ∀ x, (after settings past).current = some x → x.WithinBudget := by
  induction past with
  | nil => exact nofun
  | cons turn past ih => exact (turn_result settings past turn).withinBudget ih

theorem entered_eq_some (h : entered settings past turn = some x) :
    (after settings past).roundIn turn.event = some x ∧ x.running := by
  obtain ⟨hmet, hrunning⟩ := Option.filter_eq_some_iff.1 h
  exact ⟨hmet, hrunning⟩

theorem unspent_of_entered_none (h : entered settings past turn = none) :
    ¬ turn.event.starts ∧ (effects settings past turn).filterMap ExchangeEffect.built? = [] ∧
      (effects settings past turn).filterMap ExchangeEffect.committed? = [] := by
  have hresult := turn_result settings past turn
  have hlater : ¬ turn.event.starts := by
    intro hstarts
    cases hevent : turn.event with
    | start order =>
      rw [entered, hevent] at h
      cases h
    | _ =>
      rw [hevent] at hstarts
      cases hstarts
  refine ⟨hlater, ?_⟩
  rw [hresult.builds, hresult.commits]
  cases hmet : (after settings past).roundIn turn.event with
  | none => exact ⟨rfl, rfl⟩
  | some x =>
    have hended : ¬ x.running := by
      intro hrunning
      rw [entered, hmet, Option.filter_some, if_pos hrunning] at h
      cases h
    rw [Option.map_some, Option.map_some, Exchange.runRound_of_ended turn.services hended]
    exact ⟨rfl, rfl⟩

theorem before_of_entered (h : Spent settings past) (hentered : entered settings past turn = some x) :
    (if turn.event.starts then 0 else builds settings past) = x.round.toNat ∧
      (if turn.event.starts then 0 else commits settings past) = x.round.toNat ∧
      (if turn.event.starts then 0 else rounds settings past) = x.round.toNat := by
  obtain ⟨hmet, hrunning⟩ := entered_eq_some hentered
  rcases roundIn_eq_some hmet with ⟨order, hevent, rfl⟩ | ⟨hlater, y, height, hcurrent, rfl⟩
  · rw [hevent]
    exact ⟨rfl, rfl, rfl⟩
  · rw [if_neg hlater, if_neg hlater, if_neg hlater]
    obtain ⟨hbuilds, hrounds⟩ := h.even (by rwa [inProgress_of_current hcurrent])
    have hcommits := after_round settings past y hcurrent hrunning
    exact ⟨hbuilds.trans hcommits.symm, hcommits.symm, hrounds.trans hcommits.symm⟩

theorem spent_of_entered_none (h : Spent settings past) (hnone : entered settings past turn = none) :
    Spent settings (turn :: past) := by
  obtain ⟨hlater, hbuilt, hcommitted⟩ := unspent_of_entered_none hnone
  have hbuilds : builds settings (turn :: past) = builds settings past := by
    rw [builds, sinceStart, if_neg hlater, hbuilt]
    rfl
  have hcommits : commits settings (turn :: past) = commits settings past := by
    rw [commits, if_neg hlater, hcommitted]
    rfl
  have hrounds : rounds settings (turn :: past) = rounds settings past := by
    rw [rounds, sinceStart, if_neg hlater, hnone]
    rfl
  have horder : lastOrder (turn :: past) = lastOrder past := by
    rw [lastOrder, ExchangeEvent.order?_of_not_starts hlater, Option.none_or]
  refine ⟨fun hbusy => ?_, ?_, ?_, ?_⟩
  · rw [hbuilds, hcommits, hrounds]
    exact h.even ((turn_result settings past turn).inProgress_of_later hlater hbusy)
  · rw [hcommits, horder]
    exact h.commits_le
  · rw [hbuilds, horder]
    exact h.builds_le
  · rw [hrounds, horder]
    exact h.rounds_le

theorem counts_of_entered (h : Spent settings past) (hentered : entered settings past turn = some x) :
    builds settings (turn :: past) =
        x.round.toNat + ((x.runRound turn.services).2.filterMap ExchangeEffect.built?).length ∧
      commits settings (turn :: past) =
        x.round.toNat + ((x.runRound turn.services).2.filterMap ExchangeEffect.committed?).length ∧
      rounds settings (turn :: past) = x.round.toNat + 1 := by
  obtain ⟨hmet, -⟩ := entered_eq_some hentered
  obtain ⟨hbuilds, hcommits, hrounds⟩ := before_of_entered h hentered
  have hresult := turn_result settings past turn
  refine ⟨?_, ?_, ?_⟩
  · rw [← hbuilds, builds, sinceStart, hresult.builds, hmet]
    rfl
  · rw [← hcommits, commits, hresult.commits, hmet]
    rfl
  · rw [← hrounds, rounds, sinceStart, hentered]
    rfl

theorem spent_of_entered (h : Spent settings past) (hentered : entered settings past turn = some x) :
    Spent settings (turn :: past) := by
  obtain ⟨hmet, hrunning⟩ := entered_eq_some hentered
  obtain ⟨hbuilds, hcommits, hrounds⟩ := counts_of_entered h hentered
  have hbusy : (after settings (turn :: past)).inProgress = (x.runRound turn.services).1.running := by
    rw [after, step_of_round hmet]
    rfl
  have horder : ∀ order, lastOrder (turn :: past) = some order → order = x.order := by
    intro order horder
    rw [lastOrder, ← after_order settings past, ← roundIn_order hmet] at horder
    exact (Option.some.inj horder).symm
  have hround := UInt32.le_iff_toNat_le.1 (roundIn_withinBudget hmet (after_withinBudget settings past)).round
  cases x.runRound_cost turn.services with
  | spent left _ _ built committed =>
    rw [UInt32.lt_iff_toNat_lt] at left
    rw [built] at hbuilds
    rw [committed] at hcommits
    refine ⟨fun _ => ⟨hbuilds.trans hcommits.symm, hrounds.trans hcommits.symm⟩, fun order ho => ?_,
      fun order ho => ?_, fun order ho => ?_⟩
    · rw [hcommits, horder order ho]
      exact left
    · rw [hbuilds, horder order ho]
      exact left
    · rw [hrounds, horder order ho]
      omega
  | last ended _ built committed =>
    rw [committed, List.length_nil, Nat.add_zero] at hcommits
    refine ⟨fun h => absurd (hbusy ▸ h) ended, fun order ho => ?_, fun order ho => ?_, fun order ho => ?_⟩
    · rw [hcommits, horder order ho]
      exact hround
    · rw [hbuilds, horder order ho]
      split at built
      · rename_i left
        have hlt := UInt32.lt_iff_toNat_lt.1 left.2
        omega
      · omega
    · rw [hrounds, horder order ho]
      omega

theorem after_spent (settings : ExchangeSettings) (past : List DeskTurn) : Spent settings past := by
  induction past with
  | nil => exact ⟨nofun, nofun, nofun, nofun⟩
  | cons turn past ih =>
    cases hentered : entered settings past turn with
    | none => exact spent_of_entered_none ih hentered
    | some x => exact spent_of_entered ih hentered

/-- A turn asks the wallet to relay the transaction of the round `number`, and no other: the exchange
had one round less before, and it has this number from then on, also in what it tells and keeps. -/
structure CommitsAs (settings : ExchangeSettings) (past : List DeskTurn) (turn : DeskTurn) (t : Transaction)
    (ok : Bool) (number : Nat) : Prop where
  once : (effects settings past turn).filterMap ExchangeEffect.committed? = [(t, ok)]
  before : ∃ x, (after settings past).roundIn turn.event = some x ∧ x.running ∧ x.round.toNat + 1 = number
  afterwards : ∃ y, (after settings (turn :: past)).current = some y ∧ y.running ∧ y.round.toNat = number
  kept : ok → ∃ r, (t.id, r) ∈ (after settings (turn :: past)).pending ∧ r.number.toNat = number
  told : ∀ rep error, .reported rep ∈ effects settings past turn → rep.notice = .notCommitted error →
    rep.round.toNat = number

theorem commitsAs_of_commit {t : Transaction} {ok : Bool} (h : .committed t ok ∈ effects settings past turn) :
    CommitsAs settings past turn t ok (commits settings (turn :: past)) := by
  obtain ⟨rfl, x, name, pool, plan, met, hcleared⟩ := cleared_of_commit h
  have hnumber : (x.round + 1).toNat = commits settings (turn :: past) := commits_of_cleared met hcleared
  have hcurrent : (after settings (turn :: past)).current =
      some ((x.quoted plan).submit turn.services plan t).1 := by
    rw [after, step_of_round met, Exchange.runRound_of_cleared hcleared]
  refine ⟨?_, ⟨x, met, hcleared.running, ?_⟩, ⟨_, hcurrent, ?_, ?_⟩, fun hok => ?_, fun rep error hrep hnotice => ?_⟩
  · rw [(turn_result settings past turn).commits, met]
    exact Exchange.runRound_commits_of_cleared hcleared
  · have hbudget := UInt32.lt_iff_toNat_lt.1 hcleared.budget
    have hmax := x.order.maxRounds.toNat_lt
    rw [← hnumber, UInt32.toNat_add, UInt32.toNat_one]
    omega
  · rw [Exchange.submit_running]
    exact hcleared.running
  · rw [Exchange.submit_round]
    exact hnumber
  · refine ⟨⟨(x.quoted plan).rate, (x.quoted plan).slippage, (x.quoted plan).round + 1⟩, ?_, hnumber⟩
    rw [pending_of_current hcurrent, Exchange.mem_submit_pending]
    exact .inl ⟨hok, rfl, rfl⟩
  · rw [effects, step_of_round met, Exchange.runRound_of_cleared hcleared] at hrep
    rcases List.mem_append.1 hrep with hrep | hrep
    · exact absurd hnotice (opening_notCommitted hrep error)
    · have hsubmit : .reported rep ∈ ((x.quoted plan).submit turn.services plan t).2 := by
        simpa using hrep
      rw [Exchange.submit_notCommitted hsubmit hnotice]
      exact hnumber

/-- **An exchange keeps to the budget of its order.** Since the last start the wallet was asked to build
and to relay at most as often as the order has rounds, and at most one round more was entered, after
which the exchange does not run. The number of a desk's round never exceeds the budget, and the
transaction that the wallet is asked to relay as the `k`-th is that of the round `k`; the number before
it is one less, so nothing wraps. -/
theorem round_budget (settings : ExchangeSettings) (past : List DeskTurn) :
    (∀ order, lastOrder past = some order →
      commits settings past ≤ order.maxRounds.toNat ∧ builds settings past ≤ order.maxRounds.toNat ∧
      rounds settings past ≤ order.maxRounds.toNat + 1 ∧
      (rounds settings past = order.maxRounds.toNat + 1 → ¬ (after settings past).inProgress)) ∧
    (∀ x, (after settings past).current = some x → x.round ≤ x.order.maxRounds) ∧
    (∀ turn t ok, .committed t ok ∈ effects settings past turn →
      CommitsAs settings past turn t ok (commits settings (turn :: past))) := by
  have hspent := after_spent settings past
  refine ⟨fun order horder => ⟨hspent.commits_le order horder, hspent.builds_le order horder,
    hspent.rounds_le order horder, fun hall hbusy => ?_⟩,
    fun x hx => (after_withinBudget settings past x hx).round, fun turn t ok => commitsAs_of_commit⟩
  have heven := (hspent.even hbusy).2
  have hcommits := hspent.commits_le order horder
  omega

/-- An order with one round: it is submitted, waited for, and then there is none left. -/
def spentBudget : List DeskTurn :=
  [⟨trialServices 1990000 2, .block 15⟩, ⟨trialServices 1990000 2, .block 10⟩,
    ⟨trialServices 2000000 1, .start { trialSale with maxRounds := 1 }⟩]

theorem round_budget_spent :
    lastOrder spentBudget = some { trialSale with maxRounds := 1 } ∧ rounds {} spentBudget = 2 ∧
      commits {} spentBudget ≤ 1 ∧ ¬ (after {} spentBudget).inProgress := by
  have hrounds : rounds {} spentBudget = 2 := by decide +kernel
  obtain ⟨hcommits, -, -, hover⟩ := (round_budget {} spentBudget).1 { trialSale with maxRounds := 1 } rfl
  exact ⟨rfl, hrounds, hcommits, hover hrounds⟩

end ExchangeDesk

end SwapStake
