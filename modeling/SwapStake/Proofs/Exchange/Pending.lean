import SwapStake.Proofs.Exchange.History
import SwapStake.Proofs.Answers
/-!
# Transactions that are outstanding

A transaction that was relayed is outstanding until it is confirmed, or given up by a stop, by the
completion of the exchange or by the start of another one. `Outstanding` tells this from the history
of a desk; `mem_pending_iff` says that the desk keeps exactly the outstanding transactions, each with
the rate, the slippage and the number of the last round that relayed it.
-/

namespace SwapStake.ExchangeDesk

/-- The relayed transactions that a desk keeps. -/
def pending (d : ExchangeDesk) : List (Hash256 × RelayedRound) :=
  (d.current.map Exchange.pending).getD []

/-- A turn relays a transaction, in a round with the rate of its quote, with the slippage from the
first quote since the last start, and with the number of transactions submitted since then. -/
structure RelayedIn (settings : ExchangeSettings) (past : List DeskTurn) (turn : DeskTurn) (id : Hash256)
    (r : RelayedRound) : Prop where
  relayed : ∃ t, t.id = id ∧ .committed t true ∈ effects settings past turn
  priced : ∃ order base plan, lastOrder (turn :: past) = some order ∧
    firstQuote settings (turn :: past) = some base ∧ quoteIn settings past turn = some plan ∧
    r.rate = plan.rate ∧ r.slippage = order.request.side.slippage base.rate plan.rate
  number : r.number.toNat = commits settings (turn :: past)

/-- A turn leaves an outstanding transaction alone. -/
structure Survives (settings : ExchangeSettings) (past : List DeskTurn) (turn : DeskTurn) (id : Hash256) :
    Prop where
  notReplaced : ¬ turn.event.starts
  notRepeated : ∀ r, ¬ RelayedIn settings past turn id r
  notConfirmed : turn.event ≠ .confirmed id
  notStopped : turn.event ≠ .stop
  notCompleted : ∀ e ∈ effects settings past turn, e.completes = false

/-- The last round that relayed a transaction which has been left alone since. -/
def Outstanding (settings : ExchangeSettings) : List DeskTurn → Hash256 → RelayedRound → Prop
  | [], _, _ => False
  | turn :: past, id, r => RelayedIn settings past turn id r ∨
      (Survives settings past turn id ∧ Outstanding settings past id r)

variable {settings : ExchangeSettings} {past : List DeskTurn} {turn : DeskTurn} {x : Exchange} {id : Hash256}
  {r : RelayedRound}

/-! ## What a round relays -/

theorem not_relayedIn (h : (effects settings past turn).filterMap ExchangeEffect.committed? = []) :
    ¬ RelayedIn settings past turn id r := by
  rintro ⟨⟨t, -, ht⟩, -, -⟩
  rw [← mem_filterMap_committed, h] at ht
  cases ht

theorem outstanding_cons_of_no_commits
    (h : (effects settings past turn).filterMap ExchangeEffect.committed? = []) :
    Outstanding settings (turn :: past) id r ↔
      (¬ turn.event.starts ∧ turn.event ≠ .confirmed id ∧ turn.event ≠ .stop ∧
        ∀ e ∈ effects settings past turn, e.completes = false) ∧ Outstanding settings past id r := by
  rw [Outstanding, or_iff_right (not_relayedIn h)]
  refine and_congr_left fun _ => ?_
  constructor
  · exact fun ⟨h1, _, h3, h4, h5⟩ => ⟨h1, h3, h4, h5⟩
  · exact fun ⟨h1, h3, h4, h5⟩ => ⟨h1, fun _ => not_relayedIn h, h3, h4, h5⟩

theorem commits_of_cleared (met : (after settings past).roundIn turn.event = some x) {name : String} {pool : Pool}
    {plan : Plan} {t : Transaction}
    (hcleared : x.Cleared turn.services (x.firstRate.getD plan.rate) name pool plan t) :
    ((x.quoted plan).round + 1).toNat = commits settings (turn :: past) := by
  rw [← (x.quoted plan).submit_round turn.services plan t]
  refine after_round settings (turn :: past) _ ?_ ?_
  · rw [after, step_of_round met, Exchange.runRound_of_cleared hcleared]
  · rw [Exchange.submit_running]
    exact hcleared.running

theorem relayedIn_iff_of_cleared (met : (after settings past).roundIn turn.event = some x) {name : String}
    {pool : Pool} {plan : Plan} {t : Transaction}
    (hcleared : x.Cleared turn.services (x.firstRate.getD plan.rate) name pool plan t) :
    RelayedIn settings past turn id r ↔ turn.services.relays t ∧ id = t.id ∧
      r = ⟨(x.quoted plan).rate, (x.quoted plan).slippage, (x.quoted plan).round + 1⟩ := by
  have heffects : (effects settings past turn).filterMap ExchangeEffect.committed? = [(t, turn.services.relays t)] := by
    rw [(turn_result settings past turn).commits, met]
    exact Exchange.runRound_commits_of_cleared hcleared
  have hquote : quoteIn settings past turn = some plan := by
    rw [quoteIn, met]
    exact hcleared.quote
  have horder : lastOrder (turn :: past) = some x.order := by
    rw [roundIn_order met, after_order, lastOrder]
  obtain ⟨base, hbase, hrate⟩ := firstQuote_of_round met hcleared.quote
  have hnumber := commits_of_cleared met hcleared
  constructor
  · rintro ⟨⟨t', rfl, ht⟩, ⟨order, base', plan', horder', hbase', hquote', hr, hslippage⟩, hcount⟩
    rw [← mem_filterMap_committed, heffects, List.mem_singleton] at ht
    obtain ⟨rfl, hrelays⟩ := Prod.mk.inj ht
    obtain rfl := Option.some.inj (horder.symm.trans horder')
    obtain rfl := Option.some.inj (hbase.symm.trans hbase')
    obtain rfl := Option.some.inj (hquote.symm.trans hquote')
    refine ⟨hrelays.symm, rfl, ?_⟩
    rw [← hnumber, UInt32.toNat_inj] at hcount
    obtain ⟨rate, slippage, number⟩ := r
    subst hr hslippage hcount
    rw [← hrate]
    rfl
  · rintro ⟨hrelays, rfl, rfl⟩
    refine ⟨⟨t, rfl, ?_⟩, ⟨x.order, base, plan, horder, hbase, hquote, rfl, ?_⟩, hnumber⟩
    · rw [← mem_filterMap_committed, heffects, hrelays]
      exact List.mem_singleton_self _
    · rw [← hrate]
      rfl

/-! ## What a desk keeps -/

theorem pending_of_current {d : ExchangeDesk} (h : d.current = some x) : d.pending = x.pending := by
  rw [pending, h]
  rfl

theorem mem_roundIn_pending {d : ExchangeDesk} {e : ExchangeEvent} (h : d.roundIn e = some x)
    (kept : Hash256 × RelayedRound) : kept ∈ x.pending ↔ ¬ e.starts ∧ kept ∈ d.pending := by
  rcases roundIn_eq_some h with ⟨order, rfl, rfl⟩ | ⟨hlater, y, height, hcurrent, rfl⟩
  · simp [ExchangeEvent.starts]
  · rw [pending_of_current hcurrent, and_iff_right hlater]

theorem round_completes (met : (after settings past).roundIn turn.event = some x) :
    ∀ e ∈ effects settings past turn, e.completes = false := by
  rw [effects, step_of_round met]
  intro e he
  rcases List.mem_append.1 he with he | he
  · exact (opening_quiet _ _ e he).2
  · exact Exchange.runRound_completes _ _ e he

theorem survives_iff_of_round (met : (after settings past).roundIn turn.event = some x) :
    Survives settings past turn id ↔ ¬ turn.event.starts ∧ ∀ r, ¬ RelayedIn settings past turn id r := by
  constructor
  · exact fun h => ⟨h.notReplaced, h.notRepeated⟩
  · rintro ⟨hlater, hrepeated⟩
    refine ⟨hlater, hrepeated, fun hevent => ?_, fun hevent => ?_, round_completes met⟩
    · rw [hevent] at met
      cases met
    · rw [hevent] at met
      cases met

theorem mem_pending_of_round (met : (after settings past).roundIn turn.event = some x)
    (ih : (id, r) ∈ (after settings past).pending ↔ Outstanding settings past id r) :
    (id, r) ∈ (after settings (turn :: past)).pending ↔ Outstanding settings (turn :: past) id r := by
  have hcurrent : (after settings (turn :: past)).current = some (x.runRound turn.services).1 := by
    rw [after, step_of_round met]
  rw [pending_of_current hcurrent, Outstanding, survives_iff_of_round met, ← ih]
  have hkept := mem_roundIn_pending met (id, r)
  rcases Exchange.cleared_or_refused turn.services x with ⟨name, pool, plan, t, hcleared⟩ | hrefused
  · have hrepeated : (∀ r, ¬ RelayedIn settings past turn id r) ↔ ¬ (turn.services.relays t ∧ id = t.id) := by
      simp only [relayedIn_iff_of_cleared met hcleared]
      constructor
      · intro h hrelays
        exact h _ ⟨hrelays.1, hrelays.2, rfl⟩
      · rintro h r ⟨hrelays, hid, -⟩
        exact h ⟨hrelays, hid⟩
    rw [Exchange.runRound_of_cleared hcleared, Exchange.mem_submit_pending, (x.quoted_resembles plan).pending, hkept,
      hrepeated, relayedIn_iff_of_cleared met hcleared]
    refine or_congr Iff.rfl ?_
    rw [and_assoc, and_left_comm]
  · obtain ⟨hcommits, -, hpending⟩ := Exchange.runRound_of_refused hrefused
    have hnone (r : RelayedRound) : ¬ RelayedIn settings past turn id r := by
      refine not_relayedIn ?_
      rw [(turn_result settings past turn).commits, met]
      exact hcommits
    rw [hpending, hkept, or_iff_right (hnone r), and_iff_left hnone]

theorem mem_pending_of_confirmed {t : Hash256} (hevent : turn.event = .confirmed t)
    (hcurrent : (after settings past).current = some x)
    (ih : (id, r) ∈ (after settings past).pending ↔ Outstanding settings past id r) :
    (id, r) ∈ (after settings (turn :: past)).pending ↔ Outstanding settings (turn :: past) id r := by
  have hstep : (after settings past).step turn.services turn.event =
      ({ after settings past with current := some (x.confirmed t).1 }, (x.confirmed t).2) := by
    rw [hevent, step, modify, hcurrent]
  have hafter : (after settings (turn :: past)).current = some (x.confirmed t).1 := by
    rw [after, hstep]
  have heffects : effects settings past turn = (x.confirmed t).2 := by
    rw [effects, hstep]
  have hlater : ¬ turn.event.starts := by
    rw [hevent]
    exact Bool.false_ne_true
  have hgone : turn.event ≠ .stop := by
    rw [hevent]
    intro h
    cases h
  have hother : turn.event ≠ .confirmed id ↔ id ≠ t := by
    rw [hevent, ne_eq, ExchangeEvent.confirmed.injEq, ne_eq, eq_comm]
  rw [outstanding_cons_of_no_commits (by rw [heffects, Exchange.confirmed_commits]), ← ih,
    pending_of_current hafter, pending_of_current hcurrent, heffects, hother, and_iff_right hlater,
    and_iff_right hgone]
  cases hlookup : x.pending.lookup t with
  | none =>
    rw [Exchange.confirmed_of_unknown hlookup]
    constructor
    · intro h
      exact ⟨⟨ne_of_lookup_eq_none hlookup h, List.forall_mem_nil _⟩, h⟩
    · intro h
      exact h.2
  | some kept =>
    by_cases hrunning : x.running
    · rw [Exchange.confirmed_of_running hlookup hrunning]
      constructor
      · intro h
        cases h
      · intro h
        cases h.1.2 _ (List.mem_cons_of_mem _ (List.mem_singleton_self _))
    · rw [Exchange.confirmed_of_ended hlookup hrunning, List.mem_filter, decide_eq_true_eq, and_comm]
      refine and_congr_left fun _ => (and_iff_left fun e he => ?_).symm
      obtain rfl := List.mem_singleton.1 he
      rfl

/-- **A desk keeps what is outstanding.** -/
theorem mem_pending_iff (settings : ExchangeSettings) (past : List DeskTurn) :
    ∀ id r, (id, r) ∈ (after settings past).pending ↔ Outstanding settings past id r := by
  induction past with
  | nil =>
    intro id r
    exact ⟨nofun, nofun⟩
  | cons turn past ih =>
    intro id r
    have h := turn_result settings past turn
    generalize hevent : turn.event = e at h
    generalize hresult : (after settings (turn :: past), effects settings past turn) = result at h
    cases h with
    | round met => exact mem_pending_of_round (hevent ▸ met) (ih id r)
    | confirmed kept => exact mem_pending_of_confirmed hevent kept (ih id r)
    | empty fresh later none =>
      obtain ⟨hafter, heffects⟩ := Prod.mk.inj hresult
      have hnothing : ¬ (id, r) ∈ (after settings past).pending := by
        rw [pending, fresh]
        exact nofun
      rw [outstanding_cons_of_no_commits (by rw [heffects]; rfl), ← ih, hafter]
      exact ⟨fun h => absurd h hnothing, fun h => absurd h.2 hnothing⟩
    | waits kept none =>
      obtain ⟨hafter, heffects⟩ := Prod.mk.inj hresult
      rw [outstanding_cons_of_no_commits (by rw [heffects]; rfl), ← ih, hafter, pending_of_current rfl,
        pending_of_current kept, heffects, hevent]
      exact (and_iff_right ⟨Bool.false_ne_true, nofun, nofun, List.forall_mem_nil _⟩).symm
    | stopped kept =>
      obtain ⟨hafter, heffects⟩ := Prod.mk.inj hresult
      rw [outstanding_cons_of_no_commits, hafter, hevent]
      · exact ⟨nofun, fun h => absurd rfl h.1.2.2.1⟩
      · rw [heffects]
        exact Exchange.filterMap_committed_of_quiet (Exchange.stop_quiet _)

/-! ## Each transaction once -/

/-- No transaction is kept twice. -/
def Distinct (kept : List (Hash256 × RelayedRound)) : Prop :=
  (kept.map Prod.fst).Nodup

theorem Distinct.filter {kept : List (Hash256 × RelayedRound)} (h : Distinct kept)
    (p : Hash256 × RelayedRound → Bool) : Distinct (kept.filter p) :=
  h.sublist (List.filter_sublist.map Prod.fst)

theorem submit_distinct {s : ExchangeServices} {plan : Plan} {t : Transaction} (h : Distinct x.pending) :
    Distinct (x.submit s plan t).1.pending := by
  rw [Exchange.submit_pending]
  split
  · refine List.nodup_cons.2 ⟨fun hmem => ?_, h.filter _⟩
    obtain ⟨e, he, heq⟩ := List.mem_map.1 hmem
    have hne := (List.mem_filter.1 he).2
    simp [heq] at hne
  · exact h

theorem confirmed_distinct {t : Hash256} (h : Distinct x.pending) : Distinct (x.confirmed t).1.pending := by
  cases hlookup : x.pending.lookup t with
  | none => rwa [Exchange.confirmed_of_unknown hlookup]
  | some kept =>
    by_cases hrunning : x.running
    · rw [Exchange.confirmed_of_running hlookup hrunning]
      exact List.nodup_nil
    · rw [Exchange.confirmed_of_ended hlookup hrunning]
      exact h.filter _

theorem StepResult.distinct {s : ExchangeServices} {d d' : ExchangeDesk} {e : ExchangeEvent}
    {effects : List ExchangeEffect} (h : StepResult s d e (d', effects)) (hd : Distinct d.pending) :
    Distinct d'.pending := by
  cases h with
  | @round _ x met =>
    have hx : Distinct x.pending := by
      rcases roundIn_eq_some met with ⟨order, rfl, rfl⟩ | ⟨-, y, height, hcurrent, rfl⟩
      · exact List.nodup_nil
      · rwa [pending_of_current hcurrent] at hd
    rw [pending_of_current rfl]
    rcases Exchange.cleared_or_refused s x with ⟨name, pool, plan, t, hcleared⟩ | hrefused
    · rw [Exchange.runRound_of_cleared hcleared]
      exact submit_distinct hx
    · rwa [(Exchange.runRound_of_refused hrefused).2.2]
  | empty => exact hd
  | waits kept => rwa [pending_of_current kept] at hd
  | confirmed kept =>
    rw [pending_of_current kept] at hd
    exact confirmed_distinct hd
  | stopped => exact List.nodup_nil

theorem pending_distinct (settings : ExchangeSettings) (past : List DeskTurn) :
    Distinct (after settings past).pending := by
  induction past with
  | nil => exact List.nodup_nil
  | cons turn past ih => exact (turn_result settings past turn).distinct ih

end SwapStake.ExchangeDesk
