import SwapStake.Proofs.Exchange.Pending
/-!
# Completion

The caller is told of a success at the end only when an outstanding transaction is confirmed while
the exchange runs, and then of the round that relayed it. `pending_and_completion` puts this beside
what is pending: the report names the transaction and its round, the exchange is over with nothing
pending, and no exchange completes twice. A transaction that was not relayed since the last start
completes nothing, whatever became of it before.
-/

namespace SwapStake.ExchangeDesk

/-- How many times the caller was told of success since the last start. -/
def completions (settings : ExchangeSettings) : List DeskTurn → Nat
  | [] => 0
  | turn :: past => (if turn.event.starts then 0 else completions settings past) +
      ((effects settings past turn).filter ExchangeEffect.completes).length

/-- A transaction was relayed since the last start. -/
def RelayedSince (settings : ExchangeSettings) : List DeskTurn → Hash256 → Prop
  | [], _ => False
  | turn :: past, id => (∃ t, t.id = id ∧ .committed t true ∈ effects settings past turn) ∨
      (¬ turn.event.starts ∧ RelayedSince settings past id)

/-! ## One turn -/

section Turn

variable {s : ExchangeServices} {d d' : ExchangeDesk} {e : ExchangeEvent} {effects : List ExchangeEffect}

theorem filter_completes {effects : List ExchangeEffect} (h : ∀ e ∈ effects, e.completes = false) :
    effects.filter ExchangeEffect.completes = [] := by
  rw [List.filter_eq_nil_iff]
  intro e he
  rw [h e he]
  exact Bool.false_ne_true

theorem inProgress_of_current {x : Exchange} (h : d.current = some x) : d.inProgress = x.running := by
  rw [inProgress, h]
  rfl

theorem exists_running (busy : d.inProgress) : ∃ x, d.current = some x ∧ x.running := by
  cases hcurrent : d.current with
  | none =>
    rw [inProgress, hcurrent] at busy
    cases busy
  | some x =>
    rw [inProgress_of_current hcurrent] at busy
    exact ⟨x, rfl, busy⟩

theorem confirmed_completes {x : Exchange} {t : Hash256} {effect : ExchangeEffect}
    (h : effect ∈ (x.confirmed t).2) (hcompletes : effect.completes) :
    ∃ r, x.pending.lookup t = some r ∧ x.running ∧ effect = (x.restored r).report .completed (some t) := by
  cases hlookup : x.pending.lookup t with
  | none =>
    rw [Exchange.confirmed_of_unknown hlookup] at h
    cases h
  | some r =>
    by_cases hrunning : x.running
    · rw [Exchange.confirmed_of_running hlookup hrunning] at h
      rcases List.mem_cons.1 h with rfl | h
      · cases hcompletes
      · exact ⟨r, rfl, hrunning, List.mem_singleton.1 h⟩
    · rw [Exchange.confirmed_of_ended hlookup hrunning] at h
      obtain rfl := List.mem_singleton.1 h
      cases hcompletes

namespace StepResult

theorem quiet_round {x : Exchange} (s : ExchangeServices) (d : ExchangeDesk) (e : ExchangeEvent) :
    ∀ effect ∈ d.opening e ++ (x.runRound s).2, effect.completes = false := by
  intro effect h
  rcases List.mem_append.1 h with h | h
  · exact (opening_quiet d e effect h).2
  · exact Exchange.runRound_completes s x effect h

theorem completes (h : StepResult s d e (d', effects)) {effect : ExchangeEffect} (hmem : effect ∈ effects)
    (hcompletes : effect.completes) :
    ∃ t x r, e = .confirmed t ∧ d.current = some x ∧ x.running ∧ x.pending.lookup t = some r ∧
      effect = (x.restored r).report .completed (some t) ∧
      d'.current = some { x.restored r with pending := [], running := false } := by
  cases h with
  | round met =>
    rw [quiet_round s d e effect hmem] at hcompletes
    cases hcompletes
  | empty => cases hmem
  | waits => cases hmem
  | @confirmed t x kept =>
    obtain ⟨r, hlookup, hrunning, rfl⟩ := confirmed_completes hmem hcompletes
    refine ⟨t, x, r, rfl, kept, hrunning, hlookup, rfl, ?_⟩
    rw [Exchange.confirmed_of_running hlookup hrunning]
  | stopped =>
    rw [(Exchange.stop_quiet _ effect hmem).2] at hcompletes
    cases hcompletes

theorem completes_once (h : StepResult s d e (d', effects)) :
    (effects.filter ExchangeEffect.completes).length ≤ 1 := by
  cases h with
  | round =>
    rw [filter_completes (quiet_round s d e)]
    exact Nat.zero_le 1
  | empty => exact Nat.zero_le 1
  | waits => exact Nat.zero_le 1
  | @confirmed t x =>
    cases hlookup : x.pending.lookup t with
    | none =>
      rw [Exchange.confirmed_of_unknown hlookup]
      exact Nat.zero_le 1
    | some r =>
      by_cases hrunning : x.running
      · rw [Exchange.confirmed_of_running hlookup hrunning]
        exact Nat.le_refl 1
      · rw [Exchange.confirmed_of_ended hlookup hrunning]
        exact Nat.zero_le 1
  | stopped =>
    rw [filter_completes fun effect h => (Exchange.stop_quiet _ effect h).2]
    exact Nat.zero_le 1

theorem inProgress_of_later (h : StepResult s d e (d', effects)) (hlater : ¬ e.starts) (hbusy : d'.inProgress) :
    d.inProgress := by
  cases h with
  | @round _ x met =>
    have hx := (Exchange.runRound_round s x hbusy).1
    rcases roundIn_eq_some met with ⟨order, rfl, rfl⟩ | ⟨-, y, height, hcurrent, rfl⟩
    · exact absurd rfl hlater
    · rwa [inProgress_of_current hcurrent]
  | empty => exact hbusy
  | waits kept => rwa [inProgress_of_current kept]
  | @confirmed t x kept =>
    cases hlookup : x.pending.lookup t with
    | none =>
      rw [Exchange.confirmed_of_unknown hlookup, inProgress_of_current rfl] at hbusy
      rwa [inProgress_of_current kept]
    | some r => exact absurd hbusy (Exchange.confirmed_ends hlookup)
  | stopped => cases hbusy

end StepResult

end Turn

/-! ## Histories -/

variable {settings : ExchangeSettings} {past : List DeskTurn} {turn : DeskTurn} {id : Hash256} {r : RelayedRound}

/-- Success is told at most once since the last start, and not before the end. -/
theorem completions_le_one (settings : ExchangeSettings) (past : List DeskTurn) :
    completions settings past ≤ 1 ∧ ((after settings past).inProgress → completions settings past = 0) := by
  induction past with
  | nil => exact ⟨Nat.zero_le 1, fun _ => rfl⟩
  | cons turn past ih =>
    have h := turn_result settings past turn
    have honce := h.completes_once
    by_cases hquiet : (effects settings past turn).filter ExchangeEffect.completes = []
    · rw [completions, hquiet, List.length_nil, Nat.add_zero]
      by_cases hstarts : turn.event.starts
      · rw [if_pos hstarts]
        exact ⟨Nat.zero_le 1, fun _ => rfl⟩
      · rw [if_neg hstarts]
        exact ⟨ih.1, fun hbusy => ih.2 (h.inProgress_of_later hstarts hbusy)⟩
    · obtain ⟨effect, heffect⟩ := List.exists_mem_of_ne_nil _ hquiet
      obtain ⟨hmem, hcompletes⟩ := List.mem_filter.1 heffect
      obtain ⟨t, x, r, hevent, hcurrent, hrunning, -, -, hafter⟩ := h.completes hmem hcompletes
      have hlater : ¬ turn.event.starts := by
        rw [hevent]
        exact Bool.false_ne_true
      have hnone : completions settings past = 0 := ih.2 (by rwa [inProgress_of_current hcurrent])
      rw [completions, if_neg hlater, hnone, Nat.zero_add, inProgress_of_current hafter]
      exact ⟨honce, nofun⟩

theorem relayedSince_of_outstanding (past : List DeskTurn) :
    Outstanding settings past id r → RelayedSince settings past id := by
  induction past with
  | nil => exact False.elim
  | cons turn past ih =>
    rintro (⟨hrelayed, -, -⟩ | ⟨hsurvives, houtstanding⟩)
    · exact .inl hrelayed
    · exact .inr ⟨hsurvives.notReplaced, ih houtstanding⟩

/-- What a report of success tells: the round that relayed the transaction which was confirmed. -/
structure TellsOf (rep : ExchangeReport) (order : ExchangeOrder) (id : Hash256) (r : RelayedRound) : Prop where
  caller : rep.caller = order.caller
  transaction : rep.transaction = some id
  rate : rep.rate = r.rate
  slippage : rep.slippage = r.slippage
  round : rep.round = r.number

theorem completed_of_report {rep : ExchangeReport} (hmem : .reported rep ∈ effects settings past turn)
    (hsuccess : rep.notice.success) (hterminal : rep.notice.terminal) :
    ∃ order id r, turn.event = .confirmed id ∧ lastOrder past = some order ∧ Outstanding settings past id r ∧
      (after settings past).inProgress ∧ TellsOf rep order id r ∧ (after settings (turn :: past)).pending = [] ∧
      ¬ (after settings (turn :: past)).inProgress := by
  have hcompletes : (ExchangeEffect.reported rep).completes := by
    rw [ExchangeEffect.completes, hsuccess, hterminal]
    rfl
  obtain ⟨t, x, r, hevent, hcurrent, hrunning, hlookup, hreport, hafter⟩ :=
    (turn_result settings past turn).completes hmem hcompletes
  obtain rfl := ExchangeEffect.reported.inj hreport
  have horder : lastOrder past = some x.order := by
    rw [← after_order settings past, hcurrent]
    rfl
  have hkept : (t, r) ∈ (after settings past).pending := by
    rw [pending_of_current hcurrent]
    exact mem_of_lookup hlookup
  refine ⟨x.order, t, r, hevent, horder, (mem_pending_iff settings past t r).1 hkept, ?_, ⟨rfl, rfl, rfl, rfl, rfl⟩,
    pending_of_current hafter, ?_⟩
  · rwa [inProgress_of_current hcurrent]
  · rw [inProgress_of_current hafter]
    exact Bool.false_ne_true

theorem confirmed_step (hevent : turn.event = .confirmed id) {x : Exchange}
    (hcurrent : (after settings past).current = some x) :
    (after settings past).step turn.services turn.event =
      ({ after settings past with current := some (x.confirmed id).1 }, (x.confirmed id).2) := by
  rw [hevent, step, modify, hcurrent]

theorem report_of_confirmed (hevent : turn.event = .confirmed id) (houtstanding : Outstanding settings past id r)
    (hbusy : (after settings past).inProgress) :
    ∃ rep, .reported rep ∈ effects settings past turn ∧ rep.notice.success ∧ rep.notice.terminal := by
  obtain ⟨x, hcurrent, hrunning⟩ := exists_running hbusy
  rw [← mem_pending_iff, pending_of_current hcurrent] at houtstanding
  cases hlookup : x.pending.lookup id with
  | none => exact absurd rfl (ne_of_lookup_eq_none hlookup houtstanding)
  | some kept =>
    rw [effects, confirmed_step hevent hcurrent, Exchange.confirmed_of_running hlookup hrunning]
    exact ⟨_, List.mem_cons_of_mem _ (List.mem_singleton_self _), rfl, rfl⟩

theorem nothing_of_unknown (hevent : turn.event = .confirmed id) (hunknown : ¬ RelayedSince settings past id) :
    after settings (turn :: past) = after settings past ∧ effects settings past turn = [] := by
  rw [after, effects]
  cases hcurrent : (after settings past).current with
  | none =>
    rw [hevent, step, modify, hcurrent]
    exact ⟨rfl, rfl⟩
  | some x =>
    rw [confirmed_step hevent hcurrent]
    cases hlookup : x.pending.lookup id with
    | none =>
      rw [Exchange.confirmed_of_unknown hlookup, ← hcurrent]
      exact ⟨rfl, rfl⟩
    | some r =>
      have hkept : (id, r) ∈ (after settings past).pending := by
        rw [pending_of_current hcurrent]
        exact mem_of_lookup hlookup
      exact absurd (relayedSince_of_outstanding past ((mem_pending_iff settings past id r).1 hkept)) hunknown

/-- **What is pending is what is outstanding, and only its confirmation is a success.** The desk keeps each
outstanding transaction once, with the last round that relayed it. The caller is told of success at the
end exactly when an outstanding transaction is confirmed while the exchange runs; the report is about
that transaction and its round, and leaves nothing pending and nothing running. It is made at most once
since the last start. A transaction that was not relayed since then is confirmed to no effect. -/
theorem pending_and_completion (settings : ExchangeSettings) (past : List DeskTurn) (turn : DeskTurn) :
    (∀ id r, (id, r) ∈ (after settings past).pending ↔ Outstanding settings past id r) ∧
    Distinct (after settings past).pending ∧
    ((∃ rep, .reported rep ∈ effects settings past turn ∧ rep.notice.success ∧ rep.notice.terminal) ↔
      ∃ id r, turn.event = .confirmed id ∧ Outstanding settings past id r ∧ (after settings past).inProgress) ∧
    (∀ rep, .reported rep ∈ effects settings past turn → rep.notice.success → rep.notice.terminal →
      ∃ order id r, turn.event = .confirmed id ∧ lastOrder past = some order ∧ Outstanding settings past id r ∧
        TellsOf rep order id r ∧ (after settings (turn :: past)).pending = [] ∧
        ¬ (after settings (turn :: past)).inProgress) ∧
    completions settings past ≤ 1 ∧
    (∀ id, turn.event = .confirmed id → ¬ RelayedSince settings past id →
      after settings (turn :: past) = after settings past ∧ effects settings past turn = []) := by
  refine ⟨mem_pending_iff settings past, pending_distinct settings past, ⟨?_, ?_⟩, ?_,
    (completions_le_one settings past).1, fun id => nothing_of_unknown⟩
  · rintro ⟨rep, hmem, hsuccess, hterminal⟩
    obtain ⟨order, id, r, hevent, -, houtstanding, hbusy, -⟩ := completed_of_report hmem hsuccess hterminal
    exact ⟨id, r, hevent, houtstanding, hbusy⟩
  · rintro ⟨id, r, hevent, houtstanding, hbusy⟩
    exact report_of_confirmed hevent houtstanding hbusy
  · intro rep hmem hsuccess hterminal
    obtain ⟨order, id, r, hevent, horder, houtstanding, -, htells, hafter⟩ :=
      completed_of_report hmem hsuccess hterminal
    exact ⟨order, id, r, hevent, horder, houtstanding, htells, hafter⟩

/-- Two rounds whose transactions are both relayed. -/
def twoRounds : List DeskTurn :=
  [⟨trialServices 1990000 2, .round⟩, ⟨trialServices 2000000 1, .start trialSale⟩]

theorem pending_and_completion_first_round :
    ∃ rep, .reported rep ∈ effects {} twoRounds ⟨trialServices 1990000 3, .confirmed (.ofBytes [1])⟩ ∧
      rep.notice.success ∧ rep.notice.terminal ∧ rep.transaction = some (.ofBytes [1]) ∧ rep.round = 1 ∧
      (after {} (⟨trialServices 1990000 3, .confirmed (.ofBytes [1])⟩ :: twoRounds)).pending = [] := by
  have hkeys : .ofBytes [1] ∈ (after {} twoRounds).pending.map Prod.fst := by decide +kernel
  have hnumbers : ∀ e ∈ (after {} twoRounds).pending, e.1 = .ofBytes [1] → e.2.number = 1 := by decide +kernel
  have hbusy : (after {} twoRounds).inProgress := by decide +kernel
  obtain ⟨hpending, -, hsuccess, hreport, -⟩ :=
    pending_and_completion {} twoRounds ⟨trialServices 1990000 3, .confirmed (.ofBytes [1])⟩
  obtain ⟨⟨id, r⟩, hmem, hid⟩ := List.mem_map.1 hkeys
  obtain rfl : id = .ofBytes [1] := hid
  obtain ⟨rep, hrep, hok, hlast⟩ := hsuccess.2 ⟨_, r, rfl, (hpending _ r).1 hmem, hbusy⟩
  obtain ⟨order, id, r, hevent, -, houtstanding, htells, hafter, -⟩ := hreport rep hrep hok hlast
  obtain rfl := ExchangeEvent.confirmed.inj hevent
  refine ⟨rep, hrep, hok, hlast, htells.transaction, ?_, hafter⟩
  rw [htells.round]
  exact hnumbers _ ((hpending _ r).2 houtstanding) rfl

end SwapStake.ExchangeDesk
