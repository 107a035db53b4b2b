import SwapStake.Proofs.Exchange.Course
/-!
# Exchanges do not disturb each other

From its start to the next one an exchange is the only one that is heard of, and it is heard of by its own
caller alone. The exchange that a start finds running tells its end before anything is done for the new
one. What was relayed for an earlier exchange is confirmed to no effect. An exchange that has ended is at
rest (`ExchangeDesk.rests`), and after a stop not even a confirmation wakes it.
-/

namespace SwapStake.ExchangeDesk

/-- The exchange that was started last has been stopped, or a stop came before any start. -/
def stopped : List DeskTurn → Bool
  | [] => false
  | turn :: past =>
    match turn.event with
    | .start _ => false
    | .stop => true
    | _ => stopped past

/-! ## Rest -/

section Rest

variable {d : ExchangeDesk}

/-- Nothing happens in a turn, whatever the services would answer. -/
def Rests (d : ExchangeDesk) (e : ExchangeEvent) : Prop :=
  ∀ s, d.step s e = (d, [])

theorem rests_of_fresh {e : ExchangeEvent} (fresh : d.current = none) (later : ¬ e.starts) : d.Rests e :=
  fun _ => (step_of_empty fresh later).2

theorem modify_of_idle {x : Exchange} (hcurrent : d.current = some x) {f : Exchange → Exchange × List ExchangeEffect}
    (hf : f x = (x, [])) : d.modify f = (d, []) := by
  rw [modify, hcurrent]
  dsimp only
  rw [hf, ← hcurrent]

theorem rests_of_idle (idle : ¬ d.inProgress) {e : ExchangeEvent} (hround : e = .round ∨ ∃ height, e = .block height) :
    d.Rests e := by
  cases hcurrent : d.current with
  | none =>
    refine rests_of_fresh hcurrent ?_
    rcases hround with rfl | ⟨height, rfl⟩
    · exact Bool.false_ne_true
    · exact Bool.false_ne_true
  | some x =>
    rw [inProgress_of_current hcurrent] at idle
    intro s
    rcases hround with rfl | ⟨height, rfl⟩
    · exact modify_of_idle hcurrent (by rw [Exchange.runRound, if_pos idle])
    · exact modify_of_idle hcurrent (by rw [Exchange.block, if_pos idle])

theorem rests_of_unknown {id : Hash256} (unknown : ∀ r, (id, r) ∉ d.pending) : d.Rests (.confirmed id) := by
  cases hcurrent : d.current with
  | none => exact rests_of_fresh hcurrent Bool.false_ne_true
  | some x =>
    have hlookup : x.pending.lookup id = none := by
      rw [Option.eq_none_iff_forall_ne_some]
      intro r hr
      rw [pending_of_current hcurrent] at unknown
      exact unknown r (mem_of_lookup hr)
    exact fun s => modify_of_idle hcurrent (Exchange.confirmed_of_unknown hlookup)

end Rest

/-! ## Histories -/

section Histories

variable {settings : ExchangeSettings} {past : List DeskTurn} {turn : DeskTurn}

theorem rests_of_earlier {id : Hash256} (unrelayed : ¬ RelayedSince settings past id) :
    (after settings past).Rests (.confirmed id) :=
  rests_of_unknown fun r kept =>
    unrelayed (relayedSince_of_outstanding past ((mem_pending_iff settings past id r).1 kept))

theorem after_of_rests (h : (after settings past).Rests turn.event) :
    after settings (turn :: past) = after settings past ∧ effects settings past turn = [] := by
  rw [after, effects, h turn.services]
  exact ⟨rfl, rfl⟩

theorem stop_quiets (s : ExchangeServices) (d : ExchangeDesk) :
    ¬ (d.step s .stop).1.inProgress ∧ (d.step s .stop).1.pending = [] := by
  rw [step, modify]
  cases hcurrent : d.current with
  | none =>
    rw [inProgress, pending, hcurrent]
    exact ⟨Bool.false_ne_true, rfl⟩
  | some x => exact ⟨Bool.false_ne_true, rfl⟩

theorem rests_of_quiet {d : ExchangeDesk} (quiet : ¬ d.inProgress ∧ d.pending = []) {e : ExchangeEvent}
    (later : ¬ e.starts) (going : e ≠ .stop) : d.Rests e := by
  cases e with
  | start order => exact absurd rfl later
  | round => exact rests_of_idle quiet.1 (.inl rfl)
  | block height => exact rests_of_idle quiet.1 (.inr ⟨height, rfl⟩)
  | confirmed id =>
    apply rests_of_unknown
    simp [quiet.2]
  | stop => exact absurd rfl going

theorem quiet_of_stopped (settings : ExchangeSettings) (past : List DeskTurn) (h : stopped past) :
    ¬ (after settings past).inProgress ∧ (after settings past).pending = [] := by
  induction past with
  | nil => cases h
  | cons turn past ih =>
    rw [stopped] at h
    by_cases hstop : turn.event = .stop
    · rw [after, hstop]
      exact stop_quiets turn.services (after settings past)
    · by_cases hstarts : turn.event.starts
      · cases hevent : turn.event with
        | start order =>
          rw [hevent] at h
          cases h
        | _ =>
          rw [hevent] at hstarts
          cases hstarts
      · have hpast : stopped past := by
          cases hevent : turn.event with
          | start order => exact absurd (by rw [hevent]; rfl) hstarts
          | stop => exact absurd hevent hstop
          | _ =>
            rw [hevent] at h
            exact h
        rw [(after_of_rests (rests_of_quiet (ih hpast) hstarts hstop)).1]
        exact ih hpast

/-- What a turn opens with is the end of the exchange before, as one that is replaced, told to that
exchange's caller. -/
def Replaces (past : List DeskTurn) (opening : List ExchangeEffect) : Prop :=
  ∃ order rep, lastOrder past = some order ∧ opening = [.counted .exchangesFailed, .reported rep] ∧
    rep.notice = .failed .replaced ∧ rep.caller = order.caller

theorem replaces_of_busy (busy : (after settings past).inProgress) (order : ExchangeOrder) :
    Replaces past ((after settings past).opening (.start order)) := by
  obtain ⟨x, hcurrent, hrunning, hopening⟩ := opening_of_busy order busy
  rw [hopening, Exchange.fail, Exchange.finish, if_pos hrunning]
  refine ⟨x.order, _, ?_, rfl, rfl, rfl⟩
  rw [← after_order settings, hcurrent]
  rfl

end Histories

/-- **An exchange is heard of by its own caller, and leaves its successor alone.** What a turn does is what
it opens with and then what it does for the exchange that was started last, and all reports of the latter
go to the caller of that exchange. A turn opens with something only if it starts an exchange while another
one runs, and this is the end of the other, told to the other's caller. A confirmation of what was not
relayed since the last start changes nothing. Nor do rounds and blocks when no exchange runs, nor any
confirmation after a stop. -/
theorem exchanges_isolated (settings : ExchangeSettings) (past : List DeskTurn) (turn : DeskTurn) :
    effects settings past turn = (after settings past).opening turn.event ++ own settings past turn ∧
    (∀ order, lastOrder (turn :: past) = some order → ToldTo order.caller (own settings past turn)) ∧
    (turn.event.starts → (after settings past).inProgress →
      Replaces past ((after settings past).opening turn.event)) ∧
    (¬ turn.event.starts ∨ ¬ (after settings past).inProgress →
      (after settings past).opening turn.event = []) ∧
    (∀ id, ¬ RelayedSince settings past id → (after settings past).Rests (.confirmed id)) ∧
    (¬ (after settings past).inProgress →
      (after settings past).Rests .round ∧ ∀ height, (after settings past).Rests (.block height)) ∧
    (stopped past → ∀ id, (after settings past).Rests (.confirmed id)) := by
  refine ⟨effects_eq settings past turn, fun order => own_told, fun hstarts hbusy => ?_, ?_,
    fun id => rests_of_earlier, fun hidle => ⟨?_, fun height => ?_⟩, fun hstopped id => ?_⟩
  · cases hevent : turn.event with
    | start order => exact replaces_of_busy hbusy order
    | _ =>
      rw [hevent] at hstarts
      cases hstarts
  · rintro (hlater | hidle)
    · exact opening_of_later _ hlater
    · exact opening_of_idle hidle _
  · exact rests_of_idle hidle (.inl rfl)
  · exact rests_of_idle hidle (.inr ⟨height, rfl⟩)
  · exact rests_of_quiet (quiet_of_stopped settings past hstopped) Bool.false_ne_true nofun

/-- An exchange whose transaction is relayed, and then another one. -/
def firstSale : DeskTurn :=
  ⟨trialServices 2000000 1, .start trialSale⟩

def secondSale : DeskTurn :=
  ⟨trialServices 2000000 2, .start { trialSale with caller := "successor" }⟩

theorem exchanges_isolated_replaced :
    Replaces [firstSale] ((after {} [firstSale]).opening secondSale.event) ∧
      ToldTo "successor" (own {} [firstSale] secondSale) ∧
      (after {} [secondSale, firstSale]).Rests (.confirmed (.ofBytes [1])) ∧
      (after {} [⟨trialServices 2000000 3, .stop⟩, secondSale, firstSale]).Rests (.confirmed (.ofBytes [2])) := by
  have hbusy : (after {} [firstSale]).inProgress := by decide +kernel
  have hcommits : (effects {} [firstSale] secondSale).filterMap ExchangeEffect.committed? =
      [(⟨.ofBytes [2], 7⟩, true)] := by decide +kernel
  have hearlier : ¬ RelayedSince {} [secondSale, firstSale] (.ofBytes [1]) := by
    rintro (⟨t, hid, ht⟩ | ⟨hlater, -⟩)
    · rw [← mem_filterMap_committed, hcommits, List.mem_singleton] at ht
      obtain ⟨rfl, -⟩ := Prod.mk.inj ht
      exact absurd hid (by decide +kernel)
    · exact hlater rfl
  obtain ⟨-, htold, hreplaces, -⟩ := exchanges_isolated {} [firstSale] secondSale
  obtain ⟨-, -, -, -, hrests, -⟩ := exchanges_isolated {} [secondSale, firstSale] firstSale
  obtain ⟨-, -, -, -, -, -, hstopped⟩ :=
    exchanges_isolated {} [⟨trialServices 2000000 3, .stop⟩, secondSale, firstSale] firstSale
  exact ⟨hreplaces rfl hbusy, htold _ rfl, hrests _ hearlier, hstopped rfl _⟩

end SwapStake.ExchangeDesk
