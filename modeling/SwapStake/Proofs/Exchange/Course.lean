import SwapStake.Proofs.Exchange.Completion
/-!
# The course of an exchange

Whatever happens to an exchange, it goes on, or it ends, or it was over before. `Course` tells these
three apart by what the exchange tells and counts meanwhile: only an end is counted, and exactly one
final report goes with it. The caller that is told is always that of the exchange itself (`ToldTo`). In
the turn of a start two exchanges have their share: the one before tells its end first
(`ExchangeDesk.opening`), and the rest of the turn belongs to the new one (`ExchangeDesk.own`).
-/

namespace SwapStake

namespace ExchangeEffect

def counter? : ExchangeEffect → Option Counter
  | .counted c => some c
  | _ => none

/-- The report of an end, or of what comes after the end. -/
def final? : ExchangeEffect → Option ExchangeReport
  | .reported rep => if rep.notice.terminal then some rep else none
  | _ => none

theorem final?_eq_some {e : ExchangeEffect} {rep : ExchangeReport} (h : e.final? = some rep) :
    e = .reported rep := by
  cases e with
  | reported rep' =>
    rw [final?] at h
    split at h
    · exact congrArg _ (Option.some.inj h)
    · cases h
  | _ => cases h

end ExchangeEffect

open ExchangeEffect

/-- All reports go to one caller. -/
def ToldTo (caller : String) (effects : List ExchangeEffect) : Prop :=
  ∀ rep, .reported rep ∈ effects → rep.caller = caller

theorem ToldTo.append {caller : String} {first later : List ExchangeEffect} (hfirst : ToldTo caller first)
    (hlater : ToldTo caller later) : ToldTo caller (first ++ later) := by
  intro rep hrep
  exact (List.mem_append.1 hrep).elim (hfirst rep) (hlater rep)

theorem toldTo_nil (caller : String) : ToldTo caller [] := nofun

/-- How an exchange that runs, or has ended, gets through some effects: whether it runs before and
afterwards. -/
inductive Course : Bool → Bool → List ExchangeEffect → Prop
  | goesOn {effects : List ExchangeEffect} (finals : effects.filterMap final? = [])
      (counters : effects.filterMap counter? =
        List.replicate (effects.filterMap committed?).length .exchangeRounds) :
      Course true true effects
  | ends {effects : List ExchangeEffect} (finals : ∃ rep, effects.filterMap final? = [rep])
      (commits : effects.filterMap committed? = [])
      (counters : effects.filterMap counter? = [.exchangesCompleted] ∨
        effects.filterMap counter? = [.exchangesFailed] ∨
        effects.filterMap counter? = [.slippageAborts, .exchangesFailed]) :
      Course true false effects
  | ended {effects : List ExchangeEffect} (commits : effects.filterMap committed? = [])
      (counters : effects.filterMap counter? = []) :
      Course false false effects

theorem course_nil (busy : Bool) : Course busy busy [] := by
  cases busy with
  | false => exact .ended rfl rfl
  | true => exact .goesOn rfl rfl

/-- How often something is counted. -/
def tally (effects : List ExchangeEffect) (c : Counter) : Nat :=
  (effects.filterMap counter?).count c

theorem tally_append (first later : List ExchangeEffect) (c : Counter) :
    tally (first ++ later) c = tally first c + tally later c := by
  simp [tally]

/-- What a course counts: the end, if there is one, and the transactions that are submitted. -/
structure Balanced (busy busy' : Bool) (effects : List ExchangeEffect) : Prop where
  ended : busy.toNat = tally effects .exchangesCompleted + tally effects .exchangesFailed + busy'.toNat
  aborts : tally effects .slippageAborts ≤ tally effects .exchangesFailed
  rounds : tally effects .exchangeRounds = (effects.filterMap committed?).length

theorem Course.balanced {busy busy' : Bool} {effects : List ExchangeEffect} (h : Course busy busy' effects) :
    Balanced busy busy' effects := by
  cases h with
  | goesOn _ counters =>
    constructor <;> simp [tally, counters, List.count_replicate]
  | ends _ commits counters =>
    rcases counters with counters | counters | counters <;>
      constructor <;> simp [tally, counters, commits]
  | ended commits counters =>
    constructor <;> simp [tally, counters, commits]

/-! ## What happens to an exchange -/

namespace Exchange

variable {x : Exchange}

theorem finish_told (x : Exchange) (notice : Notice) (transaction : Option Hash256) :
    ToldTo x.order.caller (x.finish notice transaction).2 := by
  intro rep hrep
  rcases List.mem_append.1 hrep with hrep | hrep
  · split at hrep <;> simp at hrep
  · obtain rfl := ExchangeEffect.reported.inj (List.mem_singleton.1 hrep)
    rfl

theorem fail_course (x : Exchange) (failure : ExchangeFailure) :
    Course x.running false (x.fail failure).2 := by
  rw [fail, finish]
  cases x.running with
  | false => exact .ended rfl rfl
  | true => exact .ends ⟨_, rfl⟩ rfl (.inr (.inl rfl))

theorem Preamble.told {failure : ExchangeFailure} {before : List ExchangeEffect} (h : Preamble failure before)
    (caller : String) : ToldTo caller before := by
  intro rep hrep
  cases h <;> simp at hrep

theorem Preamble.course {failure : ExchangeFailure} {before : List ExchangeEffect}
    (h : Preamble failure before) (hrunning : x.running) :
    Course true false (before ++ (x.fail failure).2) := by
  rw [fail, finish, if_pos hrunning]
  cases h with
  | slipped => exact .ends ⟨_, rfl⟩ rfl (.inr (.inr rfl))
  | _ => exact .ends ⟨_, rfl⟩ rfl (.inr (.inl rfl))

section Submit

variable (s : ExchangeServices) (x : Exchange) (plan : Plan) (t : Transaction)

theorem submit_told : ToldTo x.order.caller (x.submit s plan t).2 := by
  intro rep hrep
  unfold submit at hrep
  cases hcommit : s.commit t with
  | ok _ =>
    rw [hcommit] at hrep
    obtain rfl : rep = _ := by simpa [report] using hrep
    rfl
  | error e =>
    rw [hcommit] at hrep
    rcases (by simpa [report] using hrep : rep = _ ∨ rep = _) with rfl | rfl
    · rfl
    · rfl

theorem submit_course (name : String) (order : BuildOrder) :
    Course true true ([.asked name, .built order] ++ (x.submit s plan t).2) := by
  unfold submit
  cases s.commit t with
  | ok _ => exact .goesOn rfl rfl
  | error e => exact .goesOn rfl rfl

end Submit

theorem runRound_told (s : ExchangeServices) (x : Exchange) : ToldTo x.order.caller (x.runRound s).2 := by
  have h := runRound_result s x
  generalize x.runRound s = result at h ⊢
  cases h with
  | idle => exact toldTo_nil _
  | failed _ resembles _ preamble => exact (preamble.told _).append (resembles.order ▸ finish_told _ _ _)
  | @submitted name _ plan =>
    have hasked : ToldTo x.order.caller [.asked name, .built (x.buildOrder s plan)] := by
      intro rep hrep
      simp at hrep
    exact hasked.append (submit_told _ _ _ _)

theorem runRound_course (s : ExchangeServices) (x : Exchange) :
    Course x.running (x.runRound s).1.running (x.runRound s).2 := by
  have h := runRound_result s x
  generalize x.runRound s = result at h ⊢
  cases h with
  | idle => exact course_nil _
  | failed running resembles _ preamble =>
    rw [running]
    exact preamble.course (resembles.running.trans running)
  | @submitted name pool plan t cleared =>
    have hrunning : (x.quoted plan).running := cleared.running
    rw [submit_running, hrunning, cleared.running]
    exact submit_course s (x.quoted plan) plan t name _

theorem confirmed_told (x : Exchange) (t : Hash256) : ToldTo x.order.caller (x.confirmed t).2 := by
  rw [confirmed]
  cases x.pending.lookup t with
  | none => exact toldTo_nil _
  | some r =>
    dsimp only
    split
    · exact finish_told _ _ _
    · exact finish_told _ _ _

theorem confirmed_course (x : Exchange) (t : Hash256) :
    Course x.running (x.confirmed t).1.running (x.confirmed t).2 := by
  cases hlookup : x.pending.lookup t with
  | none =>
    rw [confirmed_of_unknown hlookup]
    exact course_nil _
  | some r =>
    cases hrunning : x.running with
    | false =>
      have hended : ¬ x.running := by simp [hrunning]
      rw [confirmed_of_ended hlookup hended]
      show Course false x.running _
      rw [hrunning]
      exact .ended rfl rfl
    | true =>
      rw [confirmed_of_running hlookup hrunning]
      exact .ends ⟨_, rfl⟩ rfl (.inl rfl)

end Exchange

/-! ## What happens in a turn -/

namespace ExchangeDesk

/-- What a turn does for the exchange that was started last, in the turn of a start for the new one. -/
def own (settings : ExchangeSettings) (past : List DeskTurn) (turn : DeskTurn) : List ExchangeEffect :=
  match turn.event with
  | .start order => (({ order } : Exchange).runRound turn.services).2
  | _ => effects settings past turn

section Step

variable {s : ExchangeServices} {d d' : ExchangeDesk} {e : ExchangeEvent} {effects : List ExchangeEffect}

theorem opening_of_later (d : ExchangeDesk) (later : ¬ e.starts) : d.opening e = [] := by
  cases e with
  | start order => exact absurd rfl later
  | _ => rfl

theorem opening_of_busy (order : ExchangeOrder) (busy : d.inProgress) :
    ∃ x, d.current = some x ∧ x.running ∧ d.opening (.start order) = (x.fail .replaced).2 := by
  obtain ⟨x, hcurrent, hrunning⟩ := exists_running busy
  refine ⟨x, hcurrent, hrunning, ?_⟩
  rw [opening, hcurrent, replaced, if_pos hrunning]

theorem opening_of_idle (idle : ¬ d.inProgress) (e : ExchangeEvent) : d.opening e = [] := by
  rcases d.opening_result e with hnone | ⟨x, hcurrent, hrunning, -⟩
  · exact hnone
  · rw [inProgress_of_current hcurrent] at idle
    exact absurd hrunning idle

theorem opening_course (d : ExchangeDesk) (order : ExchangeOrder) :
    Course d.inProgress false (d.opening (.start order)) := by
  by_cases hbusy : d.inProgress
  · obtain ⟨x, -, hrunning, hopening⟩ := opening_of_busy order hbusy
    rw [hopening, hbusy, ← hrunning]
    exact x.fail_course .replaced
  · rw [opening_of_idle hbusy, Bool.eq_false_iff.2 hbusy]
    exact course_nil false

namespace StepResult

theorem course (h : StepResult s d e (d', effects)) (later : ¬ e.starts) :
    Course d.inProgress d'.inProgress effects := by
  cases h with
  | @round _ x met =>
    rw [opening_of_later d later, List.nil_append, inProgress_of_current (d := { d with current := _ }) rfl]
    rcases roundIn_eq_some met with ⟨order, rfl, -⟩ | ⟨-, y, height, hcurrent, rfl⟩
    · exact absurd rfl later
    · rw [inProgress_of_current hcurrent]
      exact Exchange.runRound_course s { y with nextHeight := height }
  | empty => exact course_nil _
  | waits kept =>
    rw [inProgress_of_current kept]
    exact course_nil _
  | @confirmed t x kept =>
    rw [inProgress_of_current kept]
    exact x.confirmed_course t
  | @stopped x kept =>
    rw [inProgress_of_current kept]
    exact Exchange.fail_course { x with pending := [] } .stopped

theorem late (h : StepResult s d e (d', effects)) (later : ¬ e.starts) (idle : ¬ d.inProgress)
    {rep : ExchangeReport} (hrep : .reported rep ∈ effects) :
    (e = .stop ∧ rep.notice = .failed .stopped) ∨
      ∃ t, e = .confirmed t ∧ rep.notice = .failed .lateConfirmation := by
  cases h with
  | @round _ x met =>
    rcases roundIn_eq_some met with ⟨order, rfl, -⟩ | ⟨-, y, height, hcurrent, rfl⟩
    · exact absurd rfl later
    · rw [inProgress_of_current hcurrent] at idle
      rw [opening_of_later d later, Exchange.runRound, if_pos idle] at hrep
      cases hrep
  | empty => cases hrep
  | waits => cases hrep
  | @confirmed t x kept =>
    rw [inProgress_of_current kept] at idle
    refine .inr ⟨t, rfl, ?_⟩
    cases hlookup : x.pending.lookup t with
    | none =>
      rw [Exchange.confirmed_of_unknown hlookup] at hrep
      cases hrep
    | some r =>
      rw [Exchange.confirmed_of_ended hlookup idle] at hrep
      obtain rfl := ExchangeEffect.reported.inj (List.mem_singleton.1 hrep)
      rfl
  | @stopped x kept =>
    rw [inProgress_of_current kept] at idle
    rw [Exchange.stop, Exchange.fail, Exchange.finish, if_neg idle] at hrep
    obtain rfl := ExchangeEffect.reported.inj (List.mem_singleton.1 hrep)
    exact .inl ⟨rfl, rfl⟩

theorem told (h : StepResult s d e (d', effects)) (later : ¬ e.starts) {x : Exchange}
    (kept : d.current = some x) : ToldTo x.order.caller effects := by
  cases h with
  | @round _ x' met =>
    rw [opening_of_later d later, List.nil_append]
    rcases roundIn_eq_some met with ⟨order, rfl, -⟩ | ⟨-, y, height, hcurrent, rfl⟩
    · exact absurd rfl later
    · obtain rfl := Option.some.inj (kept.symm.trans hcurrent)
      exact Exchange.runRound_told s _
  | empty => exact toldTo_nil _
  | waits => exact toldTo_nil _
  | confirmed kept' =>
    obtain rfl := Option.some.inj (kept.symm.trans kept')
    exact Exchange.confirmed_told x _
  | stopped kept' =>
    obtain rfl := Option.some.inj (kept.symm.trans kept')
    exact Exchange.finish_told _ _ _

end StepResult

end Step

variable {settings : ExchangeSettings} {past : List DeskTurn} {turn : DeskTurn}

/-- **A turn first ends the exchange before, and then belongs to the last one.** -/
theorem effects_eq (settings : ExchangeSettings) (past : List DeskTurn) (turn : DeskTurn) :
    effects settings past turn = (after settings past).opening turn.event ++ own settings past turn := by
  rw [own]
  cases hevent : turn.event with
  | start order =>
    rw [effects, hevent]
    rfl
  | _ => rfl

theorem own_of_later (later : ¬ turn.event.starts) : own settings past turn = effects settings past turn := by
  rw [effects_eq, opening_of_later _ later, List.nil_append]

theorem turn_course (settings : ExchangeSettings) (past : List DeskTurn) (later : ¬ turn.event.starts) :
    Course (after settings past).inProgress (after settings (turn :: past)).inProgress (own settings past turn) := by
  rw [own_of_later later]
  exact (turn_result settings past turn).course later

theorem start_course (settings : ExchangeSettings) (past : List DeskTurn) (starts : turn.event.starts) :
    Course (after settings past).inProgress false ((after settings past).opening turn.event) ∧
      Course true (after settings (turn :: past)).inProgress (own settings past turn) := by
  cases hevent : turn.event with
  | start order =>
    refine ⟨opening_course _ order, ?_⟩
    rw [own, after, hevent]
    exact Exchange.runRound_course turn.services { order }
  | _ =>
    rw [hevent] at starts
    cases starts

theorem own_told {order : ExchangeOrder} (horder : lastOrder (turn :: past) = some order) :
    ToldTo order.caller (own settings past turn) := by
  by_cases hstarts : turn.event.starts
  · cases hevent : turn.event with
    | start order' =>
      rw [lastOrder, hevent] at horder
      obtain rfl : order' = order := Option.some.inj horder
      rw [own, hevent]
      exact Exchange.runRound_told turn.services { order := order' }
    | _ =>
      rw [hevent] at hstarts
      cases hstarts
  · rw [lastOrder, ExchangeEvent.order?_of_not_starts hstarts, Option.none_or, ← after_order settings] at horder
    obtain ⟨x, hcurrent, rfl⟩ := Option.map_eq_some_iff.1 horder
    rw [own_of_later hstarts]
    exact (turn_result settings past turn).told hstarts hcurrent

theorem opening_told {order : ExchangeOrder} (horder : lastOrder past = some order) (e : ExchangeEvent) :
    ToldTo order.caller ((after settings past).opening e) := by
  cases e with
  | start new =>
    by_cases hbusy : (after settings past).inProgress
    · obtain ⟨x, hcurrent, -, hopening⟩ := opening_of_busy new hbusy
      rw [← after_order settings, hcurrent] at horder
      obtain rfl : x.order = order := Option.some.inj horder
      rw [hopening]
      exact x.finish_told _ _
    · rw [opening_of_idle hbusy]
      exact toldTo_nil _
  | _ => exact toldTo_nil _

end ExchangeDesk

end SwapStake
