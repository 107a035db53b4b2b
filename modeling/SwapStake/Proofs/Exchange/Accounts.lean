import SwapStake.Proofs.Exchange.Course
/-!
# The accounts of a desk

The counters of a desk that has metrics of its own balance after every history: each exchange that was
started has been counted as completed or as failed, or it runs. Exchanges are numbered from zero in the
order of their starts. `finals` is what one of them has been told at its end and after it; its first
entry is the one that belongs to the end, and no later one is counted (`Story`).
-/

namespace SwapStake

open ExchangeEffect

namespace Metrics

theorem afterExchange_append (m : Metrics) (first later : List ExchangeEffect) :
    m.afterExchange (first ++ later) = (m.afterExchange first).afterExchange later :=
  List.foldl_append

theorem afterExchange_counts (m : Metrics) (effects : List ExchangeEffect) (c : Counter) :
    (m.afterExchange effects).counts c = m.counts c + tally effects c := by
  induction effects generalizing m with
  | nil => rfl
  | cons e effects ih =>
    cases e with
    | counted c' =>
      have hstep : (m.afterExchange (.counted c' :: effects)).counts c =
          ((m.count c').afterExchange effects).counts c := rfl
      have hcounters : (counted c' :: effects).filterMap counter? = c' :: effects.filterMap counter? := rfl
      rw [hstep, ih, count, tally, tally, hcounters, List.count_cons]
      by_cases hc : c = c'
      · simp [hc]
        omega
      · simp [hc, Ne.symm hc]
    | _ => exact ih m

theorem afterExchange_of_uncounted (m : Metrics) {effects : List ExchangeEffect}
    (h : effects.filterMap counter? = []) : m.afterExchange effects = m := by
  induction effects with
  | nil => rfl
  | cons e effects ih =>
    cases e with
    | counted c => simp [counter?] at h
    | _ => exact ih h

end Metrics

namespace ExchangeDesk

/-! ## The balance -/

/-- All that was done in a history, in order. -/
def log (settings : ExchangeSettings) : List DeskTurn → List ExchangeEffect
  | [] => []
  | turn :: past => log settings past ++ effects settings past turn

/-- The metrics of a desk that alone counts in them. -/
def metrics (settings : ExchangeSettings) (past : List DeskTurn) : Metrics :=
  Metrics.afterExchange {} (log settings past)

/-- The orders of all starts, the first one first. -/
def orders : List DeskTurn → List ExchangeOrder
  | [] => []
  | turn :: past => orders past ++ turn.event.order?.toList

section Balance

variable {settings : ExchangeSettings} {past : List DeskTurn} {turn : DeskTurn}

theorem metrics_cons (settings : ExchangeSettings) (past : List DeskTurn) (turn : DeskTurn) :
    metrics settings (turn :: past) = (metrics settings past).afterExchange (effects settings past turn) :=
  Metrics.afterExchange_append _ _ _

theorem metrics_counts (settings : ExchangeSettings) (past : List DeskTurn) (c : Counter) :
    (metrics settings past).counts c = tally (log settings past) c := by
  rw [metrics, Metrics.afterExchange_counts]
  exact Nat.zero_add _

theorem orders_of_later (later : ¬ turn.event.starts) : orders (turn :: past) = orders past := by
  rw [orders, ExchangeEvent.order?_of_not_starts later]
  exact List.append_nil _

theorem orders_length_of_start (past : List DeskTurn) (starts : turn.event.starts) :
    (orders (turn :: past)).length = (orders past).length + 1 := by
  cases hevent : turn.event with
  | start order => rw [orders, hevent, List.length_append]; rfl
  | _ =>
    rw [hevent] at starts
    cases starts

theorem effects_balanced (settings : ExchangeSettings) (past : List DeskTurn) (turn : DeskTurn) :
    let done := effects settings past turn
    turn.event.starts.toNat + (after settings past).inProgress.toNat =
      tally done .exchangesCompleted + tally done .exchangesFailed +
        (after settings (turn :: past)).inProgress.toNat ∧
    tally done .slippageAborts ≤ tally done .exchangesFailed ∧
    tally done .exchangeRounds = (done.filterMap committed?).length := by
  intro done
  by_cases hstarts : turn.event.starts
  · obtain ⟨hopening, hown⟩ := start_course settings past hstarts
    have hfirst := hopening.balanced
    have hlater := hown.balanced
    have hended := hfirst.ended
    have hbegun := hlater.ended
    have haborts := Nat.add_le_add hfirst.aborts hlater.aborts
    simp only [done, effects_eq settings past turn, tally_append, List.filterMap_append, List.length_append,
      hfirst.rounds, hlater.rounds, hstarts]
    simp only [Bool.toNat_true, Bool.toNat_false] at hended hbegun ⊢
    exact ⟨by omega, haborts, trivial⟩
  · have hturn := (turn_course settings past hstarts).balanced
    rw [own_of_later hstarts] at hturn
    rw [Bool.eq_false_iff.2 hstarts, Bool.toNat_false, Nat.zero_add]
    exact ⟨hturn.ended, hturn.aborts, hturn.rounds⟩

theorem log_balanced (settings : ExchangeSettings) (past : List DeskTurn) :
    let done := log settings past
    (orders past).length = tally done .exchangesCompleted + tally done .exchangesFailed +
        (after settings past).inProgress.toNat ∧
    tally done .slippageAborts ≤ tally done .exchangesFailed ∧
    tally done .exchangeRounds = (done.filterMap committed?).length := by
  induction past with
  | nil => exact ⟨rfl, Nat.le_refl _, rfl⟩
  | cons turn past ih =>
    obtain ⟨hended, haborts, hrounds⟩ := ih
    obtain ⟨hturn, hturnAborts, hturnRounds⟩ := effects_balanced settings past turn
    have horders : (orders (turn :: past)).length = (orders past).length + turn.event.starts.toNat := by
      by_cases hstarts : turn.event.starts
      · rw [orders_length_of_start past hstarts, hstarts, Bool.toNat_true]
      · rw [orders_of_later hstarts, Bool.eq_false_iff.2 hstarts, Bool.toNat_false, Nat.add_zero]
    simp only [log, tally_append, List.filterMap_append, List.length_append]
    exact ⟨by omega, by omega, by omega⟩

end Balance

/-! ## What an exchange is told at its end and later -/

/-- A final report, and where in the history it is made. -/
structure FinalReport where
  past : List DeskTurn
  turn : DeskTurn
  report : ExchangeReport

/-- The final reports of a turn to the exchange with the number `k`: as the one that a start finds, or as
the last one. -/
def finalsIn (settings : ExchangeSettings) (past : List DeskTurn) (turn : DeskTurn) (k : Nat) :
    List ExchangeReport :=
  (if k + 1 = (orders past).length then ((after settings past).opening turn.event).filterMap final? else []) ++
    (if k + 1 = (orders (turn :: past)).length then (own settings past turn).filterMap final? else [])

/-- All final reports to the exchange with the number `k`, in order. -/
def finals (settings : ExchangeSettings) (k : Nat) : List DeskTurn → List FinalReport
  | [] => []
  | turn :: past => finals settings k past ++ (finalsIn settings past turn k).map fun rep => ⟨past, turn, rep⟩

/-- The exchange with the number `k` runs. -/
def Runs (settings : ExchangeSettings) (past : List DeskTurn) (k : Nat) : Prop :=
  k + 1 = (orders past).length ∧ (after settings past).inProgress

/-- The exchange with the number `k` ends in a turn: it runs before it or is started in it, and does not
run afterwards. -/
def Ends (settings : ExchangeSettings) (past : List DeskTurn) (turn : DeskTurn) (k : Nat) : Prop :=
  (Runs settings past k ∨ turn.event.starts ∧ k = (orders past).length) ∧ ¬ Runs settings (turn :: past) k

/-- A report that comes after the end: of a stop, or of a confirmation that is too late. It tells of a
failure, and nothing is counted in its turn. -/
structure Late (settings : ExchangeSettings) (f : FinalReport) : Prop where
  ended : ¬ (after settings f.past).inProgress
  cause : (f.turn.event = .stop ∧ f.report.notice = .failed .stopped) ∨
    ∃ t, f.turn.event = .confirmed t ∧ f.report.notice = .failed .lateConfirmation
  failure : f.report.notice.success = false
  uncounted : metrics settings (f.turn :: f.past) = metrics settings f.past

/-- What an exchange has been told: while it runs nothing final, and then one final report in the turn of
its end and, after that one, only late ones. All of it goes to the caller of its order. -/
structure Story (settings : ExchangeSettings) (past : List DeskTurn) (k : Nat) (order : ExchangeOrder) : Prop where
  told : ∀ f ∈ finals settings k past, f.report.caller = order.caller
  running : Runs settings past k → finals settings k past = []
  ended : ¬ Runs settings past k → ∃ last later, finals settings k past = last :: later ∧
    Ends settings last.past last.turn k ∧ ∀ f ∈ later, Late settings f

section Finals

variable {settings : ExchangeSettings} {past : List DeskTurn} {turn : DeskTurn} {k : Nat} {order : ExchangeOrder}

theorem finals_of_unborn (settings : ExchangeSettings) (unborn : (orders past).length ≤ k) :
    finals settings k past = [] := by
  induction past with
  | nil => rfl
  | cons turn past ih =>
    have hbefore : (orders past).length ≤ k := by
      rw [orders, List.length_append] at unborn
      omega
    have hin : finalsIn settings past turn k = [] := by
      rw [finalsIn, if_neg (by omega), if_neg (by omega)]
      rfl
    rw [finals, ih hbefore, hin]
    rfl

theorem lastOrder_eq (past : List DeskTurn) : lastOrder past = (orders past).getLast? := by
  induction past with
  | nil => rfl
  | cons turn past ih =>
    rw [lastOrder, orders, ih]
    cases turn.event.order? with
    | none => rw [Option.none_or, Option.toList_none, List.append_nil]
    | some order => rw [Option.some_or, Option.toList_some, List.getLast?_concat]

theorem lastOrder_of_number (hlast : k + 1 = (orders past).length) (horder : (orders past)[k]? = some order) :
    lastOrder past = some order := by
  rw [lastOrder_eq, List.getLast?_eq_getElem?, ← hlast]
  exact horder

theorem caller_of_final {caller : String} {done : List ExchangeEffect} (h : ToldTo caller done) :
    ∀ rep ∈ done.filterMap final?, rep.caller = caller := by
  intro rep hrep
  obtain ⟨e, he, hfinal⟩ := List.mem_filterMap.1 hrep
  obtain rfl := final?_eq_some hfinal
  exact h rep he

theorem finalsIn_told (horder : (orders (turn :: past))[k]? = some order) :
    ∀ rep ∈ finalsIn settings past turn k, rep.caller = order.caller := by
  intro rep hrep
  rcases List.mem_append.1 hrep with hrep | hrep
  · split at hrep
    · rename_i hlast
      have hearlier : (orders past)[k]? = some order := by
        rw [orders, List.getElem?_append_left (by omega)] at horder
        exact horder
      exact caller_of_final (opening_told (lastOrder_of_number hlast hearlier) turn.event) rep hrep
    · cases hrep
  · split at hrep
    · rename_i hlast
      exact caller_of_final (own_told (lastOrder_of_number hlast horder)) rep hrep
    · cases hrep

theorem late_of_ended (later : ¬ turn.event.starts) (idle : ¬ (after settings past).inProgress)
    {rep : ExchangeReport} (hrep : rep ∈ (own settings past turn).filterMap final?) :
    Late settings ⟨past, turn, rep⟩ := by
  have hcourse := turn_course settings past later
  rw [own_of_later later] at hrep hcourse
  obtain ⟨e, he, hfinal⟩ := List.mem_filterMap.1 hrep
  obtain rfl := final?_eq_some hfinal
  have hcause := (turn_result settings past turn).late later idle he
  have huncounted : metrics settings (turn :: past) = metrics settings past := by
    rw [metrics_cons]
    rw [Bool.eq_false_iff.2 idle] at hcourse
    generalize (after settings (turn :: past)).inProgress = busy' at hcourse
    cases hcourse with
    | ended _ counters => exact Metrics.afterExchange_of_uncounted _ counters
  refine ⟨idle, hcause, ?_, huncounted⟩
  rcases hcause with ⟨-, hnotice⟩ | ⟨t, -, hnotice⟩
  · dsimp only
    rw [hnotice]
    rfl
  · dsimp only
    rw [hnotice]
    rfl

/-! ### One turn of a story -/

theorem finals_cons_of_silent (silent : finalsIn settings past turn k = []) :
    finals settings k (turn :: past) = finals settings k past := by
  rw [finals, silent]
  exact List.append_nil _

theorem finals_cons_of_one {rep : ExchangeReport} (fresh : finals settings k past = [])
    (once : finalsIn settings past turn k = [rep]) : finals settings k (turn :: past) = [⟨past, turn, rep⟩] := by
  rw [finals, fresh, once]
  rfl

theorem story_of_end {rep : ExchangeReport} (horder : (orders (turn :: past))[k]? = some order)
    (fresh : finals settings k past = []) (once : finalsIn settings past turn k = [rep])
    (ends : Ends settings past turn k) : Story settings (turn :: past) k order where
  told := by
    rw [finals_cons_of_one fresh once, List.forall_mem_singleton]
    exact finalsIn_told horder rep (once ▸ List.mem_singleton_self rep)
  running runs := absurd runs ends.2
  ended _ := ⟨⟨past, turn, rep⟩, [], finals_cons_of_one fresh once, ends, List.forall_mem_nil _⟩

theorem story_of_running (fresh : finals settings k past = []) (silent : finalsIn settings past turn k = [])
    (runs : Runs settings (turn :: past) k) : Story settings (turn :: past) k order where
  told := by
    rw [finals_cons_of_silent silent, fresh]
    exact List.forall_mem_nil _
  running _ := by rw [finals_cons_of_silent silent, fresh]
  ended idle := absurd runs idle

theorem story_of_late (story : Story settings past k order) (horder : (orders (turn :: past))[k]? = some order)
    (idle : ¬ Runs settings past k) (idle' : ¬ Runs settings (turn :: past) k)
    (late : ∀ rep ∈ finalsIn settings past turn k, Late settings ⟨past, turn, rep⟩) :
    Story settings (turn :: past) k order where
  told := by
    intro f hf
    rcases List.mem_append.1 hf with hf | hf
    · exact story.told f hf
    · obtain ⟨rep, hrep, rfl⟩ := List.mem_map.1 hf
      exact finalsIn_told horder rep hrep
  running runs := absurd runs idle'
  ended _ := by
    obtain ⟨last, later, hfinals, hends, hlate⟩ := story.ended idle
    refine ⟨last, later ++ (finalsIn settings past turn k).map fun rep => ⟨past, turn, rep⟩, ?_, hends, ?_⟩
    · rw [finals, hfinals, List.cons_append]
    · intro f hf
      rcases List.mem_append.1 hf with hf | hf
      · exact hlate f hf
      · obtain ⟨rep, hrep, rfl⟩ := List.mem_map.1 hf
        exact late rep hrep

theorem story_of_born (starts : turn.event.starts) (born : k = (orders past).length)
    (horder : (orders (turn :: past))[k]? = some order) : Story settings (turn :: past) k order := by
  have hlength := orders_length_of_start past starts
  have hfresh : finals settings k past = [] := finals_of_unborn settings (by omega)
  have hin : finalsIn settings past turn k = (own settings past turn).filterMap final? := by
    rw [finalsIn, if_neg (by omega), if_pos (by omega), List.nil_append]
  have hown := (start_course settings past starts).2
  by_cases hbusy : (after settings (turn :: past)).inProgress
  · rw [hbusy] at hown
    cases hown with
    | goesOn finals => exact story_of_running hfresh (hin.trans finals) ⟨by omega, hbusy⟩
  · rw [Bool.eq_false_iff.2 hbusy] at hown
    cases hown with
    | ends finals =>
      obtain ⟨rep, hrep⟩ := finals
      exact story_of_end horder hfresh (hin.trans hrep) ⟨.inr ⟨starts, born⟩, fun runs => hbusy runs.2⟩

theorem story_of_replaced (starts : turn.event.starts) (last : k + 1 = (orders past).length)
    (horder : (orders (turn :: past))[k]? = some order) (story : Story settings past k order) :
    Story settings (turn :: past) k order := by
  have hlength := orders_length_of_start past starts
  have hin : finalsIn settings past turn k = ((after settings past).opening turn.event).filterMap final? := by
    rw [finalsIn, if_pos last, if_neg (by omega), List.append_nil]
  have hidle' : ¬ Runs settings (turn :: past) k := fun runs => by
    have := runs.1
    omega
  have hopening := (start_course settings past starts).1
  by_cases hbusy : (after settings past).inProgress
  · rw [hbusy] at hopening
    cases hopening with
    | ends finals =>
      obtain ⟨rep, hrep⟩ := finals
      exact story_of_end horder (story.running ⟨last, hbusy⟩) (hin.trans hrep) ⟨.inl ⟨last, hbusy⟩, hidle'⟩
  · refine story_of_late story horder (fun runs => hbusy runs.2) hidle' ?_
    rw [hin, opening_of_idle hbusy]
    exact List.forall_mem_nil _

theorem story_of_kept (later : ¬ turn.event.starts) (last : k + 1 = (orders past).length)
    (horder : (orders (turn :: past))[k]? = some order) (story : Story settings past k order) :
    Story settings (turn :: past) k order := by
  have hlast' : k + 1 = (orders (turn :: past)).length := by rwa [orders_of_later later]
  have hin : finalsIn settings past turn k = (own settings past turn).filterMap final? := by
    rw [finalsIn, if_pos last, if_pos hlast', opening_of_later _ later]
    rfl
  have hturn := turn_course settings past later
  by_cases hbusy : (after settings past).inProgress
  · have hfresh := story.running ⟨last, hbusy⟩
    rw [hbusy] at hturn
    by_cases hbusy' : (after settings (turn :: past)).inProgress
    · rw [hbusy'] at hturn
      cases hturn with
      | goesOn finals => exact story_of_running hfresh (hin.trans finals) ⟨hlast', hbusy'⟩
    · rw [Bool.eq_false_iff.2 hbusy'] at hturn
      cases hturn with
      | ends finals =>
        obtain ⟨rep, hrep⟩ := finals
        exact story_of_end horder hfresh (hin.trans hrep) ⟨.inl ⟨last, hbusy⟩, fun runs => hbusy' runs.2⟩
  · have hidle' : ¬ (after settings (turn :: past)).inProgress := fun hbusy' =>
      hbusy ((turn_result settings past turn).inProgress_of_later later hbusy')
    refine story_of_late story horder (fun runs => hbusy runs.2) (fun runs => hidle' runs.2) fun rep hrep => ?_
    exact late_of_ended later hbusy (hin ▸ hrep)

theorem story_of_past (earlier : k + 1 < (orders past).length)
    (horder : (orders (turn :: past))[k]? = some order) (story : Story settings past k order) :
    Story settings (turn :: past) k order := by
  have hlength : (orders past).length ≤ (orders (turn :: past)).length := by
    rw [orders, List.length_append]
    exact Nat.le_add_right _ _
  have hin : finalsIn settings past turn k = [] := by
    rw [finalsIn, if_neg (by omega), if_neg (by omega)]
    rfl
  refine story_of_late story horder (fun runs => by have := runs.1; omega) (fun runs => by have := runs.1; omega) ?_
  rw [hin]
  exact List.forall_mem_nil _

theorem after_story (settings : ExchangeSettings) (past : List DeskTurn) :
    ∀ k order, (orders past)[k]? = some order → Story settings past k order := by
  induction past with
  | nil =>
    intro k order horder
    cases horder
  | cons turn past ih =>
    intro k order horder
    rcases Nat.lt_or_ge k (orders past).length with hold | hnew
    · have hstory : Story settings past k order := by
        refine ih k order ?_
        rwa [orders, List.getElem?_append_left hold] at horder
      by_cases hlast : k + 1 = (orders past).length
      · by_cases hstarts : turn.event.starts
        · exact story_of_replaced hstarts hlast horder hstory
        · exact story_of_kept hstarts hlast horder hstory
      · exact story_of_past (by omega) horder hstory
    · have hk : k < (orders (turn :: past)).length := (List.getElem?_eq_some_iff.1 horder).1
      have hstarts : turn.event.starts := by
        refine Decidable.byContradiction fun hlater => ?_
        rw [orders_of_later hlater] at hk
        omega
      have hlength := orders_length_of_start past hstarts
      exact story_of_born hstarts (by omega) horder

end Finals

/-- **The accounts of a desk balance, and each exchange is told of its end once.** Every exchange that was
started is counted as completed or as failed, or it runs; the price has slipped in no more of them than
failed; and as many rounds are counted as transactions were to be relayed. An exchange is told nothing
final while it runs. In the turn of its end it is told the first final report; all others are late ones,
of a stop or of a confirmation after the end, tell of a failure and come with nothing that is counted. -/
theorem exchange_accounts (settings : ExchangeSettings) (past : List DeskTurn) :
    (orders past).length = (metrics settings past).counts .exchangesCompleted +
      (metrics settings past).counts .exchangesFailed + (after settings past).inProgress.toNat ∧
    (metrics settings past).counts .slippageAborts ≤ (metrics settings past).counts .exchangesFailed ∧
    (metrics settings past).counts .exchangeRounds =
      ((log settings past).filterMap ExchangeEffect.committed?).length ∧
    (∀ k order, (orders past)[k]? = some order → Story settings past k order) := by
  obtain ⟨hended, haborts, hrounds⟩ := log_balanced settings past
  simp only [metrics_counts]
  exact ⟨hended, haborts, hrounds, after_story settings past⟩

/-- An exchange that another one replaces, whose transaction is confirmed, and which is then stopped. -/
def twoExchanges : List DeskTurn :=
  [⟨trialServices 2000000 2, .stop⟩, ⟨trialServices 2000000 2, .confirmed (.ofBytes [2])⟩,
    ⟨trialServices 2000000 2, .start trialSale⟩, ⟨trialServices 2000000 1, .start trialSale⟩]

theorem exchange_accounts_replaced :
    (metrics {} twoExchanges).counts .exchangesFailed = 1 ∧
      (metrics {} twoExchanges).counts .exchangesCompleted = 1 ∧
      (finals {} 1 twoExchanges).length = 2 ∧ Story {} twoExchanges 1 trialSale := by
  have hfailed : (metrics {} twoExchanges).counts .exchangesFailed = 1 := by decide +kernel
  have hidle : (after {} twoExchanges).inProgress = false := by decide +kernel
  have hfinals : (finals {} 1 twoExchanges).length = 2 := by decide +kernel
  obtain ⟨hbalance, -, -, hstory⟩ := exchange_accounts {} twoExchanges
  rw [hfailed, hidle] at hbalance
  exact ⟨hfailed, (Nat.succ.inj hbalance).symm, hfinals, hstory 1 trialSale rfl⟩

end ExchangeDesk

end SwapStake
