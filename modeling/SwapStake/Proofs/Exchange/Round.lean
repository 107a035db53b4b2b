import SwapStake.Exchange.Handle
import SwapStake.Proofs.Answers
/-!
# What a round can do

A round either has nothing to do, or ends the exchange, or submits one transaction. It submits one
exactly when nothing stands in the way (`Exchange.Cleared`), and an exchange that goes on after a
round has submitted one in it. `runRound_result` says so once; everything else about rounds is read
off its three cases.
-/

namespace SwapStake

/-- The transaction that the wallet is asked to relay, and whether it does. -/
def ExchangeEffect.committed? : ExchangeEffect → Option (Transaction × Bool)
  | .committed t ok => some (t, ok)
  | _ => none

theorem mem_filterMap_committed {effects : List ExchangeEffect} {t : Transaction} {ok : Bool} :
    (t, ok) ∈ effects.filterMap ExchangeEffect.committed? ↔ .committed t ok ∈ effects := by
  rw [List.mem_filterMap]
  constructor
  · rintro ⟨e, he, hcommitted⟩
    cases e with
    | committed t' ok' =>
      obtain ⟨rfl, rfl⟩ : t' = t ∧ ok' = ok := by simpa [ExchangeEffect.committed?] using hcommitted
      exact he
    | _ => cases hcommitted
  · intro h
    exact ⟨_, h, rfl⟩

/-- Whether the wallet relays a transaction. -/
def ExchangeServices.relays (s : ExchangeServices) (t : Transaction) : Bool :=
  match s.commit t with
  | .ok _ => true
  | .error _ => false

/-- Whether the caller is told that the exchange is over and has succeeded. -/
def ExchangeEffect.completes : ExchangeEffect → Bool
  | .reported r => r.notice.success && r.notice.terminal
  | _ => false

namespace ExchangeServices

variable {s : ExchangeServices} {r : SwapRequest} {name : String}

theorem poolName_eq_ok_iff :
    s.poolName r = .ok name ↔ (s.directory.isNative r.source ∨ s.directory.isNative r.destination) ∧
      s.directory.pairName r.source r.destination = .ok name := by
  unfold poolName
  split
  · rename_i hnative
    rw [mapError_eq_ok_iff, and_iff_right hnative]
  · rename_i hforeign
    simp [hforeign]

theorem planIn_eq_ok_iff {plan : Plan} :
    s.planIn name r = .ok plan ↔ ∃ pool, s.pool name = .ok pool ∧ ¬ s.directory.isNative pool.token1 ∧
      Plan.inPool [pool] r = .ok plan := by
  rw [planIn, bind_eq_ok_iff]
  refine exists_congr fun pool => ?_
  rw [mapError_eq_ok_iff, guard_eq_ok_iff, mapError_eq_ok_iff]

end ExchangeServices

namespace Exchange

variable {s : ExchangeServices} {x : Exchange}

/-- What the wallet is asked to build for a plan. -/
def buildOrder (s : ExchangeServices) (x : Exchange) (plan : Plan) : BuildOrder :=
  { account := x.order.account
    plan
    legs := plan.legs s.lpAddress (s.walletAddress x.order.account)
    fakeOuts := x.order.fakeOuts }

/-- The plan that a round is quoted, if it gets that far. -/
def quotedPlan? (s : ExchangeServices) (x : Exchange) : Option Plan :=
  if ¬ x.running ∨ x.order.maxRounds ≤ x.round then none
  else
    match s.poolName x.order.request with
    | .error _ => none
    | .ok name =>
      match s.planIn name x.order.request with
      | .error _ => none
      | .ok plan => some plan

/-- Nothing stands in the way of a round. The exchange runs and has a round left; the pool of the
pair is there, with the native coin second, and allows the request; the price is not too much worse
than `first`; and the wallet has built one transaction of the plan and its legs. -/
structure Cleared (s : ExchangeServices) (x : Exchange) (first : Float) (name : String) (pool : Pool)
    (plan : Plan) (t : Transaction) : Prop where
  running : x.running
  budget : x.round < x.order.maxRounds
  native : s.directory.isNative x.order.request.source ∨ s.directory.isNative x.order.request.destination
  named : s.directory.pairName x.order.request.source x.order.request.destination = .ok name
  found : s.pool name = .ok pool
  nativeSecond : ¬ s.directory.isNative pool.token1
  planned : Plan.inPool [pool] x.order.request = .ok plan
  steady : ¬ x.order.maxSlippage < x.order.request.side.slippage first plan.rate
  built : s.build (x.buildOrder s plan) = .ok [t]

/-- The same exchange, but for what is known of prices. -/
structure Resembles (y x : Exchange) : Prop where
  order : y.order = x.order
  running : y.running = x.running
  pending : y.pending = x.pending
  round : y.round = x.round
  nextHeight : y.nextHeight = x.nextHeight

/-- What a round has done when it fails: it may have asked for the pool, and then either counted that the
price has slipped or had transactions built. -/
inductive Preamble : ExchangeFailure → List ExchangeEffect → Prop
  | nothing {failure : ExchangeFailure} : Preamble failure []
  | asked {failure : ExchangeFailure} {name : String} : Preamble failure [.asked name]
  | slipped {name : String} : Preamble .slippage [.asked name, .counted .slippageAborts]
  | built {failure : ExchangeFailure} {name : String} {order : BuildOrder} :
      Preamble failure [.asked name, .built order]

theorem Preamble.quiet {failure : ExchangeFailure} {before : List ExchangeEffect} (h : Preamble failure before) :
    ∀ e ∈ before, e.committed? = none ∧ e.completes = false := by
  cases h <;> simp [ExchangeEffect.committed?, ExchangeEffect.completes]

/-- What a round leads to. -/
inductive RoundResult (s : ExchangeServices) (x : Exchange) : Exchange × List ExchangeEffect → Prop
  | idle (ended : ¬ x.running) (quote : x.quotedPlan? s = none) : RoundResult s x (x, [])
  | failed {y : Exchange} {before : List ExchangeEffect} {failure : ExchangeFailure} (running : x.running)
      (resembles : y.Resembles x) (first : y.firstRate = x.firstRate.or ((x.quotedPlan? s).map Plan.rate))
      (preamble : Preamble failure before)
      (refused : ∀ name pool plan t, ¬ x.Cleared s (x.firstRate.getD plan.rate) name pool plan t) :
      RoundResult s x ((y.fail failure).1, before ++ (y.fail failure).2)
  | submitted {name : String} {pool : Pool} {plan : Plan} {t : Transaction}
      (cleared : x.Cleared s (x.firstRate.getD plan.rate) name pool plan t) :
      RoundResult s x (((x.quoted plan).submit s plan t).1,
        [.asked name, .built (x.buildOrder s plan)] ++ ((x.quoted plan).submit s plan t).2)

theorem Cleared.unique {first first' : Float} {name name' : String} {pool pool' : Pool} {plan plan' : Plan}
    {t t' : Transaction} (h : x.Cleared s first name pool plan t) (h' : x.Cleared s first' name' pool' plan' t') :
    name = name' ∧ pool = pool' ∧ plan = plan' ∧ t = t' := by
  obtain rfl := Except.ok.inj (h.named.symm.trans h'.named)
  obtain rfl := Except.ok.inj (h.found.symm.trans h'.found)
  obtain rfl := Except.ok.inj (h.planned.symm.trans h'.planned)
  have hbuilt := Except.ok.inj (h.built.symm.trans h'.built)
  exact ⟨rfl, rfl, rfl, List.head_eq_of_cons_eq hbuilt⟩

theorem Resembles.refl (x : Exchange) : x.Resembles x :=
  ⟨rfl, rfl, rfl, rfl, rfl⟩

theorem quoted_resembles (x : Exchange) (plan : Plan) : (x.quoted plan).Resembles x :=
  ⟨rfl, rfl, rfl, rfl, rfl⟩

theorem quoted_firstRate (x : Exchange) (plan : Plan) :
    (x.quoted plan).firstRate = x.firstRate.or (some plan.rate) := by
  unfold quoted
  cases x.firstRate with
  | none => rfl
  | some first => rfl

/-! ## The exits of a round -/

theorem quotedPlan?_eq (hrunning : x.running) (hbudget : x.round < x.order.maxRounds) :
    x.quotedPlan? s = match s.poolName x.order.request with
      | .error _ => none
      | .ok name => match s.planIn name x.order.request with
        | .error _ => none
        | .ok plan => some plan := by
  rw [quotedPlan?, if_neg (by simp [hrunning, hbudget])]

theorem Cleared.quote {first : Float} {name : String} {pool : Pool} {plan : Plan} {t : Transaction}
    (h : x.Cleared s first name pool plan t) : x.quotedPlan? s = some plan := by
  have hname : s.poolName x.order.request = .ok name :=
    ExchangeServices.poolName_eq_ok_iff.2 ⟨h.native, h.named⟩
  have hplan : s.planIn name x.order.request = .ok plan :=
    ExchangeServices.planIn_eq_ok_iff.2 ⟨pool, h.found, h.nativeSecond, h.planned⟩
  rw [quotedPlan?_eq h.running h.budget, hname]
  dsimp only
  rw [hplan]

theorem failed_without_quote (hrunning : x.running) (hquote : x.quotedPlan? s = none)
    {failure : ExchangeFailure} {before : List ExchangeEffect} (preamble : Preamble failure before) :
    RoundResult s x ((x.fail failure).1, before ++ (x.fail failure).2) := by
  refine .failed hrunning (.refl x) ?_ preamble fun name pool plan t hcleared => ?_
  · rw [hquote, Option.map_none, Option.or_none]
  · rw [hcleared.quote] at hquote
    cases hquote

theorem failed_with_quote {plan : Plan} (hrunning : x.running) (hquote : x.quotedPlan? s = some plan)
    {failure : ExchangeFailure} {before : List ExchangeEffect} (preamble : Preamble failure before)
    (refused : ∀ name pool t, ¬ x.Cleared s (x.firstRate.getD plan.rate) name pool plan t) :
    RoundResult s x (((x.quoted plan).fail failure).1, before ++ ((x.quoted plan).fail failure).2) := by
  refine .failed hrunning (quoted_resembles x plan) ?_ preamble fun name pool plan' t hcleared => ?_
  · rw [quoted_firstRate, hquote]
    rfl
  · rw [hcleared.quote] at hquote
    obtain rfl := Option.some.inj hquote
    exact refused name pool t hcleared

section Planned

variable {name : String} {plan : Plan}

theorem buildAndSubmit_of_built {t : Transaction} (h : s.build (x.buildOrder s plan) = .ok [t]) :
    x.buildAndSubmit s plan = precededBy [.built (x.buildOrder s plan)] (x.submit s plan t) := by
  unfold buildOrder at h
  unfold buildAndSubmit
  dsimp only
  rw [h]
  rfl

theorem buildAndSubmit_of_unbuilt (h : ∀ t, s.build (x.buildOrder s plan) ≠ .ok [t]) :
    ∃ failure, x.buildAndSubmit s plan = precededBy [.built (x.buildOrder s plan)] (x.fail failure) := by
  cases hanswer : s.build (x.buildOrder s plan) with
  | error e =>
    refine ⟨.build e, ?_⟩
    unfold buildOrder at hanswer
    unfold buildAndSubmit
    dsimp only
    rw [hanswer]
    rfl
  | ok ts =>
    refine ⟨.transactionCount ts.length, ?_⟩
    unfold buildAndSubmit
    unfold buildOrder at hanswer
    dsimp only
    rw [hanswer]
    rcases ts with _ | ⟨t, _ | ⟨t', ts⟩⟩
    · rfl
    · exact absurd hanswer (h t)
    · rfl

theorem buildAndSubmit_result (hrunning : x.running) (hbudget : x.round < x.order.maxRounds)
    (hname : s.poolName x.order.request = .ok name) (hplan : s.planIn name x.order.request = .ok plan)
    (hquote : x.quotedPlan? s = some plan) (hsteady : ¬ x.order.maxSlippage < (x.quoted plan).slippage) :
    RoundResult s x (precededBy [.asked name] ((x.quoted plan).buildAndSubmit s plan)) := by
  by_cases hbuilt : ∃ t, s.build ((x.quoted plan).buildOrder s plan) = .ok [t]
  · obtain ⟨t, hbuild⟩ := hbuilt
    obtain ⟨hnative, hpair⟩ := ExchangeServices.poolName_eq_ok_iff.1 hname
    obtain ⟨pool, hpool, htoken, hinPool⟩ := ExchangeServices.planIn_eq_ok_iff.1 hplan
    rw [buildAndSubmit_of_built hbuild]
    exact .submitted ⟨hrunning, hbudget, hnative, hpair, hpool, htoken, hinPool, hsteady, hbuild⟩
  · rw [not_exists] at hbuilt
    obtain ⟨failure, hfailed⟩ := buildAndSubmit_of_unbuilt hbuilt
    rw [hfailed]
    exact failed_with_quote hrunning hquote .built fun _ _ t hcleared => hbuilt t hcleared.built

theorem accept_result (hrunning : x.running) (hbudget : x.round < x.order.maxRounds)
    (hname : s.poolName x.order.request = .ok name) (hplan : s.planIn name x.order.request = .ok plan) :
    RoundResult s x (precededBy [.asked name] ((x.quoted plan).accept s plan)) := by
  have hquote : x.quotedPlan? s = some plan := by
    rw [quotedPlan?_eq hrunning hbudget, hname]
    dsimp only
    rw [hplan]
  unfold accept
  split
  · rename_i hslipped
    exact failed_with_quote hrunning hquote .slipped fun _ _ _ hcleared => hcleared.steady hslipped
  · rename_i hsteady
    exact buildAndSubmit_result hrunning hbudget hname hplan hquote hsteady

end Planned

/-- **A round has nothing to do, or fails, or submits.** -/
theorem runRound_result (s : ExchangeServices) (x : Exchange) : RoundResult s x (x.runRound s) := by
  unfold runRound
  split
  · rename_i hended
    exact .idle hended (by rw [quotedPlan?, if_pos (.inl hended)])
  · rename_i hrunning
    rw [Decidable.not_not] at hrunning
    split
    · rename_i hspent
      exact failed_without_quote hrunning (by rw [quotedPlan?, if_pos (.inr hspent)]) .nothing
    · rename_i hbudget
      rw [UInt32.not_le] at hbudget
      cases hname : s.poolName x.order.request with
      | error e =>
        have hquote : x.quotedPlan? s = none := by
          rw [quotedPlan?_eq hrunning hbudget, hname]
        exact failed_without_quote hrunning hquote .nothing
      | ok name =>
        cases hplan : s.planIn name x.order.request with
        | error e =>
          have hquote : x.quotedPlan? s = none := by
            rw [quotedPlan?_eq hrunning hbudget, hname]
            dsimp only
            rw [hplan]
          dsimp only
          rw [hplan]
          exact failed_without_quote hrunning hquote .asked
        | ok plan =>
          dsimp only
          rw [hplan]
          exact accept_result hrunning hbudget hname hplan

/-! ## What a round leaves behind -/

theorem fail_quiet (x : Exchange) (failure : ExchangeFailure) :
    ∀ e ∈ (x.fail failure).2, e.committed? = none ∧ e.completes = false := by
  intro e he
  rcases List.mem_append.1 he with he | he
  · split at he
    · obtain rfl := List.mem_singleton.1 he
      exact ⟨rfl, rfl⟩
    · cases he
  · obtain rfl := List.mem_singleton.1 he
    exact ⟨rfl, rfl⟩

theorem stop_quiet (x : Exchange) : ∀ e ∈ x.stop.2, e.committed? = none ∧ e.completes = false :=
  fail_quiet _ _

section Submit

variable (s : ExchangeServices) (x : Exchange) (plan : Plan) (t : Transaction)

theorem submit_order : (x.submit s plan t).1.order = x.order := by
  unfold submit
  cases s.commit t <;> rfl

theorem submit_running : (x.submit s plan t).1.running = x.running := by
  unfold submit
  cases s.commit t <;> rfl

theorem submit_firstRate : (x.submit s plan t).1.firstRate = x.firstRate := by
  unfold submit
  cases s.commit t <;> rfl

theorem submit_round : (x.submit s plan t).1.round = x.round + 1 := by
  unfold submit
  cases s.commit t <;> rfl

theorem submit_nextHeight : (x.submit s plan t).1.nextHeight = x.nextHeight := by
  unfold submit
  cases s.commit t <;> rfl

theorem submit_effects : ∃ later, (x.submit s plan t).2 =
    [x.report (.built (x.summary s plan t.fee)) (some t.id), .counted .exchangeRounds] ++
      .committed t (s.relays t) :: later := by
  unfold submit ExchangeServices.relays
  cases s.commit t with
  | ok _ => exact ⟨[], rfl⟩
  | error e => exact ⟨_, rfl⟩

theorem submit_commits : (x.submit s plan t).2.filterMap ExchangeEffect.committed? = [(t, s.relays t)] := by
  unfold submit ExchangeServices.relays
  cases s.commit t <;> rfl

theorem submit_completes : ∀ e ∈ (x.submit s plan t).2, e.completes = false := by
  unfold submit
  cases s.commit t <;> simp [ExchangeEffect.completes, report, Notice.terminal]

theorem submit_pending : (x.submit s plan t).1.pending =
    if s.relays t then (t.id, ⟨x.rate, x.slippage, x.round + 1⟩) :: x.pending.filter fun e => e.1 ≠ t.id
    else x.pending := by
  unfold submit ExchangeServices.relays
  cases s.commit t <;> rfl

theorem mem_submit_pending {id : Hash256} {r : RelayedRound} :
    (id, r) ∈ (x.submit s plan t).1.pending ↔
      (s.relays t ∧ id = t.id ∧ r = ⟨x.rate, x.slippage, x.round + 1⟩) ∨
        (¬ (s.relays t ∧ id = t.id) ∧ (id, r) ∈ x.pending) := by
  rw [submit_pending]
  by_cases hrelays : s.relays t
  · simp [hrelays, and_comm]
  · simp [hrelays]

end Submit

theorem filterMap_committed_of_quiet {effects : List ExchangeEffect}
    (h : ∀ e ∈ effects, e.committed? = none ∧ e.completes = false) :
    effects.filterMap ExchangeEffect.committed? = [] := by
  rw [List.filterMap_eq_nil_iff]
  exact fun e he => (h e he).1

section Round

variable (s : ExchangeServices) (x : Exchange)

theorem runRound_order : (x.runRound s).1.order = x.order := by
  have h := runRound_result s x
  generalize x.runRound s = result at h ⊢
  cases h with
  | idle => rfl
  | failed _ resembles => exact resembles.order
  | submitted => exact submit_order ..

theorem runRound_nextHeight : (x.runRound s).1.nextHeight = x.nextHeight := by
  have h := runRound_result s x
  generalize x.runRound s = result at h ⊢
  cases h with
  | idle => rfl
  | failed _ resembles => exact resembles.nextHeight
  | submitted => exact submit_nextHeight ..

theorem runRound_effects_ne_nil {x : Exchange} (hrunning : x.running) : (x.runRound s).2 ≠ [] := by
  have h := runRound_result s x
  generalize x.runRound s = result at h ⊢
  cases h with
  | idle ended => exact absurd hrunning ended
  | failed => simp [fail, finish]
  | submitted => simp

theorem runRound_firstRate :
    (x.runRound s).1.firstRate = x.firstRate.or ((x.quotedPlan? s).map Plan.rate) := by
  have h := runRound_result s x
  generalize x.runRound s = result at h ⊢
  cases h with
  | idle _ quote => rw [quote, Option.map_none, Option.or_none]
  | failed _ _ first => exact first
  | submitted cleared =>
    rw [cleared.quote, submit_firstRate, quoted_firstRate]
    rfl

theorem runRound_completes : ∀ e ∈ (x.runRound s).2, e.completes = false := by
  have h := runRound_result s x
  generalize x.runRound s = result at h ⊢
  intro e he
  cases h with
  | idle => cases he
  | failed _ _ _ preamble =>
    rcases List.mem_append.1 he with he | he
    · exact (preamble.quiet e he).2
    · exact (fail_quiet _ _ e he).2
  | submitted =>
    rcases List.mem_append.1 he with he | he
    · rw [List.mem_cons, List.mem_singleton] at he
      rcases he with rfl | rfl
      · rfl
      · rfl
    · exact submit_completes _ _ _ _ e he

theorem cleared_or_refused (s : ExchangeServices) (x : Exchange) :
    (∃ name pool plan t, x.Cleared s (x.firstRate.getD plan.rate) name pool plan t) ∨
      ∀ name pool plan t, ¬ x.Cleared s (x.firstRate.getD plan.rate) name pool plan t := by
  by_cases hcleared : ∃ name pool plan t, x.Cleared s (x.firstRate.getD plan.rate) name pool plan t
  · exact .inl hcleared
  · simp only [not_exists] at hcleared
    exact .inr hcleared

theorem runRound_of_cleared {s : ExchangeServices} {x : Exchange} {name : String} {pool : Pool} {plan : Plan}
    {t : Transaction} (hcleared : x.Cleared s (x.firstRate.getD plan.rate) name pool plan t) :
    x.runRound s = (((x.quoted plan).submit s plan t).1,
      [.asked name, .built (x.buildOrder s plan)] ++ ((x.quoted plan).submit s plan t).2) := by
  have h := runRound_result s x
  generalize x.runRound s = result at h ⊢
  cases h with
  | idle ended => exact absurd hcleared.running ended
  | failed _ _ _ _ refused => exact absurd hcleared (refused name pool plan t)
  | submitted cleared =>
    obtain ⟨rfl, rfl, rfl, rfl⟩ := hcleared.unique cleared
    rfl

theorem runRound_of_refused {s : ExchangeServices} {x : Exchange}
    (hrefused : ∀ name pool plan t, ¬ x.Cleared s (x.firstRate.getD plan.rate) name pool plan t) :
    (x.runRound s).2.filterMap ExchangeEffect.committed? = [] ∧ ¬ (x.runRound s).1.running ∧
      (x.runRound s).1.pending = x.pending := by
  have h := runRound_result s x
  generalize x.runRound s = result at h ⊢
  cases h with
  | idle ended => exact ⟨rfl, ended, rfl⟩
  | failed _ resembles _ preamble =>
    refine ⟨?_, Bool.false_ne_true, resembles.pending⟩
    rw [List.filterMap_append, filterMap_committed_of_quiet preamble.quiet,
      filterMap_committed_of_quiet (fail_quiet _ _)]
    rfl
  | submitted cleared => exact absurd cleared (hrefused _ _ _ _)

theorem runRound_commits_of_cleared {s : ExchangeServices} {x : Exchange} {name : String} {pool : Pool}
    {plan : Plan} {t : Transaction} (hcleared : x.Cleared s (x.firstRate.getD plan.rate) name pool plan t) :
    (x.runRound s).2.filterMap ExchangeEffect.committed? = [(t, s.relays t)] := by
  rw [runRound_of_cleared hcleared, List.filterMap_append, submit_commits]
  rfl

theorem runRound_effects_of_cleared {s : ExchangeServices} {x : Exchange} {name : String} {pool : Pool}
    {plan : Plan} {t : Transaction} (hcleared : x.Cleared s (x.firstRate.getD plan.rate) name pool plan t) :
    ∃ earlier later, (x.runRound s).2 = earlier ++ .committed t (s.relays t) :: later ∧
      .asked name ∈ earlier ∧ .built (x.buildOrder s plan) ∈ earlier := by
  obtain ⟨later, hsubmit⟩ := submit_effects s (x.quoted plan) plan t
  rw [runRound_of_cleared hcleared]
  dsimp only
  rw [hsubmit]
  exact ⟨_ :: _ :: [_, _], later, rfl, by simp, by simp⟩

theorem runRound_round (h : (x.runRound s).1.running) :
    x.running ∧ (x.runRound s).1.round.toNat =
      x.round.toNat + ((x.runRound s).2.filterMap ExchangeEffect.committed?).length := by
  rcases cleared_or_refused s x with ⟨name, pool, plan, t, hcleared⟩ | hrefused
  · have hbudget := UInt32.lt_iff_toNat_lt.1 hcleared.budget
    have hmax := x.order.maxRounds.toNat_lt
    refine ⟨hcleared.running, ?_⟩
    rw [runRound_commits_of_cleared hcleared, runRound_of_cleared hcleared, submit_round,
      (quoted_resembles x plan).round, UInt32.toNat_add]
    exact Nat.mod_eq_of_lt (by rw [UInt32.toNat_one]; omega)
  · exact absurd h (runRound_of_refused hrefused).2.1

end Round

/-! ## Confirmations -/

section Confirmed

variable {x : Exchange} {t : Hash256} {r : RelayedRound}

/-- The exchange with the rate, the slippage and the number of a round that was relayed. -/
def restored (x : Exchange) (r : RelayedRound) : Exchange :=
  { x with rate := r.rate, slippage := r.slippage, round := r.number }

theorem confirmed_of_unknown (h : x.pending.lookup t = none) : x.confirmed t = (x, []) := by
  rw [confirmed, h]

theorem confirmed_of_running (h : x.pending.lookup t = some r) (hrunning : x.running) :
    x.confirmed t = ({ x.restored r with pending := [], running := false },
      [.counted .exchangesCompleted, (x.restored r).report .completed (some t)]) := by
  rw [confirmed, h]
  dsimp only
  rw [if_pos hrunning, finish, if_pos hrunning]
  rfl

theorem confirmed_of_ended (h : x.pending.lookup t = some r) (hended : ¬ x.running) :
    x.confirmed t = ({ x.restored r with pending := x.pending.filter fun e => e.1 ≠ t },
      [(x.restored r).report (.failed .lateConfirmation) (some t)]) := by
  have hfalse : x.running = false := Bool.eq_false_iff.2 hended
  rw [confirmed, h]
  dsimp only
  rw [if_neg hended, finish, if_neg hended, restored, hfalse]
  rfl

theorem confirmed_ends (h : x.pending.lookup t = some r) : ¬ (x.confirmed t).1.running := by
  by_cases hrunning : x.running
  · rw [confirmed_of_running h hrunning]
    exact Bool.false_ne_true
  · rwa [confirmed_of_ended h hrunning]

theorem confirmed_order : (x.confirmed t).1.order = x.order := by
  unfold confirmed
  cases x.pending.lookup t with
  | none => rfl
  | some r => cases x.running <;> rfl

theorem confirmed_firstRate : (x.confirmed t).1.firstRate = x.firstRate := by
  unfold confirmed
  cases x.pending.lookup t with
  | none => rfl
  | some r => cases x.running <;> rfl

theorem confirmed_nextHeight : (x.confirmed t).1.nextHeight = x.nextHeight := by
  unfold confirmed
  cases x.pending.lookup t with
  | none => rfl
  | some r => cases x.running <;> rfl

theorem confirmed_commits (x : Exchange) (t : Hash256) :
    (x.confirmed t).2.filterMap ExchangeEffect.committed? = [] := by
  cases hlookup : x.pending.lookup t with
  | none => rw [confirmed_of_unknown hlookup]; rfl
  | some r =>
    by_cases hrunning : x.running
    · rw [confirmed_of_running hlookup hrunning]
      rfl
    · rw [confirmed_of_ended hlookup hrunning]
      rfl

end Confirmed

/-! ## Blocks -/

/-- A block at this height does not have to wait. -/
def Due (x : Exchange) (between height : UInt64) : Prop :=
  x.pending.isEmpty ∨ x.nextHeight.getD (Word64.addSaturating height between) ≤ height

section Block

variable {x : Exchange} {between height : UInt64}

theorem block_of_ended (s : ExchangeServices) (h : ¬ x.running) : x.block s between height = (x, []) := by
  rw [block, if_pos h]

theorem block_of_due (s : ExchangeServices) (hrunning : x.running) (hdue : x.Due between height) :
    x.block s between height = { x with nextHeight := some (Word64.addSaturating height between) }.runRound s := by
  rw [block, if_neg (not_not_intro hrunning)]
  exact if_pos hdue

theorem block_of_early (s : ExchangeServices) (hrunning : x.running) (hearly : ¬ x.Due between height) :
    x.block s between height =
      ({ x with nextHeight := some (x.nextHeight.getD (Word64.addSaturating height between)) }, []) := by
  rw [block, if_neg (not_not_intro hrunning)]
  exact if_neg hearly

end Block

end Exchange

end SwapStake
