import SwapStake.Proofs.Schedule.Queue
/-!
# Catching up

However late a queue is looked at, pops repeated until nothing is due make up for all of it. Each pop
uses up one of the firings that are owed (`TaskQueue.Popped.firings`), so they come to an end. What they
took out is a merge: of every task exactly its own firings up to now, a period apart
(`TaskQueue.CatchUp.filter_fired`), and all of them in the order of their places (`TaskQueue.CatchUp.ordered`).
-/

namespace SwapStake

variable {α : Type}

namespace TaskQueue

variable {q q' left : TaskQueue α} {h : TaskHandle} {t t' : Task α} {now : Nat} {f : Firing α}
  {fired : List (Firing α)}

/-! ## What is owed -/

theorem firings_insert (coherent : q.Coherent) (new : ∀ t', ¬ q.Waits h t') :
    (q.insert h t).firings now = t.firings now + q.firings now :=
  ((insert_perm coherent new).map _).sum_nat

theorem firings_of_waits (coherent : q.Coherent) (waits : q.Waits h t) :
    q.firings now = t.firings now + (q.without h).firings now :=
  ((perm_without coherent waits).map _).sum_nat

theorem Popped.firings (coherent : q.Coherent) (popped : q.Popped now f q' t) :
    q.firings now = q'.firings now + 1 := by
  rw [firings_of_waits coherent popped.waits, Task.firings_of_due (popped.due ▸ popped.timely), popped.left, renewed]
  split
  · rename_i hagain
    rw [hagain]
    exact Nat.add_comm _ _
  · rename_i t' hagain
    rw [hagain, firings_insert (coherent.without _) (q.without_free _)]
    exact Nat.add_right_comm _ _ _

/-! ## Pops until nothing is due -/

/-- Pops repeated until nothing is due: what they take out in turn, and the queue that is left. -/
inductive CatchUp (now : Nat) : TaskQueue α → List (Firing α) → TaskQueue α → Prop
  | done {q : TaskQueue α} (idle : q.popDue now = none) : CatchUp now q [] q
  | pop {q q' left : TaskQueue α} {f : Firing α} {fired : List (Firing α)} (popped : q.popDue now = some (f, q'))
      (rest : CatchUp now q' fired left) : CatchUp now q (f :: fired) left

theorem catchUp_popSome {n : Nat} (coherent : q.Coherent) (enough : q.firings now ≤ n) :
    CatchUp now q (popSome now n q).1 (popSome now n q).2 := by
  induction n generalizing q with
  | zero =>
    refine .done (Option.eq_none_iff_forall_ne_some.2 fun ⟨f, q'⟩ hpop => ?_)
    obtain ⟨t, hpopped⟩ := popped coherent hpop
    have := hpopped.firings coherent
    omega
  | succ n ih =>
    rw [popSome]
    cases hpop : q.popDue now with
    | none => exact .done hpop
    | some pop =>
      obtain ⟨f, q'⟩ := pop
      obtain ⟨t, hpopped⟩ := popped coherent hpop
      have hfirings := hpopped.firings coherent
      exact .pop hpop (ih (hpopped.left ▸ coherent.renewed _ _) (by omega))

namespace CatchUp

variable (run : CatchUp now q fired left)
include run

theorem idle : left.popDue now = none := by
  induction run with
  | done idle => exact idle
  | pop _ _ ih => exact ih

theorem coherent (before : q.Coherent) : left.Coherent := by
  induction run with
  | done => exact before
  | pop hpop _ ih =>
    obtain ⟨t, hpopped⟩ := popped before hpop
    exact ih (hpopped.left ▸ before.renewed _ _)

theorem waited (before : q.Coherent) : ∀ g ∈ fired, ∃ t, q.Waits g.handle t ∧ t.start ≤ g.due := by
  induction run with
  | done => exact nofun
  | pop hpop _ ih =>
    obtain ⟨t, hpopped⟩ := popped before hpop
    intro g hg
    rcases List.mem_cons.1 hg with rfl | hg
    · exact ⟨t, hpopped.waits, Nat.le_of_eq hpopped.due.symm⟩
    · obtain ⟨t', hwaits, hstart⟩ := ih (hpopped.left ▸ before.renewed _ _) g hg
      rw [hpopped.left, waits_renewed before] at hwaits
      split at hwaits
      · rename_i hhandle
        have := Task.start_lt_of_again hwaits
        exact ⟨t, hhandle ▸ hpopped.waits, by omega⟩
      · exact ⟨t', hwaits, hstart⟩

theorem ordered (before : q.Coherent) :
    fired.Pairwise fun f g => TimeKey.before (f.due, f.handle) (g.due, g.handle) := by
  induction run with
  | done => exact .nil
  | @pop q q' left f fired hpop rest ih =>
    obtain ⟨t, hpopped⟩ := popped before hpop
    have hcoherent : q'.Coherent := hpopped.left ▸ before.renewed _ _
    refine List.pairwise_cons.2 ⟨fun g hg => ?_, ih hcoherent⟩
    obtain ⟨t', hwaits, hstart⟩ := rest.waited hcoherent g hg
    rw [hpopped.left, waits_renewed before] at hwaits
    have hdue := hpopped.due
    rw [TimeKey.before_iff]
    split at hwaits
    · have := Task.start_lt_of_again hwaits
      exact .inl (by show f.due < g.due; omega)
    · rename_i hhandle
      have hplace := TimeKey.before_iff.1 (hpopped.first _ _ hwaits hhandle)
      dsimp only at hplace ⊢
      omega

theorem filter_fired (before : q.Coherent) (waits : q.Waits h t) : fired.filter (·.handle = h) = t.owed h now := by
  induction run generalizing t with
  | done idle => rw [Task.owed_of_early ((popDue_eq_none_iff before).1 idle h t waits), List.filter_nil]
  | @pop q q' left f fired hpop rest ih =>
    obtain ⟨t', hpopped⟩ := popped before hpop
    have hcoherent : q'.Coherent := hpopped.left ▸ before.renewed _ _
    have hwaits (t'' : Task α) : q'.Waits h t'' ↔ if h = f.handle then t'.again = some t'' else q.Waits h t'' := by
      rw [hpopped.left, waits_renewed before]
    by_cases hhandle : f.handle = h
    · obtain rfl := hhandle
      obtain rfl := before.unique waits hpopped.waits
      have hfiring : f = ⟨t.start, f.handle, t.job⟩ := by rw [← hpopped.due, ← hpopped.job]
      rw [List.filter_cons_of_pos (by simp), Task.owed_of_due (hpopped.due ▸ hpopped.timely), ← hfiring]
      congr 1
      cases hagain : t.again with
      | none =>
        refine List.filter_eq_nil_iff.2 fun g hg => ?_
        obtain ⟨t'', hwaits', -⟩ := rest.waited hcoherent g hg
        intro hsame
        rw [of_decide_eq_true hsame, hwaits, if_pos rfl, hagain] at hwaits'
        cases hwaits'
      | some t'' => exact ih hcoherent ((hwaits t'').2 (by rw [if_pos rfl, hagain]))
    · rw [List.filter_cons_of_neg (by simpa using hhandle)]
      exact ih hcoherent ((hwaits t).2 (by rwa [if_neg (Ne.symm hhandle)]))

theorem waits_left (before : q.Coherent) : left.Waits h t' ↔ ∃ t, q.Waits h t ∧ t.caughtUp now = some t' := by
  induction run with
  | @done q idle =>
    have hearly := (popDue_eq_none_iff before).1 idle h
    constructor
    · exact fun hwaits => ⟨t', hwaits, Task.caughtUp_of_early (hearly t' hwaits)⟩
    · rintro ⟨t, hwaits, hsame⟩
      rw [Task.caughtUp_of_early (hearly t hwaits)] at hsame
      exact Option.some.inj hsame ▸ hwaits
  | @pop q q' left f fired hpop rest ih =>
    obtain ⟨t, hpopped⟩ := popped before hpop
    rw [ih (hpopped.left ▸ before.renewed _ _), hpopped.left]
    simp only [waits_renewed before]
    by_cases hhandle : h = f.handle
    · subst hhandle
      have hcaught := Task.caughtUp_of_due (hpopped.due ▸ hpopped.timely)
      simp only [if_pos]
      constructor
      · rintro ⟨t₁, hagain, hsame⟩
        exact ⟨t, hpopped.waits, by rw [hcaught, hagain]; exact hsame⟩
      · rintro ⟨t₁, hwaits, hsame⟩
        obtain rfl := before.unique hwaits hpopped.waits
        rw [hcaught] at hsame
        exact Option.bind_eq_some_iff.1 hsame
    · simp only [if_neg hhandle]

/-! What is due fires and what is not is left alone: -/

theorem once (before : q.Coherent) (waits : q.Waits h t) (due : t.start ≤ now) (period : t.period = none) :
    fired.filter (·.handle = h) = [⟨t.start, h, t.job⟩] ∧ ∀ t', ¬ left.Waits h t' := by
  obtain ⟨howed, hgone⟩ := Task.caught_up_once (h := h) due period
  refine ⟨(run.filter_fired before waits).trans howed, fun t' hleft => ?_⟩
  obtain ⟨t₁, hwaits, hsame⟩ := (run.waits_left before).1 hleft
  rw [before.unique hwaits waits, hgone] at hsame
  cases hsame

theorem recurring {p : Period} (before : q.Coherent) (waits : q.Waits h t) (due : t.start ≤ now)
    (period : t.period = some p) :
    fired.filter (·.handle = h) =
        (List.range ((now - t.start) / p.length + 1)).map (fun k => ⟨t.start + k * p.length, h, t.job⟩) ∧
      ∃ k, left.Waits h { t with start := t.start + k * p.length } ∧ now < t.start + k * p.length ∧
        ∀ j < k, t.start + j * p.length ≤ now := by
  obtain ⟨howed, hnext⟩ := Task.caught_up_recurring (h := h) due period
  exact ⟨(run.filter_fired before waits).trans howed, _, (run.waits_left before).2 ⟨t, waits, hnext⟩,
    Task.first_start_after p due⟩

theorem early (before : q.Coherent) (waits : q.Waits h t) (early : now < t.start) :
    fired.filter (·.handle = h) = [] ∧ left.Waits h t :=
  ⟨(run.filter_fired before waits).trans (Task.owed_of_early early),
    (run.waits_left before).2 ⟨t, waits, Task.caughtUp_of_early early⟩⟩

theorem later_of_left (before : q.Coherent) (waits : left.Waits h t') : now < t'.start ∧ ∃ t, q.Waits h t := by
  obtain ⟨t, hwaits, -⟩ := (run.waits_left before).1 waits
  exact ⟨(popDue_eq_none_iff (run.coherent before)).1 run.idle h t' waits, t, hwaits⟩

end CatchUp

/-- **Catching up is exact.** Pops repeated until nothing is due come to an end, and they take out in
turn what is due, by time and then by handle. A task that fires once fires once if it is due, and waits
no more. A recurring task fires once for every start up to now, each a period after the one before,
however late; it is left waiting for the first start that has not come. Tasks that are not due are left
alone, nothing else fires, and all that is left waits for later. -/
theorem popAllDue_exact (q : TaskQueue α) (coherent : q.Coherent) (now : Nat) :
    let fired := (q.popAllDue now).1
    let left := (q.popAllDue now).2
    CatchUp now q fired left ∧
    left.Coherent ∧
    (fired.Pairwise fun f g => f.due < g.due ∨ f.due = g.due ∧ f.handle.number < g.handle.number) ∧
    (∀ h t, q.Waits h t → t.start ≤ now → t.period = none →
      fired.filter (·.handle = h) = [⟨t.start, h, t.job⟩] ∧ ∀ t', ¬ left.Waits h t') ∧
    (∀ h t p, q.Waits h t → t.start ≤ now → t.period = some p →
      fired.filter (·.handle = h) =
        (List.range ((now - t.start) / p.length + 1)).map (fun k => ⟨t.start + k * p.length, h, t.job⟩) ∧
      ∃ k, left.Waits h { t with start := t.start + k * p.length } ∧ now < t.start + k * p.length ∧
        ∀ j < k, t.start + j * p.length ≤ now) ∧
    (∀ h t, q.Waits h t → now < t.start → fired.filter (·.handle = h) = [] ∧ left.Waits h t) ∧
    (∀ f ∈ fired, ∃ t, q.Waits f.handle t) ∧
    (∀ h t', left.Waits h t' → now < t'.start ∧ ∃ t, q.Waits h t) := by
  intro fired left
  have run : CatchUp now q fired left := catchUp_popSome coherent (Nat.le_refl _)
  refine ⟨run, run.coherent coherent, (run.ordered coherent).imp fun hbefore => TimeKey.before_iff.1 hbefore,
    fun h t => run.once coherent, fun h t p => run.recurring coherent, fun h t => run.early coherent, ?_,
    fun h t' => run.later_of_left coherent⟩
  intro f hf
  obtain ⟨t, hwaits, -⟩ := run.waited coherent f hf
  exact ⟨t, hwaits⟩

/-- A task that recurs from 5 on, and one for 8. -/
def trialQueue : TaskQueue String :=
  insert (insert {} ⟨1⟩ { job := "tick", start := 5, period := some ⟨3, by decide⟩ }) ⟨2⟩
    { job := "once", start := 8 }

theorem trialQueue_coherent : trialQueue.Coherent :=
  (coherent_empty.insert (by simp [Waits])).insert (by simp [Waits, insert, place])

theorem popAllDue_exact_trial :
    trialQueue.Coherent ∧
    (trialQueue.popAllDue 12).1.filter (·.handle = ⟨1⟩) =
      [⟨5, ⟨1⟩, "tick"⟩, ⟨8, ⟨1⟩, "tick"⟩, ⟨11, ⟨1⟩, "tick"⟩] ∧
    (trialQueue.popAllDue 12).1.filter (·.handle = ⟨2⟩) = [⟨8, ⟨2⟩, "once"⟩] ∧
    (∃ t, (trialQueue.popAllDue 12).2.Waits ⟨1⟩ t ∧ 12 < t.start) ∧
    (trialQueue.popAllDue 7).1.filter (·.handle = ⟨2⟩) = [] := by
  obtain ⟨-, -, -, honce, hrecurs, -, -, -⟩ := popAllDue_exact trialQueue trialQueue_coherent 12
  obtain ⟨-, -, -, -, -, hearly, -, -⟩ := popAllDue_exact trialQueue trialQueue_coherent 7
  have hwaits₁ : trialQueue.Waits ⟨1⟩ { job := "tick", start := 5, period := some ⟨3, by decide⟩ } := by
    simp [trialQueue, Waits, insert, place, TimeKey.before]
  have hwaits₂ : trialQueue.Waits ⟨2⟩ { job := "once", start := 8 } := by
    simp [trialQueue, Waits, insert, place, TimeKey.before]
  obtain ⟨hticks, n, hnext, hlater, -⟩ := hrecurs _ _ _ hwaits₁ (by decide) rfl
  exact ⟨trialQueue_coherent, hticks, (honce _ _ hwaits₂ (by decide) rfl).1, ⟨_, hnext, hlater⟩,
    (hearly _ _ hwaits₂ (by decide)).1⟩

end TaskQueue

end SwapStake
