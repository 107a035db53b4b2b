import SwapStake.Proofs.Schedule.CatchUp
import SwapStake.Proofs.Schedule.History
import SwapStake.Schedule.Timeline
/-!
# Virtual time is one of the histories

In virtual time a scheduler dispatches all that is due at once, and its jobs run in the order in which
they were dispatched. A dispatch is a row of single steps (`Scheduler.dispatch_history`), so a timeline
takes its scheduler through a history, and the jobs that ran are those that fired in it
(`Timeline.Run.told`). What holds of every history therefore holds of every run in virtual time.
-/

namespace SwapStake

namespace Scheduler

variable {α : Type}

theorem catchUp_history {now : Nat} {q left : TaskQueue α} {firings : List (Firing α)}
    (run : TaskQueue.CatchUp now q firings left) {past : List (SchedulerStep α)} (queue : (after past).queue = q) :
    ∃ later, after (later ++ past) = { after past with queue := left } ∧
      fired (later ++ past) = fired past ++ firings.map (Prod.mk now) := by
  induction run generalizing past with
  | done => exact ⟨[], by rw [← queue]; rfl, (List.append_nil _).symm⟩
  | @pop q q' left f firings hpop rest ih =>
    have htake : (after past).take (.pop now) = ({ after past with queue := q' }, .fired now f) := by
      rw [take, queue, hpop]
    have hafter : after (.pop now :: past) = { after past with queue := q' } := congrArg Prod.fst htake
    have hfired : fired (.pop now :: past) = fired past ++ [(now, f)] := by
      rw [fired, reply, htake]
      rfl
    obtain ⟨later, hlater, hfirings⟩ := ih (congrArg Scheduler.queue hafter)
    refine ⟨later ++ [.pop now], ?_, ?_⟩ <;> rw [List.append_assoc, List.singleton_append]
    · rw [hlater, hafter]
    · rw [hfirings, hfired, List.append_assoc]
      rfl

theorem dispatch_history (past : List (SchedulerStep α)) (now : Nat) :
    ∃ later, after (later ++ past) = ((after past).dispatch now).2 ∧
      fired (later ++ past) = fired past ++ ((after past).dispatch now).1.map (Prod.mk now) := by
  rw [dispatch]
  split
  · exact catchUp_history (TaskQueue.catchUp_popSome (after_sound past).coherent (Nat.le_refl _)) rfl
  · exact ⟨[], rfl, (List.append_nil _).symm⟩

end Scheduler

open Scheduler

/-- The job that runs by a record, and when. -/
def JobRecord.ran? : JobRecord → Option (String × Nat)
  | ran label time _ => some (label, time)
  | ended _ _ => none

namespace Timeline

/-- A scheduler goes through a step, or is given up. -/
inductive Performed (t : Timeline) : Timeline → Prop
  | same : Performed t t
  | dropped : Performed t { t with scheduler := none }
  | taken {s : Scheduler ScheduledJob} (scheduler : t.scheduler = some s) (step : SchedulerStep ScheduledJob)
      (quiet : (s.take step).2.dispatched? = none) : Performed t { t with scheduler := some (s.take step).1 }

variable {t t' : Timeline} {log : List JobRecord}

theorem performed_booked {s : Scheduler ScheduledJob} (scheduler : t.scheduler = some s)
    (step : SchedulerStep ScheduledJob) {r : Except SchedulerError (TaskHandle × Scheduler ScheduledJob)}
    (take : s.take step = s.booked r) :
    Performed t (t.answered (r.map fun (h, s) => (SchedulerAnswer.scheduled h, s))).2 := by
  cases r with
  | error e => exact .same
  | ok r =>
    have htaken := Performed.taken scheduler step (by rw [take]; rfl)
    rwa [take] at htaken

theorem performed (t : Timeline) (c : SchedulerCommand) : Performed t (t.perform c).2 := by
  rw [perform]
  split
  · exact .same
  · rename_i s hscheduler
    cases c with
    | start =>
      dsimp only
      cases hstart : s.start with
      | error e => exact .same
      | ok s' =>
        have htake : s.take .start = (s', .done) := by rw [take, hstart]
        have htaken := Performed.taken hscheduler .start (by rw [htake]; rfl)
        rwa [htake] at htaken
    | now job => exact performed_booked hscheduler (.once job t.now) rfl
    | once job time => exact performed_booked hscheduler (.once job time) rfl
    | every job first period => exact performed_booked hscheduler (.every job first period) rfl
    | remove n =>
      dsimp only
      split
      · exact .taken hscheduler (.remove ⟨n⟩) rfl
      · exact .same
    | clear => exact .taken hscheduler .clear rfl
    | shutdown => exact .taken hscheduler .shutdown rfl
    | drop => exact .dropped

theorem Performed.now (h : Performed t t') : t'.now = t.now := by
  cases h <;> rfl

theorem run_result (t : Timeline) (job : ScheduledJob) :
    ∃ t' sleepers answer rest, Performed t t' ∧
      t.run job = ({ t' with sleepers }, .ran job.label t'.now answer :: rest) ∧
      rest.filterMap JobRecord.ran? = [] := by
  rw [run]
  cases job.command with
  | none => rcases job.rest with _ | _ | r <;> exact ⟨t, _, none, _, .same, rfl, rfl⟩
  | some c =>
    rcases job.rest with _ | _ | r <;> exact ⟨(t.perform c).2, _, some (t.perform c).1, _, performed t c, rfl, rfl⟩

/-- The scheduler of a timeline has come through a history, unless it was given up. What has fired in it
are the jobs that ran and those that are still to run. -/
def Told (t : Timeline) (log : List JobRecord) (due : List ScheduledJob) : Prop :=
  ∃ past : List (SchedulerStep ScheduledJob), (∀ s, t.scheduler = some s → s = after past) ∧
    (fired past).map (fun d => (d.2.job.label, d.1)) =
      log.filterMap JobRecord.ran? ++ due.map fun job => (job.label, t.now)

namespace Told

variable {due : List ScheduledJob} {job : ScheduledJob}

theorem performed (told : t.Told log due) (h : Performed t t') : t'.Told log due := by
  obtain ⟨past, hscheduler, hfired⟩ := told
  cases h with
  | same => exact ⟨past, hscheduler, hfired⟩
  | dropped => exact ⟨past, nofun, hfired⟩
  | @taken s scheduler step quiet =>
    obtain rfl := hscheduler s scheduler
    refine ⟨step :: past, fun s' hs' => (Option.some.inj hs').symm, ?_⟩
    rw [fired, reply, quiet, Option.toList_none, List.append_nil]
    exact hfired

theorem run (told : t.Told log (job :: due)) : (t.run job).1.Told (log ++ (t.run job).2) due := by
  obtain ⟨t', sleepers, answer, rest, hperformed, hrun, hrest⟩ := run_result t job
  obtain ⟨past, hscheduler, hfired⟩ := told.performed hperformed
  rw [hrun]
  refine ⟨past, hscheduler, ?_⟩
  rw [hfired, hperformed.now, List.filterMap_append, List.filterMap_cons, hrest, List.append_assoc]
  rfl

theorem runAll (told : t.Told log due) : (t.runAll due).1.Told (log ++ (t.runAll due).2) [] := by
  induction due generalizing t log with
  | nil =>
    rw [Timeline.runAll, List.append_nil]
    exact told
  | cons job due ih =>
    have hrest := ih told.run
    rw [List.append_assoc] at hrest
    exact hrest

theorem dispatch (told : t.Told log []) : t.dispatch.2.Told log t.dispatch.1 := by
  rw [Timeline.dispatch]
  split
  · exact told
  · rename_i s hscheduler
    obtain ⟨past, hpast, hfired⟩ := told
    obtain rfl := hpast s hscheduler
    obtain ⟨later, hlater, hfirings⟩ := dispatch_history past t.now
    refine ⟨later ++ past, fun s' hs' => ?_, ?_⟩
    · rw [hlater]
      exact (Option.some.inj hs').symm
    · rw [hfirings, List.map_append, hfired, List.map_nil, List.append_nil, List.map_map, List.map_map]
      rfl

theorem settleUpTo (told : t.Told log []) (n : Nat) : (t.settleUpTo n).1.Told (log ++ (t.settleUpTo n).2) [] := by
  induction n generalizing t log with
  | zero =>
    rw [Timeline.settleUpTo, List.append_nil]
    exact told
  | succ n ih =>
    have hdispatched := told.dispatch
    rw [Timeline.settleUpTo]
    rcases hdispatch : t.dispatch with ⟨jobs, t'⟩
    rw [hdispatch] at hdispatched
    cases jobs with
    | nil =>
      rw [List.append_nil]
      exact hdispatched
    | cons job jobs =>
      have hrest := ih hdispatched.runAll
      rw [List.append_assoc] at hrest
      exact hrest

theorem settle (told : t.Told log []) : t.settle.1.Told (log ++ t.settle.2) [] :=
  told.settleUpTo _

theorem arrive (told : t.Told log []) (time : Nat) : (t.arrive time).1.Told (log ++ (t.arrive time).2) [] := by
  obtain ⟨past, hscheduler, hfired⟩ := told
  have harrived (slept : List Sleeper × List Sleeper) :
      Told { t with now := time, sleepers := slept.2 } (log ++ slept.1.map fun s => .ended s.label time) [] := by
    have hended : (slept.1.map fun s => JobRecord.ended s.label time).filterMap JobRecord.ran? = [] := by
      simp [List.filterMap_map, Function.comp_def, JobRecord.ran?]
    refine ⟨past, hscheduler, ?_⟩
    rw [hfired, List.filterMap_append, hended, List.append_nil]
    rfl
  have hsettled := (harrived (t.sleepers.partition fun s => s.wakes ≤ time)).settle
  rw [List.append_assoc] at hsettled
  exact hsettled

theorem sleep (told : t.Told log []) (duration : Nat) : (t.sleep duration).1.Told (log ++ (t.sleep duration).2) [] :=
  passTime_keeps (P := fun t log => Told t log []) (fun instant _ _ told => arrive told instant) _ _ told

theorem step (told : t.Told log []) (c : SchedulerCommand) : (t.step c).2.1.Told (log ++ (t.step c).2.2) [] :=
  (told.performed (Timeline.performed t c)).settle

end Told

/-- What a new timeline can come to by commands and by time, and the records on the way. -/
inductive Run : Timeline → List JobRecord → Prop
  | new : Run {} []
  | step {t : Timeline} {log : List JobRecord} (c : SchedulerCommand) :
      Run t log → Run (t.step c).2.1 (log ++ (t.step c).2.2)
  | sleep {t : Timeline} {log : List JobRecord} (duration : Nat) :
      Run t log → Run (t.sleep duration).1 (log ++ (t.sleep duration).2)

/-- **A run in virtual time is a history**, and its jobs run when they fire in it, in the same order. -/
theorem Run.told (h : Run t log) : t.Told log [] := by
  induction h with
  | new => exact ⟨[], fun s hs => (Option.some.inj hs).symm, rfl⟩
  | step c _ ih => exact ih.step c
  | sleep duration _ ih => exact ih.sleep duration

end Timeline

end SwapStake
