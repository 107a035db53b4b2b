import SwapStake.Proofs.Schedule.Scheduler
/-!
# Histories of a scheduler

A history is the list of the steps of a scheduler, the latest first. What is known of a handle is told
from the history alone: the task for which it was handed out (`Scheduler.taskOf`), the task that still
waits under it (`Scheduler.waiting`), and its firings (`Scheduler.firesOf`). The queue holds just the tasks
that wait (`Scheduler.waits_after`). As a handle is handed out once, all that ever fires under it are the
firings of its one task, in turn (`Scheduler.recorded`), and once nothing waits under it nothing will
(`Scheduler.gone`).
-/

namespace SwapStake

variable {α : Type}

namespace Scheduler

/-- The scheduler after some steps. -/
def after : List (SchedulerStep α) → Scheduler α
  | [] => {}
  | step :: past => ((after past).take step).1

def reply (past : List (SchedulerStep α)) (step : SchedulerStep α) : SchedulerReply α :=
  ((after past).take step).2

/-- The handles that were handed out, in order. -/
def issued : List (SchedulerStep α) → List TaskHandle
  | [] => []
  | step :: past => issued past ++ (reply past step).handle?.toList

/-- All that was dispatched, in order, and when. -/
def fired : List (SchedulerStep α) → List (Nat × Firing α)
  | [] => []
  | step :: past => fired past ++ (reply past step).dispatched?.toList

def firesOf (h : TaskHandle) (past : List (SchedulerStep α)) : List (Nat × Firing α) :=
  (fired past).filter (·.2.handle = h)

/-- The task for which a handle was handed out. -/
def taskOf (h : TaskHandle) : List (SchedulerStep α) → Option (Task α)
  | [] => none
  | step :: past => if (reply past step).handle? = some h then step.task? else taskOf h past

/-- The task that waits under a handle: it was scheduled, and was not removed, cleared or dropped since.
If it has fired it recurs, and waits for its next start. -/
def waiting (h : TaskHandle) : List (SchedulerStep α) → Option (Task α)
  | [] => none
  | step :: past => step.leaves (reply past step) h (waiting h past)

variable {past : List (SchedulerStep α)} {h : TaskHandle} {t : Task α}

theorem after_result (past : List (SchedulerStep α)) (step : SchedulerStep α) :
    StepResult (after past) step (after (step :: past), reply past step) :=
  take_result _ _

theorem after_sound (past : List (SchedulerStep α)) : (after past).Sound := by
  induction past with
  | nil => exact sound_new
  | cons step past ih => exact (after_result past step).sound ih

theorem waits_after : (after past).queue.Waits h t ↔ waiting h past = some t := by
  induction past generalizing t with
  | nil => simp [after, waiting, TaskQueue.Waits]
  | cons step past ih => exact (after_result past step).waits (after_sound past) fun t => ih

theorem reply_remove (h : TaskHandle) (past : List (SchedulerStep α)) :
    reply past (.remove h) = .removed (waiting h past).isSome := by
  have hremoved := (TaskQueue.remove_eq (after_sound past).coherent h).1
  simp only [waits_after, ← Option.isSome_iff_exists] at hremoved
  exact congrArg SchedulerReply.removed (Bool.eq_iff_iff.2 hremoved)

/-! ## Handles -/

theorem issued_eq (past : List (SchedulerStep α)) :
    issued past = (List.range' 1 (issued past).length).map TaskHandle.mk ∧
      (after past).nextHandle = (issued past).length + 1 := by
  induction past with
  | nil => exact ⟨rfl, rfl⟩
  | cons step past ih =>
    obtain ⟨hissued, hnext⟩ := ih
    rcases (after_result past step).issues with ⟨hnext', hhandle, -⟩ | ⟨hnext', hhandle⟩
    · rw [hnext', issued, hhandle, Option.toList_some, List.length_append, List.length_singleton, List.range'_1_concat,
        List.map_append, ← hissued, hnext]
      exact ⟨by rw [Nat.add_comm]; rfl, rfl⟩
    · rw [hnext', issued, hhandle, Option.toList_none, List.append_nil]
      exact ⟨hissued, hnext⟩

theorem issued_nodup (past : List (SchedulerStep α)) : (issued past).Nodup := by
  rw [(issued_eq past).1]
  exact List.Nodup.map (fun _ _ => TaskHandle.mk.inj) List.nodup_range'

theorem mem_issued_iff : h ∈ issued past ↔ (taskOf h past).isSome := by
  induction past with
  | nil => simp [issued, taskOf]
  | cons step past ih =>
    rw [issued, List.mem_append, ih, Option.mem_toList, taskOf]
    rcases (after_result past step).issues with ⟨-, hhandle, htask⟩ | ⟨-, hhandle⟩ <;> rw [hhandle]
    · by_cases hnew : some (⟨(after past).nextHandle⟩ : TaskHandle) = some h
      · rw [if_pos hnew]
        exact iff_of_true (.inr hnew) htask
      · rw [if_neg hnew, or_iff_left hnew]
    · rw [if_neg nofun, or_iff_left nofun]

theorem taskOf_next (past : List (SchedulerStep α)) : taskOf ⟨(after past).nextHandle⟩ past = none := by
  obtain ⟨hissued, hnext⟩ := issued_eq past
  rw [← Option.not_isSome_iff_eq_none, ← mem_issued_iff, hissued, hnext]
  simp [List.mem_range'_1, Nat.add_comm]

/-! ## One step and one handle -/

/-- What a step does to what is known of a handle. -/
inductive Turn (h : TaskHandle) (past : List (SchedulerStep α)) (step : SchedulerStep α) : Prop
  | booked (t : Task α) (new : taskOf h past = none) (task : taskOf h (step :: past) = some t)
      (waits : waiting h (step :: past) = some t) (fires : firesOf h (step :: past) = firesOf h past)
  | fires (now : Nat) (t : Task α) (waited : waiting h past = some t) (due : t.start ≤ now)
      (task : taskOf h (step :: past) = taskOf h past) (waits : waiting h (step :: past) = t.again)
      (fires : firesOf h (step :: past) = firesOf h past ++ [(now, ⟨t.start, h, t.job⟩)])
  | quiet (task : taskOf h (step :: past) = taskOf h past)
      (waits : waiting h (step :: past) = waiting h past ∨ waiting h (step :: past) = none)
      (fires : firesOf h (step :: past) = firesOf h past)

theorem turn (h : TaskHandle) (past : List (SchedulerStep α)) (step : SchedulerStep α) : Turn h past step := by
  have hresult := after_result past step
  have hwaiting : waiting h (step :: past) = step.leaves (reply past step) h (waiting h past) := rfl
  have htask : taskOf h (step :: past) = if (reply past step).handle? = some h then step.task? else taskOf h past := rfl
  have hfires : firesOf h (step :: past) =
      firesOf h past ++ (reply past step).dispatched?.toList.filter (·.2.handle = h) := List.filter_append ..
  generalize reply past step = r at hresult hwaiting htask hfires
  generalize after (step :: past) = s' at hresult
  cases hresult with
  | started | removed | cleared | shutDown =>
    refine .quiet htask ?_ (hfires.trans (List.append_nil _))
    rw [hwaiting, SchedulerStep.leaves]
    split
    · exact .inr rfl
    · exact .inl rfl
  | unstarted | tooLate | aperiodic | idle =>
    exact .quiet htask (.inl hwaiting) (hfires.trans (List.append_nil _))
  | @scheduled _ t task =>
    replace hfires := hfires.trans (List.append_nil _)
    by_cases hnew : (⟨(after past).nextHandle⟩ : TaskHandle) = h
    · subst hnew
      rw [SchedulerStep.leaves, if_pos rfl, task] at hwaiting
      rw [SchedulerReply.handle?, if_pos rfl, task] at htask
      exact .booked t (taskOf_next past) htask hwaiting hfires
    · rw [SchedulerStep.leaves, if_neg hnew] at hwaiting
      rw [SchedulerReply.handle?, if_neg (fun heq => hnew (Option.some.inj heq))] at htask
      exact .quiet htask (.inl hwaiting) hfires
  | @fired now f queue pop =>
    replace htask := htask.trans (if_neg (Option.some_ne_none h).symm)
    rw [SchedulerReply.dispatched?, Option.toList_some] at hfires
    rw [SchedulerStep.leaves] at hwaiting
    obtain ⟨t, hpopped⟩ := TaskQueue.popped (after_sound past).coherent pop
    by_cases hhandle : f.handle = h
    · have hwaited : waiting h past = some t := waits_after.1 (hhandle ▸ hpopped.waits)
      have hfiring : f = ⟨t.start, h, t.job⟩ := by rw [← hhandle, ← hpopped.due, ← hpopped.job]
      rw [if_pos hhandle, hwaited, Option.bind_some] at hwaiting
      rw [List.filter_cons_of_pos (by simpa using hhandle), List.filter_nil, hfiring] at hfires
      exact .fires now t hwaited (hpopped.due ▸ hpopped.timely) htask hwaiting hfires
    · rw [if_neg hhandle] at hwaiting
      rw [List.filter_cons_of_neg (by simpa using hhandle), List.filter_nil, List.append_nil] at hfires
      exact .quiet htask (.inl hwaiting) hfires

/-- What is known of a handle: nothing has fired under one that was not handed out; under any other the
firings of its task have, from the first on, and if a task still waits it waits for the next. -/
structure Recorded (h : TaskHandle) (past : List (SchedulerStep α)) : Prop where
  none_fired : taskOf h past = none → firesOf h past = []
  fires : ∀ t, taskOf h past = some t →
    (firesOf h past).map Prod.snd = (List.range (firesOf h past).length).map (t.firing h)
  timely : ∀ d ∈ firesOf h past, d.2.due ≤ d.1
  waits : ∀ t', waiting h past = some t' →
    ∃ t, taskOf h past = some t ∧ t.later (firesOf h past).length = some t'
  once : ∀ t, taskOf h past = some t → t.period = none → (firesOf h past).length ≤ 1

namespace Recorded

variable {step : SchedulerStep α} (before : Recorded h past)
include before

theorem fired {now : Nat} (waited : waiting h past = some t) (due : t.start ≤ now)
    (task : taskOf h (step :: past) = taskOf h past) (waits : waiting h (step :: past) = t.again)
    (fires : firesOf h (step :: past) = firesOf h past ++ [(now, ⟨t.start, h, t.job⟩)]) :
    Recorded h (step :: past) := by
  obtain ⟨t₀, htask, hlater⟩ := before.waits t waited
  have htask' : taskOf h (step :: past) = some t₀ := task.trans htask
  have hlength : (firesOf h (step :: past)).length = (firesOf h past).length + 1 := by
    rw [fires, List.length_append, List.length_singleton]
  have honce : t₀.period = none → (firesOf h past).length = 0 := by
    intro once
    cases hn : (firesOf h past).length with
    | zero => rfl
    | succ n => simp [hn, Task.later_once once] at hlater
  constructor
  case none_fired => simp [htask']
  case fires =>
    intro t' ht'
    obtain rfl := Option.some.inj (htask'.symm.trans ht')
    rw [hlength, List.range_succ, List.map_append, ← before.fires t₀ htask, fires, List.map_append,
      List.map_singleton, List.map_singleton, Task.firing_of_later hlater]
  case timely => simpa [fires, or_imp, forall_and, due] using before.timely
  case waits =>
    intro t' ht'
    exact ⟨t₀, htask', by rw [hlength, Task.later, hlater, ← ht', waits]; rfl⟩
  case once =>
    intro t' ht' once
    obtain rfl := Option.some.inj (htask'.symm.trans ht')
    simp [hlength, honce once]

theorem kept (task : taskOf h (step :: past) = taskOf h past)
    (waits : waiting h (step :: past) = waiting h past ∨ waiting h (step :: past) = none)
    (fires : firesOf h (step :: past) = firesOf h past) : Recorded h (step :: past) := by
  have hwaits : ∀ t', waiting h (step :: past) = some t' → waiting h past = some t' := by
    rcases waits with hsame | hnone
    · exact fun t' ht' => hsame.symm.trans ht'
    · simp [hnone]
  exact {
    none_fired := by simpa only [task, fires] using before.none_fired
    fires := by simpa only [task, fires] using before.fires
    timely := by simpa only [fires] using before.timely
    waits := fun t' ht' => by simpa only [task, fires] using before.waits t' (hwaits t' ht')
    once := by simpa only [task, fires] using before.once }

end Recorded

theorem recorded (h : TaskHandle) (past : List (SchedulerStep α)) : Recorded h past := by
  induction past with
  | nil => exact ⟨fun _ => rfl, nofun, nofun, nofun, nofun⟩
  | cons step past ih =>
    cases turn h past step with
    | booked t new task waits fires =>
      rw [ih.none_fired new] at fires
      constructor <;> simp_all
    | fires now t waited due task waits fires => exact ih.fired waited due task waits fires
    | quiet task waits fires => exact ih.kept task waits fires

theorem fired_in_time {now : Nat} {f : Firing α} (dispatched : (now, f) ∈ fired past) :
    f.due ≤ now ∧ ∃ t, taskOf f.handle past = some t ∧ t.start ≤ f.due := by
  have hmem : (now, f) ∈ firesOf f.handle past := List.mem_filter.2 ⟨dispatched, decide_eq_true rfl⟩
  have hrecord := recorded f.handle past
  refine ⟨hrecord.timely _ hmem, ?_⟩
  cases htask : taskOf f.handle past with
  | none =>
    rw [hrecord.none_fired htask] at hmem
    cases hmem
  | some t =>
    have hfiring : f ∈ (firesOf f.handle past).map Prod.snd := List.mem_map_of_mem hmem
    rw [hrecord.fires t htask, List.mem_map] at hfiring
    obtain ⟨n, -, hf⟩ := hfiring
    refine ⟨t, rfl, ?_⟩
    rw [← hf]
    exact Nat.le_add_right _ _

/-- Once nothing waits under a handle that was handed out, nothing fires under it any more. -/
theorem gone (task : taskOf h past = some t) (idle : waiting h past = none) (later : List (SchedulerStep α)) :
    taskOf h (later ++ past) = some t ∧ waiting h (later ++ past) = none ∧
      firesOf h (later ++ past) = firesOf h past := by
  induction later with
  | nil => exact ⟨task, idle, rfl⟩
  | cons step later ih =>
    obtain ⟨htask, hidle, hfires⟩ := ih
    rw [List.cons_append]
    cases turn h (later ++ past) step with
    | booked t' new =>
      rw [htask] at new
      cases new
    | fires now t' waited =>
      rw [hidle] at waited
      cases waited
    | quiet task' waits' fires' => exact ⟨task'.trans htask, waits'.elim (·.trans hidle) id, fires'.trans hfires⟩

theorem firesOf_removed (later past : List (SchedulerStep α)) (removed : reply past (.remove h) = .removed true) :
    firesOf h (later ++ .remove h :: past) = firesOf h past := by
  rw [reply_remove, SchedulerReply.removed.injEq, Option.isSome_iff_exists] at removed
  obtain ⟨t', hwaited⟩ := removed
  obtain ⟨t, htask, -⟩ := (recorded h past).waits t' hwaited
  have htask' : taskOf h (.remove h :: past) = some t := htask
  have hidle : waiting h (.remove h :: past) = none := by
    rw [waiting, reply_remove, SchedulerStep.leaves, SchedulerStep.drops, if_pos (decide_eq_true rfl)]
  have hfires : firesOf h (.remove h :: past) = firesOf h past := congrArg (List.filter _) (List.append_nil _)
  exact (gone htask' hidle later).2.2.trans hfires

/-! ## Shutdown -/

theorem shutDown_after : (after past).shutDown ↔ .shutdown ∈ past := by
  induction past with
  | nil => simp [after]
  | cons step past ih => rw [(after_result past step).shutDown_iff, ih, List.mem_cons, or_comm, eq_comm]

theorem fired_of_shutdown (later past : List (SchedulerStep α)) :
    fired (later ++ .shutdown :: past) = fired past := by
  induction later with
  | nil => exact List.append_nil _
  | cons step later ih =>
    have ended : (after (later ++ .shutdown :: past)).shutDown := shutDown_after.2 (by simp)
    have hnone := ((after_result _ step).of_shutDown (after_sound _) ended).1
    rw [List.cons_append, fired, hnone, Option.toList_none, List.append_nil, ih]

/-! ## All that handles stand for -/

theorem scheduled_new {step : SchedulerStep α} (task : step.task? = some t) (running : .shutdown ∉ past) :
    ∃ h, reply past step = .scheduled h ∧ h ∉ issued past := by
  refine ⟨_, (after_result past step).scheduled_of_running task (shutDown_after.not.2 running), ?_⟩
  rw [mem_issued_iff, taskOf_next]
  exact nofun

theorem reply_pop_eq_idle_iff {now : Nat} :
    reply past (.pop now) = .idle ↔ ∀ h t, waiting h past = some t → now < t.start := by
  have hnone : reply past (.pop now) = .idle ↔ (after past).queue.popDue now = none := by
    rw [reply, take]
    cases (after past).queue.popDue now with
    | none => exact iff_of_true rfl rfl
    | some pop => simp
  rw [hnone, TaskQueue.popDue_eq_none_iff (after_sound past).coherent]
  simp only [waits_after]

theorem size_after (past : List (SchedulerStep α)) :
    (after past).size = ((issued past).filter fun h => (waiting h past).isSome).length := by
  have coherent := (after_sound past).coherent
  have hmem (h : TaskHandle) : h ∈ (after past).queue.byTime.map (fun e => e.1.2) ↔
      h ∈ (issued past).filter fun h => (waiting h past).isSome := by
    rw [coherent.mem_handles, List.mem_filter, mem_issued_iff]
    simp only [waits_after, ← Option.isSome_iff_exists]
    refine (and_iff_right_of_imp fun hwaits => ?_).symm
    obtain ⟨t', hwaits⟩ := Option.isSome_iff_exists.1 hwaits
    obtain ⟨t, htask, -⟩ := (recorded h past).waits t' hwaits
    exact Option.isSome_of_eq_some htask
  have hperm := (List.perm_ext_iff_of_nodup coherent.handles_nodup ((issued_nodup past).filter _)).2 hmem
  rw [← hperm.length_eq, List.length_map]
  rfl

/-- **A handle stands for one task.** After any steps, in any order and at any times, the two indexes of
the queue tell of the same tasks, each handle has at most one place, and every task that was scheduled
got a handle of its own. The queue holds the tasks that wait by the history; a removal tells whether the
handle has one, a look at the queue finds one as soon as it is due, and the scheduler counts the handles
that have one. A handle that was removed does not fire again, even if it has fired before. What fires
under a handle are the firings of its task, in turn and none before its time; of a task that fires once
there is at most one, and nothing fires under a handle that was not handed out. After a shutdown nothing
fires, and what is asked to be scheduled is refused and leaves the queue empty. -/
theorem handle_stands_for_task (past : List (SchedulerStep α)) :
    (after past).queue.Coherent ∧
    ((after past).queue.byTime.map fun e => e.1.2).Nodup ∧
    (issued past).Nodup ∧
    (∀ (step : SchedulerStep α) t, step.task? = some t → .shutdown ∉ past →
      ∃ h, reply past step = .scheduled h ∧ h ∉ issued past) ∧
    (∀ h t, (after past).queue.Waits h t ↔ waiting h past = some t) ∧
    (∀ h, reply past (.remove h) = .removed (waiting h past).isSome) ∧
    (∀ now, reply past (.pop now) = .idle ↔ ∀ h t, waiting h past = some t → now < t.start) ∧
    (∀ h later earlier, past = later ++ .remove h :: earlier → reply earlier (.remove h) = .removed true →
      firesOf h past = firesOf h earlier) ∧
    (∀ h t, taskOf h past = some t →
      (firesOf h past).map Prod.snd = (List.range (firesOf h past).length).map (t.firing h) ∧
      (t.period = none → (firesOf h past).length ≤ 1)) ∧
    (∀ now f, (now, f) ∈ fired past →
      f.due ≤ now ∧ ∃ t, taskOf f.handle past = some t ∧ t.start ≤ f.due) ∧
    (after past).size = ((issued past).filter fun h => (waiting h past).isSome).length ∧
    (∀ later earlier, past = later ++ .shutdown :: earlier →
      fired past = fired earlier ∧
      ∀ step : SchedulerStep α, step.schedules →
        reply past step = .refused (if step.task?.isSome then .shutDown else .zeroPeriod) ∧
        (after (step :: past)).queue = {}) := by
  have sound := after_sound past
  refine ⟨sound.coherent, sound.coherent.handles_nodup, issued_nodup past, fun step t => scheduled_new,
    fun h t => waits_after, fun h => reply_remove h past, fun now => reply_pop_eq_idle_iff, ?_, ?_, ?_,
    size_after past, ?_⟩
  · rintro h later earlier rfl removed
    exact firesOf_removed later earlier removed
  · exact fun h t task => ⟨(recorded h past).fires t task, (recorded h past).once t task⟩
  · intro now f hfired
    exact fired_in_time hfired
  · rintro later earlier rfl
    have ended : (after (later ++ .shutdown :: earlier)).shutDown := shutDown_after.2 (by simp)
    refine ⟨fired_of_shutdown later earlier, fun step schedules => ?_⟩
    have result := after_result (later ++ .shutdown :: earlier) step
    have ended' := result.shutDown_iff.2 (.inl ended)
    exact ⟨(result.of_shutDown sound ended).2 schedules, (result.sound sound).final ended'⟩

/-- Steps of a recurring task that is removed after it has fired, and of one that fires once. -/
def trialHistory : List (SchedulerStep String) :=
  [.once "late" 30, .shutdown, .pop 20, .remove ⟨1⟩, .pop 7, .pop 7, .once "once" 6, .every "tick" 5 3]

theorem handle_stands_for_task_trial :
    firesOf ⟨1⟩ trialHistory = [(7, ⟨5, ⟨1⟩, "tick"⟩)] ∧
    (firesOf ⟨2⟩ trialHistory).length ≤ 1 ∧
    fired trialHistory = [(7, ⟨5, ⟨1⟩, "tick"⟩), (7, ⟨6, ⟨2⟩, "once"⟩)] ∧
    reply trialHistory (.every "tick" 40 3) = .refused .shutDown := by
  obtain ⟨-, -, -, -, -, -, -, hremoved, htask, -, -, hended⟩ := handle_stands_for_task trialHistory
  obtain ⟨hfired, hrefused⟩ := hended [.once "late" 30] _ rfl
  exact ⟨hremoved ⟨1⟩ [.once "late" 30, .shutdown, .pop 20] _ rfl rfl,
    (htask ⟨2⟩ { job := "once", start := 6 } rfl).2 rfl, hfired, (hrefused _ rfl).1⟩

end Scheduler

end SwapStake
