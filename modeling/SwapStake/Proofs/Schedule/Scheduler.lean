import SwapStake.Proofs.Schedule.Queue
import SwapStake.Schedule.Scheduler
/-!
# What a scheduler does in one step

A step is one request, or one look at the queue: dispatch takes out one task at a time, at any instant,
and between two looks anything may be asked. `Scheduler.StepResult` has the ways in which a step can
end. A scheduler is sound as long as its queue is coherent, only handles that were handed out are in it,
and it is empty for good once the scheduler is shut down; no step ends this (`StepResult.sound`).
-/

namespace SwapStake

inductive SchedulerStep (α : Type) where
  | start
  /-- For a time, which may be now or past. -/
  | once (job : α) (time : Nat)
  | every (job : α) (first period : Nat)
  | remove (h : TaskHandle)
  | clear
  | shutdown
  /-- Dispatch the first task, if it is due. -/
  | pop (now : Nat)

/-- What a step answers. -/
inductive SchedulerReply (α : Type) where
  | done
  | refused (error : SchedulerError)
  | scheduled (handle : TaskHandle)
  | removed (waiting : Bool)
  | fired (now : Nat) (firing : Firing α)
  /-- Nothing was due. -/
  | idle

variable {α : Type}

namespace SchedulerReply

def handle? : SchedulerReply α → Option TaskHandle
  | scheduled h => some h
  | _ => none

/-- What is dispatched, and when. -/
def dispatched? : SchedulerReply α → Option (Nat × Firing α)
  | fired now f => some (now, f)
  | _ => none

end SchedulerReply

namespace SchedulerStep

/-- The task that a step asks to schedule. -/
def task? : SchedulerStep α → Option (Task α)
  | once job time => some { job, start := time }
  | every job first period =>
    if h : 0 < period then some { job, start := first, period := some ⟨period, h⟩ } else none
  | _ => none

def schedules : SchedulerStep α → Bool
  | once _ _ | every _ _ _ => true
  | _ => false

/-- Whether a step gives up the task of a handle. -/
def drops (h : TaskHandle) : SchedulerStep α → Bool
  | remove h' => h' = h
  | clear | shutdown => true
  | _ => false

/-- The task of a handle after a step, told from the reply: it may be new, go on after it has fired, or
be given up. -/
def leaves (step : SchedulerStep α) (reply : SchedulerReply α) (h : TaskHandle) (before : Option (Task α)) :
    Option (Task α) :=
  match reply with
  | .scheduled h' => if h' = h then step.task? else before
  | .fired _ f => if f.handle = h then before.bind Task.again else before
  | .done | .removed _ => if step.drops h then none else before
  | .refused _ | .idle => before

end SchedulerStep

namespace Scheduler

def booked (s : Scheduler α) (r : Except SchedulerError (TaskHandle × Scheduler α)) :
    Scheduler α × SchedulerReply α :=
  match r with
  | .ok (h, s') => (s', .scheduled h)
  | .error e => (s, .refused e)

def take (s : Scheduler α) : SchedulerStep α → Scheduler α × SchedulerReply α
  | .start =>
    match s.start with
    | .ok s' => (s', .done)
    | .error e => (s, .refused e)
  | .once job time => s.booked (s.scheduleAt job time)
  | .every job first period => s.booked (s.scheduleEvery job first period)
  | .remove h => let (waiting, s') := s.remove h; (s', .removed waiting)
  | .clear => (s.clear, .done)
  | .shutdown => (s.shutdown, .done)
  | .pop now =>
    match s.queue.popDue now with
    | none => (s, .idle)
    | some (f, queue) => ({ s with queue }, .fired now f)

/-- How a step ends. -/
inductive StepResult (s : Scheduler α) : SchedulerStep α → Scheduler α × SchedulerReply α → Prop
  | started (running : ¬ s.shutDown) : StepResult s .start ({ s with started := true }, .done)
  | unstarted (ended : s.shutDown) : StepResult s .start (s, .refused .shutDown)
  | scheduled {step : SchedulerStep α} {t : Task α} (task : step.task? = some t) (running : ¬ s.shutDown) :
      StepResult s step ({ s with queue := s.queue.insert ⟨s.nextHandle⟩ t, nextHandle := s.nextHandle + 1 },
        .scheduled ⟨s.nextHandle⟩)
  | tooLate {step : SchedulerStep α} {t : Task α} (task : step.task? = some t) (ended : s.shutDown) :
      StepResult s step (s, .refused .shutDown)
  | aperiodic {step : SchedulerStep α} (asked : step.schedules) (unfit : step.task? = none) :
      StepResult s step (s, .refused .zeroPeriod)
  | removed {h : TaskHandle} :
      StepResult s (.remove h) ({ s with queue := (s.queue.remove h).2 }, .removed (s.queue.remove h).1)
  | cleared : StepResult s .clear ({ s with queue := {} }, .done)
  | shutDown : StepResult s .shutdown ({ s with queue := {}, shutDown := true }, .done)
  | fired {now : Nat} {f : Firing α} {queue : TaskQueue α} (pop : s.queue.popDue now = some (f, queue)) :
      StepResult s (.pop now) ({ s with queue }, .fired now f)
  | idle {now : Nat} (pop : s.queue.popDue now = none) : StepResult s (.pop now) (s, .idle)

theorem booked_result {s : Scheduler α} {step : SchedulerStep α} {t : Task α} (task : step.task? = some t) :
    StepResult s step (s.booked (s.schedule t)) := by
  rw [schedule]
  split
  · rename_i hended
    exact .tooLate task hended
  · rename_i hrunning
    exact .scheduled task hrunning

theorem take_result (s : Scheduler α) (step : SchedulerStep α) : StepResult s step (s.take step) := by
  cases step with
  | start =>
    rw [take, start]
    by_cases hended : s.shutDown
    · rw [if_pos hended]
      exact .unstarted hended
    · rw [if_neg hended]
      exact .started hended
  | once job time => exact booked_result rfl
  | every job first period =>
    rw [take, scheduleEvery]
    split
    · rename_i hperiod
      exact booked_result (by rw [SchedulerStep.task?, dif_pos hperiod])
    · rename_i hperiod
      exact .aperiodic rfl (by rw [SchedulerStep.task?, dif_neg hperiod])
  | remove h => exact .removed
  | clear => exact .cleared
  | shutdown => exact .shutDown
  | pop now =>
    rw [take]
    split
    · rename_i hpop
      exact .idle hpop
    · rename_i hpop
      exact .fired hpop

/-- What holds of a scheduler after any steps. -/
structure Sound (s : Scheduler α) : Prop where
  coherent : s.queue.Coherent
  handedOut : ∀ h t, s.queue.Waits h t → h.number < s.nextHandle
  final : s.shutDown → s.queue = {}

theorem sound_new : ({} : Scheduler α).Sound :=
  ⟨TaskQueue.coherent_empty, nofun, nofun⟩

variable {s s' : Scheduler α} {step : SchedulerStep α} {reply : SchedulerReply α} {h : TaskHandle} {t : Task α}

theorem Sound.free (sound : s.Sound) : ∀ t, ¬ s.queue.Waits ⟨s.nextHandle⟩ t :=
  fun t hwaits => Nat.lt_irrefl _ (sound.handedOut _ t hwaits)

theorem popDue_of_empty {now : Nat} (empty : s.queue = {}) : s.queue.popDue now = none := by
  rw [empty]
  rfl

namespace StepResult

variable (result : StepResult s step (s', reply))
include result

theorem issues :
    s'.nextHandle = s.nextHandle + 1 ∧ reply.handle? = some ⟨s.nextHandle⟩ ∧ step.task?.isSome ∨
      s'.nextHandle = s.nextHandle ∧ reply.handle? = none := by
  cases result with
  | scheduled task => exact .inl ⟨rfl, rfl, Option.isSome_of_eq_some task⟩
  | _ => exact .inr ⟨rfl, rfl⟩

theorem shutDown_iff : s'.shutDown ↔ s.shutDown ∨ step = .shutdown := by
  cases result with
  | shutDown => exact iff_of_true rfl (.inr rfl)
  | scheduled task | tooLate task =>
    refine (or_iff_left ?_).symm
    rintro rfl
    cases task
  | aperiodic asked =>
    refine (or_iff_left ?_).symm
    rintro rfl
    cases asked
  | _ => exact (or_iff_left nofun).symm

theorem scheduled_of_running (task : step.task? = some t) (running : ¬ s.shutDown) :
    reply = .scheduled ⟨s.nextHandle⟩ := by
  cases result with
  | scheduled => rfl
  | tooLate _ ended => exact absurd ended running
  | aperiodic _ unfit =>
    rw [task] at unfit
    cases unfit
  | _ => cases task

theorem of_shutDown (sound : s.Sound) (ended : s.shutDown) :
    reply.dispatched? = none ∧
      (step.schedules → reply = .refused (if step.task?.isSome then .shutDown else .zeroPeriod)) := by
  cases result with
  | tooLate task => exact ⟨rfl, fun _ => by rw [task]; rfl⟩
  | aperiodic _ unfit => exact ⟨rfl, fun _ => by rw [unfit]; rfl⟩
  | scheduled _ running => exact absurd ended running
  | fired pop =>
    rw [popDue_of_empty (sound.final ended)] at pop
    cases pop
  | _ => exact ⟨rfl, nofun⟩

/-- Which task waits under a handle after a step. -/
theorem waits (sound : s.Sound) {before : Option (Task α)} (told : ∀ t, s.queue.Waits h t ↔ before = some t) :
    s'.queue.Waits h t ↔ step.leaves reply h before = some t := by
  cases result with
  | started | unstarted | tooLate | aperiodic | idle => exact told t
  | @scheduled _ t' task =>
    rw [TaskQueue.waits_insert sound.coherent sound.free, SchedulerStep.leaves, task]
    by_cases hnew : (⟨s.nextHandle⟩ : TaskHandle) = h
    · subst hnew
      rw [if_pos rfl, or_iff_left (sound.free t), Option.some_inj, eq_self_iff_true, true_and, eq_comm]
    · rw [if_neg hnew, or_iff_right (fun heq => hnew heq.1.symm)]
      exact told t
  | @removed h' =>
    rw [(TaskQueue.remove_eq sound.coherent h').2, TaskQueue.waits_without, told]
    by_cases hh : h' = h
    · simp [SchedulerStep.leaves, SchedulerStep.drops, hh]
    · simp [SchedulerStep.leaves, SchedulerStep.drops, hh, Ne.symm hh]
  | cleared | shutDown => simp [SchedulerStep.leaves, SchedulerStep.drops, TaskQueue.Waits]
  | @fired now f queue pop =>
    obtain ⟨t', hpopped⟩ := TaskQueue.popped sound.coherent pop
    rw [SchedulerStep.leaves, hpopped.left, TaskQueue.waits_renewed sound.coherent]
    by_cases hh : f.handle = h
    · obtain rfl := hh
      rw [if_pos rfl, if_pos rfl, (told t').1 hpopped.waits]
      rfl
    · rw [if_neg hh, if_neg (Ne.symm hh)]
      exact told t

theorem sound (before : s.Sound) : s'.Sound where
  coherent := by
    cases result with
    | started | unstarted | tooLate | aperiodic | idle => exact before.coherent
    | scheduled => exact before.coherent.insert before.free
    | removed => exact (TaskQueue.remove_eq before.coherent _).2 ▸ before.coherent.without _
    | cleared | shutDown => exact TaskQueue.coherent_empty
    | fired pop =>
      obtain ⟨t, hpopped⟩ := TaskQueue.popped before.coherent pop
      exact hpopped.left ▸ before.coherent.renewed _ _
  handedOut h t hwaits := by
    cases result with
    | started | unstarted | tooLate | aperiodic | idle => exact before.handedOut h t hwaits
    | scheduled =>
      rcases (TaskQueue.waits_insert before.coherent before.free).1 hwaits with ⟨rfl, -⟩ | hwaits
      · exact Nat.lt_succ_self _
      · exact Nat.lt_succ_of_lt (before.handedOut h t hwaits)
    | @removed h' =>
      rw [(TaskQueue.remove_eq before.coherent h').2, TaskQueue.waits_without] at hwaits
      exact before.handedOut h t hwaits.2
    | cleared | shutDown => cases hwaits
    | fired pop =>
      obtain ⟨t', hpopped⟩ := TaskQueue.popped before.coherent pop
      rw [hpopped.left, TaskQueue.waits_renewed before.coherent] at hwaits
      split at hwaits
      · rename_i hh
        exact hh ▸ before.handedOut _ t' hpopped.waits
      · exact before.handedOut h t hwaits
  final ended := by
    cases result with
    | started running => exact absurd ended running
    | scheduled _ running => exact absurd ended running
    | unstarted | tooLate | aperiodic | idle => exact before.final ended
    | removed =>
      dsimp only
      rw [before.final ended]
      rfl
    | cleared | shutDown => rfl
    | fired pop =>
      rw [popDue_of_empty (before.final ended)] at pop
      cases pop

end StepResult

end Scheduler

end SwapStake
