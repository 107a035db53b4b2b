import SwapStake.ErrorKind
import SwapStake.Schedule.Queue

/-!
# The scheduler

A scheduler hands out handles, keeps tasks in a queue, and from its start to its shutdown dispatches
what is due. Tasks may be scheduled before the start; a shutdown drops them all and is final.
-/

namespace SwapStake

inductive SchedulerError where
  | shutDown
  | zeroPeriod
deriving DecidableEq, Repr

namespace SchedulerError

def message : SchedulerError → String
  | shutDown => "scheduler shut down"
  | zeroPeriod => "zero period"

def kind : SchedulerError → ErrorKind
  | shutDown => .stateError
  | zeroPeriod => .domainError

end SchedulerError

structure Scheduler (α : Type) where
  queue : TaskQueue α := {}
  /-- The number of the next handle. It has no largest value where a word would come round to zero, so
  a scheduler stands for one that hands out fewer than `2 ^ 64` handles. -/
  nextHandle : Nat := 1
  started : Bool := false
  shutDown : Bool := false
deriving Repr

namespace Scheduler

/-- Begin to dispatch. A second start changes nothing. -/
def start (s : Scheduler α) : Except SchedulerError (Scheduler α) :=
  if s.shutDown then .error .shutDown else .ok { s with started := true }

def schedule (s : Scheduler α) (t : Task α) : Except SchedulerError (TaskHandle × Scheduler α) :=
  if s.shutDown then .error .shutDown
  else
    let h : TaskHandle := ⟨s.nextHandle⟩
    .ok (h, { s with queue := s.queue.insert h t, nextHandle := s.nextHandle + 1 })

/-- Schedule a job for once. -/
def scheduleAt (s : Scheduler α) (job : α) (time : Nat) : Except SchedulerError (TaskHandle × Scheduler α) :=
  s.schedule { job, start := time }

/-- Schedule a job for `first` and then for every `period`. -/
def scheduleEvery (s : Scheduler α) (job : α) (first period : Nat) :
    Except SchedulerError (TaskHandle × Scheduler α) :=
  if h : 0 < period then s.schedule { job, start := first, period := some ⟨period, h⟩ }
  else .error .zeroPeriod

/-- Cancel a task, and tell whether it was waiting. -/
def remove (s : Scheduler α) (h : TaskHandle) : Bool × Scheduler α :=
  let (removed, queue) := s.queue.remove h
  (removed, { s with queue })

def clear (s : Scheduler α) : Scheduler α :=
  { s with queue := {} }

/-- Cancel all tasks and dispatch nothing any more. -/
def shutdown (s : Scheduler α) : Scheduler α :=
  { s with queue := {}, shutDown := true }

def size (s : Scheduler α) : Nat := s.queue.size

def running (s : Scheduler α) : Bool := s.started && !s.shutDown

def nextDispatch (s : Scheduler α) : Option Nat :=
  if s.running then s.queue.nextDeadline else none

/-- Dispatch all that is due. -/
def dispatch (s : Scheduler α) (now : Nat) : List (Firing α) × Scheduler α :=
  if s.running then
    let (firings, queue) := s.queue.popAllDue now
    (firings, { s with queue })
  else ([], s)

end Scheduler

end SwapStake
