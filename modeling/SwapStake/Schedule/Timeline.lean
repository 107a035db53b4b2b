import SwapStake.Metrics
import SwapStake.Schedule.Scheduler

/-!
# Timelines

A run of a scheduler in virtual time. Its jobs have a name, may give the scheduler a command, and
may then sleep. At an instant those who have slept enough wake first, in the order in which they
fell asleep. Then all that is due is dispatched before any of its jobs runs, the jobs run in the
order of dispatch, and what they have scheduled for now or the past follows in the same way.
-/

namespace SwapStake

/-! ## Virtual time

Time that passes only on demand, and that stops at every instant at which something happens by
itself. What happens at an instant may bring further instants into being; those that lie in the
present or the past have to be dealt with at the instant itself. -/

/-- Let time pass from `now` to `target`. `next` is the next instant at which something happens, and
`arrive` is what happens then. -/
def passTime (next : σ → Option Nat) (arrive : Nat → σ → σ × List ε) (target now : Nat) (s : σ) : σ × List ε :=
  match next s with
  | none => (s, [])
  | some instant =>
    if now < instant ∧ instant ≤ target then
      let (s, first) := arrive instant s
      let (s, later) := passTime next arrive target instant s
      (s, first ++ later)
    else (s, [])
termination_by target - now

/-- What every instant keeps, of the state and of all that has happened, is kept while time passes. -/
theorem passTime_keeps {next : σ → Option Nat} {arrive : Nat → σ → σ × List ε} {P : σ → List ε → Prop}
    (arrived : ∀ instant s log, P s log → P (arrive instant s).1 (log ++ (arrive instant s).2)) (target now : Nat)
    {s : σ} {log : List ε} (h : P s log) :
    P (passTime next arrive target now s).1 (log ++ (passTime next arrive target now s).2) := by
  fun_induction passTime next arrive target now s generalizing log with
  | case1 now s quiet =>
    rw [List.append_nil]
    exact h
  | case2 now s instant coming within s' first harrive s'' later hlater ih =>
    have harrived := arrived instant s log h
    rw [harrive] at harrived
    have hrest := ih harrived
    rw [hlater, List.append_assoc] at hrest
    exact hrest
  | case3 now s instant coming beyond =>
    rw [List.append_nil]
    exact h

/-! ## Runs of a scheduler -/

mutual

inductive ScheduledJob where
  /-- A job with its name, its command, and how long it sleeps afterwards. -/
  | mk (label : String) (command : Option SchedulerCommand) (rest : Option Nat)

inductive SchedulerCommand where
  | start
  | now (job : ScheduledJob)
  | once (job : ScheduledJob) (time : Nat)
  | every (job : ScheduledJob) (first period : Nat)
  /-- Cancel the task with the `n`-th handle, counted from one. -/
  | remove (n : Nat)
  | clear
  | shutdown
  /-- Give the scheduler up. -/
  | drop

end

namespace ScheduledJob

def label : ScheduledJob → String
  | mk l _ _ => l

def command : ScheduledJob → Option SchedulerCommand
  | mk _ c _ => c

def rest : ScheduledJob → Option Nat
  | mk _ _ r => r

end ScheduledJob

mutual

/-- How many jobs are nested in a job, itself included. -/
def ScheduledJob.depth : ScheduledJob → Nat
  | .mk _ none _ => 1
  | .mk _ (some c) _ => c.depth + 1

/-- How many jobs are nested in a command. -/
def SchedulerCommand.depth : SchedulerCommand → Nat
  | .now j => j.depth
  | .once j _ => j.depth
  | .every j _ _ => j.depth
  | _ => 0

end

/-- What a scheduler answers to a command. -/
inductive SchedulerAnswer where
  | done
  | scheduled (handle : TaskHandle)
  /-- Whether the task was waiting. -/
  | removed (waiting : Bool)
  | refused (error : SchedulerError)
  /-- So many handles have not been handed out. -/
  | noHandle
  | dropped
deriving DecidableEq, Repr

/-- What can be seen of jobs. -/
inductive JobRecord where
  /-- A job runs, and its command is answered. -/
  | ran (label : String) (time : Nat) (answer : Option SchedulerAnswer)
  /-- A job wakes up and ends. -/
  | ended (label : String) (time : Nat)
deriving Repr

/-- A job that sleeps. -/
structure Sleeper where
  label : String
  wakes : Nat
deriving DecidableEq, Repr

structure Timeline where
  now : Nat := 0
  /-- Absent once it has been given up. -/
  scheduler : Option (Scheduler ScheduledJob) := some {}
  /-- The sleepers in the order in which they fell asleep. -/
  sleepers : List Sleeper := []
  metrics : Metrics := {}

namespace Timeline

/-- Put a changed scheduler in place. -/
def answered (t : Timeline) (r : Except SchedulerError (SchedulerAnswer × Scheduler ScheduledJob)) :
    SchedulerAnswer × Timeline :=
  match r with
  | .ok (a, s) => (a, { t with scheduler := some s })
  | .error e => (.refused e, t)

def perform (t : Timeline) (c : SchedulerCommand) : SchedulerAnswer × Timeline :=
  match t.scheduler with
  | none => (.dropped, t)
  | some s =>
    let scheduled := Except.map fun (h, s) => (SchedulerAnswer.scheduled h, s)
    match c with
    | .start => t.answered (s.start.map fun s => (.done, s))
    | .now job => t.answered (scheduled (s.scheduleAt job t.now))
    | .once job time => t.answered (scheduled (s.scheduleAt job time))
    | .every job first period => t.answered (scheduled (s.scheduleEvery job first period))
    | .remove n =>
      if 0 < n ∧ n < s.nextHandle then
        let (waiting, s) := s.remove ⟨n⟩
        (.removed waiting, { t with scheduler := some s })
      else (.noHandle, t)
    | .clear => (.done, { t with scheduler := some s.clear })
    | .shutdown => (.done, { t with scheduler := some s.shutdown })
    | .drop => (.done, { t with scheduler := none })

/-- Run a job up to its end or its sleep. -/
def run (t : Timeline) (j : ScheduledJob) : Timeline × List JobRecord :=
  let (answer, t) := match j.command with
    | some c => let (a, t) := t.perform c; (some a, t)
    | none => (none, t)
  let ran := JobRecord.ran j.label t.now answer
  match j.rest with
  | none => (t, [ran])
  | some 0 => (t, [ran, .ended j.label t.now])
  | some r => ({ t with sleepers := t.sleepers ++ [⟨j.label, t.now + r⟩] }, [ran])

def runAll (t : Timeline) : List ScheduledJob → Timeline × List JobRecord
  | [] => (t, [])
  | j :: rest =>
    let (t, first) := t.run j
    let (t, later) := t.runAll rest
    (t, first ++ later)

def dispatch (t : Timeline) : List ScheduledJob × Timeline :=
  match t.scheduler with
  | none => ([], t)
  | some s =>
    let (firings, s) := s.dispatch t.now
    (firings.map Firing.job,
      { t with
        scheduler := some s
        metrics := firings.foldl (fun m _ => m.count .tasksFired) t.metrics })

/-- Dispatch and run, at most `n` times. -/
def settleUpTo : Nat → Timeline → Timeline × List JobRecord
  | 0, t => (t, [])
  | n + 1, t =>
    match t.dispatch with
    | ([], t) => (t, [])
    | (jobs, t) =>
      let (t, first) := t.runAll jobs
      let (t, later) := settleUpTo n t
      (t, first ++ later)

/-- How deep the jobs that wait are nested. -/
def depth (t : Timeline) : Nat :=
  match t.scheduler with
  | none => 0
  | some s => (s.queue.byTime.map fun e => e.2.job.depth).foldl max 0

/-- Dispatch and run until nothing is due. Each time the jobs that run are nested less deep than
those before, so the depth of all jobs bounds how often. -/
def settle (t : Timeline) : Timeline × List JobRecord :=
  settleUpTo (t.depth + 1) t

/-- All that happens at an instant. -/
def arrive (time : Nat) (t : Timeline) : Timeline × List JobRecord :=
  let (awake, asleep) := t.sleepers.partition fun s => s.wakes ≤ time
  let (t, log) := settle { t with now := time, sleepers := asleep }
  (t, awake.map (fun s => .ended s.label time) ++ log)

/-- The next instant at which something happens. -/
def nextInstant (t : Timeline) : Option Nat :=
  (t.sleepers.map Sleeper.wakes ++ (t.scheduler.bind Scheduler.nextDispatch).toList).min?

def sleep (t : Timeline) (duration : Nat) : Timeline × List JobRecord :=
  let target := t.now + duration
  let (t, log) := passTime nextInstant arrive target t.now t
  ({ t with now := target }, log)

/-- Give the scheduler a command and run what follows at once. -/
def step (t : Timeline) (c : SchedulerCommand) : SchedulerAnswer × Timeline × List JobRecord :=
  let (a, t) := t.perform c
  (a, t.settle)

end Timeline

end SwapStake
