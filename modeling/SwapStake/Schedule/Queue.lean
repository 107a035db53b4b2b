/-!
# The task queue

Tasks wait for their start, in the order of their starts; of equal starts the lower handle comes
first. A queue is two indexes of the same tasks: `byTime` holds the tasks in this order, and
`byHandle` knows the start of each, so a task can be found by its handle. A recurring task that is
popped goes back at once under its own handle, one period after its start, however late it is. Times
are in milliseconds and have no largest value.
-/

namespace SwapStake

/-- The number under which a task is known, one that fits a word while fewer than `2 ^ 64` handles have
been handed out. -/
structure TaskHandle where
  number : Nat
deriving DecidableEq, Repr, Inhabited

/-- The time between two starts of a recurring task. -/
structure Period where
  length : Nat
  pos : 0 < length
deriving DecidableEq, Repr

structure Task (α : Type) where
  job : α
  start : Nat
  /-- Absent for a task that fires once. -/
  period : Option Period := none
deriving Repr

/-- A task that is due: its handle, its job, and the start for which it was due. -/
structure Firing (α : Type) where
  due : Nat
  handle : TaskHandle
  job : α
deriving Repr

/-- The place of a task in the order. -/
abbrev TimeKey := Nat × TaskHandle

/-- Whether a place comes before another. -/
def TimeKey.before (a b : TimeKey) : Bool :=
  a.1 < b.1 || (a.1 == b.1 && a.2.number < b.2.number)

/-- How often a task fires up to a time, unless it is removed. -/
def Task.firings (t : Task α) (now : Nat) : Nat :=
  if now < t.start then 0
  else match t.period with
    | none => 1
    | some p => (now - t.start) / p.length + 1

structure TaskQueue (α : Type) where
  byTime : List (TimeKey × Task α) := []
  byHandle : List (TaskHandle × Nat) := []
deriving Repr

namespace TaskQueue

/-- Put a task into its place; one that already has the place is replaced. -/
def place (k : TimeKey) (t : Task α) : List (TimeKey × Task α) → List (TimeKey × Task α)
  | [] => [(k, t)]
  | e :: rest =>
    if k = e.1 then (k, t) :: rest
    else if k.before e.1 then (k, t) :: e :: rest
    else e :: place k t rest

/-- The starts of all handles but one. -/
def forget (h : TaskHandle) (l : List (TaskHandle × Nat)) : List (TaskHandle × Nat) :=
  l.filter fun e => e.1 ≠ h

def insert (q : TaskQueue α) (h : TaskHandle) (t : Task α) : TaskQueue α :=
  { byTime := place (t.start, h) t q.byTime
    byHandle := (h, t.start) :: forget h q.byHandle }

/-- Remove a task, and tell whether it was there. -/
def remove (q : TaskQueue α) (h : TaskHandle) : Bool × TaskQueue α :=
  match q.byHandle.lookup h with
  | none => (false, q)
  | some start =>
    (q.byTime.any fun e => e.1 = (start, h),
      { byTime := q.byTime.filter fun e => e.1 ≠ (start, h)
        byHandle := forget h q.byHandle })

def nextDeadline (q : TaskQueue α) : Option Nat :=
  q.byTime.head?.map fun e => e.1.1

/-- Take out the first task, if it is due. -/
def popDue (q : TaskQueue α) (now : Nat) : Option (Firing α × TaskQueue α) :=
  match q.byTime with
  | [] => none
  | ((start, h), t) :: rest =>
    if now < start then none
    else
      let others : TaskQueue α := ⟨rest, forget h q.byHandle⟩
      some (⟨start, h, t.job⟩,
        match t.period with
        | none => others
        | some p => others.insert h { t with start := t.start + p.length })

/-- How often tasks fire up to a time. -/
def firings (q : TaskQueue α) (now : Nat) : Nat :=
  (q.byTime.map fun e => e.2.firings now).foldr (· + ·) 0

/-- Take out at most `n` tasks that are due, in order. -/
def popSome (now : Nat) : Nat → TaskQueue α → List (Firing α) × TaskQueue α
  | 0, q => ([], q)
  | n + 1, q =>
    match q.popDue now with
    | none => ([], q)
    | some (f, q) =>
      let (fs, q) := popSome now n q
      (f :: fs, q)

/-- Take out all tasks that are due, in order; a recurring task once for each of its starts. -/
def popAllDue (q : TaskQueue α) (now : Nat) : List (Firing α) × TaskQueue α :=
  popSome now (q.firings now) q

def size (q : TaskQueue α) : Nat := q.byTime.length

end TaskQueue

end SwapStake
