import SwapStake.Schedule.Queue
/-!
# The firings of one task

Its start and its period say once and for all when a task can fire: the firings that it can come to are
`Task.firing`, counted from zero, and `Task.later` is how it waits after some of them. `Task.owed` and
`Task.caughtUp` are the two for a time, when all that was due until then has fired.
-/

namespace SwapStake

variable {α : Type}

namespace Task

/-- The task as it goes on after it has fired. -/
def again (t : Task α) : Option (Task α) :=
  t.period.map fun p => { t with start := t.start + p.length }

/-- The task as it waits after it has fired `n` times. -/
def later (t : Task α) : Nat → Option (Task α)
  | 0 => some t
  | n + 1 => (t.later n).bind again

def firing (t : Task α) (h : TaskHandle) (n : Nat) : Firing α :=
  ⟨t.start + n * t.period.elim 0 Period.length, h, t.job⟩

/-- The firings of a task up to a time. -/
def owed (t : Task α) (h : TaskHandle) (now : Nat) : List (Firing α) :=
  (List.range (t.firings now)).map (t.firing h)

/-- The task as it waits when all its firings up to a time are done. -/
def caughtUp (t : Task α) (now : Nat) : Option (Task α) :=
  t.later (t.firings now)

variable {t t' : Task α} {now n : Nat} {h : TaskHandle} {p : Period}

theorem recurs_of_again (again : t.again = some t') :
    ∃ p, t.period = some p ∧ t'.period = some p ∧ t'.start = t.start + p.length ∧ t'.job = t.job := by
  obtain ⟨p, hperiod, rfl⟩ := Option.map_eq_some_iff.1 again
  exact ⟨p, hperiod, hperiod, rfl, rfl⟩

theorem start_lt_of_again (again : t.again = some t') : t.start < t'.start := by
  obtain ⟨p, -, -, hstart, -⟩ := recurs_of_again again
  rw [hstart]
  exact Nat.lt_add_of_pos_right p.pos

@[simp]
theorem later_zero : t.later 0 = some t :=
  rfl

@[simp]
theorem firing_zero : t.firing h 0 = ⟨t.start, h, t.job⟩ := by
  simp [firing]

/-! ## Tasks that fire once -/

theorem later_once (once : t.period = none) : t.later (n + 1) = none := by
  induction n with
  | zero => simp [later, again, once]
  | succ n ih => rw [later, ih, Option.bind_none]

/-! ## Recurring tasks -/

theorem later_recurring (recurs : t.period = some p) : t.later n = some { t with start := t.start + n * p.length } := by
  induction n with
  | zero => simp
  | succ n ih => simp [later, ih, again, recurs, Nat.succ_mul, Nat.add_assoc]

theorem firing_recurring (recurs : t.period = some p) : t.firing h n = ⟨t.start + n * p.length, h, t.job⟩ := by
  rw [firing, recurs]
  rfl

theorem first_start_after {start : Nat} (p : Period) (due : start ≤ now) :
    now < start + ((now - start) / p.length + 1) * p.length ∧
      ∀ j < (now - start) / p.length + 1, start + j * p.length ≤ now := by
  constructor
  · have hrest := Nat.lt_mul_div_succ (now - start) p.pos
    rw [Nat.mul_comm] at hrest
    omega
  · intro j hj
    have hdone := Nat.mul_le_mul_right p.length (Nat.le_of_lt_succ hj)
    have hwhole := Nat.div_mul_le_self (now - start) p.length
    omega

/-! ## One firing after another -/

/-- The next firing of a task that has fired some times is told by how it waits. -/
theorem firing_of_later (waits : t.later n = some t') : t.firing h n = ⟨t'.start, h, t'.job⟩ := by
  cases hperiod : t.period with
  | none =>
    cases n with
    | zero =>
      obtain rfl := Option.some.inj waits
      exact firing_zero
    | succ n => simp [later_once hperiod] at waits
  | some p =>
    rw [later_recurring hperiod, Option.some_inj] at waits
    rw [firing_recurring hperiod, ← waits]

theorem later_of_again (again : t.again = some t') : t.later (n + 1) = t'.later n := by
  induction n with
  | zero => exact again
  | succ n ih => rw [later, ih, later]

theorem firing_of_again (again : t.again = some t') : t.firing h (n + 1) = t'.firing h n := by
  obtain ⟨p, hperiod, hperiod', hstart, hjob⟩ := recurs_of_again again
  rw [firing_recurring hperiod, firing_recurring hperiod', hstart, hjob, Nat.succ_mul, Nat.add_comm (n * _),
    Nat.add_assoc]

/-! ## The firings up to a time -/

theorem firings_of_early (early : now < t.start) : t.firings now = 0 :=
  if_pos early

theorem firings_recurring (due : t.start ≤ now) (recurs : t.period = some p) :
    t.firings now = (now - t.start) / p.length + 1 := by
  rw [firings, if_neg (Nat.not_lt.2 due), recurs]

theorem firings_of_due (due : t.start ≤ now) :
    t.firings now = t.again.elim 0 (fun t' => t'.firings now) + 1 := by
  cases hagain : t.again with
  | none => simp [firings, Nat.not_lt.2 due, Option.map_eq_none_iff.1 hagain]
  | some t' =>
    obtain ⟨p, hperiod, hperiod', hstart, -⟩ := recurs_of_again hagain
    rw [firings_recurring due hperiod, Option.elim_some]
    by_cases hnext : t'.start ≤ now
    · have hlater : now - t.start = now - t'.start + p.length := by omega
      rw [firings_recurring hnext hperiod', hlater, Nat.add_div_right _ p.pos]
    · rw [firings_of_early (Nat.not_le.1 hnext), Nat.div_eq_of_lt (by omega)]

theorem owed_of_early (early : now < t.start) : t.owed h now = [] := by
  rw [owed, firings_of_early early]
  rfl

theorem owed_of_due (due : t.start ≤ now) :
    t.owed h now = ⟨t.start, h, t.job⟩ :: t.again.elim [] (fun t' => t'.owed h now) := by
  rw [owed, firings_of_due due, List.range_succ_eq_map, List.map_cons, firing_zero, List.map_map]
  congr 1
  cases hagain : t.again with
  | none => rfl
  | some t' => exact List.map_congr_left fun n _ => firing_of_again hagain

theorem caughtUp_of_early (early : now < t.start) : t.caughtUp now = some t := by
  rw [caughtUp, firings_of_early early, later_zero]

theorem caughtUp_of_due (due : t.start ≤ now) : t.caughtUp now = t.again.bind fun t' => t'.caughtUp now := by
  rw [caughtUp, firings_of_due due]
  cases hagain : t.again with
  | none => exact hagain
  | some t' => exact later_of_again hagain

/-! A task that is due and fires once, and one that recurs: -/

theorem caught_up_once (due : t.start ≤ now) (once : t.period = none) :
    t.owed h now = [⟨t.start, h, t.job⟩] ∧ t.caughtUp now = none := by
  rw [owed_of_due due, caughtUp_of_due due, again, once]
  exact ⟨rfl, rfl⟩

theorem caught_up_recurring (due : t.start ≤ now) (recurs : t.period = some p) :
    t.owed h now =
        (List.range ((now - t.start) / p.length + 1)).map (fun k => ⟨t.start + k * p.length, h, t.job⟩) ∧
      t.caughtUp now = some { t with start := t.start + ((now - t.start) / p.length + 1) * p.length } := by
  rw [owed, caughtUp, firings_recurring due recurs, later_recurring recurs]
  exact ⟨List.map_congr_left fun n _ => firing_recurring recurs, rfl⟩

end Task

end SwapStake
