import SwapStake.Proofs.Mining.Submission
import SwapStake.Proofs.Schedule.Scheduler
/-!
# The tasks of a miner

The scheduler of a miner fires its tasks by itself, and all that is left of a task then is the event it
has sent, which is handled at any later time. `Miner.Reached` are the states that a miner can come to in
this way, beside the jobs that were sent. What fires while an event waits for answers might as well have fired
before it: only when it has them does the miner turn to its scheduler. The one restriction is that the
event of a plan is handled after it has been sent: while its task waits it cannot be, so a plan is never
forgotten before its task (`Miner.Kept.unsent`). `Miner.Kept` is what each event and each firing preserves.
-/

namespace SwapStake

theorem Scheduler.schedule_of_running {α : Type} {s : Scheduler α} (running : ¬ s.shutDown) (t : Task α) :
    s.schedule t = .ok (⟨s.nextHandle⟩,
      { s with queue := s.queue.insert ⟨s.nextHandle⟩ t, nextHandle := s.nextHandle + 1 }) := by
  rw [schedule, if_neg running]

theorem Scheduler.Sound.waits_insert {α : Type} {s : Scheduler α} (sound : s.Sound) (new : Task α) (h : TaskHandle)
    (t : Task α) : (s.queue.insert ⟨s.nextHandle⟩ new).Waits h t ↔
      h = ⟨s.nextHandle⟩ ∧ t = new ∨ s.queue.Waits h t :=
  TaskQueue.waits_insert sound.coherent sound.free

namespace Miner

open MiningController

/-- The states that a miner can come to, with the jobs whose events its scheduler has sent, the last
first. An event may be handled late, again, or not at all; the scheduler fires between any two, at any
time. -/
inductive Reached (initial : Miner) : Miner → List MinerJob → Prop
  | begins : Reached initial initial []
  | fires {m : Miner} {sent : List MinerJob} {now : Nat} {f : Firing MinerJob} {queue : TaskQueue MinerJob}
      (reached : Reached initial m sent) (running : m.scheduler.running)
      (pop : m.scheduler.queue.popDue now = some (f, queue)) :
      Reached initial { m with scheduler := { m.scheduler with queue } } (f.job :: sent)
  | handles {m : Miner} {sent : List MinerJob} (s : MiningServices) (clocks : Clocks) (event : MinerEvent)
      (reached : Reached initial m sent)
      (arrived : ∀ head number, event = .due (.mine head number) → .mine head number ∈ sent) :
      Reached initial (m.handle s clocks event).1 sent

/-- A task looks at the chain, again and again, and the miner knows it. -/
structure Polls (m : Miner) (h : TaskHandle) (t : Task MinerJob) : Prop where
  held : m.pollTask = some h
  job : t.job = .poll
  recurs : t.period.map Period.length = some m.pollInterval

/-- A task is for the last plan, fires once, and the miner knows it. -/
structure Mines (m : Miner) (h : TaskHandle) (t : Task MinerJob) : Prop where
  held : m.mineTask = some (m.sequence, h)
  job : ∃ head, t.job = .mine head m.sequence
  once : t.period = none

/-- What holds of a miner whose scheduler has sent some jobs. -/
structure Kept (m : Miner) (sent : List MinerJob) : Prop where
  sound : m.scheduler.Sound
  running : ¬ m.scheduler.shutDown
  interval : 0 < m.pollInterval
  current : ∀ h t, m.scheduler.queue.Waits h t → m.Polls h t ∨ m.Mines h t
  /-- The event of a plan whose task waits has not been sent. -/
  unsent : ∀ h t, m.scheduler.queue.Waits h t → m.Mines h t → ∀ head, .mine head m.sequence ∉ sent
  polling : m.controller.isMining → ∃ h t, m.pollTask = some h ∧ m.scheduler.queue.Waits h t
  resting : ¬ m.controller.isMining → m.pollTask = none ∧ m.mineTask = none
  latest : ∀ n h, m.mineTask = some (n, h) → n = m.sequence
  apart : ∀ n h, m.pollTask = some h → m.mineTask ≠ some (n, h)
  past : ∀ head n, .mine head n ∈ sent → n ≤ m.sequence

/-! ## What is cancelled -/

section Cancel

variable {m : Miner} (sound : m.scheduler.Sound)
include sound

theorem cancel_waits (o : Option TaskHandle) : ∃ queue,
    m.cancel o = { m with scheduler := { m.scheduler with queue } } ∧
      { m.scheduler with queue }.Sound ∧
      ∀ h t, queue.Waits h t ↔ o ≠ some h ∧ m.scheduler.queue.Waits h t := by
  cases o with
  | none => exact ⟨m.scheduler.queue, rfl, sound, by simp⟩
  | some h =>
    refine ⟨(m.scheduler.queue.remove h).2, rfl, Scheduler.StepResult.removed.sound sound, fun h' t => ?_⟩
    rw [(TaskQueue.remove_eq sound.coherent h).2, TaskQueue.waits_without, ne_comm, ne_eq, ne_eq,
      Option.some_inj]

theorem cancelMining_waits : ∃ queue,
    m.cancelMining = { m with scheduler := { m.scheduler with queue }, mineTask := none } ∧
      { m.scheduler with queue }.Sound ∧
      ∀ h t, queue.Waits h t ↔ m.mineTask.map Prod.snd ≠ some h ∧ m.scheduler.queue.Waits h t := by
  obtain ⟨queue, hcancel, hsound, hwaits⟩ := cancel_waits sound (m.mineTask.map Prod.snd)
  exact ⟨queue, by rw [cancelMining, hcancel], hsound, hwaits⟩

end Cancel

namespace Kept

variable {m : Miner} {sent : List MinerJob} (kept : m.Kept sent)
include kept

theorem mining_of_pollTask {h : TaskHandle} (held : m.pollTask = some h) : m.controller.isMining := by
  by_contra hidle
  rw [(kept.resting hidle).1] at held
  cases held

theorem mines {n : Nat} {h : TaskHandle} {t : Task MinerJob} (held : m.mineTask = some (n, h))
    (waits : m.scheduler.queue.Waits h t) : m.Mines h t := by
  rcases kept.current h t waits with hpolls | hmines
  · exact absurd held (kept.apart n h hpolls.held)
  · exact hmines

theorem idle (hidle : ¬ m.controller.isMining) (h : TaskHandle) (t : Task MinerJob) :
    ¬ m.scheduler.queue.Waits h t := by
  obtain ⟨hpoll, hmine⟩ := kept.resting hidle
  intro hwaits
  rcases kept.current h t hwaits with ⟨hheld, -, -⟩ | ⟨hheld, -, -⟩
  · rw [hpoll] at hheld
    cases hheld
  · rw [hmine] at hheld
    cases hheld

/-! ## Parts of an event -/

theorem guided {c : MiningController} (same : c.rewardAddress = m.controller.rewardAddress) :
    Kept { m with controller := c } sent := by
  have hmining : c.isMining = m.controller.isMining := by rw [isMining, isMining, same]
  exact { kept with
    current := fun h t waits => (kept.current h t waits).imp (fun p => ⟨p.1, p.2, p.3⟩) fun p => ⟨p.1, p.2, p.3⟩
    unsent := fun h t waits p => kept.unsent h t waits ⟨p.1, p.2, p.3⟩
    polling := fun h => kept.polling (hmining ▸ h)
    resting := fun h => kept.resting (hmining ▸ h) }

theorem unplanned {queue : TaskQueue MinerJob} (sound : { m.scheduler with queue }.Sound)
    (waits : ∀ h t, queue.Waits h t ↔ m.mineTask.map Prod.snd ≠ some h ∧ m.scheduler.queue.Waits h t) :
    Kept { m with scheduler := { m.scheduler with queue }, mineTask := none } sent where
  sound := sound
  running := kept.running
  interval := kept.interval
  current h t hwaits := by
    obtain ⟨hother, hbefore⟩ := (waits h t).1 hwaits
    rcases kept.current h t hbefore with hpolls | hmines
    · exact .inl ⟨hpolls.held, hpolls.job, hpolls.recurs⟩
    · exact absurd (by rw [hmines.held]; rfl) hother
  unsent h t _ hmines := nomatch hmines.held
  polling hmining := by
    obtain ⟨h, t, hheld, hbefore⟩ := kept.polling hmining
    refine ⟨h, t, hheld, (waits h t).2 ⟨fun hmine => ?_, hbefore⟩⟩
    obtain ⟨⟨n, _⟩, hplan, rfl⟩ := Option.map_eq_some_iff.1 hmine
    exact kept.apart n _ hheld hplan
  resting hidle := ⟨(kept.resting hidle).1, rfl⟩
  latest := nofun
  apart := nofun
  past := kept.past

theorem cancelMining : m.cancelMining.Kept sent := by
  obtain ⟨queue, hcancel, hsound, hwaits⟩ := cancelMining_waits kept.sound
  rw [hcancel]
  exact kept.unplanned hsound hwaits

/-- The plan whose event is handled has no task left: if one waited, the event would not have been sent. -/
theorem arrived {head : ChainHead} (arrived : .mine head m.sequence ∈ sent) :
    Kept { m with mineTask := none } sent := by
  refine kept.unplanned kept.sound fun h t => ⟨fun hwaits => ⟨fun hmine => ?_, hwaits⟩, And.right⟩
  obtain ⟨⟨n, _⟩, hplan, rfl⟩ := Option.map_eq_some_iff.1 hmine
  exact kept.unsent _ t hwaits (kept.mines hplan hwaits) head arrived

theorem plan (mining : m.controller.isMining) (unplanned : m.mineTask = none) (head : ChainHead) (time : Nat) :
    Kept { m with
      sequence := m.sequence + 1
      scheduler := { m.scheduler with
        queue := m.scheduler.queue.insert ⟨m.scheduler.nextHandle⟩ { job := .mine head (m.sequence + 1), start := time }
        nextHandle := m.scheduler.nextHandle + 1 }
      mineTask := some (m.sequence + 1, ⟨m.scheduler.nextHandle⟩) } sent := by
  have hwaits := kept.sound.waits_insert { job := .mine head (m.sequence + 1), start := time }
  have hresult : Scheduler.StepResult m.scheduler (.once (.mine head (m.sequence + 1)) time) _ :=
    .scheduled rfl kept.running
  exact {
    sound := hresult.sound kept.sound
    running := kept.running
    interval := kept.interval
    current := fun h t hlater => by
      rcases (hwaits h t).1 hlater with ⟨rfl, rfl⟩ | hbefore
      · exact .inr ⟨rfl, ⟨head, rfl⟩, rfl⟩
      · rcases kept.current h t hbefore with hpolls | hmines
        · exact .inl ⟨hpolls.held, hpolls.job, hpolls.recurs⟩
        · have hheld := hmines.held
          rw [unplanned] at hheld
          cases hheld
    unsent := fun h t _ _ head' hsent => Nat.not_succ_le_self _ (kept.past head' _ hsent)
    polling := fun _ => by
      obtain ⟨h, t, hheld, hbefore⟩ := kept.polling mining
      exact ⟨h, t, hheld, (hwaits h t).2 (.inr hbefore)⟩
    resting := fun hidle => absurd mining hidle
    latest := fun n h hplan => by
      obtain ⟨rfl, -⟩ := Prod.mk.inj (Option.some.inj hplan)
      rfl
    apart := fun n h hheld hplan => by
      obtain ⟨-, rfl⟩ := Prod.mk.inj (Option.some.inj hplan)
      obtain ⟨h, t, hheld', hbefore⟩ := kept.polling mining
      obtain rfl := Option.some.inj (hheld'.symm.trans hheld)
      exact kept.sound.free t hbefore
    past := fun head' n hsent => Nat.le_succ_of_le (kept.past head' n hsent) }

/-! ## Events -/

theorem scheduleMining (mining : m.controller.isMining) (clocks : Clocks) (head : ChainHead)
    (details : StakeDetails) : (m.scheduleMining clocks head details).Kept sent := by
  obtain ⟨queue, hcancel, hsound, hwaits⟩ := cancelMining_waits kept.sound
  have hkept := kept.unplanned hsound hwaits
  rw [Miner.scheduleMining, hcancel]
  dsimp only
  rw [Scheduler.scheduleAt, Scheduler.schedule_of_running hkept.running]
  exact hkept.plan mining rfl head _

theorem start (clocks : Clocks) (address : String) : (m.start clocks address).2.Kept sent := by
  by_cases hmining : m.controller.isMining
  · rw [Miner.start, MiningController.start, if_pos hmining]
    exact kept
  · obtain ⟨-, hmine⟩ := kept.resting hmining
    rw [Miner.start, MiningController.start, if_neg hmining, Scheduler.scheduleEvery, dif_pos kept.interval,
      Scheduler.schedule_of_running kept.running]
    have hwaits := kept.sound.waits_insert
      { job := .poll, start := clocks.now, period := some ⟨m.pollInterval, kept.interval⟩ }
    have hresult : Scheduler.StepResult m.scheduler (.every .poll clocks.now m.pollInterval) _ :=
      .scheduled (dif_pos kept.interval) kept.running
    exact {
      sound := hresult.sound kept.sound
      running := kept.running
      interval := kept.interval
      current := fun h t hlater => by
        rcases (hwaits h t).1 hlater with ⟨rfl, rfl⟩ | hbefore
        · exact .inl ⟨rfl, rfl, rfl⟩
        · exact absurd hbefore (kept.idle hmining h t)
      unsent := fun h t _ hmines => by
        have hheld := hmines.held
        rw [hmine] at hheld
        cases hheld
      polling := fun _ => ⟨_, _, rfl, (hwaits _ _).2 (.inl ⟨rfl, rfl⟩)⟩
      resting := fun hidle => absurd rfl hidle
      latest := kept.latest
      apart := fun n h _ hplan => by
        rw [hmine] at hplan
        cases hplan
      past := kept.past }

/-- **Stopping cancels all tasks**, whatever waits and whatever has been sent. -/
theorem stop_eq : m.stop =
    { m with
      controller := m.controller.stop
      scheduler := { m.scheduler with queue := {} }
      pollTask := none
      mineTask := none } := by
  obtain ⟨first, hpolling, hsound, hwaits⟩ := cancel_waits kept.sound m.pollTask
  obtain ⟨second, hmining, hsound', hwaits'⟩ := cancelMining_waits
    (m := { m with scheduler := { m.scheduler with queue := first }, pollTask := none }) hsound
  have hempty : second = {} := by
    refine hsound'.coherent.eq_empty fun h t hlater => ?_
    obtain ⟨hmine, hearlier⟩ := (hwaits' h t).1 hlater
    obtain ⟨hpoll, hbefore⟩ := (hwaits h t).1 hearlier
    rcases kept.current h t hbefore with hpolls | hmines
    · exact hpoll hpolls.held
    · exact hmine (by rw [hmines.held]; rfl)
  rw [stop, cancelPolling, hpolling, hmining, hempty]

theorem stop : m.stop.Kept sent := by
  rw [kept.stop_eq]
  exact {
    sound := ⟨TaskQueue.coherent_empty, nofun, fun _ => rfl⟩
    running := kept.running
    interval := kept.interval
    current := nofun
    unsent := nofun
    polling := nofun
    resting := fun _ => ⟨rfl, rfl⟩
    latest := nofun
    apart := nofun
    past := kept.past }

theorem poll (s : MiningServices) (clocks : Clocks) : (m.due s clocks .poll).1.Kept sent := by
  rw [due]
  rcases hlook : m.controller.onChainHead s with ⟨outcome, controller, effects⟩
  have hresult := HeadResult.of_eq hlook
  have hkept := kept.guided hresult.rewardAddress
  cases outcome with
  | unchanged | failed => exact hkept
  | noCandidate => exact hkept.cancelMining
  | scheduled head details =>
    refine hkept.scheduleMining ?_ clocks head details
    cases hresult with
    | planned mining => exact mining

theorem mine (s : MiningServices) (clocks : Clocks) {head : ChainHead} {number : Nat}
    (arrived : .mine head number ∈ sent) : (m.due s clocks (.mine head number)).1.Kept sent := by
  rw [due]
  split
  · exact kept
  · rename_i hlive
    obtain ⟨⟨n, h⟩, hplan, rfl⟩ := Option.map_eq_some_iff.1 (not_not.1 hlive)
    obtain rfl := kept.latest n h hplan
    have hkept := kept.arrived arrived
    dsimp only
    split
    · exact hkept
    · exact hkept.guided (AttemptResult.of_eq rfl).rewardAddress

theorem handle (s : MiningServices) (clocks : Clocks) (event : MinerEvent)
    (arrived : ∀ head number, event = .due (.mine head number) → .mine head number ∈ sent) :
    (m.handle s clocks event).1.Kept sent := by
  cases event with
  | start address => exact kept.start clocks address
  | stop => exact kept.stop
  | due job =>
    cases job with
    | poll => exact kept.poll s clocks
    | mine head number => exact kept.mine s clocks (arrived head number rfl)

/-! ## Firings -/

theorem fired {now : Nat} {f : Firing MinerJob} {queue : TaskQueue MinerJob}
    (pop : m.scheduler.queue.popDue now = some (f, queue)) :
    (∃ next, f.job = .poll ∧ m.Polls f.handle next ∧
        ∀ h t, queue.Waits h t ↔ if h = f.handle then next = t else m.scheduler.queue.Waits h t) ∨
      ∃ head, f.job = .mine head m.sequence ∧ m.mineTask = some (m.sequence, f.handle) ∧
        ∀ h t, queue.Waits h t ↔ h ≠ f.handle ∧ m.scheduler.queue.Waits h t := by
  obtain ⟨t, hpopped⟩ := TaskQueue.popped kept.sound.coherent pop
  have hwaits (h : TaskHandle) (t' : Task MinerJob) : queue.Waits h t' ↔
      if h = f.handle then t.again = some t' else m.scheduler.queue.Waits h t' := by
    rw [hpopped.left, TaskQueue.waits_renewed kept.sound.coherent]
  rcases kept.current _ t hpopped.waits with ⟨hheld, hjob, hperiod⟩ | ⟨hheld, ⟨head, hjob⟩, honce⟩
  · obtain ⟨p, hp, -⟩ := Option.map_eq_some_iff.1 hperiod
    have hagain : t.again = some { t with start := t.start + p.length } := by simp [Task.again, hp]
    refine .inl ⟨{ t with start := t.start + p.length }, hpopped.job.trans hjob, ⟨hheld, hjob, hperiod⟩,
      fun h t' => ?_⟩
    rw [hwaits, hagain, Option.some_inj]
  · have hagain : t.again = none := by simp [Task.again, honce]
    refine .inr ⟨head, hpopped.job.trans hjob, hheld, fun h t' => ?_⟩
    rw [hwaits, hagain]
    by_cases hsame : h = f.handle
    · simp [hsame]
    · simp [hsame]

theorem fire {now : Nat} {f : Firing MinerJob} {queue : TaskQueue MinerJob}
    (pop : m.scheduler.queue.popDue now = some (f, queue)) :
    Kept { m with scheduler := { m.scheduler with queue } } (f.job :: sent) := by
  have hsound := (Scheduler.StepResult.fired pop).sound kept.sound
  rcases kept.fired pop with ⟨next, hjob, hnext, hwaits⟩ | ⟨head, hjob, hheld, hwaits⟩
  · rw [hjob]
    exact { kept with
      sound := hsound
      current := fun h t hlater => by
        rw [hwaits] at hlater
        split at hlater
        · rename_i hsame
          subst hsame hlater
          exact .inl ⟨hnext.held, hnext.job, hnext.recurs⟩
        · exact (kept.current h t hlater).imp (fun p => ⟨p.1, p.2, p.3⟩) fun p => ⟨p.1, p.2, p.3⟩
      unsent := fun h t hlater hmines head hsent => by
        rw [hwaits] at hlater
        split at hlater
        · rename_i hsame
          subst hsame
          exact kept.apart _ _ hnext.held hmines.held
        · exact kept.unsent h t hlater ⟨hmines.held, hmines.job, hmines.once⟩ head (by simpa using hsent)
      polling := fun hmining => by
        obtain ⟨h, t, hheld, hbefore⟩ := kept.polling hmining
        by_cases hsame : h = f.handle
        · exact ⟨h, next, hheld, (hwaits h next).2 (by rw [if_pos hsame])⟩
        · exact ⟨h, t, hheld, (hwaits h t).2 (by rwa [if_neg hsame])⟩
      past := fun head n hsent => kept.past head n (by simpa using hsent) }
  · rw [hjob]
    exact { kept with
      sound := hsound
      current := fun h t hlater =>
        (kept.current h t ((hwaits h t).1 hlater).2).imp (fun p => ⟨p.1, p.2, p.3⟩) fun p => ⟨p.1, p.2, p.3⟩
      unsent := fun h t hlater hmines => by
        have hother := ((hwaits h t).1 hlater).1
        exact absurd (Prod.mk.inj (Option.some.inj (hmines.held.symm.trans hheld))).2 hother
      polling := fun hmining => by
        obtain ⟨h, t, hpoll, hbefore⟩ := kept.polling hmining
        refine ⟨h, t, hpoll, (hwaits h t).2 ⟨?_, hbefore⟩⟩
        rintro rfl
        exact kept.apart _ _ hpoll hheld
      past := fun head' n hsent => by
        rcases List.mem_cons.1 hsent with hlast | hearlier
        · exact Nat.le_of_eq (MinerJob.mine.inj hlast).2
        · exact kept.past head' n hearlier }

end Kept

/-! ## Runs -/

theorem kept_ready (settings : MiningSettings) (native : TokenId) (hasher : Hasher) :
    (ready settings native hasher).Kept [] where
  sound := Scheduler.StepResult.sound (.started (s := {}) nofun) Scheduler.sound_new
  running := nofun
  interval := Nat.le_max_right _ _
  current := nofun
  unsent := nofun
  polling := nofun
  resting _ := ⟨rfl, rfl⟩
  latest := nofun
  apart := nofun
  past := nofun

namespace Reached

variable {initial m : Miner} {sent : List MinerJob}

theorem kept (reached : Reached initial m sent) (ready : initial.Kept []) : m.Kept sent := by
  induction reached with
  | begins => exact ready
  | fires _ _ pop ih => exact ih.fire pop
  | handles s clocks event _ arrived ih => exact ih.handle s clocks event arrived

theorem popSome (reached : Reached initial m sent) (running : m.scheduler.running) (now n : Nat) :
    Reached initial
      { m with scheduler := { m.scheduler with queue := (TaskQueue.popSome now n m.scheduler.queue).2 } }
      (((TaskQueue.popSome now n m.scheduler.queue).1.map Firing.job).reverse ++ sent) := by
  induction n generalizing m sent with
  | zero => exact reached
  | succ n ih =>
    rw [TaskQueue.popSome]
    cases hpop : m.scheduler.queue.popDue now with
    | none => exact reached
    | some popped =>
      obtain ⟨f, queue⟩ := popped
      have hrest := ih (reached.fires running hpop) running
      simpa using hrest

theorem dispatch (reached : Reached initial m sent) (now : Nat) :
    Reached initial (m.take (.dispatches now)).1
      (((m.scheduler.dispatch now).1.map Firing.job).reverse ++ sent) := by
  rw [take, Scheduler.dispatch]
  by_cases hrunning : m.scheduler.running
  · rw [if_pos hrunning]
    exact reached.popSome hrunning now _
  · rw [if_neg hrunning]
    exact reached

end Reached

/-- **No task of a miner is left behind.** Whatever the order in which events are handled and tasks fire,
and whatever is answered: each task that waits is the one that looks at the chain or the one of the last
plan, and the miner has the handle of it, so at most two wait. The one that looks at the chain waits, and
its handle is held, exactly while there is mining; the handle of a plan is never that of an older one; and
stopping leaves no task and no handle. -/
theorem no_stray_tasks (settings : MiningSettings) (native : TokenId) (hasher : Hasher) {m : Miner}
    {sent : List MinerJob} (reached : Reached (ready settings native hasher) m sent) :
    (∀ h t, m.scheduler.queue.Waits h t → m.Polls h t ∨ m.Mines h t) ∧
    m.scheduler.size ≤ 2 ∧
    (m.controller.isMining ↔ ∃ h t, m.pollTask = some h ∧ m.scheduler.queue.Waits h t) ∧
    (m.controller.isMining ↔ m.pollTask.isSome) ∧
    (∀ number h, m.mineTask = some (number, h) → number = m.sequence) ∧
    ∀ s clocks, (m.handle s clocks .stop).1.scheduler.queue = {} ∧
      (m.handle s clocks .stop).1.pollTask = none ∧ (m.handle s clocks .stop).1.mineTask = none := by
  have hkept := reached.kept (kept_ready settings native hasher)
  have hmining : m.pollTask.isSome → m.controller.isMining := by
    intro hsome
    obtain ⟨h, hheld⟩ := Option.isSome_iff_exists.1 hsome
    exact hkept.mining_of_pollTask hheld
  refine ⟨hkept.current, ?_, ⟨hkept.polling, ?_⟩, ⟨?_, hmining⟩, hkept.latest, fun s clocks => ?_⟩
  · have hheld : ∀ h t, m.scheduler.queue.Waits h t →
        h ∈ m.pollTask.toList ++ (m.mineTask.map Prod.snd).toList := by
      intro h t hwaits
      rcases hkept.current h t hwaits with hpolls | hmines
      · simp [hpolls.held]
      · simp [hmines.held]
    refine Nat.le_trans (hkept.sound.coherent.size_le hheld) ?_
    rw [List.length_append]
    exact Nat.add_le_add Option.length_toList_le Option.length_toList_le
  · rintro ⟨h, -, hheld, -⟩
    exact hmining (by rw [hheld]; rfl)
  · intro hmines
    obtain ⟨h, -, hheld, -⟩ := hkept.polling hmines
    rw [hheld]
    rfl
  · rw [handle, hkept.stop_eq]
    exact ⟨rfl, rfl, rfl⟩

/-- A look at the chain has fired, and it has planned a block. -/
def trialTasks : List MinerTurn :=
  [.handles trialMining ⟨0, 0⟩ (.due .poll), .dispatches 0, .handles trialMining ⟨0, 0⟩ (.start "miner")]

theorem no_stray_tasks_planned :
    Reached trialMiner (after trialMiner trialTasks) [.poll] ∧
      (after trialMiner trialTasks).scheduler.size = 2 ∧
      (after trialMiner trialTasks).mineTask.map Prod.fst = some 1 ∧
      (∃ h t, (after trialMiner trialTasks).pollTask = some h ∧
        (after trialMiner trialTasks).scheduler.queue.Waits h t) ∧
      ((after trialMiner trialTasks).handle trialMining ⟨0, 0⟩ .stop).1.scheduler.queue = {} := by
  have hstarted : Reached trialMiner (after trialMiner [.handles trialMining ⟨0, 0⟩ (.start "miner")]) [] :=
    .handles trialMining ⟨0, 0⟩ (.start "miner") .begins nofun
  have hfired := hstarted.dispatch 0
  have hreached : Reached trialMiner (after trialMiner trialTasks) [.poll] :=
    .handles trialMining ⟨0, 0⟩ (.due .poll) hfired nofun
  obtain ⟨-, -, hpolling, -, -, hstop⟩ := no_stray_tasks {} ⟨0⟩ (fun _ => default) hreached
  refine ⟨hreached, by decide +kernel, by decide +kernel, hpolling.1 (by decide +kernel), ?_⟩
  exact (hstop trialMining ⟨0, 0⟩).1

end Miner

end SwapStake
