import SwapStake.Proofs.Mining.History
/-!
# Virtual time is one of the histories

In virtual time the events of a miner are handled as soon as they are sent, so all that a timeline goes
through is a history of its miner, and what it tells its caller is what was done in that history
(`MiningTimeline.Run.told`). What holds of every history therefore holds of every run in virtual time.
-/

namespace SwapStake

/-- What was done in a history, in order. -/
def Miner.deeds (initial : Miner) : List MinerTurn → List MiningEffect
  | [] => []
  | turn :: past => deeds initial past ++ effects initial past turn

namespace MiningTimeline

/-- The miner of a timeline has come from its beginning through some history, and this was done in it. -/
def Told (initial : Miner) (t : MiningTimeline) (deeds : List MiningEffect) : Prop :=
  ∃ past, Miner.after initial past = t.miner ∧ Miner.deeds initial past = deeds

variable {initial : Miner} {t : MiningTimeline} {deeds : List MiningEffect}

/-- What a new timeline can come to by its commands, and what is done on the way. -/
inductive Run (settings : MiningSettings) (native : TokenId) (hasher : Hasher) :
    MiningTimeline → List MiningEffect → Prop
  | new (wall : UInt64) : Run settings native hasher (.new settings native hasher wall) []
  | start {t : MiningTimeline} {deeds : List MiningEffect} (s : MiningServices) (address : String) :
      Run settings native hasher t deeds →
      Run settings native hasher (t.start s address).2.1 (deeds ++ (t.start s address).2.2)
  | stop {t : MiningTimeline} {deeds : List MiningEffect} (s : MiningServices) :
      Run settings native hasher t deeds → Run settings native hasher (t.stop s).1 (deeds ++ (t.stop s).2)
  | sleep {t : MiningTimeline} {deeds : List MiningEffect} (s : MiningServices) (duration : Nat) :
      Run settings native hasher t deeds →
      Run settings native hasher (t.sleep s duration).1 (deeds ++ (t.sleep s duration).2)
  | kill {t : MiningTimeline} {deeds : List MiningEffect} :
      Run settings native hasher t deeds → Run settings native hasher t.kill deeds

namespace Told

theorem take (h : t.Told initial deeds) (turn : MinerTurn) :
    Told initial { t with miner := (t.miner.take turn).1 } (deeds ++ (t.miner.take turn).2) := by
  obtain ⟨past, hminer, rfl⟩ := h
  refine ⟨turn :: past, ?_, ?_⟩
  · rw [Miner.after, hminer]
  · rw [Miner.deeds, Miner.effects, hminer]

theorem handleAll (s : MiningServices) (h : t.Told initial deeds) (jobs : List MinerJob) :
    (t.handleAll s jobs).1.Told initial (deeds ++ (t.handleAll s jobs).2) := by
  induction jobs generalizing t deeds with
  | nil =>
    rw [MiningTimeline.handleAll, List.append_nil]
    exact h
  | cons job rest ih =>
    have hfirst := ih (h.take (.handles s t.clocks (.due job)))
    rw [List.append_assoc] at hfirst
    exact hfirst

theorem settleUpTo (s : MiningServices) (h : t.Told initial deeds) (n : Nat) :
    (t.settleUpTo s n).1.Told initial (deeds ++ (t.settleUpTo s n).2) := by
  induction n generalizing t deeds with
  | zero =>
    rw [MiningTimeline.settleUpTo, List.append_nil]
    exact h
  | succ n ih =>
    have hdispatched := h.take (.dispatches t.now)
    rw [MiningTimeline.settleUpTo]
    rw [Miner.take] at hdispatched
    rcases hdispatch : t.miner.scheduler.dispatch t.now with ⟨firings, scheduler⟩
    rw [hdispatch] at hdispatched
    cases firings with
    | nil =>
      rw [List.append_nil]
      exact h
    | cons firing firings =>
      have hrest := ih (hdispatched.handleAll s ((firing :: firings).map Firing.job))
      rw [List.append_assoc, List.append_assoc] at hrest
      dsimp only
      rw [List.append_assoc]
      exact hrest

theorem settle (s : MiningServices) (h : t.Told initial deeds) :
    (t.settle s).1.Told initial (deeds ++ (t.settle s).2) :=
  h.settleUpTo s _

theorem arrive (s : MiningServices) (h : t.Told initial deeds) (time : Nat) :
    (t.arrive s time).1.Told initial (deeds ++ (t.arrive s time).2) :=
  settle s (show Told initial { t with now := time } deeds from h)

theorem sleep (s : MiningServices) (h : t.Told initial deeds) (duration : Nat) :
    (t.sleep s duration).1.Told initial (deeds ++ (t.sleep s duration).2) :=
  passTime_keeps (P := fun t deeds => Told initial t deeds) (fun instant _ _ told => arrive s told instant) _ _ h

theorem start (s : MiningServices) (h : t.Told initial deeds) (address : String) :
    (t.start s address).2.1.Told initial (deeds ++ (t.start s address).2.2) := by
  rw [MiningTimeline.start]
  split
  · have hstarted := (h.take (.handles s t.clocks (.start address))).settle s
    rw [List.append_assoc] at hstarted
    exact hstarted
  · rw [List.append_nil]
    exact h

theorem stop (s : MiningServices) (h : t.Told initial deeds) :
    (t.stop s).1.Told initial (deeds ++ (t.stop s).2) := by
  rw [MiningTimeline.stop]
  split
  · have hstopped := (h.take (.handles s t.clocks .stop)).settle s
    rw [List.append_assoc] at hstopped
    exact hstopped
  · rw [List.append_nil]
    exact h

end Told

/-- **A run in virtual time is a history.** -/
theorem Run.told {settings : MiningSettings} {native : TokenId} {hasher : Hasher}
    (h : Run settings native hasher t deeds) : t.Told (.ready settings native hasher) deeds := by
  induction h with
  | new wall => exact ⟨[], (Miner.timeline_ready settings native hasher wall).symm, rfl⟩
  | start s address _ ih => exact ih.start s address
  | stop s _ ih => exact ih.stop s
  | sleep s duration _ ih => exact ih.sleep s duration
  | kill _ ih => exact ih

end MiningTimeline

end SwapStake
