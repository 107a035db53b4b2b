import Mathlib.Data.List.Nodup
import Mathlib.Data.List.Perm.Subperm
import SwapStake.Proofs.Schedule.Task
import SwapStake.Proofs.Answers
/-!
# Queues whose indexes agree

A queue holds its tasks twice, by time and by handle. `TaskQueue.Coherent` says that the two indexes
tell of the same tasks, and every operation keeps it, as long as a task is only inserted under a handle
under which none waits. A coherent queue is known by the tasks that wait in it (`TaskQueue.Waits`): each
operation has one rule that says which tasks wait afterwards, and no other module looks at the indexes
to find out.
-/

namespace SwapStake

variable {α : Type}

/-! ## The order of places -/

namespace TimeKey

variable {a b c : TimeKey}

theorem before_iff : a.before b ↔ a.1 < b.1 ∨ a.1 = b.1 ∧ a.2.number < b.2.number := by
  simp [before]

theorem not_before_self (a : TimeKey) : ¬ a.before a := by
  rw [before_iff]
  omega

theorem before_trans (hab : a.before b) (hbc : b.before c) : a.before c := by
  rw [before_iff] at *
  omega

theorem before_of_not_before (hne : b ≠ a) (h : ¬ a.before b) : b.before a := by
  obtain ⟨s, m⟩ := a
  obtain ⟨s', n⟩ := b
  rw [before_iff] at *
  have hnumber : s' = s → n.number ≠ m.number := by
    rintro rfl hn
    exact hne (by rw [show n = m from congrArg TaskHandle.mk hn])
  dsimp only at h ⊢
  omega

end TimeKey

namespace TaskQueue

variable {q q' : TaskQueue α} {h h' : TaskHandle} {t t' : Task α} {now : Nat} {f : Firing α}

/-- A task waits under a handle for its start. -/
def Waits (q : TaskQueue α) (h : TaskHandle) (t : Task α) : Prop :=
  ((t.start, h), t) ∈ q.byTime

/-- The two indexes tell of the same tasks: each is in its place, each place is held once, and the
other index knows exactly the starts of these places. -/
structure Coherent (q : TaskQueue α) : Prop where
  ordered : q.byTime.Pairwise fun a b => a.1.before b.1
  own : ∀ e ∈ q.byTime, e.2.start = e.1.1
  linked : ∀ start h, (∃ t, ((start, h), t) ∈ q.byTime) ↔ q.byHandle.lookup h = some start

theorem coherent_empty : ({} : TaskQueue α).Coherent :=
  ⟨.nil, nofun, fun _ _ => by simp⟩

namespace Coherent

variable (coherent : q.Coherent)
include coherent

theorem mem_iff {start : Nat} : ((start, h), t) ∈ q.byTime ↔ start = t.start ∧ q.Waits h t := by
  constructor
  · intro he
    obtain rfl : t.start = start := coherent.own _ he
    exact ⟨rfl, he⟩
  · rintro ⟨rfl, he⟩
    exact he

theorem lookup_eq_some (waits : q.Waits h t) : q.byHandle.lookup h = some t.start :=
  (coherent.linked t.start h).1 ⟨t, waits⟩

theorem waits_of_lookup {start : Nat} (hlookup : q.byHandle.lookup h = some start) :
    ∃ t, q.Waits h t ∧ t.start = start := by
  obtain ⟨t, ht⟩ := (coherent.linked start h).2 hlookup
  obtain ⟨rfl, hwaits⟩ := coherent.mem_iff.1 ht
  exact ⟨t, hwaits, rfl⟩

theorem lookup_eq_none (free : ∀ t, ¬ q.Waits h t) : q.byHandle.lookup h = none := by
  rw [Option.eq_none_iff_forall_ne_some]
  intro start hlookup
  obtain ⟨t, hwaits, -⟩ := coherent.waits_of_lookup hlookup
  exact free t hwaits

theorem keys_nodup : (q.byTime.map Prod.fst).Nodup := by
  rw [List.Nodup, List.pairwise_map]
  refine coherent.ordered.imp fun hab heq => ?_
  rw [heq] at hab
  exact TimeKey.not_before_self _ hab

theorem unique (waits : q.Waits h t) (waits' : q.Waits h t') : t = t' := by
  have hstart := Option.some.inj ((coherent.lookup_eq_some waits).symm.trans (coherent.lookup_eq_some waits'))
  have hkey : (t.start, h) = (t'.start, h) := by rw [hstart]
  exact (Prod.mk.inj (List.inj_on_of_nodup_map coherent.keys_nodup waits waits' hkey)).2

theorem handles_nodup : (q.byTime.map fun e => e.1.2).Nodup := by
  refine List.Nodup.map_on ?_ coherent.keys_nodup.of_map
  rintro ⟨⟨start, h⟩, t⟩ he ⟨⟨start', h'⟩, t'⟩ he' hhandle
  obtain ⟨hstart, hwaits⟩ := coherent.mem_iff.1 he
  obtain ⟨hstart', hwaits'⟩ := coherent.mem_iff.1 he'
  obtain rfl : h = h' := hhandle
  obtain rfl := coherent.unique hwaits hwaits'
  rw [hstart, hstart']

theorem mem_handles : h ∈ q.byTime.map (fun e => e.1.2) ↔ ∃ t, q.Waits h t := by
  rw [List.mem_map]
  constructor
  · rintro ⟨⟨⟨start, _⟩, t⟩, he, rfl⟩
    exact ⟨t, (coherent.mem_iff.1 he).2⟩
  · rintro ⟨t, hwaits⟩
    exact ⟨_, hwaits, rfl⟩

theorem size_le {handles : List TaskHandle} (held : ∀ h t, q.Waits h t → h ∈ handles) :
    q.size ≤ handles.length := by
  have hsub : q.byTime.map (fun e => e.1.2) ⊆ handles := by
    intro h hmem
    obtain ⟨t, hwaits⟩ := coherent.mem_handles.1 hmem
    exact held h t hwaits
  simpa [size] using (List.subperm_of_subset coherent.handles_nodup hsub).length_le

theorem eq_empty (idle : ∀ h t, ¬ q.Waits h t) : q = {} := by
  obtain ⟨byTime, byHandle⟩ := q
  have htime : byTime = [] := by
    rw [List.eq_nil_iff_forall_not_mem]
    rintro ⟨⟨start, h⟩, t⟩ he
    exact idle h t (coherent.mem_iff.1 he).2
  have hhandle : byHandle = [] := by
    cases byHandle with
    | nil => rfl
    | cons e rest =>
      have hlookup : (e :: rest).lookup e.1 = some e.2 := List.lookup_cons_self
      obtain ⟨t, hwaits, -⟩ := coherent.waits_of_lookup hlookup
      exact absurd hwaits (idle e.1 t)
  rw [htime, hhandle]

end Coherent

/-! ## A new place -/

theorem place_perm {k : TimeKey} {l : List (TimeKey × Task α)} (new : ∀ e ∈ l, e.1 ≠ k) :
    (place k t l).Perm ((k, t) :: l) := by
  induction l with
  | nil => exact .refl _
  | cons e rest ih =>
    have hne : k ≠ e.1 := Ne.symm (new e List.mem_cons_self)
    rw [place, if_neg hne]
    split
    · exact .refl _
    · exact ((ih fun e he => new e (List.mem_cons_of_mem _ he)).cons e).trans (.swap _ _ _)

theorem place_ordered {k : TimeKey} {l : List (TimeKey × Task α)} (new : ∀ e ∈ l, e.1 ≠ k)
    (ordered : l.Pairwise fun a b => a.1.before b.1) : (place k t l).Pairwise fun a b => a.1.before b.1 := by
  induction l with
  | nil => exact List.pairwise_singleton _ _
  | cons e rest ih =>
    have hne : e.1 ≠ k := new e List.mem_cons_self
    have hnew : ∀ e ∈ rest, e.1 ≠ k := fun e he => new e (List.mem_cons_of_mem _ he)
    obtain ⟨hfirst, hrest⟩ := List.pairwise_cons.1 ordered
    rw [place, if_neg hne.symm]
    split
    · rename_i hbefore
      refine List.pairwise_cons.2 ⟨fun e' he' => ?_, ordered⟩
      rcases List.mem_cons.1 he' with rfl | he'
      · exact hbefore
      · exact TimeKey.before_trans hbefore (hfirst e' he')
    · rename_i hbefore
      refine List.pairwise_cons.2 ⟨fun e' he' => ?_, ih hnew hrest⟩
      rcases List.mem_cons.1 ((place_perm hnew).mem_iff.1 he') with rfl | he'
      · exact TimeKey.before_of_not_before hne hbefore
      · exact hfirst e' he'

section Insert

variable (coherent : q.Coherent) (new : ∀ t', ¬ q.Waits h t')
include coherent new

theorem keys_ne_of_new (start : Nat) : ∀ e ∈ q.byTime, e.1 ≠ (start, h) := by
  rintro ⟨⟨_, h'⟩, t'⟩ he hkey
  obtain ⟨-, hwaits⟩ := coherent.mem_iff.1 he
  obtain rfl : h' = h := (Prod.mk.inj hkey).2
  exact new t' hwaits

theorem insert_perm : (q.insert h t).byTime.Perm (((t.start, h), t) :: q.byTime) :=
  place_perm (keys_ne_of_new coherent new t.start)

theorem waits_insert : (q.insert h t).Waits h' t' ↔ h' = h ∧ t' = t ∨ q.Waits h' t' := by
  rw [Waits, (insert_perm coherent new).mem_iff, List.mem_cons, ← Waits, Prod.mk.injEq, Prod.mk.injEq]
  refine or_congr_left ⟨fun he => ⟨he.1.2, he.2⟩, ?_⟩
  rintro ⟨rfl, rfl⟩
  exact ⟨⟨rfl, rfl⟩, rfl⟩

theorem Coherent.insert : (q.insert h t).Coherent where
  ordered := place_ordered (keys_ne_of_new coherent new t.start) coherent.ordered
  own e he := by
    rcases List.mem_cons.1 ((insert_perm coherent new).mem_iff.1 he) with rfl | he
    · rfl
    · exact coherent.own e he
  linked start h' := by
    have hnone := coherent.lookup_eq_none new
    have hlookup : (q.insert h t).byHandle.lookup h' = if h' = h then some t.start else q.byHandle.lookup h' := by
      rw [TaskQueue.insert, lookup_cons_ite, forget, lookup_filter_ne]
      split <;> rfl
    rw [hlookup]
    simp only [(insert_perm coherent new).mem_iff, List.mem_cons, Prod.mk.injEq, exists_or, coherent.linked]
    by_cases hh : h' = h
    · subst hh
      simp [hnone, eq_comm]
    · simp [hh]

end Insert

/-! ## Places that are given up -/

/-- The queue without the task of a handle. -/
def without (q : TaskQueue α) (h : TaskHandle) : TaskQueue α :=
  ⟨q.byTime.filter fun e => e.1.2 ≠ h, forget h q.byHandle⟩

theorem waits_without : (q.without h).Waits h' t' ↔ h' ≠ h ∧ q.Waits h' t' := by
  rw [Waits, without, List.mem_filter, ← Waits]
  simp [and_comm]

theorem without_free (q : TaskQueue α) (h : TaskHandle) : ∀ t, ¬ (q.without h).Waits h t :=
  fun _ hwaits => (waits_without.1 hwaits).1 rfl

theorem Coherent.without (coherent : q.Coherent) (h : TaskHandle) : (q.without h).Coherent where
  ordered := coherent.ordered.filter _
  own e he := coherent.own e (List.mem_of_mem_filter he)
  linked start h' := by
    have hlookup : (q.without h).byHandle.lookup h' = if h' = h then none else q.byHandle.lookup h' :=
      lookup_filter_ne q.byHandle h h'
    have hmem (t : Task α) :
        ((start, h'), t) ∈ (q.without h).byTime ↔ h' ≠ h ∧ ((start, h'), t) ∈ q.byTime := by
      rw [TaskQueue.without, List.mem_filter, and_comm, decide_eq_true_eq]
    rw [hlookup, exists_congr hmem]
    by_cases hh : h' = h
    · simp [hh]
    · simp [hh, coherent.linked]

theorem without_of_free (coherent : q.Coherent) (free : ∀ t, ¬ q.Waits h t) : q.without h = q := by
  have htime : q.byTime.filter (fun e => e.1.2 ≠ h) = q.byTime := by
    rw [List.filter_eq_self]
    rintro ⟨⟨start, h'⟩, t⟩ he
    rw [decide_eq_true_eq]
    rintro rfl
    exact free t (coherent.mem_iff.1 he).2
  have hhandle : forget h q.byHandle = q.byHandle := by
    rw [forget, List.filter_eq_self]
    exact fun e he => decide_eq_true (ne_of_lookup_eq_none (coherent.lookup_eq_none free) he)
  rw [without, htime, hhandle]

/-- **A removal tells whether a task waits under the handle**, and leaves the queue without it. -/
theorem remove_eq (coherent : q.Coherent) (h : TaskHandle) :
    ((q.remove h).1 = true ↔ ∃ t, q.Waits h t) ∧ (q.remove h).2 = q.without h := by
  rw [remove]
  cases hlookup : q.byHandle.lookup h with
  | none =>
    have hfree : ∀ t, ¬ q.Waits h t := by
      intro t hwaits
      rw [coherent.lookup_eq_some hwaits] at hlookup
      cases hlookup
    exact ⟨iff_of_false Bool.false_ne_true (not_exists.2 hfree), (without_of_free coherent hfree).symm⟩
  | some start =>
    obtain ⟨t, hwaits, rfl⟩ := coherent.waits_of_lookup hlookup
    refine ⟨iff_of_true ?_ ⟨t, hwaits⟩, ?_⟩
    · exact List.any_eq_true.2 ⟨_, hwaits, decide_eq_true rfl⟩
    · have htime : q.byTime.filter (fun e => e.1 ≠ (t.start, h)) = q.byTime.filter fun e => e.1.2 ≠ h := by
        refine List.filter_congr ?_
        rintro ⟨⟨start, h'⟩, t'⟩ he
        obtain ⟨rfl, hwaits'⟩ := coherent.mem_iff.1 he
        rw [decide_eq_decide, not_iff_not, Prod.mk.injEq, and_iff_right_iff_imp]
        rintro rfl
        rw [coherent.unique hwaits' hwaits]
      dsimp only
      rw [without, htime]

theorem perm_without (coherent : q.Coherent) (waits : q.Waits h t) :
    q.byTime.Perm (((t.start, h), t) :: (q.without h).byTime) := by
  have hnodup : q.byTime.Nodup := coherent.keys_nodup.of_map
  have hother : ((t.start, h), t) ∉ (q.without h).byTime := fun hmem => (waits_without.1 hmem).1 rfl
  refine (List.perm_ext_iff_of_nodup hnodup (List.nodup_cons.2 ⟨hother, hnodup.filter _⟩)).2 ?_
  rintro ⟨⟨start, h'⟩, t'⟩
  rw [List.mem_cons, coherent.mem_iff, (coherent.without h).mem_iff, waits_without, Prod.mk.injEq, Prod.mk.injEq]
  constructor
  · rintro ⟨rfl, hwaits⟩
    by_cases hh : h' = h
    · subst hh
      obtain rfl := coherent.unique hwaits waits
      exact .inl ⟨⟨rfl, rfl⟩, rfl⟩
    · exact .inr ⟨rfl, hh, hwaits⟩
  · rintro (⟨⟨rfl, rfl⟩, rfl⟩ | ⟨rfl, -, hwaits⟩)
    · exact ⟨rfl, waits⟩
    · exact ⟨rfl, hwaits⟩

/-! ## The first place -/

/-- The queue in which a task that has fired goes on, unless it fires only once. -/
def renewed (q : TaskQueue α) (h : TaskHandle) (t : Task α) : TaskQueue α :=
  match t.again with
  | none => q.without h
  | some t' => (q.without h).insert h t'

section Renewed

variable (coherent : q.Coherent)
include coherent

theorem Coherent.renewed (h : TaskHandle) (t : Task α) : (q.renewed h t).Coherent := by
  rw [TaskQueue.renewed]
  split
  · exact coherent.without h
  · exact (coherent.without h).insert (q.without_free h)

theorem waits_renewed : (q.renewed h t).Waits h' t' ↔ if h' = h then t.again = some t' else q.Waits h' t' := by
  rw [renewed]
  split
  · rename_i hagain
    rw [waits_without, hagain]
    by_cases hh : h' = h <;> simp [hh]
  · rename_i t₁ hagain
    rw [waits_insert (coherent.without h) (q.without_free h), waits_without, hagain]
    by_cases hh : h' = h <;> simp [hh, eq_comm]

end Renewed

/-- What a pop takes out, and what it leaves. -/
structure Popped (q : TaskQueue α) (now : Nat) (f : Firing α) (q' : TaskQueue α) (t : Task α) : Prop where
  waits : q.Waits f.handle t
  due : f.due = t.start
  job : f.job = t.job
  timely : f.due ≤ now
  first : ∀ h' t', q.Waits h' t' → h' ≠ f.handle → TimeKey.before (f.due, f.handle) (t'.start, h')
  left : q' = q.renewed f.handle t

theorem Coherent.first (coherent : q.Coherent) {start : Nat} {rest : List (TimeKey × Task α)}
    (first : q.byTime = ((start, h), t) :: rest) :
    q.Waits h t ∧ start = t.start ∧ rest = (q.without h).byTime ∧
      ∀ h' t', q.Waits h' t' → h' ≠ h → TimeKey.before (start, h) (t'.start, h') := by
  obtain ⟨hstart, hwaits⟩ := coherent.mem_iff.1 (first ▸ List.mem_cons_self : ((start, h), t) ∈ q.byTime)
  have hhandles := coherent.handles_nodup
  have hordered := coherent.ordered
  rw [first, List.map_cons, List.nodup_cons] at hhandles
  rw [first, List.pairwise_cons] at hordered
  refine ⟨hwaits, hstart, ?_, fun h' t' hwaits' hne => ?_⟩
  · rw [TaskQueue.without, first, List.filter_cons_of_neg (by simp), eq_comm, List.filter_eq_self]
    intro e he
    exact decide_eq_true fun heq => hhandles.1 (List.mem_map.2 ⟨e, he, heq⟩)
  · rw [Waits, first, List.mem_cons, Prod.mk.injEq, Prod.mk.injEq] at hwaits'
    exact hordered.1 _ (hwaits'.resolve_left fun heq => hne heq.1.2)

theorem popDue_eq_none_iff (coherent : q.Coherent) :
    q.popDue now = none ↔ ∀ h t, q.Waits h t → now < t.start := by
  rw [popDue]
  cases hplaces : q.byTime with
  | nil => simp [Waits, hplaces]
  | cons e rest =>
    obtain ⟨⟨start, h⟩, t⟩ := e
    obtain ⟨hwaits, rfl, -, hothers⟩ := coherent.first hplaces
    dsimp only
    by_cases hearly : now < t.start
    · rw [if_pos hearly]
      refine iff_of_true rfl fun h' t' hwaits' => ?_
      by_cases hh : h' = h
      · subst hh
        rwa [coherent.unique hwaits' hwaits]
      · have hbefore := TimeKey.before_iff.1 (hothers h' t' hwaits' hh)
        dsimp only at hbefore
        omega
    · rw [if_neg hearly]
      exact iff_of_false nofun fun hall => hearly (hall h t hwaits)

/-- **A pop takes out the first task that waits, if it is due**, and lets it go on if it recurs. -/
theorem popped (coherent : q.Coherent) (h : q.popDue now = some (f, q')) : ∃ t, q.Popped now f q' t := by
  rw [popDue] at h
  cases hplaces : q.byTime with
  | nil =>
    rw [hplaces] at h
    cases h
  | cons e rest =>
    obtain ⟨⟨start, handle⟩, t⟩ := e
    obtain ⟨hwaits, rfl, rfl, hothers⟩ := coherent.first hplaces
    rw [hplaces] at h
    dsimp only at h
    by_cases hearly : now < t.start
    · rw [if_pos hearly] at h
      cases h
    · rw [if_neg hearly] at h
      obtain ⟨rfl, rfl⟩ := Prod.mk.inj (Option.some.inj h)
      refine ⟨t, hwaits, rfl, rfl, Nat.not_lt.1 hearly, hothers, ?_⟩
      rw [renewed, Task.again]
      cases t.period with
      | none => rfl
      | some p => rfl

end TaskQueue

end SwapStake
