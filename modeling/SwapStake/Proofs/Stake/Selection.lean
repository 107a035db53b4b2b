import Mathlib.Algebra.Order.Field.Basic
import Mathlib.Algebra.Order.Field.Rat
import Mathlib.Data.Nat.Cast.Order.Ring
import Mathlib.Order.Compare
import SwapStake.Stake.Candidate
/-!
# The selected stake

Candidates are compared by their targets for each unit of their amounts. The comparison of cross products is
that of these quotients as long as there is something at stake (`cmp_isLE_iff`), so it is transitive, and the
candidate that is kept from one end of a list to the other is the first one with the least quotient
(`foldl_better_firstLeast`). What is selected is therefore an output that may stake, with its own hash, and
none of the others that may has a smaller target for its amount (`winner_chosen`).
-/

namespace SwapStake

namespace StakeCandidate

variable {a b c : StakeCandidate}

/-! ## The order -/

/-- The target of a candidate for each unit of its amount. -/
def rank (c : StakeCandidate) : ℚ :=
  c.target.toNat / c.output.amount.toNat

/-- Something is at stake. -/
def Funded (c : StakeCandidate) : Prop :=
  1 ≤ c.output.amount

theorem Funded.pos (h : c.Funded) : 0 < c.output.amount.toNat :=
  UInt64.le_iff_toNat_le.1 h

theorem rank_le_iff (ha : a.Funded) (hb : b.Funded) : a.rank ≤ b.rank ↔
    a.target.toNat * b.output.amount.toNat ≤ b.target.toNat * a.output.amount.toNat := by
  rw [rank, rank, div_le_div_iff₀ (Nat.cast_pos.2 ha.pos) (Nat.cast_pos.2 hb.pos)]
  norm_cast

theorem rank_lt_iff (ha : a.Funded) (hb : b.Funded) : a.rank < b.rank ↔
    a.target.toNat * b.output.amount.toNat < b.target.toNat * a.output.amount.toNat :=
  lt_iff_lt_of_le_iff_le (rank_le_iff hb ha)

theorem cmp_eq_compare (a b : StakeCandidate) : a.cmp b =
    compare (b.output.amount.toNat * a.target.toNat) (a.output.amount.toNat * b.target.toNat) := by
  rw [cmp, UInt128.cmp_eq_compare, UInt128.toNat_ofProduct, UInt128.toNat_ofProduct]

theorem cmp_isLE_iff (ha : a.Funded) (hb : b.Funded) : (a.cmp b).isLE ↔ a.rank ≤ b.rank := by
  rw [cmp_eq_compare, Nat.isLE_compare, rank_le_iff ha hb, Nat.mul_comm, Nat.mul_comm a.output.amount.toNat]

theorem cmp_eq_gt_iff (ha : a.Funded) (hb : b.Funded) : a.cmp b = .gt ↔ b.rank < a.rank := by
  rw [cmp_eq_compare, Nat.compare_eq_gt, rank_lt_iff hb ha, Nat.mul_comm, Nat.mul_comm b.output.amount.toNat]

theorem cmp_transitive : Std.TransCmp fun a b : { c : StakeCandidate // c.Funded } => a.1.cmp b.1 where
  eq_swap {a b} := by rw [cmp_eq_compare, cmp_eq_compare, Nat.compare_swap]
  isLE_trans {a b c} hab hbc := by
    rw [cmp_isLE_iff a.2 b.2] at hab
    rw [cmp_isLE_iff b.2 c.2] at hbc
    exact (cmp_isLE_iff a.2 c.2).2 (hab.trans hbc)

/-! ## The best of a list -/

/-- The first of those candidates in a list that have the least rank. -/
def FirstLeast (l : List StakeCandidate) (c : StakeCandidate) : Prop :=
  ∃ before after, l = before ++ c :: after ∧ (∀ d ∈ before, c.rank < d.rank) ∧ ∀ d ∈ after, c.rank ≤ d.rank

variable {l : List StakeCandidate}

theorem FirstLeast.mem (h : FirstLeast l c) : c ∈ l := by
  obtain ⟨before, after, rfl, -, -⟩ := h
  exact List.mem_append_right _ List.mem_cons_self

theorem FirstLeast.rank_le (h : FirstLeast l c) : ∀ d ∈ l, c.rank ≤ d.rank := by
  obtain ⟨before, after, rfl, hbefore, hafter⟩ := h
  intro d hd
  rcases List.mem_append.1 hd with hd | hd
  · exact (hbefore d hd).le
  · rcases List.mem_cons.1 hd with rfl | hd
    · exact le_rfl
    · exact hafter d hd

theorem FirstLeast.cons_of_lt {d : StakeCandidate} (h : FirstLeast (d :: l) c) (lt : d.rank < a.rank) :
    FirstLeast (a :: d :: l) c := by
  have hle := h.rank_le d List.mem_cons_self
  obtain ⟨before, after, hl, hbefore, hafter⟩ := h
  refine ⟨a :: before, after, by rw [hl, List.cons_append], ?_, hafter⟩
  exact List.forall_mem_cons.2 ⟨hle.trans_lt lt, hbefore⟩

theorem FirstLeast.insert_of_le {d : StakeCandidate} (h : FirstLeast (a :: l) c) (le : a.rank ≤ d.rank) :
    FirstLeast (a :: d :: l) c := by
  obtain ⟨before, after, hl, hbefore, hafter⟩ := h
  cases before with
  | nil =>
    obtain ⟨rfl, rfl⟩ := List.cons.inj hl
    exact ⟨[], d :: l, rfl, nofun, List.forall_mem_cons.2 ⟨le, hafter⟩⟩
  | cons e before =>
    obtain ⟨rfl, rfl⟩ := List.cons.inj hl
    obtain ⟨ha, hrest⟩ := List.forall_mem_cons.1 hbefore
    refine ⟨a :: d :: before, after, rfl, ?_, hafter⟩
    exact List.forall_mem_cons.2 ⟨ha, List.forall_mem_cons.2 ⟨ha.trans_le le, hrest⟩⟩

theorem foldl_better_firstLeast (ha : a.Funded) (hl : ∀ d ∈ l, d.Funded) :
    FirstLeast (a :: l) (l.foldl better a) := by
  induction l generalizing a with
  | nil => exact ⟨[], [], rfl, nofun, nofun⟩
  | cons d l ih =>
    obtain ⟨hd, hl⟩ := List.forall_mem_cons.1 hl
    rw [List.foldl_cons, better]
    split
    · rename_i hgt
      exact (ih hd hl).cons_of_lt ((cmp_eq_gt_iff ha hd).1 hgt)
    · rename_i hle
      exact (ih ha hl).insert_of_le (not_lt.1 ((cmp_eq_gt_iff ha hd).not.1 hle))

theorem best_eq_none_iff : best l = none ↔ l = [] := by
  cases l with
  | nil => simp [best]
  | cons a l => simp [best]

theorem best_firstLeast (hl : ∀ d ∈ l, d.Funded) (h : best l = some c) : FirstLeast l c := by
  cases l with
  | nil => cases h
  | cons a l =>
    obtain ⟨ha, hl⟩ := List.forall_mem_cons.1 hl
    obtain rfl := Option.some.inj h
    exact foldl_better_firstLeast ha hl

end StakeCandidate

/-! ## The selection -/

/-- What the selection for the next block goes by. -/
structure Contest where
  policy : StakePolicy
  hasher : Hasher
  unlocked : WalletOutput → Bool
  height : UInt64
  /-- The hash of the block before. -/
  prev : Hash256

namespace Contest

variable {k : Contest} {outputs : List WalletOutput} {o : WalletOutput} {c : StakeCandidate}

/-- Whether an output may stake. -/
def admits (k : Contest) (o : WalletOutput) : Bool :=
  k.policy.eligible o (k.unlocked o) k.height

/-- An output with its own hash for the next block. -/
def candidate (k : Contest) (o : WalletOutput) : StakeCandidate :=
  ⟨o, posHash k.hasher o.keyImage k.prev⟩

/-- The stake that is selected. -/
def winner (k : Contest) (outputs : List WalletOutput) : Option StakeCandidate :=
  StakeCandidate.select k.policy k.hasher k.unlocked k.height k.prev outputs

theorem winner_eq (k : Contest) (outputs : List WalletOutput) :
    k.winner outputs = StakeCandidate.best ((outputs.filter k.admits).map k.candidate) := rfl

/-- The first output in a list that may stake and has the least target for its amount of those that may. -/
structure Chosen (k : Contest) (outputs : List WalletOutput) (c : StakeCandidate) : Prop where
  admitted : k.admits c.output
  hashed : c.posHash = posHash k.hasher c.output.keyImage k.prev
  least : ∀ o ∈ outputs, k.admits o →
    c.target.toNat * o.amount.toNat ≤ (k.candidate o).target.toNat * c.output.amount.toNat
  first : ∃ before after, outputs = before ++ c.output :: after ∧ ∀ o ∈ before, k.admits o →
    c.target.toNat * o.amount.toNat < (k.candidate o).target.toNat * c.output.amount.toNat

theorem minAmount_le_of_admits (h : k.admits o) : k.policy.minAmount ≤ o.amount := by
  simp only [admits, StakePolicy.eligible, Bool.and_eq_true, decide_eq_true_eq] at h
  exact h.1.1.2

theorem funded_of_admits (positive : 1 ≤ k.policy.minAmount) (h : k.admits o) : (k.candidate o).Funded :=
  UInt64.le_trans positive (minAmount_le_of_admits h)

theorem winner_eq_none_iff : k.winner outputs = none ↔ ∀ o ∈ outputs, ¬ k.admits o := by
  rw [winner_eq, StakeCandidate.best_eq_none_iff, List.map_eq_nil_iff, List.filter_eq_nil_iff]

theorem place_of_firstLeast (h : StakeCandidate.FirstLeast ((outputs.filter k.admits).map k.candidate) c) :
    ∃ before o after, outputs = before ++ o :: after ∧ k.candidate o = c ∧ k.admits o ∧
      ∀ o' ∈ before, k.admits o' → c.rank < (k.candidate o').rank := by
  obtain ⟨better, worse, hl, hbefore, -⟩ := h
  obtain ⟨front, back, hfilter, rfl, hback⟩ := List.map_eq_append_iff.1 hl
  obtain ⟨o, rest, rfl, hc, -⟩ := List.map_eq_cons_iff.1 hback
  obtain ⟨before, back, rfl, rfl, hback⟩ := List.filter_eq_append_iff.1 hfilter
  obtain ⟨skipped, after, rfl, hskipped, hadmits, -⟩ := List.filter_eq_cons_iff.1 hback
  refine ⟨before ++ skipped, o, after, (List.append_assoc ..).symm, hc, hadmits, fun o' ho' hadmits' => ?_⟩
  rcases List.mem_append.1 ho' with ho' | ho'
  · exact hbefore _ (List.mem_map_of_mem (List.mem_filter.2 ⟨ho', hadmits'⟩))
  · exact absurd hadmits' (hskipped o' ho')

theorem chosen_of_winner (positive : 1 ≤ k.policy.minAmount) (h : k.winner outputs = some c) :
    k.Chosen outputs c := by
  have hfunded : ∀ d ∈ (outputs.filter k.admits).map k.candidate, d.Funded := by
    intro d hd
    obtain ⟨o, ho, rfl⟩ := List.mem_map.1 hd
    exact funded_of_admits positive (List.mem_filter.1 ho).2
  have hbest := StakeCandidate.best_firstLeast hfunded h
  obtain ⟨before, o, after, houtputs, rfl, hadmits, hfirst⟩ := place_of_firstLeast hbest
  refine ⟨hadmits, rfl, fun o' ho' hadmits' => ?_, before, after, houtputs, fun o' ho' hadmits' => ?_⟩
  · have hmem : k.candidate o' ∈ (outputs.filter k.admits).map k.candidate :=
      List.mem_map_of_mem (List.mem_filter.2 ⟨ho', hadmits'⟩)
    exact (StakeCandidate.rank_le_iff (hfunded _ hbest.mem) (hfunded _ hmem)).1 (hbest.rank_le _ hmem)
  · exact (StakeCandidate.rank_lt_iff (hfunded _ hbest.mem) (funded_of_admits positive hadmits')).1
      (hfirst o' ho' hadmits')

theorem Chosen.eq_candidate (h : k.Chosen outputs c) : k.candidate c.output = c := by
  obtain ⟨output, posHash⟩ := c
  exact congrArg (StakeCandidate.mk output) h.hashed.symm

theorem Chosen.funded (positive : 1 ≤ k.policy.minAmount) (h : k.Chosen outputs c) : c.Funded :=
  h.eq_candidate ▸ funded_of_admits positive h.admitted

theorem Chosen.mem (h : k.Chosen outputs c) : c.output ∈ outputs := by
  obtain ⟨before, after, houtputs, -⟩ := h.first
  rw [houtputs]
  exact List.mem_append_right _ List.mem_cons_self

theorem Chosen.rank_le {outputs' : List WalletOutput} {c' : StakeCandidate} (positive : 1 ≤ k.policy.minAmount)
    (h : k.Chosen outputs c) (h' : k.Chosen outputs' c') (perm : outputs.Perm outputs') : c.rank ≤ c'.rank := by
  have hleast := h.least c'.output (perm.mem_iff.2 h'.mem) h'.admitted
  rw [h'.eq_candidate] at hleast
  exact (StakeCandidate.rank_le_iff (h.funded positive) (h'.funded positive)).2 hleast

theorem rank_winner_of_perm {outputs' : List WalletOutput} (positive : 1 ≤ k.policy.minAmount)
    (perm : outputs.Perm outputs') :
    (k.winner outputs').map StakeCandidate.rank = (k.winner outputs).map StakeCandidate.rank := by
  have hnone : k.winner outputs' = none ↔ k.winner outputs = none := by
    simp only [winner_eq_none_iff, perm.mem_iff]
  cases hw : k.winner outputs with
  | none => rw [hnone.2 hw]
  | some c =>
    cases hw' : k.winner outputs' with
    | none => rw [hnone.1 hw'] at hw; cases hw
    | some c' =>
      have hc := chosen_of_winner positive hw
      have hc' := chosen_of_winner positive hw'
      exact congrArg some (le_antisymm (hc'.rank_le positive hc perm.symm) (hc.rank_le positive hc' perm))

/-- **The best stake is selected.** Nothing is selected exactly if no output may stake; what is selected is an
output that may, with its own hash, the first in the list of those with the least target for their amounts.
So the order of the list does not change how small that is. The comparison behind it is a total preorder of
the candidates with something at stake. -/
theorem winner_chosen (k : Contest) (outputs : List WalletOutput) (positive : 1 ≤ k.policy.minAmount) :
    (k.winner outputs = none ↔ ∀ o ∈ outputs, ¬ k.admits o) ∧
    (∀ c, k.winner outputs = some c → k.Chosen outputs c) ∧
    (∀ outputs', outputs.Perm outputs' →
      (k.winner outputs').map StakeCandidate.rank = (k.winner outputs).map StakeCandidate.rank) ∧
    Std.TransCmp fun a b : { c : StakeCandidate // c.Funded } => a.1.cmp b.1 :=
  ⟨winner_eq_none_iff, fun _ => chosen_of_winner positive, fun _ => rank_winner_of_perm positive,
    StakeCandidate.cmp_transitive⟩

/-- Hashes are the first bytes of the key images, and everything is unlocked and mature. -/
def trialContest : Contest :=
  ⟨⟨⟨0⟩, 1, 0⟩, .ofBytes, fun _ => true, 100, default⟩

/-- The second and the third output have the same target for their amounts; the last may not stake. -/
def trialOutputs : List WalletOutput :=
  [⟨.ofBytes [30], 100, ⟨0⟩, 1, 0⟩, ⟨.ofBytes [20], 200, ⟨0⟩, 2, 0⟩, ⟨.ofBytes [10], 100, ⟨0⟩, 3, 0⟩,
    ⟨.ofBytes [0], 100, ⟨7⟩, 4, 0⟩]

theorem winner_chosen_trial :
    ∃ c, trialContest.winner trialOutputs = some c ∧ c.output.index = 2 ∧ trialContest.Chosen trialOutputs c ∧
      (trialContest.winner trialOutputs.reverse).map StakeCandidate.rank =
        (trialContest.winner trialOutputs).map StakeCandidate.rank := by
  obtain ⟨-, hchosen, hperm, -⟩ := winner_chosen trialContest trialOutputs (by decide)
  obtain ⟨c, hc, hindex⟩ := Option.map_eq_some_iff.1 (show (trialContest.winner trialOutputs).map
    (fun c => c.output.index) = some 2 by decide +kernel)
  exact ⟨c, hc, hindex, hchosen c hc, hperm _ (List.reverse_perm _).symm⟩

end Contest

end SwapStake
