import SwapStake.Pool.Quote
import SwapStake.Route.Path
/-!
# Answers and tables

The library's operations answer in `Except`. These rules take an answer apart: when a chain of
operations succeeds, every link of it does, and the last one gives the answer. Where it matters which
refusal comes first, the answer of a chain is told link by link on the numbers of its words
(`bind_toNat`), until it is one formula in natural numbers, refusals included.

Tables are lists of keys and values in which the first entry of a key counts. The last rules say what
is found, and what is found after an entry was put in front or all entries of a key were dropped.
-/

namespace SwapStake

variable {ε ε' α β : Type}

theorem bind_eq_ok_iff {x : Except ε α} {f : α → Except ε β} {b : β} :
    (x >>= f) = .ok b ↔ ∃ a, x = .ok a ∧ f a = .ok b := by
  cases x with
  | error e => simp [bind, Except.bind]
  | ok a => simp [bind, Except.bind]

theorem map_eq_ok_iff {x : Except ε α} {f : α → β} {b : β} :
    x.map f = .ok b ↔ ∃ a, x = .ok a ∧ f a = b := by
  cases x with
  | error e => simp [Except.map]
  | ok a => simp [Except.map]

theorem mapError_eq_ok_iff {x : Except ε α} {f : ε → ε'} {a : α} : x.mapError f = .ok a ↔ x = .ok a := by
  cases x with
  | error e =>
    constructor
    · intro h
      cases h
    · intro h
      cases h
  | ok b =>
    constructor
    · intro h
      cases h
      rfl
    · intro h
      cases h
      rfl

theorem guard_eq_ok_iff {p : Prop} [Decidable p] {e : ε} {x : Except ε α} {a : α} :
    (if p then .error e else x) = .ok a ↔ ¬ p ∧ x = .ok a := by
  split <;> simp_all

theorem pure_eq_ok_iff {a b : α} : (pure a : Except ε α) = .ok b ↔ a = b := by
  simp [pure, Except.pure]

theorem toOption_eq_some_iff {x : Except ε α} {a : α} : x.toOption = some a ↔ x = .ok a := by
  cases x with
  | error e => simp [Except.toOption]
  | ok b => simp [Except.toOption]

theorem orPoolError_eq_ok_iff {e : PoolError} {o : Option α} {a : α} : orPoolError e o = .ok a ↔ o = some a := by
  cases o <;> simp [orPoolError]

theorem onRoute_eq_ok_iff {x : Except PoolError α} {a : α} : onRoute x = .ok a ↔ x = .ok a :=
  mapError_eq_ok_iff

/-! ## Answers in words -/

theorem map_toNat_inj {x y : Except ε UInt64} : x.map UInt64.toNat = y.map UInt64.toNat ↔ x = y := by
  cases x with
  | error e => cases y <;> simp [Except.map]
  | ok a => cases y <;> simp [Except.map, UInt64.toNat_inj]

theorem eq_ok_iff_toNat {x : Except ε UInt64} {a : UInt64} : x = .ok a ↔ x.map UInt64.toNat = .ok a.toNat :=
  map_toNat_inj.symm

theorem orPoolError_toNat {e : PoolError} {o : Option UInt64} {n : Nat} (h : ∀ w, o = some w ↔ n = w.toNat) :
    (orPoolError e o).map UInt64.toNat = if 2 ^ 64 ≤ n then .error e else .ok n := by
  by_cases hlarge : 2 ^ 64 ≤ n
  · rw [if_pos hlarge]
    cases o with
    | none => rfl
    | some w =>
      have hw := w.toNat_lt
      have hn := (h w).1 rfl
      omega
  · have hn : (UInt64.ofNat n).toNat = n := UInt64.toNat_ofNat_of_lt' (Nat.not_le.1 hlarge)
    rw [if_neg hlarge, (h _).2 hn.symm]
    exact congrArg Except.ok hn

theorem orPoolError_add?_toNat {e : PoolError} (a b : UInt64) :
    (orPoolError e (Word64.add? a b)).map UInt64.toNat =
      if 2 ^ 64 ≤ a.toNat + b.toNat then .error e else .ok (a.toNat + b.toNat) :=
  orPoolError_toNat fun _ => Word64.add?_eq_some_iff

theorem orPoolError_sub?_toNat {e : PoolError} {a b : UInt64} (h : b.toNat ≤ a.toNat) :
    (orPoolError e (Word64.sub? a b)).map UInt64.toNat = .ok (a.toNat - b.toNat) := by
  rw [Word64.sub?, if_pos (UInt64.le_iff_toNat_le.2 h)]
  exact congrArg Except.ok (UInt64.toNat_sub_of_le _ _ (UInt64.le_iff_toNat_le.2 h))

/-- The rest of a chain, when the number that its first link answers is known. -/
theorem bind_toNat {x : Except ε UInt64} {f : UInt64 → Except ε α} {φ : α → β} {y : Except ε β} {p : Prop}
    [Decidable p] {e : ε} {n : Nat} (hx : x.map UInt64.toNat = if p then .error e else .ok n)
    (hf : ¬ p → ∀ w, w.toNat = n → (f w).map φ = y) : (x >>= f).map φ = if p then .error e else y := by
  by_cases hp : p
  · rw [if_pos hp] at hx ⊢
    cases x with
    | error e' =>
      obtain rfl := Except.error.inj hx
      rfl
    | ok w => cases hx
  · rw [if_neg hp] at hx ⊢
    obtain ⟨w, rfl, hw⟩ := map_eq_ok_iff.1 hx
    exact hf hp w hw

/-! ## Tables -/

variable {κ ν : Type} [DecidableEq κ]

theorem mem_of_lookup {l : List (κ × ν)} {k : κ} {v : ν} (h : l.lookup k = some v) : (k, v) ∈ l := by
  obtain ⟨before, later, rfl, -⟩ := List.lookup_eq_some_iff.1 h
  exact List.mem_append_right _ List.mem_cons_self

theorem ne_of_lookup_eq_none {l : List (κ × ν)} {k k' : κ} {v : ν} (h : l.lookup k = none) (hmem : (k', v) ∈ l) :
    k' ≠ k := by
  rintro rfl
  have hne := List.lookup_eq_none_iff.1 h _ hmem
  simp at hne

theorem lookup_cons_ite (k : κ) (v : ν) (l : List (κ × ν)) (k' : κ) :
    List.lookup k' ((k, v) :: l) = if k' = k then some v else l.lookup k' := by
  rw [List.lookup_cons]
  by_cases h : k' = k
  · simp [h]
  · simp [h, beq_false_of_ne h]

theorem lookup_filter_ne (l : List (κ × ν)) (k k' : κ) :
    List.lookup k' (l.filter fun e => e.1 ≠ k) = if k' = k then none else l.lookup k' := by
  induction l with
  | nil => simp
  | cons e l ih =>
    obtain ⟨k₀, v⟩ := e
    by_cases hdropped : k₀ = k
    · rw [List.filter_cons_of_neg (by simpa using hdropped), ih, lookup_cons_ite]
      by_cases h : k' = k
      · rw [if_pos h, if_pos h]
      · rw [if_neg h, if_neg h, if_neg (hdropped ▸ h)]
    · rw [List.filter_cons_of_pos (by simpa using hdropped), lookup_cons_ite, lookup_cons_ite, ih]
      by_cases h : k' = k₀
      · rw [if_pos h, if_pos h, if_neg (h ▸ hdropped)]
      · rw [if_neg h, if_neg h]

end SwapStake
