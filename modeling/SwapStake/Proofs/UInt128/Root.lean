import Mathlib.Data.Nat.Sqrt
import Mathlib.Logic.Function.Iterate
import Mathlib.Tactic.Ring
import SwapStake.Proofs.UInt128.Bits
import SwapStake.UInt128.Root
/-!
# The integer root on natural numbers

`UInt128.isqrt` is the rounded-down root (`isqrt_toNat`). Newton's step never falls below the root,
whatever positive number it starts from (`sqrt_le_newtonStep`), and it falls as long as the number
is above the root, so a descent that begins above the root ends at it. The numbers that a descent goes
through fall until it ends (`newtonDescent_run`) and stay at or above the root, so a step from one of them
divides by a positive number and has a small sum to halve (`step_sum_le`).
-/

namespace SwapStake.UInt128

/-! ## Newton's iteration -/

theorem sqrt_le_newtonStep (n : Nat) {x : Nat} (hx : 0 < x) : Nat.sqrt n ≤ newtonStep n x := by
  have hquot : Nat.sqrt n * Nat.sqrt n < (n / x + 1) * x :=
    Nat.lt_of_le_of_lt (Nat.sqrt_le n) (by rw [Nat.mul_comm]; exact Nat.lt_mul_div_succ n hx)
  rw [newtonStep, Nat.le_div_iff_mul_le (by decide)]
  by_contra hlt
  have hsum : (n / x + 1) + x ≤ 2 * Nat.sqrt n := by omega
  have hfour : 4 * ((n / x + 1) * x) ≤ 4 * (Nat.sqrt n * Nat.sqrt n) :=
    calc 4 * ((n / x + 1) * x) = 4 * (n / x + 1) * x := by ring
      _ ≤ ((n / x + 1) + x) ^ 2 := four_mul_le_sq_add _ _
      _ ≤ (2 * Nat.sqrt n) ^ 2 := Nat.pow_le_pow_left hsum 2
      _ = 4 * (Nat.sqrt n * Nat.sqrt n) := by ring
  omega

theorem le_sqrt_of_le_newtonStep {n x : Nat} (hx : 0 < x) (h : x ≤ newtonStep n x) : x ≤ Nat.sqrt n := by
  rw [newtonStep, Nat.le_div_iff_mul_le (by decide)] at h
  rw [Nat.le_sqrt, ← Nat.le_div_iff_mul_le hx]
  omega

theorem newtonDescent_eq_sqrt {n x : Nat} (hx : 0 < x) (h : Nat.sqrt n ≤ x) (hn : 0 < n) :
    newtonDescent n x = Nat.sqrt n := by
  induction x using Nat.strong_induction_on with
  | _ x ih =>
    have hstep := sqrt_le_newtonStep n hx
    rw [newtonDescent]
    split
    · rename_i hlt
      have hpos : 0 < newtonStep n x := Nat.lt_of_lt_of_le (Nat.sqrt_pos.2 hn) hstep
      exact ih _ hlt hpos hstep
    · rename_i hge
      exact Nat.le_antisymm (le_sqrt_of_le_newtonStep hx (Nat.not_lt.1 hge)) h

/-! ## The run of a descent -/

/-- The number that `k` steps lead to. -/
def newtonIterate (n x k : Nat) : Nat :=
  (newtonStep n)^[k] x

theorem newtonIterate_succ (n x k : Nat) : newtonIterate n x (k + 1) = newtonStep n (newtonIterate n x k) :=
  Function.iterate_succ_apply' _ _ _

theorem newtonDescent_run (n x : Nat) : ∃ steps,
    (∀ k < steps, newtonIterate n x (k + 1) < newtonIterate n x k) ∧
      newtonIterate n x steps ≤ newtonIterate n x (steps + 1) ∧
      newtonDescent n x = newtonIterate n x steps := by
  induction x using Nat.strong_induction_on with
  | _ x ih =>
    rw [newtonDescent]
    split
    · rename_i hfalls
      obtain ⟨steps, hfall, hend, hresult⟩ := ih _ hfalls
      refine ⟨steps + 1, fun k hk => ?_, hend, hresult⟩
      cases k with
      | zero => exact hfalls
      | succ k => exact hfall k (Nat.lt_of_succ_lt_succ hk)
    · rename_i hstays
      exact ⟨0, nofun, Nat.not_lt.1 hstays, rfl⟩

theorem newtonIterate_le {n x steps k : Nat}
    (falls : ∀ k < steps, newtonIterate n x (k + 1) < newtonIterate n x k) (hk : k ≤ steps) :
    newtonIterate n x k ≤ x := by
  induction k with
  | zero => exact Nat.le_refl _
  | succ k ih => exact (falls k hk).le.trans (ih (Nat.le_of_succ_le hk))

theorem sqrt_le_newtonIterate {n x : Nat} (hn : 0 < n) (h : Nat.sqrt n ≤ x) (k : Nat) :
    Nat.sqrt n ≤ newtonIterate n x k := by
  induction k with
  | zero => exact h
  | succ k ih =>
    rw [newtonIterate_succ]
    exact sqrt_le_newtonStep n (Nat.lt_of_lt_of_le (Nat.sqrt_pos.2 hn) ih)

theorem step_sum_le {n x : Nat} (h : Nat.sqrt n ≤ x) : x + n / x ≤ 2 * x + 2 := by
  have hlt : n < (x + 1) * (x + 1) :=
    Nat.lt_of_lt_of_le (Nat.lt_succ_sqrt n) (Nat.mul_le_mul (Nat.succ_le_succ h) (Nat.succ_le_succ h))
  have hsquare : (x + 1) * (x + 1) = x * (x + 2) + 1 := by ring
  have hquot : n / x ≤ x + 2 := Nat.div_le_of_le_mul (by omega)
  omega

/-! ## The start of the descent -/

theorem rootStart_le (a : UInt128) : a.rootStart ≤ 2 ^ 64 := by
  rw [rootStart]
  exact Nat.pow_le_pow_right (by decide) (by omega)

theorem sqrt_le_rootStart (a : UInt128) : Nat.sqrt a.toNat ≤ a.rootStart := by
  have hlt := toNat_lt_two_pow_leadingZeros a
  rw [rootStart]
  generalize 128 - a.leadingZeros = bits at *
  refine Nat.le_of_lt (Nat.sqrt_lt.2 (Nat.lt_of_lt_of_le hlt ?_))
  rw [← Nat.pow_add]
  exact Nat.pow_le_pow_right (by decide) (by omega)

/-- **The root of a word is exact.** -/
theorem isqrt_toNat (a : UInt128) : a.isqrt.toNat = Nat.sqrt a.toNat := by
  have ha := a.toNat_lt
  have hroot : Nat.sqrt a.toNat < 2 ^ 64 := Nat.sqrt_lt.2 (by omega)
  unfold isqrt
  split
  · rename_i h
    have hcases : a.toNat = 0 ∨ a.toNat = 1 := by omega
    rcases hcases with h0 | h1
    · rw [h0, Nat.sqrt_zero]
      rfl
    · rw [h1, Nat.sqrt_one]
      rfl
  · rename_i h
    have hstart : 0 < a.rootStart := Nat.two_pow_pos _
    rw [newtonDescent_eq_sqrt hstart (sqrt_le_rootStart a) (by omega), UInt64.toNat_ofNat',
      Nat.mod_eq_of_lt hroot]

end SwapStake.UInt128
