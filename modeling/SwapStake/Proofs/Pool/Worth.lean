import SwapStake.Pool.Shares
import SwapStake.Proofs.UInt128.Root
/-!
# The worth of reserves

Reserves are worth the exact rounded-down root of their product in shares (`Reserves.worth_toNat`), since
the product of two amounts fits a word of 128 bits and the root of such a word is exact. The root is found
by a descent that ends, and in which nothing leaves the word (`UInt128.root_exact`), though it may start at
`2 ^ 64`, which no amount can be.
-/

namespace SwapStake

namespace Reserves

variable {old new : Reserves}

theorem worth_toNat (r : Reserves) : r.worth.toNat = Nat.sqrt r.product := by
  rw [worth, UInt128.isqrt_toNat, UInt128.toNat_ofProduct]
  rfl

theorem worth_le_of_product_le (h : old.product ≤ new.product) : old.worth ≤ new.worth := by
  rw [UInt64.le_iff_toNat_le, worth_toNat, worth_toNat]
  exact Nat.sqrt_le_sqrt h

end Reserves

namespace UInt128

/-- **The root of a word is exact, and finding it stays within the word.** The root `r` of a word `n` is the
number with `r * r ≤ n < (r + 1) * (r + 1)`. For a word of two or more the descent takes finitely many steps:
each of them falls, and the one after them does not. None of them divides by zero or has a sum of more than
128 bits, and the number that they lead to is the root and fits 64 bits. So the shares that reserves are
worth are the exact root of their product. -/
theorem root_exact (a : UInt128) (r : Reserves) :
    (a.isqrt.toNat * a.isqrt.toNat ≤ a.toNat ∧ a.toNat < (a.isqrt.toNat + 1) * (a.isqrt.toNat + 1)) ∧
    (2 ≤ a.toNat → ∃ steps,
      (∀ k < steps, newtonIterate a.toNat a.rootStart (k + 1) < newtonIterate a.toNat a.rootStart k) ∧
      newtonIterate a.toNat a.rootStart steps ≤ newtonIterate a.toNat a.rootStart (steps + 1) ∧
      (∀ k ≤ steps, 0 < newtonIterate a.toNat a.rootStart k ∧
        newtonIterate a.toNat a.rootStart k + a.toNat / newtonIterate a.toNat a.rootStart k < 2 ^ 128) ∧
      newtonIterate a.toNat a.rootStart steps < 2 ^ 64 ∧
      a.isqrt.toNat = newtonIterate a.toNat a.rootStart steps) ∧
    r.worth.toNat * r.worth.toNat ≤ r.product ∧ r.product < (r.worth.toNat + 1) * (r.worth.toNat + 1) := by
  refine ⟨?_, fun large => ?_, ?_⟩
  · rw [isqrt_toNat]
    exact ⟨Nat.sqrt_le _, Nat.lt_succ_sqrt _⟩
  · have hpos : 0 < a.toNat := by omega
    have hstart : 0 < a.rootStart := Nat.two_pow_pos _
    have hlimit := rootStart_le a
    have hroot := sqrt_le_newtonIterate hpos (sqrt_le_rootStart a)
    have hsqrt : 0 < Nat.sqrt a.toNat := Nat.sqrt_pos.2 hpos
    obtain ⟨steps, hfalls, hends, hdescent⟩ := newtonDescent_run a.toNat a.rootStart
    have hresult : a.isqrt.toNat = newtonIterate a.toNat a.rootStart steps := by
      rw [isqrt_toNat, ← hdescent, newtonDescent_eq_sqrt hstart (sqrt_le_rootStart a) hpos]
    refine ⟨steps, hfalls, hends, fun k hk => ⟨Nat.lt_of_lt_of_le hsqrt (hroot k), ?_⟩, ?_, hresult⟩
    · have hsum := step_sum_le (hroot k)
      have hle := newtonIterate_le hfalls hk
      omega
    · rw [← hresult]
      exact a.isqrt.toNat_lt
  · rw [Reserves.worth_toNat]
    exact ⟨Nat.sqrt_le _, Nat.lt_succ_sqrt _⟩

theorem root_exact_max : 2 ≤ max.toNat ∧ max.rootStart = 2 ^ 64 ∧
    ∃ steps, newtonIterate max.toNat max.rootStart steps < 2 ^ 64 ∧
      max.isqrt.toNat = newtonIterate max.toNat max.rootStart steps := by
  obtain ⟨-, hdescent, -⟩ := root_exact max ⟨0, 0⟩
  obtain ⟨steps, -, -, -, hfits, hresult⟩ := hdescent (by decide)
  exact ⟨by decide, by decide +kernel, steps, hfits, hresult⟩

end UInt128

end SwapStake
