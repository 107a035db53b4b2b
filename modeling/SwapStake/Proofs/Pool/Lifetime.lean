import SwapStake.Proofs.Pool.Shares
import SwapStake.Proofs.Route.SaleProduct
/-!
# The lifetime of a pool

A pool is solvent when its shares are covered: the square of the supply is at most the product of the
reserves, and as long as there are shares there is some of both tokens behind them. A deposit issues no
more shares than the worth grows by, a withdrawal leaves behind at least what the remaining shares are
of each reserve, and a sale leaves the product no smaller, so a pool is solvent from its creation on
(`lifetime_solvent`). It may be emptied by a withdrawal of all shares, and filled again.
-/

namespace SwapStake

theorem Carried.hop_of_mem {q : SwapRequest} {pools : List Pool} {swaps : List Swap} {t d : TokenId} {x z : UInt64}
    (h : Carried q pools swaps t x d z) {s : Swap} (hs : s ∈ swaps) :
    ∃ p t u x y, s.Moves p t u x y ∧ q.Priced (p.facing t) x y := by
  induction h with
  | arrived => cases hs
  | hop moves priced _ ih =>
    rcases List.mem_cons.1 hs with rfl | hs
    · exact ⟨_, _, _, _, _, moves, priced⟩
    · exact ih hs

theorem SwapRequest.Priced.reserves_ne_zero {q : SwapRequest} {p : Pool} {t : TokenId} {x y : UInt64}
    (h : q.Priced (p.facing t) x y) (hside : q.side = .sell) : p.reserves ≠ ⟨0, 0⟩ := by
  intro hempty
  have hreserves : p.facing t = ⟨0, 0⟩ := by
    unfold Pool.facing
    rw [hempty]
    split
    · rfl
    · rfl
  have hle := h.le_reserve
  rw [hreserves] at hle
  rw [SwapRequest.Priced, hside] at h
  exact Nat.not_le_of_lt (Word64.toNat_pos h.2) hle

/-- What can happen to a pool. -/
inductive PoolOrder where
  | deposit (amount1 amount2 : UInt64)
  | withdraw (shares : UInt64)
  /-- A sale is planned over some pools, and the swap of one of its hops is applied. -/
  | sale (pools : List Pool) (hop : Nat) (source destination : TokenId) (amount : UInt64) (interest : UInt32)

namespace Pool

/-- The pool after an order, unless the order is refused. -/
def serve? (p : Pool) : PoolOrder → Option Pool
  | .deposit amount1 amount2 => (p.addLiquidity amount1 amount2).toOption.map Prod.fst
  | .withdraw shares => (p.takeLiquidity shares).toOption.map Prod.fst
  | .sale pools hop source destination amount interest => do
    let plan ← (Plan.through pools ⟨source, destination, amount, interest, .sell⟩).toOption
    let swap ← plan.swaps[hop]?
    (p.applySwap swap).toOption

/-- The pool after some orders. One that is refused leaves the pool as it is. -/
def lifetime (p : Pool) (orders : List PoolOrder) : Pool :=
  orders.foldl (fun p o => (p.serve? o).getD p) p

/-- A pool whose shares are covered by its reserves, and that is in use or empty. -/
structure Solvent (p : Pool) : Prop where
  stocked : (p.reserves.Stocked ∧ 0 < p.supply.toNat) ∨ (p.reserves = ⟨0, 0⟩ ∧ p.supply = 0)
  covered : p.supply.toNat ^ 2 ≤ p.reserves.product

variable {p p' : Pool}

theorem supply_le_worth_iff : p.supply ≤ p.reserves.worth ↔ p.supply.toNat ^ 2 ≤ p.reserves.product := by
  rw [UInt64.le_iff_toNat_le, Reserves.worth_toNat, Nat.le_sqrt']

/-! ## What each operation keeps -/

theorem solvent_of_supply_eq_worth (hstocked : p.reserves.Stocked) (hsupply : p.supply = p.reserves.worth) :
    p.Solvent := by
  refine ⟨.inl ⟨hstocked, ?_⟩, supply_le_worth_iff.1 (UInt64.le_of_eq hsupply)⟩
  rw [hsupply, Reserves.worth_toNat, Nat.sqrt_pos]
  exact Reserves.stocked_iff_product_pos.1 hstocked

theorem create_solvent {share token1 token2 : TokenId} {amount1 amount2 issued : UInt64}
    (h : create share token1 token2 amount1 amount2 = .ok (p, issued)) : p.Solvent := by
  obtain ⟨-, hsome1, hsome2, -, rfl⟩ := create_eq_ok_iff.1 h
  exact solvent_of_supply_eq_worth ⟨Word64.toNat_pos hsome1, Word64.toNat_pos hsome2⟩ rfl

theorem Deposited.solvent {amount1 amount2 issued : UInt64} (h : p.Deposited amount1 amount2 p' issued)
    (hp : p.Solvent) : p'.Solvent := by
  have hstocked : p'.reserves.Stocked := by
    have hsome1 := Word64.toNat_pos h.some1
    have hsome2 := Word64.toNat_pos h.some2
    have hgrows1 := h.grows1
    have hgrows2 := h.grows2
    exact ⟨by omega, by omega⟩
  have hcovered : p'.supply ≤ p'.reserves.worth := by
    rw [UInt64.le_iff_toNat_le, ← h.supply]
    exact Reserves.rescaled_le_worth (supply_le_worth_iff.2 hp.covered)
  rcases hp.stocked with ⟨-, hsupply⟩ | ⟨-, hnone⟩
  · have hissued := h.issued
    exact ⟨.inl ⟨hstocked, by omega⟩, supply_le_worth_iff.1 hcovered⟩
  · have hworth := h.supply
    rw [Reserves.rescaled, if_pos (.inr hnone), UInt64.toNat_inj] at hworth
    exact solvent_of_supply_eq_worth hstocked hworth.symm

theorem Withdrawn.covered {shares : UInt64} {paid : Reserves} (h : p.Withdrawn shares p' paid)
    (hp : p.Solvent) : p'.supply.toNat ^ 2 ≤ p'.reserves.product := by
  have hpos : 0 < p.supply.toNat ^ 2 := Nat.pow_pos (supply_pos_of_shares h.some h.enough)
  refine Nat.le_of_mul_le_mul_right ?_ hpos
  -- neither reserve has less for each share than it had
  calc p'.supply.toNat ^ 2 * p.supply.toNat ^ 2
      ≤ p'.supply.toNat ^ 2 * p.reserves.product := Nat.mul_le_mul_left _ hp.covered
    _ = p.reserves.product * p'.supply.toNat ^ 2 := Nat.mul_comm _ _
    _ ≤ p'.reserves.product * p.supply.toNat ^ 2 := h.backs.product_le

theorem Withdrawn.solvent {shares : UInt64} {paid : Reserves} (h : p.Withdrawn shares p' paid)
    (hp : p.Solvent) : p'.Solvent := by
  have hcovered := h.covered hp
  refine ⟨?_, hcovered⟩
  by_cases hnone : p'.supply = 0
  · exact .inr ⟨h.emptied hnone, hnone⟩
  · have hsome := Word64.toNat_pos hnone
    exact .inl ⟨Reserves.stocked_iff_product_pos.2 (Nat.lt_of_lt_of_le (Nat.pow_pos hsome) hcovered), hsome⟩

theorem Solvent.swapped {r : Reserves} (hp : p.Solvent) (hsome : p.reserves ≠ ⟨0, 0⟩)
    (hproduct : p.reserves.product ≤ r.product) : ({ p with reserves := r } : Pool).Solvent := by
  obtain ⟨hstocked, hcovered⟩ := hp
  refine ⟨.inl ?_, Nat.le_trans hcovered hproduct⟩
  rcases hstocked with ⟨hstocked, hsupply⟩ | ⟨hempty, -⟩
  · rw [Reserves.stocked_iff_product_pos] at hstocked ⊢
    exact ⟨Nat.lt_of_lt_of_le hstocked hproduct, hsupply⟩
  · exact absurd hempty hsome

theorem applySwap_solvent {q : SwapRequest} {pools : List Pool} {plan : Plan} {s : Swap}
    (hplan : plan.Follows pools q) (hside : q.side = .sell) (hs : s ∈ plan.swaps)
    (h : p.applySwap s = .ok p') (hp : p.Solvent) : p'.Solvent := by
  rw [applySwap, guard_eq_ok_iff, guard_eq_ok_iff] at h
  obtain ⟨-, hfresh, h⟩ := h
  obtain rfl := Except.ok.inj h
  obtain ⟨r, t, u, x, y, hmoves, hpriced⟩ := hplan.carried.hop_of_mem hs
  have hreserves : r.reserves = p.reserves := hmoves.before.symm.trans (Decidable.not_not.1 hfresh)
  have hproduct := hmoves.product_le hpriced hside
  rw [hreserves] at hproduct
  refine hp.swapped ?_ hproduct
  rw [← hreserves]
  exact hpriced.reserves_ne_zero hside

theorem serve?_solvent {o : PoolOrder} (h : p.serve? o = some p') (hp : p.Solvent) : p'.Solvent := by
  cases o with
  | deposit amount1 amount2 =>
    obtain ⟨⟨q, issued⟩, hserved, rfl⟩ := Option.map_eq_some_iff.1 h
    rw [toOption_eq_some_iff, addLiquidity_eq_ok_iff] at hserved
    exact hserved.solvent hp
  | withdraw shares =>
    obtain ⟨⟨q, paid⟩, hserved, rfl⟩ := Option.map_eq_some_iff.1 h
    rw [toOption_eq_some_iff, takeLiquidity_eq_ok_iff] at hserved
    exact hserved.solvent hp
  | sale pools hop source destination amount interest =>
    obtain ⟨plan, hplan, h⟩ := Option.bind_eq_some_iff.1 h
    obtain ⟨s, hs, h⟩ := Option.bind_eq_some_iff.1 h
    rw [toOption_eq_some_iff] at hplan h
    exact applySwap_solvent (along_follows (through_along hplan)) rfl (List.mem_of_getElem? hs) h hp

theorem solvent_of_orders (hp : p.Solvent) (orders : List PoolOrder) : (p.lifetime orders).Solvent := by
  induction orders generalizing p with
  | nil => exact hp
  | cons o orders ih =>
    refine ih ?_
    show ((p.serve? o).getD p).Solvent
    cases hserve : p.serve? o with
    | none => exact hp
    | some p' => exact serve?_solvent hserve hp

/-- What the owner of all shares can do with a pool: take everything out of it, and start anew. -/
structure Refillable (p : Pool) : Prop where
  empties : p.supply ≠ 0 →
    p.takeLiquidity p.supply = .ok ({ p with supply := 0, reserves := ⟨0, 0⟩ }, p.reserves)
  refills : p.supply = 0 → ∀ amount1 amount2, amount1 ≠ 0 → amount2 ≠ 0 →
    ∃ refilled, p.addLiquidity amount1 amount2 = .ok (refilled, refilled.supply) ∧
      refilled.reserves = ⟨amount1, amount2⟩ ∧ refilled.supply = refilled.reserves.worth ∧ refilled.Solvent

theorem Solvent.refillable (hp : p.Solvent) : p.Refillable := by
  refine ⟨takeLiquidity_all, fun hnone amount1 amount2 hsome1 hsome2 => ?_⟩
  have hempty : p.reserves = ⟨0, 0⟩ := by
    rcases hp.stocked with ⟨-, hsupply⟩ | ⟨hempty, -⟩
    · rw [hnone] at hsupply
      cases hsupply
    · exact hempty
  have hserved := addLiquidity_of_empty hempty hnone hsome1 hsome2
  exact ⟨_, hserved, rfl, rfl, (addLiquidity_eq_ok_iff.1 hserved).solvent hp⟩

/-- **A pool is solvent from its creation on.** After any deposits, withdrawals and sales it has some of
both tokens and of shares, or nothing of all three, and its shares are no more than its reserves are
worth. It can always be emptied, and an empty pool can be filled again. -/
theorem lifetime_solvent {share token1 token2 : TokenId} {amount1 amount2 issued : UInt64} {p : Pool}
    (created : Pool.create share token1 token2 amount1 amount2 = .ok (p, issued)) (orders : List PoolOrder) :
    (p.lifetime orders).Solvent ∧
      (p.lifetime orders).supply ≤ (p.lifetime orders).reserves.worth ∧
      (p.lifetime orders).Refillable := by
  have hsolvent := solvent_of_orders (create_solvent created) orders
  exact ⟨hsolvent, supply_le_worth_iff.2 hsolvent.covered, hsolvent.refillable⟩

def trialPool : Pool :=
  ⟨⟨9⟩, ⟨1⟩, ⟨2⟩, 200, ⟨100, 400⟩⟩

/-- A sale from either side, the second at half its price, and then all shares are handed in. -/
def trialLifetime : List PoolOrder :=
  [.sale [trialPool] 0 ⟨2⟩ ⟨1⟩ 50 3, .sale [{ trialPool with reserves := ⟨89, 450⟩ }] 0 ⟨1⟩ ⟨2⟩ 10 500,
    .withdraw 200]

theorem lifetime_solvent_refilled :
    create ⟨9⟩ ⟨1⟩ ⟨2⟩ 100 400 = .ok (trialPool, 200) ∧
      (trialPool.lifetime (trialLifetime.take 2)).reserves = ⟨99, 427⟩ ∧
      (trialPool.lifetime trialLifetime).supply = 0 ∧
      ∃ refilled, (trialPool.lifetime trialLifetime).addLiquidity 7 11 = .ok (refilled, refilled.supply) ∧
        refilled.Solvent := by
  have hworth : (⟨100, 400⟩ : Reserves).worth = 200 := by
    rw [← UInt64.toNat_inj, Reserves.worth_toNat]
    exact Nat.sqrt_eq 200
  have hcreated : create ⟨9⟩ ⟨1⟩ ⟨2⟩ 100 400 = .ok (trialPool, 200) := by
    rw [create_eq_ok_iff, hworth]
    exact ⟨by decide, by decide, by decide, rfl, rfl⟩
  have hempty : (trialPool.lifetime trialLifetime).supply = 0 := by decide +kernel
  obtain ⟨-, -, hrefillable⟩ := lifetime_solvent hcreated trialLifetime
  obtain ⟨refilled, hserved, -, -, hsolvent⟩ := hrefillable.refills hempty 7 11 (by decide) (by decide)
  exact ⟨hcreated, by decide +kernel, hempty, refilled, hserved, hsolvent⟩

end Pool

end SwapStake
