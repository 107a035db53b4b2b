import Mathlib.Tactic.Linarith
import SwapStake.Proofs.Pool.Worth
import SwapStake.Proofs.Route.Settlement
/-!
# Sales and the worth of pools

A sale rounds twice, the quote and the interest, and both times the pool keeps what is cut off: after
a hop the product of the reserves is at least what it was (`sale_product_le`), from whichever side
the pool is entered. A stocked pool therefore stays stocked, and along a run of sales its worth in
shares never falls (`trail_of_sales`).
-/

namespace SwapStake

/-- Some of both tokens. -/
def Reserves.Stocked (r : Reserves) : Prop :=
  1 ≤ r.reserve1.toNat ∧ 1 ≤ r.reserve2.toNat
deriving Decidable

namespace Reserves

variable {old new : Reserves}

theorem product_inverted (r : Reserves) : r.inverted.product = r.product :=
  Nat.mul_comm _ _

theorem stocked_iff_product_pos {r : Reserves} : r.Stocked ↔ 0 < r.product := by
  rw [product, Nat.pos_iff_ne_zero, Nat.mul_ne_zero_iff, ← Nat.pos_iff_ne_zero, ← Nat.pos_iff_ne_zero]
  rfl

theorem sale_product_le {paid received : UInt64} {interest : UInt32}
    (hsale : old.saleProceeds paid interest = .ok received)
    (henters : old.reserve1.toNat + paid.toNat = new.reserve1.toNat)
    (hleaves : new.reserve2.toNat + received.toNat = old.reserve2.toNat) : old.product ≤ new.product := by
  obtain ⟨-, -, hreceived⟩ := saleProceeds_eq_ok_iff.1 hsale
  have hquote : received.toNat ≤ paid.toNat * old.reserve2.toNat / (old.reserve1.toNat + paid.toNat) := by
    rw [hreceived]
    exact Nat.sub_le _ _
  have hbound := Nat.mul_le_of_le_div _ _ _ hquote
  unfold product
  rw [← hleaves] at hbound ⊢
  rw [← henters]
  nlinarith

end Reserves

theorem Pool.stocked_facing {p : Pool} (h : p.reserves.Stocked) (t : TokenId) : (p.facing t).Stocked := by
  unfold Pool.facing
  split
  · exact h
  · exact h.symm

theorem Swap.Moves.product_le {q : SwapRequest} {s : Swap} {p : Pool} {t u : TokenId} {x y : UInt64}
    (h : s.Moves p t u x y) (hpriced : q.Priced (p.facing t) x y) (hside : q.side = .sell) :
    p.reserves.product ≤ (p.afterSwap s).reserves.product := by
  obtain ⟨-, -, hbefore, hsides⟩ := h
  rw [SwapRequest.Priced, hside] at hpriced
  obtain ⟨hsale, -⟩ := hpriced
  rw [hbefore] at hsides
  show p.reserves.product ≤ s.after.product
  rcases hsides with ⟨hfirst, -, henters, hleaves⟩ | ⟨hfirst, -, -, henters, hleaves⟩
  · rw [Pool.facing, if_pos hfirst] at hsale
    exact Reserves.sale_product_le hsale henters hleaves
  · rw [Pool.facing, if_neg hfirst] at hsale
    rw [← p.reserves.product_inverted, ← s.after.product_inverted]
    exact Reserves.sale_product_le hsale henters hleaves

namespace Market

variable {n : Nat} {q : SwapRequest}

/-- No pool has a smaller product than it had. -/
def Appreciates (old new : Market n) : Prop :=
  ∀ i : Fin n, (old.pool i).reserves.product ≤ (new.pool i).reserves.product

theorem Appreciates.refl (m : Market n) : m.Appreciates m :=
  fun _ => Nat.le_refl _

theorem Appreciates.trans {old mid new : Market n} (h : old.Appreciates mid) (h' : mid.Appreciates new) :
    old.Appreciates new :=
  fun i => Nat.le_trans (h i) (h' i)

theorem appreciates_set {m : Market n} {i : Fin n} {p : Pool}
    (h : (m.pool i).reserves.product ≤ p.reserves.product) : m.Appreciates (m.set i p) := by
  intro j
  by_cases hj : i = j
  · subst hj
    rwa [pool_set_self]
  · rw [pool_set_of_ne m p hj]

theorem passed_appreciates (hside : q.side = .sell) {path : List (Fin n)} :
    ∀ {m : Market n} {swaps : List Swap} {t d : TokenId} {x z : UInt64}, path.Nodup →
      Carried q (m.onPath path) swaps t x d z →
      (m.passed (path.zip swaps) ++ [(m.settle (path.zip swaps)).2]).Pairwise Appreciates ∧
        ∀ s ∈ m.passed (path.zip swaps) ++ [(m.settle (path.zip swaps)).2], m.Appreciates s := by
  induction path with
  | nil =>
    intro m swaps t d x z _ _
    refine ⟨List.pairwise_singleton _ _, fun s hs => ?_⟩
    obtain rfl := List.mem_singleton.1 hs
    exact .refl s
  | cons i path ih =>
    intro m swaps t d x z hnodup hcarried
    obtain ⟨hi, hrest⟩ := List.nodup_cons.1 hnodup
    obtain ⟨s, later, u, y, rfl, hmoves, hpriced, hlater⟩ := carried_cons hi hcarried
    obtain ⟨hpairs, hfirst⟩ := ih hrest hlater
    have hhop : m.Appreciates (m.set i ((m.pool i).afterSwap s)) :=
      appreciates_set (hmoves.product_le hpriced hside)
    rw [settle_cons_of_moves hmoves, passed_cons_of_moves hmoves, List.cons_append, List.pairwise_cons]
    refine ⟨⟨fun s hs => hhop.trans (hfirst s hs), hpairs⟩, fun s hs => ?_⟩
    rcases List.mem_cons.1 hs with rfl | hs
    · exact .refl s
    · exact hhop.trans (hfirst s hs)

theorem trail_appreciates {orders : List (MarketOrder n)} :
    ∀ {m : Market n}, (∀ o ∈ orders, o.request.side = .sell) →
      (m.trail orders).Pairwise Appreciates ∧ ∀ s ∈ m.trail orders, m.Appreciates s := by
  induction orders with
  | nil =>
    intro m _
    refine ⟨List.pairwise_singleton _ _, fun s hs => ?_⟩
    obtain rfl := List.mem_singleton.1 hs
    exact .refl s
  | cons o orders ih =>
    intro m hsales
    obtain ⟨hside, hrest⟩ := List.forall_mem_cons.1 hsales
    unfold trail
    cases hplace : m.place o with
    | error _ => exact ih hrest
    | ok out =>
      obtain ⟨hfollows, hnodup, hsettle⟩ := place_follows hplace
      obtain ⟨hpassed, hfirst⟩ := passed_appreciates hside hnodup hfollows.carried
      rw [hsettle] at hpassed hfirst
      obtain ⟨hlater, hmarket⟩ := ih (m := out.market) hrest
      obtain ⟨hpassed, -, hfinal⟩ := List.pairwise_append.1 hpassed
      have hserved : m.Appreciates out.market := hfirst _ (List.mem_append_right _ (List.mem_singleton_self _))
      refine ⟨List.pairwise_append.2 ⟨hpassed, hlater, fun a ha b hb => ?_⟩, fun s hs => ?_⟩
      · exact (hfinal a ha _ (List.mem_singleton_self _)).trans (hmarket b hb)
      · rcases List.mem_append.1 hs with hs | hs
        · exact hfirst s (List.mem_append_left _ hs)
        · exact hserved.trans (hmarket s hs)

/-- **Sales never take worth out of a pool.** Every market of a run of sales, hop by hop, has pools of
no smaller product and no smaller worth than every market before it, and none of them runs dry. -/
theorem trail_of_sales {m : Market n} {orders : List (MarketOrder n)}
    (stocked : ∀ i : Fin n, (m.pool i).reserves.Stocked) (sales : ∀ o ∈ orders, o.request.side = .sell) :
    (m.trail orders).getLast? = some (m.run orders) ∧
      (m.trail orders).Pairwise (fun old new => ∀ i : Fin n,
        (old.pool i).reserves.product ≤ (new.pool i).reserves.product ∧
          (old.pool i).reserves.worth ≤ (new.pool i).reserves.worth) ∧
      ∀ s ∈ m.trail orders, ∀ i : Fin n, (s.pool i).reserves.Stocked := by
  obtain ⟨hpairs, hfirst⟩ := trail_appreciates (m := m) sales
  refine ⟨trail_getLast? orders m, hpairs.imp fun h i => ⟨h i, Reserves.worth_le_of_product_le (h i)⟩,
    fun s hs i => ?_⟩
  have hstart := Reserves.stocked_iff_product_pos.1 (stocked i)
  exact Reserves.stocked_iff_product_pos.2 (Nat.lt_of_lt_of_le hstart (hfirst s hs i))

/-- Two pools so small that every quote is mostly rounding. -/
def smallPools : Market 2 :=
  ⟨#v[⟨⟨10⟩, ⟨1⟩, ⟨2⟩, 3, ⟨3, 5⟩⟩, ⟨⟨11⟩, ⟨3⟩, ⟨2⟩, 8, ⟨7, 11⟩⟩]⟩

def smallSales : List (MarketOrder 2) :=
  [⟨.single, [0], ⟨⟨1⟩, ⟨2⟩, 2, 0, .sell⟩⟩, ⟨.cross, [0, 1], ⟨⟨1⟩, ⟨3⟩, 10, 3, .sell⟩⟩]

theorem trail_of_smallSales :
    (∀ i : Fin 2, (smallPools.pool i).reserves.Stocked) ∧ (∀ o ∈ smallSales, o.request.side = .sell) ∧
      (smallPools.trail smallSales).length = 4 ∧
      ∀ s ∈ smallPools.trail smallSales, ∀ i : Fin 2, (s.pool i).reserves.Stocked := by
  have hstocked : ∀ i : Fin 2, (smallPools.pool i).reserves.Stocked := by decide
  have hsales : ∀ o ∈ smallSales, o.request.side = .sell := by decide
  exact ⟨hstocked, hsales, by decide +kernel, (trail_of_sales hstocked hsales).2.2⟩

end Market

end SwapStake
