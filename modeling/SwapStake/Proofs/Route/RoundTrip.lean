import SwapStake.Proofs.Pool.QuoteOrder
import SwapStake.Proofs.Route.PurchaseProduct
/-!
# Round trips

Whoever exchanges in a pool and at once exchanges back has gained nothing. The pool that is met on the way
back is the one that the way there has left, seen from its other side (`Reserves.Turned`). An exchange
lets the product of the reserves fall by less than one more unit paid would bring (`Reserves.Traded`), and
after the way back one of the reserves is what it was before. So the other one is too, or has grown.
-/

namespace SwapStake

namespace Reserves

/-- Reserves after an exchange, from the side that was left: what was received is gone from the first of
them, and what was paid has come to the second. -/
structure Turned (r now : Reserves) (paid received : UInt64) : Prop where
  leaves : now.reserve1.toNat + received.toNat = r.reserve2.toNat
  enters : r.reserve1.toNat + paid.toNat = now.reserve2.toNat

/-- An exchange by which the pool loses less than a unit of what it is paid in. -/
structure Traded (r now : Reserves) (paid received : UInt64) : Prop extends r.Turned now paid received where
  /-- One unit more, and the product would have grown. -/
  covered : r.product < (r.reserve1.toNat + paid.toNat + 1) * now.reserve1.toNat

variable {r now : Reserves} {paid received : UInt64} {interest : UInt32}

/-! ## The way there -/

theorem Turned.product_eq (h : r.Turned now paid received) :
    now.product = (r.reserve1.toNat + paid.toNat) * now.reserve1.toNat := by
  rw [product, Nat.mul_comm, h.enters]

theorem Turned.traded_of_bought (h : r.Turned now paid received) (bought : r.Bought interest paid received) :
    r.Traded now paid received := by
  have hcovered := bought.nearly_covered
  rw [← h.leaves, Nat.add_sub_cancel] at hcovered
  exact ⟨h, hcovered⟩

theorem Turned.product_le_of_sale (h : r.Turned now paid received)
    (hsale : r.saleProceeds paid interest = .ok received) : r.product ≤ now.product := by
  rw [← now.product_inverted]
  exact sale_product_le hsale h.enters h.leaves

theorem Turned.traded_of_sale (h : r.Turned now paid received) (stocked : r.Stocked)
    (hsale : r.saleProceeds paid interest = .ok received) : r.Traded now paid received := by
  have hkept := h.product_le_of_sale hsale
  have hpos := Nat.lt_of_lt_of_le (stocked_iff_product_pos.1 stocked) hkept
  rw [h.product_eq] at hkept hpos
  refine ⟨h, ?_⟩
  rw [Nat.succ_mul]
  exact Nat.lt_of_le_of_lt hkept (Nat.lt_add_of_pos_right (Nat.pos_of_mul_pos_left hpos))

/-! ## The way back -/

theorem Traded.saleQuote_le (h : r.Traded now paid received) : now.saleQuote received ≤ paid.toNat := by
  have covered := h.covered
  have hpos : 0 < now.reserve1.toNat := Nat.pos_of_mul_pos_left (Nat.zero_lt_of_lt covered)
  rw [product, ← h.leaves, Nat.mul_add, Nat.add_assoc, Nat.add_mul] at covered
  have hshort := Nat.lt_of_add_lt_add_left covered
  apply Nat.le_of_lt_succ
  rw [saleQuote, Nat.div_lt_iff_lt_mul (Nat.add_pos_left hpos _), ← h.enters]
  calc received.toNat * (r.reserve1.toNat + paid.toNat)
      = r.reserve1.toNat * received.toNat + paid.toNat * received.toNat := by ring
    _ < (paid.toNat + 1) * now.reserve1.toNat + (paid.toNat + 1) * received.toNat :=
        Nat.add_lt_add_of_lt_of_le hshort (Nat.mul_le_mul_right _ (Nat.le_succ _))
    _ = (paid.toNat + 1) * (now.reserve1.toNat + received.toNat) := by ring

theorem Turned.le_saleQuote (h : r.Turned now paid received) (left : received.toNat < r.reserve2.toNat)
    (quoted : paid.toNat ≤ r.inverted.purchaseQuote received) : paid.toNat ≤ now.saleQuote received := by
  have hreceived := h.leaves
  have hleft : r.inverted.reserve1.toNat - received.toNat = now.reserve1.toNat := by
    show r.reserve2.toNat - received.toNat = now.reserve1.toNat
    omega
  have hquoted : paid.toNat * now.reserve1.toNat ≤ received.toNat * r.reserve1.toNat := by
    rw [← hleft]
    exact Nat.mul_le_of_le_div _ _ _ quoted
  rw [le_saleQuote_iff (by omega), ← h.enters]
  calc paid.toNat * (now.reserve1.toNat + received.toNat)
      = paid.toNat * now.reserve1.toNat + paid.toNat * received.toNat := Nat.mul_add ..
    _ ≤ received.toNat * r.reserve1.toNat + paid.toNat * received.toNat := Nat.add_le_add_right hquoted _
    _ = received.toNat * (r.reserve1.toNat + paid.toNat) := by ring

theorem Traded.sale_le (h : r.Traded now paid received) {back : UInt64}
    (hback : now.saleProceeds received interest = .ok back) : back ≤ paid := by
  obtain ⟨-, -, hproceeds⟩ := saleProceeds_eq_ok_iff.1 hback
  rw [UInt64.le_iff_toNat_le, hproceeds]
  exact Nat.le_trans (Nat.sub_le _ _) h.saleQuote_le

theorem Turned.le_cost (h : r.Turned now paid received) (kept : r.product ≤ now.product) {cost : UInt64}
    (hback : now.Bought interest cost paid) : received ≤ cost := by
  have hreceived := h.leaves
  have hcovered := Nat.lt_of_le_of_lt kept hback.nearly_covered
  -- the purchase takes back all that was paid, so the first reserve is on both sides
  rw [← h.enters, Nat.add_sub_cancel, product, Nat.mul_comm] at hcovered
  have hreserve := Nat.lt_of_mul_lt_mul_right hcovered
  rw [UInt64.le_iff_toNat_le]
  omega

end Reserves

/-! ## One pool, there and back -/

theorem Swap.Moves.turned {s : Swap} {p : Pool} {t u : TokenId} {x y : UInt64} (h : s.Moves p t u x y)
    (hne : t ≠ u) : (p.facing t).Turned ((p.afterSwap s).facing u) x y := by
  obtain ⟨-, -, hbefore, hsides⟩ := h
  rw [hbefore] at hsides
  show (p.facing t).Turned (if u = p.token1 then s.after else s.after.inverted) x y
  rcases hsides with ⟨hfirst, -, henters, hleaves⟩ | ⟨hfirst, -, hsecond, henters, hleaves⟩
  · have hback : ¬ u = p.token1 := fun hu => hne (hfirst.trans hu.symm)
    rw [Pool.facing, if_pos hfirst, if_neg hback]
    exact ⟨hleaves, henters⟩
  · rw [Pool.facing, if_neg hfirst, if_pos hsecond]
    exact ⟨hleaves, henters⟩

variable {router : Router} {p : Pool}

theorem Router.sale_back_le {r : Reserves} {t u : TokenId} {paid received : UInt64} {interest : UInt32}
    {back : Plan} (traded : r.Traded (p.facing u) paid received)
    (h : router.plan [p] ⟨u, t, received, interest, .sell⟩ = .ok back) : back.amountOut ≤ paid := by
  have hsold : back.amountIn = received := (Router.plan_follows h).sold rfl
  obtain ⟨-, -, -, hsale, -⟩ := Router.plan_hop h
  rw [hsold] at hsale
  exact traded.sale_le hsale

theorem Router.le_purchase_back {r : Reserves} {t u : TokenId} {paid received : UInt64} {interest : UInt32}
    {back : Plan} (turned : r.Turned (p.facing u) paid received) (kept : r.product ≤ (p.facing u).product)
    (h : router.plan [p] ⟨u, t, paid, interest, .buy⟩ = .ok back) : received ≤ back.amountIn := by
  have hbought : back.amountOut = paid := (Router.plan_follows h).bought rfl
  obtain ⟨-, -, -, hpriced⟩ := Router.plan_hop h
  rw [hbought] at hpriced
  exact turned.le_cost kept (hpriced.bought rfl)

theorem Router.sale_back_of_free (router : Router) {s : Swap} {t u : TokenId} {paid received : UInt64}
    (hmoves : s.Moves p t u paid received) (hne : t ≠ u)
    (hcost : (p.facing t).inverted.buyCost received 0 = .ok paid) (hpaid : paid ≠ 0) (hreceived : received ≠ 0) :
    ∃ back, router.plan [p.afterSwap s] ⟨u, t, received, 0, .sell⟩ = .ok back ∧ back.amountOut = paid := by
  have hturned := hmoves.turned hne
  have htraded := hturned.traded_of_bought (Reserves.bought_of_buyCost hcost hreceived hpaid)
  obtain ⟨hleft, hquoted⟩ := Reserves.buyCost_free_eq_ok_iff.1 hcost
  have hpos := Nat.add_pos_right ((p.afterSwap s).facing u).reserve1.toNat (Word64.toNat_pos hreceived)
  have hsale : ((p.afterSwap s).facing u).saleProceeds received 0 = .ok paid :=
    Reserves.saleProceeds_free_eq_ok_iff.2
      ⟨hpos, Nat.le_antisymm (hturned.le_saleQuote hleft hquoted.le) htraded.saleQuote_le⟩
  have hroom : ((p.afterSwap s).facing u).reserve1.toNat + received.toNat < 2 ^ 64 := by
    rw [hturned.leaves]
    exact UInt64.toNat_lt _
  have hother : (p.afterSwap s).other? u = some t := Pool.other?_symm hmoves.other? hne
  obtain ⟨back, hback, -, hout⟩ := router.plan_of_hop (q := ⟨u, t, received, 0, .sell⟩) hne.symm hother
    ⟨hsale, hpaid⟩ hroom ⟨fun _ => rfl, nofun⟩
  exact ⟨back, hback, hout⟩

/-- **There is no profit in a round trip.** The swap of a plan over one stocked pool is applied, and then
the exchange is turned around at the same interest. What was bought sells for no more than it cost, and
without interest for exactly that; what was sold costs no less than it was sold for; and what was received
for it sells for no more than was sold. -/
theorem no_profit_from_round_trip (stocked : p.reserves.Stocked) (router router' : Router) (t u : TokenId)
    (amount : UInt64) (interest : UInt32) :
    (∀ purchase, router.plan [p] ⟨t, u, amount, interest, .buy⟩ = .ok purchase →
      ∃ s p', purchase.swaps = [s] ∧ p.applySwap s = .ok p' ∧
        (∀ back, router'.plan [p'] ⟨u, t, amount, interest, .sell⟩ = .ok back →
          back.amountOut ≤ purchase.amountIn) ∧
        (interest = 0 → ∃ back, router'.plan [p'] ⟨u, t, amount, interest, .sell⟩ = .ok back ∧
          back.amountOut = purchase.amountIn)) ∧
    ∀ sale, router.plan [p] ⟨t, u, amount, interest, .sell⟩ = .ok sale →
      ∃ s p', sale.swaps = [s] ∧ p.applySwap s = .ok p' ∧
        (∀ back, router'.plan [p'] ⟨u, t, amount, interest, .buy⟩ = .ok back →
          sale.amountOut ≤ back.amountIn) ∧
        ∀ back, router'.plan [p'] ⟨u, t, sale.amountOut, interest, .sell⟩ = .ok back →
          back.amountOut ≤ amount := by
  constructor
  · intro purchase hpurchase
    have hends : t ≠ u := (Router.plan_follows hpurchase).ends
    obtain rfl : purchase.amountOut = amount := (Router.plan_follows hpurchase).bought rfl
    obtain ⟨s, hswaps, hmoves, hpriced⟩ := Router.plan_hop hpurchase
    have htraded := (hmoves.turned hends).traded_of_bought (hpriced.bought rfl)
    refine ⟨s, _, hswaps, hmoves.applySwap, fun back => Router.sale_back_le htraded, ?_⟩
    rintro rfl
    exact router'.sale_back_of_free hmoves hends hpriced.1 hpriced.2 hpriced.ne_zero.2
  · intro sale hsale
    have hends : t ≠ u := (Router.plan_follows hsale).ends
    obtain rfl : sale.amountIn = amount := (Router.plan_follows hsale).sold rfl
    obtain ⟨s, hswaps, hmoves, hpriced⟩ := Router.plan_hop hsale
    have hturned := hmoves.turned hends
    have htraded := hturned.traded_of_sale (Pool.stocked_facing stocked t) hpriced.1
    exact ⟨s, _, hswaps, hmoves.applySwap,
      fun back => Router.le_purchase_back hturned (hturned.product_le_of_sale hpriced.1),
      fun back => Router.sale_back_le htraded⟩

/-- A pool that is entered against its order. -/
def turnedPool : Pool :=
  ⟨⟨10⟩, ⟨2⟩, ⟨1⟩, 100, ⟨1000, 4000⟩⟩

theorem no_profit_from_round_trip_turned :
    turnedPool.reserves.Stocked ∧
    (∃ purchase back, Router.single.plan [turnedPool] ⟨⟨1⟩, ⟨2⟩, 100, 0, .buy⟩ = .ok purchase ∧
      Router.cross.plan [{ turnedPool with reserves := ⟨900, 4444⟩ }] ⟨⟨2⟩, ⟨1⟩, 100, 0, .sell⟩ = .ok back ∧
      back.amountOut = 444 ∧ back.amountOut ≤ purchase.amountIn) ∧
    ∃ sale back again, Router.cross.plan [turnedPool] ⟨⟨1⟩, ⟨2⟩, 50, 3, .sell⟩ = .ok sale ∧
      Router.single.plan [{ turnedPool with reserves := ⟨988, 4050⟩ }] ⟨⟨2⟩, ⟨1⟩, 50, 3, .buy⟩ = .ok back ∧
      Router.single.plan [{ turnedPool with reserves := ⟨988, 4050⟩ }] ⟨⟨2⟩, ⟨1⟩, sale.amountOut, 3, .sell⟩ =
        .ok again ∧
      back.amountIn = 12 ∧ sale.amountOut ≤ back.amountIn ∧ again.amountOut = 48 ∧ again.amountOut ≤ 50 := by
  have hstocked : turnedPool.reserves.Stocked := by decide
  refine ⟨hstocked, ?_, ?_⟩
  · obtain ⟨purchase, hpurchase, hswaps⟩ := map_eq_ok_iff.1 (show (Router.single.plan [turnedPool]
      ⟨⟨1⟩, ⟨2⟩, 100, 0, .buy⟩).map Plan.swaps = .ok [⟨⟨2⟩, ⟨1⟩, ⟨1000, 4000⟩, ⟨900, 4444⟩⟩] by decide +kernel)
    obtain ⟨back, hback, hout⟩ := map_eq_ok_iff.1 (show (Router.cross.plan
      [{ turnedPool with reserves := ⟨900, 4444⟩ }] ⟨⟨2⟩, ⟨1⟩, 100, 0, .sell⟩).map Plan.amountOut = .ok 444 by
        decide +kernel)
    obtain ⟨s, p', hs, hp', hle, -⟩ :=
      (no_profit_from_round_trip hstocked .single .cross ⟨1⟩ ⟨2⟩ 100 0).1 purchase hpurchase
    obtain rfl := List.singleton_inj.1 (hswaps.symm.trans hs)
    obtain rfl := Except.ok.inj hp'
    exact ⟨purchase, back, hpurchase, hback, hout, hle back hback⟩
  · obtain ⟨sale, hsale, hswaps⟩ := map_eq_ok_iff.1 (show (Router.cross.plan [turnedPool]
      ⟨⟨1⟩, ⟨2⟩, 50, 3, .sell⟩).map (fun plan => (plan.swaps, plan.amountOut)) =
        .ok ([⟨⟨2⟩, ⟨1⟩, ⟨1000, 4000⟩, ⟨988, 4050⟩⟩], 12) by decide +kernel)
    obtain ⟨hswaps, hreceived⟩ := Prod.mk.inj hswaps
    obtain ⟨back, hback, hin⟩ := map_eq_ok_iff.1 (show (Router.single.plan
      [{ turnedPool with reserves := ⟨988, 4050⟩ }] ⟨⟨2⟩, ⟨1⟩, 50, 3, .buy⟩).map Plan.amountIn = .ok 12 by
        decide +kernel)
    obtain ⟨again, hagain, hout⟩ := map_eq_ok_iff.1 (show (Router.single.plan
      [{ turnedPool with reserves := ⟨988, 4050⟩ }] ⟨⟨2⟩, ⟨1⟩, 12, 3, .sell⟩).map Plan.amountOut = .ok 48 by
        decide +kernel)
    rw [← hreceived] at hagain
    obtain ⟨s, p', hs, hp', hcost, hle⟩ :=
      (no_profit_from_round_trip hstocked .cross .single ⟨1⟩ ⟨2⟩ 50 3).2 sale hsale
    obtain rfl := List.singleton_inj.1 (hswaps.symm.trans hs)
    obtain rfl := Except.ok.inj hp'
    exact ⟨sale, back, again, hsale, hback, hagain, hin, hcost back hback, hout, hle again hagain⟩

end SwapStake
