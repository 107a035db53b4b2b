import SwapStake.Proofs.Route.Composition
import SwapStake.Proofs.Route.SaleProduct
/-!
# Sales and purchases along one path

Without interest a sale and a purchase over the same pools bound each other. Each hop of the one is
undone by a hop of the other for no more, and rounding always takes from who walks second. So the walk
back over stocked pools meets no refusal but that of a hop that comes to nothing
(`Flow.buyAlong_of_sale`), and in neither order is there anything to gain.
-/

namespace SwapStake

variable {q : SwapRequest}

theorem stocked_facings {pools : List Pool} {entries : List TokenId} (h : ∀ p ∈ pools, p.reserves.Stocked) :
    ∀ r ∈ Plan.facings pools entries, r.Stocked := by
  intro r hr
  rw [Plan.facings, ← List.map_uncurry_zip_eq_zipWith] at hr
  obtain ⟨⟨p, t⟩, hmem, rfl⟩ := List.mem_map.1 hr
  exact Pool.stocked_facing (h p (List.of_mem_zip hmem).1) t

/-! ## Back along a sale -/

theorem SwapRequest.Priced.buyCost_of_sale (hside : q.side = .sell) (hfree : q.interest = 0) {r : Reserves}
    {paid received needed : UInt64} (h : q.Priced r paid received) (stocked : r.Stocked)
    (hneeded : needed ≤ received) : ∃ cost, r.inverted.buyCost needed 0 = .ok cost ∧ cost ≤ paid := by
  rw [SwapRequest.Priced, hside, hfree, Reserves.saleProceeds_free_eq_ok_iff] at h
  obtain ⟨⟨-, hreceived⟩, -⟩ := h
  rw [UInt64.le_iff_toNat_le, hreceived] at hneeded
  have hthere : needed.toNat < r.reserve2.toNat :=
    Nat.lt_of_le_of_lt hneeded (Reserves.saleQuote_lt_reserve stocked.1 stocked.2)
  obtain ⟨cost, hcost, hle⟩ := Word64.exists_toNat_eq_of_le (Reserves.purchaseQuote_le_of_le_saleQuote hneeded)
  exact ⟨cost, Reserves.buyCost_free_eq_ok_iff.2 ⟨hthere, hcost⟩, hle⟩

theorem Flow.buyAlong_of_sale (hside : q.side = .sell) (hfree : q.interest = 0) {walk : List Reserves}
    {changes : List HopChange} {paid output : UInt64} (h : Flow q walk changes paid output)
    (stocked : ∀ r ∈ walk, r.Stocked) {wanted : UInt64} (hwanted : wanted ≤ output) :
    Plan.buyAlong 0 wanted walk = .error .zeroOutput ∨
      ∃ changes' cost, Plan.buyAlong 0 wanted walk = .ok (changes', cost) ∧ cost ≤ paid := by
  induction h with
  | done => exact .inr ⟨[], wanted, rfl, hwanted⟩
  | @hop r c _ _ paid _ _ before priced moves _ ih =>
    obtain ⟨hr, hwalk⟩ := List.forall_mem_cons.1 stocked
    rcases ih hwalk hwanted with hzero | ⟨later, needed, hlater, hneeded⟩
    · left
      rw [Plan.buyAlong, hzero]
      rfl
    · obtain ⟨cost, hcost, hle⟩ := priced.buyCost_of_sale hside hfree hr hneeded
      rw [buyAlong_cons hlater hcost]
      by_cases hzero : cost = 0
      · rw [if_pos hzero]
        exact .inl rfl
      · -- the pool has room for the cost, since the sale has put in no less
        have hfits : r.reserve1.toNat + cost.toNat < 2 ^ 64 := by
          have henters := moves.enters
          have hroom := c.after.reserve1.toNat_lt
          rw [UInt64.le_iff_toNat_le] at hle
          rw [before] at henters
          omega
        obtain ⟨change, hchange⟩ := HopChange.exists_of hfits needed
        rw [if_neg hzero, hchange]
        exact .inr ⟨change :: later, cost, rfl, hle⟩

theorem Flow.output_le_of_purchase {q' : SwapRequest} (hbuy : q.side = .buy) (hfree : q.interest = 0)
    (hsell : q'.side = .sell) (hfree' : q'.interest = 0) {walk : List Reserves} {changes changes' : List HopChange}
    {cost wanted paid output : UInt64} (h : Flow q walk changes cost wanted) (h' : Flow q' walk changes' paid output)
    (hpaid : paid ≤ cost) : output ≤ wanted := by
  induction h generalizing changes' paid with
  | done =>
    cases h'
    exact hpaid
  | hop _ priced _ _ ih =>
    cases h' with
    | hop _ priced' _ rest' =>
      refine ih rest' ?_
      rw [SwapRequest.Priced, hbuy, hfree, Reserves.buyCost_free_eq_ok_iff] at priced
      rw [SwapRequest.Priced, hsell, hfree', Reserves.saleProceeds_free_eq_ok_iff] at priced'
      obtain ⟨⟨-, hcost⟩, -⟩ := priced
      obtain ⟨⟨-, hreceived⟩, -⟩ := priced'
      rw [UInt64.le_iff_toNat_le, hcost] at hpaid
      rw [UInt64.le_iff_toNat_le, hreceived]
      exact Reserves.saleQuote_le_of_le_purchaseQuote hpaid

/-! ## Plans -/

variable {router : Router} {pools : List Pool}

/-- The purchase of an amount between the ends of a request. -/
def SwapRequest.buying (q : SwapRequest) (amount : UInt64) : SwapRequest :=
  { q with amount, side := .buy }

theorem purchase_of_sale {sale : Plan} (stocked : ∀ p ∈ pools, p.reserves.Stocked) (hside : q.side = .sell)
    (hfree : q.interest = 0) (h : router.plan pools q = .ok sale) :
    router.plan pools (q.buying sale.amountOut) = .error .zeroOutput ∨
      ∃ purchase, router.plan pools (q.buying sale.amountOut) = .ok purchase ∧ purchase.amountIn ≤ q.amount := by
  obtain ⟨entries, first, rest, made⟩ := Plan.along_eq_ok_iff.1 (Router.plan_along h)
  have hout : sale.amountOut ≠ 0 := made.flow.output_ne_zero made.flow.input_ne_zero
  have hplan := Plan.along_of_walk (q := q.buying sale.amountOut) hout made.ends made.shares made.walk
  have hwalk : Plan.changesAlong (q.buying sale.amountOut) (Plan.facings pools entries) =
      (Plan.buyAlong q.interest sale.amountOut (Plan.facings pools entries)).map
        fun walked => (walked.1, walked.2, sale.amountOut) := rfl
  rw [Router.plan_eq_along (q.buying sale.amountOut) h rfl rfl, hplan, hwalk, hfree]
  rcases made.flow.buyAlong_of_sale hside hfree (stocked_facings stocked) (UInt64.le_refl _) with
    hzero | ⟨changes, cost, hbuy, hcost⟩
  · rw [hzero]
    exact .inl rfl
  · rw [made.fixes.sold hside] at hcost
    rw [hbuy]
    rw [← hfree] at hbuy
    have hflow := buyAlong_flow (q := q.buying sale.amountOut) rfl hbuy
    obtain ⟨first', rest', rfl, -⟩ := hflow.changes_of_walk made.walk made.ends
    exact .inr ⟨_, rfl, hcost⟩

/-- **Without interest the two sides of a path agree.** What a sale over stocked pools pays can be bought
along the same path for no more than was sold, if no hop of the purchase comes to nothing; and a sale of
what a purchase costs pays no more than was bought. -/
theorem sides_agree_without_interest {source destination : TokenId} (stocked : ∀ p ∈ pools, p.reserves.Stocked) :
    (∀ amount sale, router.plan pools ⟨source, destination, amount, 0, .sell⟩ = .ok sale →
      router.plan pools ⟨source, destination, sale.amountOut, 0, .buy⟩ = .error .zeroOutput ∨
        ∃ purchase, router.plan pools ⟨source, destination, sale.amountOut, 0, .buy⟩ = .ok purchase ∧
          purchase.amountIn ≤ amount) ∧
    ∀ amount purchase sale, router.plan pools ⟨source, destination, amount, 0, .buy⟩ = .ok purchase →
      router.plan pools ⟨source, destination, purchase.amountIn, 0, .sell⟩ = .ok sale →
        sale.amountOut ≤ amount := by
  refine ⟨fun amount sale h => purchase_of_sale stocked rfl rfl h, fun amount purchase sale hbuy hsell => ?_⟩
  obtain ⟨entries, first, rest, bought⟩ := Plan.along_eq_ok_iff.1 (Router.plan_along hbuy)
  obtain ⟨entries', first', rest', sold⟩ := Plan.along_eq_ok_iff.1 (Router.plan_along hsell)
  obtain ⟨rfl, -⟩ := bought.walk.unique sold.walk
  have hpaid : sale.amountIn = purchase.amountIn := sold.fixes.sold rfl
  rw [← show purchase.amountOut = amount from bought.fixes.bought rfl]
  exact bought.flow.output_le_of_purchase rfl rfl rfl rfl sold.flow (hpaid ▸ UInt64.le_refl _)

/-- From token 1 to token 3, the second pool against its order. -/
def trialPath : List Pool :=
  [⟨⟨10⟩, ⟨1⟩, ⟨2⟩, 100, ⟨1000, 4000⟩⟩, ⟨⟨11⟩, ⟨3⟩, ⟨2⟩, 100, ⟨900, 800⟩⟩]

theorem sides_agree_without_interest_trial :
    (∀ p ∈ trialPath, p.reserves.Stocked) ∧
      (∃ sale, Router.cross.plan trialPath ⟨⟨1⟩, ⟨3⟩, 50, 0, .sell⟩ = .ok sale ∧ sale.amountOut = 172) ∧
      ∃ purchase, Router.cross.plan trialPath ⟨⟨1⟩, ⟨3⟩, 172, 0, .buy⟩ = .ok purchase ∧ purchase.amountIn ≤ 50 ∧
        ∃ again, Router.cross.plan trialPath ⟨⟨1⟩, ⟨3⟩, purchase.amountIn, 0, .sell⟩ = .ok again ∧
          again.amountOut ≤ 172 := by
  have hstocked : ∀ p ∈ trialPath, p.reserves.Stocked := by decide
  obtain ⟨sale, hsale, hout⟩ := map_eq_ok_iff.1 (show (Router.cross.plan trialPath
    ⟨⟨1⟩, ⟨3⟩, 50, 0, .sell⟩).map Plan.amountOut = .ok 172 by decide +kernel)
  obtain ⟨purchase, hpurchase, hin⟩ := map_eq_ok_iff.1 (show (Router.cross.plan trialPath
    ⟨⟨1⟩, ⟨3⟩, 172, 0, .buy⟩).map Plan.amountIn = .ok 49 by decide +kernel)
  obtain ⟨again, hagain, -⟩ := map_eq_ok_iff.1 (show (Router.cross.plan trialPath
    ⟨⟨1⟩, ⟨3⟩, 49, 0, .sell⟩).map Plan.amountOut = .ok 169 by decide +kernel)
  rw [← hin] at hagain
  obtain ⟨hback, hforth⟩ := sides_agree_without_interest hstocked
  have hbought := hback 50 sale hsale
  rw [hout, hpurchase] at hbought
  obtain ⟨bought, heq, hle⟩ := hbought.resolve_left nofun
  obtain rfl := Except.ok.inj heq
  exact ⟨hstocked, ⟨sale, hsale, hout⟩, purchase, hpurchase, hle, again, hagain,
    hforth 172 purchase again hpurchase hagain⟩

end SwapStake
