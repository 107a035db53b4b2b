import SwapStake.Proofs.Route.Settlement
/-!
# Conservation

A market takes in what the callers pay and gives out what they receive, and holds on to everything
else. For one order this is the telescope of its hops (`place_conserves`). Over a run the totals of
every token change by the sums of what was paid and received in the orders that could be planned
(`run_conserves`); the others leave no trace.
-/

namespace SwapStake.Market

variable {n : Nat}

/-- An order that was planned and settled, and the market that it met. -/
structure Execution (n : Nat) where
  market : Market n
  order : MarketOrder n
  outcome : Outcome n

namespace Execution

/-- The units of a token that the caller paid into the market. -/
def paid (t : TokenId) (e : Execution n) : Nat :=
  if e.order.request.source = t then e.outcome.plan.amountIn.toNat else 0

/-- The units of a token that the caller got out of the market. -/
def received (t : TokenId) (e : Execution n) : Nat :=
  if e.order.request.destination = t then e.outcome.plan.amountOut.toNat else 0

/-- What an execution keeps to: its plan is the promised chain of hops, each pool of the path has
taken its swap, and the totals of the market have changed at the two ends of the chain alone. -/
structure Conserves (e : Execution n) : Prop where
  follows : e.outcome.plan.Follows (e.market.onPath e.order.path) e.order.request
  hops : e.outcome.plan.swaps.length = e.order.path.length
  applied : e.outcome.applied =
    List.zipWith (fun p s => .ok (p.afterSwap s)) (e.market.onPath e.order.path) e.outcome.plan.swaps
  source : e.outcome.market.total e.order.request.source =
    e.market.total e.order.request.source + e.outcome.plan.amountIn.toNat
  destination : e.outcome.market.total e.order.request.destination + e.outcome.plan.amountOut.toNat =
    e.market.total e.order.request.destination
  others : ∀ t, t ≠ e.order.request.source → t ≠ e.order.request.destination →
    e.outcome.market.total t = e.market.total t

end Execution

/-- The orders of a run that were planned, each with the market that it met. -/
def history (m : Market n) : List (MarketOrder n) → List (Execution n)
  | [] => []
  | o :: orders =>
    match m.place o with
    | .ok out => ⟨m, o, out⟩ :: out.market.history orders
    | .error _ => m.history orders

theorem place_total {m : Market n} {o : MarketOrder n} {out : Outcome n} (h : m.place o = .ok out)
    (t : TokenId) :
    out.market.total t + (if o.request.destination = t then out.plan.amountOut.toNat else 0) =
      m.total t + (if o.request.source = t then out.plan.amountIn.toNat else 0) := by
  obtain ⟨hfollows, hnodup, hsettle⟩ := place_follows h
  have htotal := settle_total t hnodup hfollows.carried
  rwa [hsettle] at htotal

theorem place_conserves {m : Market n} {o : MarketOrder n} {out : Outcome n} (h : m.place o = .ok out) :
    Execution.Conserves ⟨m, o, out⟩ := by
  obtain ⟨hfollows, hnodup, hsettle⟩ := place_follows h
  have happlied := settle_applied hnodup hfollows.carried
  rw [hsettle] at happlied
  have hends := hfollows.ends
  refine ⟨hfollows, ?_, happlied, ?_, ?_, fun t hsource hdestination => ?_⟩
  · rw [← hfollows.carried.length, onPath, List.length_map]
  · have htotal := place_total h o.request.source
    rwa [if_pos rfl, if_neg hends.symm, Nat.add_zero] at htotal
  · have htotal := place_total h o.request.destination
    rwa [if_pos rfl, if_neg hends, Nat.add_zero] at htotal
  · have htotal := place_total h t
    rwa [if_neg hdestination.symm, if_neg hsource.symm, Nat.add_zero, Nat.add_zero] at htotal

theorem history_conserves (orders : List (MarketOrder n)) :
    ∀ m : Market n, ∀ e ∈ m.history orders, e.Conserves := by
  induction orders with
  | nil =>
    intro m e he
    cases he
  | cons o orders ih =>
    intro m e he
    unfold history at he
    cases hplace : m.place o with
    | ok out =>
      rw [hplace] at he
      rcases List.mem_cons.1 he with rfl | he
      · exact place_conserves hplace
      · exact ih out.market e he
    | error _ =>
      rw [hplace] at he
      exact ih m e he

theorem run_total (t : TokenId) (orders : List (MarketOrder n)) :
    ∀ m : Market n, (m.run orders).total t + ((m.history orders).map (Execution.received t)).sum =
      m.total t + ((m.history orders).map (Execution.paid t)).sum := by
  induction orders with
  | nil =>
    intro m
    rfl
  | cons o orders ih =>
    intro m
    rw [run_cons, history, serve]
    cases hplace : m.place o with
    | ok out =>
      have hrest := ih out.market
      have hstep := place_total hplace t
      simp only [List.map_cons, List.sum_cons, Execution.received, Execution.paid] at hrest ⊢
      omega
    | error _ => exact ih m

/-- **Over any run of orders, the market takes in what is paid, gives out what is received, and
conserves all else.** -/
theorem run_conserves (m : Market n) (orders : List (MarketOrder n)) :
    (∀ (q : SwapRequest) (r : Reserves) (x y : UInt64), q.Priced r x y → y.toNat ≤ r.reserve2.toNat) ∧
    (∀ e ∈ m.history orders, e.Conserves) ∧
    ∀ t : TokenId, (m.run orders).total t + ((m.history orders).map (Execution.received t)).sum =
      m.total t + ((m.history orders).map (Execution.paid t)).sum :=
  ⟨fun _ _ _ _ => SwapRequest.Priced.le_reserve, history_conserves orders m, fun t => run_total t orders m⟩

/-- Two pools of tokens 1 and 2, and one of tokens 3 and 1. -/
def threePools : Market 3 :=
  ⟨#v[⟨⟨10⟩, ⟨1⟩, ⟨2⟩, 100, ⟨1000000, 2000000⟩⟩, ⟨⟨11⟩, ⟨1⟩, ⟨2⟩, 100, ⟨500000, 900000⟩⟩,
    ⟨⟨12⟩, ⟨3⟩, ⟨1⟩, 100, ⟨400000, 800000⟩⟩]⟩

/-- A sale that meets its own token on the way, a request for a broken path, and a purchase. -/
def threeOrders : List (MarketOrder 3) :=
  [⟨.cross, [0, 1, 2], ⟨⟨1⟩, ⟨3⟩, 1000, 3, .sell⟩⟩, ⟨.cross, [2, 2], ⟨⟨3⟩, ⟨1⟩, 1000, 3, .sell⟩⟩,
    ⟨.cross, [2, 1], ⟨⟨3⟩, ⟨2⟩, 777, 1000, .buy⟩⟩]

theorem run_conserves_threePools :
    (threePools.history threeOrders).length = 2 ∧ (∀ e ∈ threePools.history threeOrders, e.Conserves) ∧
      ((threePools.history threeOrders).map (Execution.paid ⟨1⟩)).sum = 1000 ∧
      (threePools.run threeOrders).total ⟨1⟩ = threePools.total ⟨1⟩ + 1000 := by
  obtain ⟨-, hconserves, htotal⟩ := run_conserves threePools threeOrders
  have hpaid : ((threePools.history threeOrders).map (Execution.paid ⟨1⟩)).sum = 1000 := by decide +kernel
  have hreceived : ((threePools.history threeOrders).map (Execution.received ⟨1⟩)).sum = 0 := by decide +kernel
  have hnative := htotal ⟨1⟩
  rw [hpaid, hreceived] at hnative
  exact ⟨by decide +kernel, hconserves, hpaid, hnative⟩

end SwapStake.Market
