import Mathlib.Tactic.Ring
import SwapStake.Proofs.Route.Planning
import SwapStake.Proofs.Route.SaleProduct
/-!
# Sales in parts

A sale in parts goes through pools that its earlier parts have moved. What each hop has taken in and let
out so far, all parts together, is bounded as if it had come at once: the product of the reserves has not
fallen (`Absorbed`), and one part more leaves it so (`Absorbed.sale`). The hops of the whole sale pay the
most that this bound allows (`Reserves.le_saleQuote`), and each is entered by no less than the parts have
brought to it, so the parts let out no more in the end (`Absorbed.output_le`).
-/

namespace SwapStake

variable {q : SwapRequest}

/-! ## What a path has absorbed -/

/-- The reserves on a path as they were and as they are now, after `paid` has entered the first and
`received` has left the last, and the same amount has left each hop and entered the next. -/
inductive Absorbed : List Reserves → List Reserves → Nat → Nat → Prop
  | done (x : Nat) : Absorbed [] [] x x
  | hop {r now : Reserves} {walk walk' : List Reserves} {x y z : Nat}
      (enters : r.reserve1.toNat + x = now.reserve1.toNat) (leaves : now.reserve2.toNat + y = r.reserve2.toNat)
      (keeps : r.product ≤ now.product) (rest : Absorbed walk walk' y z) :
      Absorbed (r :: walk) (now :: walk') x z

namespace Absorbed

variable {walk now : List Reserves} {x z : Nat}

theorem nothing (walk : List Reserves) : Absorbed walk walk 0 0 := by
  induction walk with
  | nil => exact .done 0
  | cons r walk ih => exact .hop (Nat.add_zero _) (Nat.add_zero _) (Nat.le_refl _) ih

theorem sale {changes : List HopChange} {paid received : UInt64} (h : Absorbed walk now x z)
    (hside : q.side = .sell) (hflow : Flow q now changes paid received) :
    Absorbed walk (changes.map HopChange.after) (x + paid.toNat) (z + received.toNat) := by
  induction h generalizing changes paid with
  | done =>
    cases hflow
    exact .done _
  | hop enters leaves keeps _ ih =>
    cases hflow with
    | hop before priced moves rest =>
      obtain ⟨henters, hleaves⟩ := moves
      rw [before] at henters hleaves
      rw [SwapRequest.Priced, hside] at priced
      refine .hop ?_ ?_ ?_ (ih rest)
      · omega
      · omega
      · exact Nat.le_trans keeps (Reserves.sale_product_le priced.1 henters hleaves)

end Absorbed

theorem Reserves.le_saleQuote {r now : Reserves} {x y : Nat} {paid : UInt64}
    (enters : r.reserve1.toNat + x = now.reserve1.toNat) (leaves : now.reserve2.toNat + y = r.reserve2.toNat)
    (keeps : r.product ≤ now.product) (hx : x ≤ paid.toNat) (hpos : 0 < r.reserve1.toNat + paid.toNat) :
    y ≤ r.saleQuote paid := by
  rw [product, product, ← enters, ← leaves, Nat.mul_add, Nat.add_mul] at keeps
  have hbound : r.reserve1.toNat * y ≤ x * now.reserve2.toNat := by omega
  rw [saleQuote, Nat.le_div_iff_mul_le hpos, ← leaves]
  calc y * (r.reserve1.toNat + paid.toNat)
      = r.reserve1.toNat * y + paid.toNat * y := by ring
    _ ≤ paid.toNat * now.reserve2.toNat + paid.toNat * y :=
        Nat.add_le_add_right (Nat.le_trans hbound (Nat.mul_le_mul_right _ hx)) _
    _ = paid.toNat * (now.reserve2.toNat + y) := by ring

theorem Absorbed.output_le {walk now : List Reserves} {x z : Nat} {changes : List HopChange}
    {paid received : UInt64} (h : Absorbed walk now x z) (hside : q.side = .sell) (hfree : q.interest = 0)
    (hflow : Flow q walk changes paid received) (hx : x ≤ paid.toNat) : z ≤ received.toNat := by
  induction h generalizing changes paid with
  | done =>
    cases hflow
    exact hx
  | hop enters leaves keeps _ ih =>
    cases hflow with
    | hop _ priced _ rest =>
      refine ih rest ?_
      rw [SwapRequest.Priced, hside, hfree, Reserves.saleProceeds_free_eq_ok_iff] at priced
      obtain ⟨⟨hpos, hquote⟩, -⟩ := priced
      rw [hquote]
      exact Reserves.le_saleQuote enters leaves keeps hx hpos

/-! ## Pools after a plan -/

theorem facing_afterSwap (p : Pool) (c : HopChange) (t : TokenId) :
    (p.afterSwap (c.toSwap p t)).facing t = c.after := by
  unfold HopChange.toSwap Pool.facing Pool.afterSwap
  by_cases h : t = p.token1
  · simp [h]
  · simp [h, Reserves.inverted]

theorem Path.Walk.afterSwaps {pools : List Pool} {entries : List TokenId} {t d : TokenId} {swaps : List Swap}
    (h : Path.Walk t pools entries d) (hlength : swaps.length = pools.length) :
    Path.Walk t (List.zipWith Pool.afterSwap pools swaps) entries d := by
  induction h generalizing swaps with
  | arrived => exact .arrived _
  | hop other _ ih =>
    cases swaps with
    | nil => cases hlength
    | cons s swaps => exact .hop other (ih (Nat.succ.inj hlength))

theorem Path.Walk.facings_afterSwaps {pools : List Pool} {entries : List TokenId} {t d : TokenId}
    {changes : List HopChange} (h : Path.Walk t pools entries d) (hlength : changes.length = pools.length) :
    Plan.facings (List.zipWith Pool.afterSwap pools
      (List.zipWith (fun e c => HopChange.toSwap c e.1 e.2) (pools.zip entries) changes)) entries =
        changes.map HopChange.after := by
  induction h generalizing changes with
  | arrived =>
    rw [List.eq_nil_of_length_eq_zero hlength]
    rfl
  | @hop p pools entries t u d other _ ih =>
    cases changes with
    | nil => cases hlength
    | cons c changes => exact congrArg₂ List.cons (facing_afterSwap p c t) (ih (Nat.succ.inj hlength))

namespace Market

variable {n : Nat}

/-- Sell some amounts one after the other, each in the market that the sales before it leave. What each
of them pays, if all of them can be planned. -/
def sellParts (m : Market n) (sale : UInt64 → MarketOrder n) : List UInt64 → Except RouteError (List UInt64)
  | [] => .ok []
  | part :: parts => do
    let out ← m.place (sale part)
    let later ← out.market.sellParts sale parts
    pure (out.plan.amountOut :: later)

variable {m : Market n} {o : MarketOrder n} {out : Outcome n}

theorem place_walk (h : m.place o = .ok out) : ∃ entries changes,
    Path.Walk o.request.source (m.onPath o.path) entries o.request.destination ∧
      Path.Walk o.request.source (out.market.onPath o.path) entries o.request.destination ∧
      Flow o.request (Plan.facings (m.onPath o.path) entries) changes out.plan.amountIn out.plan.amountOut ∧
      Plan.facings (out.market.onPath o.path) entries = changes.map HopChange.after := by
  obtain ⟨hfollows, hnodup, hsettle⟩ := place_follows h
  obtain ⟨entries, first, rest, made⟩ := Plan.along_eq_ok_iff.1 (Router.plan_along (place_plan h))
  have hlength := made.flow.length_of_walk made.walk
  have hswaps : out.plan.swaps = List.zipWith (fun e c => HopChange.toSwap c e.1 e.2)
      ((m.onPath o.path).zip entries) (first :: rest) := by
    rw [made.assembled]
    rfl
  have honPath := settle_onPath hnodup hfollows.carried
  rw [hsettle] at honPath
  refine ⟨entries, first :: rest, made.walk, ?_, made.flow, ?_⟩
  · rw [honPath]
    exact made.walk.afterSwaps hfollows.carried.length.symm
  · rw [honPath, hswaps]
    exact made.walk.facings_afterSwaps hlength

/-- Sales without interest, of any amount, along one path and between two tokens. -/
def freeSale (router : Router) (path : List (Fin n)) (source destination : TokenId) (amount : UInt64) :
    MarketOrder n :=
  ⟨router, path, ⟨source, destination, amount, 0, .sell⟩⟩

section FreeSales

variable {router : Router} {path : List (Fin n)} {source destination : TokenId}

theorem sellParts_absorbed {start : List Reserves} {entries : List TokenId} {parts : List UInt64} :
    ∀ {m : Market n} {received : List UInt64} {x z : Nat},
      m.sellParts (freeSale router path source destination) parts = .ok received →
      Path.Walk source (m.onPath path) entries destination →
      Absorbed start (Plan.facings (m.onPath path) entries) x z →
      ∃ now, Absorbed start now (x + (parts.map UInt64.toNat).sum) (z + (received.map UInt64.toNat).sum) := by
  induction parts with
  | nil =>
    intro m received x z hsold _ habsorbed
    obtain rfl := Except.ok.inj hsold
    exact ⟨_, habsorbed⟩
  | cons part parts ih =>
    intro m received x z hsold hwalk habsorbed
    obtain ⟨out, hplace, hsold⟩ := bind_eq_ok_iff.1 hsold
    obtain ⟨later, hlater, hreceived⟩ := bind_eq_ok_iff.1 hsold
    obtain rfl := Except.ok.inj hreceived
    obtain ⟨entries', changes, hwalk', hnext, hflow, hleft⟩ := place_walk hplace
    obtain ⟨rfl, -⟩ := hwalk.unique hwalk'
    have hpart : out.plan.amountIn = part := (place_follows hplace).1.sold rfl
    have hsale := habsorbed.sale rfl hflow
    rw [← hleft, hpart] at hsale
    obtain ⟨now, hnow⟩ := ih hlater hnext hsale
    exact ⟨now, by simpa [Nat.add_assoc] using hnow⟩

/-- **Selling in parts never pays.** Without interest, the parts of a sale together receive no more than
the whole at once, though each is planned for the pools that the parts before it left. -/
theorem splitting_never_pays {m : Market n} {parts received : List UInt64} {whole : UInt64} {out : Outcome n}
    (inParts : m.sellParts (freeSale router path source destination) parts = .ok received)
    (total : (parts.map UInt64.toNat).sum = whole.toNat)
    (atOnce : m.place (freeSale router path source destination whole) = .ok out) :
    (received.map UInt64.toNat).sum ≤ out.plan.amountOut.toNat := by
  obtain ⟨entries, changes, hwalk, -, hflow, -⟩ := place_walk atOnce
  have hpaid : out.plan.amountIn = whole := (place_follows atOnce).1.sold rfl
  obtain ⟨now, habsorbed⟩ := sellParts_absorbed inParts hwalk (.nothing _)
  rw [Nat.zero_add, Nat.zero_add, total, ← hpaid] at habsorbed
  exact habsorbed.output_le rfl rfl hflow (Nat.le_refl _)

/-- Two pools, the second against its order. -/
def twoPools : Market 2 :=
  ⟨#v[⟨⟨10⟩, ⟨1⟩, ⟨2⟩, 100, ⟨1000, 4000⟩⟩, ⟨⟨11⟩, ⟨3⟩, ⟨2⟩, 100, ⟨900, 800⟩⟩]⟩

theorem splitting_never_pays_three_parts :
    ∃ out received, twoPools.sellParts (freeSale .cross [0, 1] ⟨1⟩ ⟨3⟩) [7, 13, 30] = .ok received ∧
      twoPools.place (freeSale .cross [0, 1] ⟨1⟩ ⟨3⟩ 50) = .ok out ∧
      (received.map UInt64.toNat).sum = 171 ∧ out.plan.amountOut = 172 ∧
      (received.map UInt64.toNat).sum ≤ out.plan.amountOut.toNat := by
  have hparts : twoPools.sellParts (freeSale .cross [0, 1] ⟨1⟩ ⟨3⟩) [7, 13, 30] = .ok [29, 49, 93] := by
    decide +kernel
  obtain ⟨out, hplace, hout⟩ := map_eq_ok_iff.1 (show (twoPools.place (freeSale .cross [0, 1] ⟨1⟩ ⟨3⟩ 50)).map
    (·.plan.amountOut) = .ok 172 by decide +kernel)
  exact ⟨out, _, hparts, hplace, by decide, hout, splitting_never_pays hparts (by decide) hplace⟩

end FreeSales

end Market

end SwapStake
