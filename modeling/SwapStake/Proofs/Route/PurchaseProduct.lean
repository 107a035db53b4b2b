import SwapStake.Proofs.Route.Planning
import SwapStake.Proofs.Route.SaleProduct
/-!
# Purchases and the product of the reserves

A purchase rounds its quote down, towards the caller, and the interest on it as well. So a hop may leave a
smaller product of the reserves than it found, but a unit more would pay for all of it, and nothing is lost
where there is any interest, or where nothing is rounded off the quote (`Bought`). Every hop of a plan is
such a purchase, from whichever side its pool is entered (`purchase_hops`).
-/

namespace SwapStake

namespace Reserves

variable {r : Reserves} {paid received : UInt64} {interest : UInt32}

/-- The interest on what a purchase of `received` is quoted. -/
def purchaseFee (r : Reserves) (received : UInt64) (interest : UInt32) : Nat :=
  r.inverted.purchaseQuote received * interest.toNat / 1000

/-- A purchase from the second side of some reserves, paid on the first. -/
structure Bought (r : Reserves) (interest : UInt32) (paid received : UInt64) : Prop where
  some_received : 1 ≤ received.toNat
  some_left : received.toNat < r.reserve2.toNat
  some_paid : 1 ≤ paid.toNat
  /-- One unit more, and the product would have grown. -/
  nearly_covered : r.product < (r.reserve1.toNat + paid.toNat + 1) * (r.reserve2.toNat - received.toNat)
  /-- The product does not fall if there is interest, or if the quote is exact. -/
  covered : 1 ≤ r.purchaseFee received interest ∨
      r.reserve2.toNat - received.toNat ∣ received.toNat * r.reserve1.toNat →
    r.product ≤ (r.reserve1.toNat + paid.toNat) * (r.reserve2.toNat - received.toNat)

/-! ## One hop -/

theorem product_eq_of_left (left : received.toNat ≤ r.reserve2.toNat) : r.product =
    r.reserve1.toNat * (r.reserve2.toNat - received.toNat) + received.toNat * r.reserve1.toNat := by
  rw [product, Nat.mul_comm received.toNat, ← Nat.mul_add, Nat.sub_add_cancel left]

theorem product_lt_iff (left : received.toNat ≤ r.reserve2.toNat) {n : Nat} :
    r.product < (r.reserve1.toNat + n) * (r.reserve2.toNat - received.toNat) ↔
      received.toNat * r.reserve1.toNat < n * (r.reserve2.toNat - received.toNat) := by
  rw [product_eq_of_left left, Nat.add_mul, Nat.add_lt_add_iff_left]

theorem product_le_iff (left : received.toNat ≤ r.reserve2.toNat) {n : Nat} :
    r.product ≤ (r.reserve1.toNat + n) * (r.reserve2.toNat - received.toNat) ↔
      received.toNat * r.reserve1.toNat ≤ n * (r.reserve2.toNat - received.toNat) := by
  rw [product_eq_of_left left, Nat.add_mul, Nat.add_le_add_iff_left]

theorem lt_succ_purchaseQuote (left : received.toNat < r.reserve2.toNat) {n : Nat}
    (more : r.inverted.purchaseQuote received < n) :
    received.toNat * r.reserve1.toNat < n * (r.reserve2.toNat - received.toNat) := by
  have hleft : 0 < r.reserve2.toNat - received.toNat := Nat.sub_pos_of_lt left
  calc received.toNat * r.reserve1.toNat
      < (received.toNat * r.reserve1.toNat / (r.reserve2.toNat - received.toNat) + 1) *
          (r.reserve2.toNat - received.toNat) := by
        rw [Nat.succ_mul]
        exact Nat.lt_div_mul_add hleft
    _ ≤ n * (r.reserve2.toNat - received.toNat) := Nat.mul_le_mul_right _ more

/-- **A purchase is short of less than a unit**, and of nothing if it pays interest or an exact quote. -/
theorem bought_of_buyCost (h : r.inverted.buyCost received interest = .ok paid) (hreceived : received ≠ 0)
    (hpaid : paid ≠ 0) : r.Bought interest paid received := by
  obtain ⟨hleft, -, hcost⟩ := buyCost_eq_ok_iff.1 h
  have hfee : paid.toNat = r.inverted.purchaseQuote received + r.purchaseFee received interest := hcost
  refine ⟨Word64.toNat_pos hreceived, hleft, Word64.toNat_pos hpaid, ?_, fun hcovered => ?_⟩
  · rw [Nat.add_assoc, product_lt_iff hleft.le]
    exact lt_succ_purchaseQuote hleft (by omega)
  · rw [product_le_iff hleft.le]
    rcases hcovered with hinterest | hexact
    · exact (lt_succ_purchaseQuote hleft (by omega)).le
    · calc received.toNat * r.reserve1.toNat
          = r.inverted.purchaseQuote received * (r.reserve2.toNat - received.toNat) :=
            (Nat.div_mul_cancel hexact).symm
        _ ≤ paid.toNat * (r.reserve2.toNat - received.toNat) := Nat.mul_le_mul_right _ (by omega)

end Reserves

theorem SwapRequest.Priced.bought {q : SwapRequest} (hside : q.side = .buy) {r : Reserves}
    {paid received : UInt64} (h : q.Priced r paid received) : r.Bought q.interest paid received := by
  obtain ⟨hpaid, hreceived⟩ := h.ne_zero
  rw [SwapRequest.Priced, hside] at h
  exact Reserves.bought_of_buyCost h.1 hreceived hpaid

/-! ## All hops -/

theorem Swap.Moves.other? {s : Swap} {p : Pool} {t u : TokenId} {x y : UInt64} (h : s.Moves p t u x y) :
    p.other? t = some u := by
  rw [Pool.other?]
  rcases h.sides with ⟨hfirst, rfl, -⟩ | ⟨hfirst, hsecond, rfl, -⟩
  · rw [if_pos hfirst]
  · rw [if_neg hfirst, if_pos hsecond]

theorem Carried.hop_at {q : SwapRequest} {pools : List Pool} {swaps : List Swap} {t d : TokenId} {x z : UInt64}
    (h : Carried q pools swaps t x d z) {entries : List TokenId} (hwalk : Path.Walk t pools entries d) {i : Nat}
    {p : Pool} {e : TokenId} {s : Swap} (hp : pools[i]? = some p) (he : entries[i]? = some e)
    (hs : swaps[i]? = some s) :
    ∃ l paid received, s.Moves p e l paid received ∧ q.Priced (p.facing e) paid received := by
  induction h generalizing entries i with
  | arrived => cases hp
  | hop moves priced _ ih =>
    obtain ⟨u, later, hother, hlater, rfl⟩ := Path.walk_cons_iff.1 hwalk
    obtain rfl := Option.some.inj (moves.other?.symm.trans hother)
    cases i with
    | zero =>
      obtain rfl := Option.some.inj hp
      obtain rfl := Option.some.inj he
      obtain rfl := Option.some.inj hs
      exact ⟨_, _, _, moves, priced⟩
    | succ i => exact ih hlater hp he hs

/-- **Every hop of a purchase is short of less than a unit.** The plan has one swap for each pool. Let `e` be
the token that enters a pool of the path, and `paid` and `received` what its swap moves in and out. Then some
is received and some left, something is paid, and with a unit more the product of the reserves would have
grown; it does not fall if the hop pays interest or its quote is exact. -/
theorem purchase_hops {router : Router} {pools : List Pool} {plan : Plan} {source destination : TokenId}
    {amount : UInt64} {interest : UInt32}
    (h : router.plan pools ⟨source, destination, amount, interest, .buy⟩ = .ok plan) :
    plan.swaps.length = pools.length ∧ ∃ entries : List TokenId, entries.length = pools.length ∧
      Path.tokens pools source destination = .ok (entries ++ [destination]) ∧
      ∀ (i : Nat) (p : Pool) (e : TokenId) (s : Swap), pools[i]? = some p → entries[i]? = some e →
        plan.swaps[i]? = some s → ∃ l paid received, s.Moves p e l paid received ∧
          (p.facing e).Bought interest paid received := by
  obtain ⟨entries, first, rest, made⟩ := Plan.along_eq_ok_iff.1 (Router.plan_along h)
  have hcarried := (Router.plan_follows h).carried
  have htokens := Path.tokens_eq_ok_iff.2 ⟨made.walk.ne_nil made.ends, made.ends, made.shares, entries, made.walk, rfl⟩
  refine ⟨hcarried.length.symm, entries, made.walk.length, htokens, fun i p e s hp he hs => ?_⟩
  obtain ⟨l, paid, received, hmoves, hpriced⟩ := hcarried.hop_at made.walk hp he hs
  exact ⟨l, paid, received, hmoves, hpriced.bought rfl⟩

/-- From token 1 to token 3, the second pool against its order. -/
def tightPath : List Pool :=
  [⟨⟨10⟩, ⟨1⟩, ⟨2⟩, 10, ⟨10, 10⟩⟩, ⟨⟨11⟩, ⟨3⟩, ⟨2⟩, 7, ⟨7, 9⟩⟩]

theorem purchase_hops_tight :
    ∃ plan, Router.cross.plan tightPath ⟨⟨1⟩, ⟨3⟩, 3, 0, .buy⟩ = .ok plan ∧
      plan.swaps = [⟨⟨1⟩, ⟨2⟩, ⟨10, 10⟩, ⟨25, 4⟩⟩, ⟨⟨3⟩, ⟨2⟩, ⟨7, 9⟩, ⟨4, 15⟩⟩] ∧
      ∃ l paid received, Swap.Moves ⟨⟨3⟩, ⟨2⟩, ⟨7, 9⟩, ⟨4, 15⟩⟩ tightPath[1] ⟨2⟩ l paid received ∧
        Reserves.Bought ⟨9, 7⟩ 0 paid received := by
  obtain ⟨plan, hplan, hswaps⟩ := map_eq_ok_iff.1 (show (Router.cross.plan tightPath
    ⟨⟨1⟩, ⟨3⟩, 3, 0, .buy⟩).map Plan.swaps =
      .ok [⟨⟨1⟩, ⟨2⟩, ⟨10, 10⟩, ⟨25, 4⟩⟩, ⟨⟨3⟩, ⟨2⟩, ⟨7, 9⟩, ⟨4, 15⟩⟩] by decide +kernel)
  obtain ⟨-, entries, -, htokens, hhops⟩ := purchase_hops hplan
  have hpath : Path.tokens tightPath ⟨1⟩ ⟨3⟩ = .ok ([⟨1⟩, ⟨2⟩] ++ [⟨3⟩]) := by decide
  obtain rfl := List.append_cancel_right (Except.ok.inj (hpath.symm.trans htokens))
  rw [hswaps] at hhops
  exact ⟨plan, hplan, hswaps, hhops 1 _ ⟨2⟩ _ rfl rfl rfl⟩

end SwapStake
