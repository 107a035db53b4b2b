import SwapStake.Proofs.Answers
import SwapStake.Proofs.UInt128.MulDiv
/-!
# Quotes on natural numbers

When a quote is given, and how much it is, told by the formula of the constant product. All products
and quotients are those of natural numbers, rounded down once for the quote and once for the
interest. Each quote is one formula in natural numbers, its refusals in the order in which they are
found (`quotes_frontier`). Without interest the two quotes of a pool undo each other but for what they
round off, and that stays on the side of who asks for less.
-/

namespace SwapStake

theorem mulDivWord?_eq_some_iff {a b q : UInt64} {c : UInt128} (hc : 0 < c.toNat) :
    mulDivWord? a b c = some q ↔ a.toNat * b.toNat / c.toNat = q.toNat := by
  have hlt : a.toNat * b.toNat / c.toNat < 2 ^ 128 := by
    rw [← UInt128.toNat_ofProduct]
    exact Nat.lt_of_le_of_lt (Nat.div_le_self _ _) (UInt128.toNat_lt _)
  rw [mulDivWord?, UInt128.mulDiv_ofUInt64 a b hc]
  show UInt128.toUInt64? _ = some q ↔ _
  rw [UInt128.toUInt64?_eq_some_iff, UInt128.toNat_ofNat, Nat.mod_eq_of_lt hlt]

theorem ratioQuote_toNat {denominator : UInt128} (h : 0 < denominator.toNat) (amount reserve : UInt64) :
    (ratioQuote amount reserve denominator).map UInt64.toNat =
      if 2 ^ 64 ≤ amount.toNat * reserve.toNat / denominator.toNat then .error .ratioOverflow
      else .ok (amount.toNat * reserve.toNat / denominator.toNat) :=
  orPoolError_toNat fun _ => mulDivWord?_eq_some_iff h

theorem interest_le {n i : Nat} (h : i ≤ 1000) : n * i / 1000 ≤ n := by
  apply Nat.div_le_of_le_mul
  rw [Nat.mul_comm]
  exact Nat.mul_le_mul_right n h

theorem interestOn_toNat (amount : UInt64) (interest : UInt32) :
    (interestOn amount interest).map UInt64.toNat =
      if 1000 < interest.toNat then .error .invalidInterest else .ok (amount.toNat * interest.toNat / 1000) := by
  have hwhole : (UInt128.ofUInt64 interestWhole).toNat = 1000 := rfl
  have hrange : interestWhole < interest.toUInt64 ↔ 1000 < interest.toNat := by
    rw [UInt64.lt_iff_toNat_lt, UInt32.toNat_toUInt64]
    rfl
  rw [interestOn, apply_ite (Except.map UInt64.toNat)]
  refine if_ctx_congr hrange (fun _ => rfl) fun hvalid => ?_
  have hle := interest_le (n := amount.toNat) (Nat.not_lt.1 hvalid)
  have hlt := amount.toNat_lt
  rw [orPoolError_toNat fun _ => mulDivWord?_eq_some_iff (by rw [hwhole]; decide), hwhole, UInt32.toNat_toUInt64,
    if_neg (by omega)]

/-- What an amount comes to with the interest on it. -/
def withInterest (n : Nat) (interest : UInt32) : Nat :=
  n + n * interest.toNat / 1000

/-- What the interest leaves of an amount. -/
def lessInterest (n : Nat) (interest : UInt32) : Nat :=
  n - n * interest.toNat / 1000

namespace Reserves

/-- What `amount` of the first token is worth in the second when it comes into the pool. -/
def saleQuote (r : Reserves) (amount : UInt64) : Nat :=
  amount.toNat * r.reserve2.toNat / (r.reserve1.toNat + amount.toNat)

/-- What `amount` of the first token is worth in the second when it leaves the pool. -/
def purchaseQuote (r : Reserves) (amount : UInt64) : Nat :=
  amount.toNat * r.reserve2.toNat / (r.reserve1.toNat - amount.toNat)

/-- What `amount` of the second token is worth in the first when it leaves what the interest leaves of the
second reserve. -/
def depositQuote (r : Reserves) (amount : UInt64) (interest : UInt32) : Nat :=
  amount.toNat * r.reserve1.toNat / (lessInterest r.reserve2.toNat interest - amount.toNat)

theorem saleQuote_le (r : Reserves) (amount : UInt64) : r.saleQuote amount ≤ r.reserve2.toNat :=
  Nat.div_le_of_le_mul (Nat.mul_le_mul_right _ (Nat.le_add_left _ _))

/-! ## Each quote as one formula -/

theorem buyCost_toNat (r : Reserves) (amount : UInt64) (interest : UInt32) :
    (r.buyCost amount interest).map UInt64.toNat =
      if r.reserve1.toNat ≤ amount.toNat then .error .drainingDisallowed
      else if 2 ^ 64 ≤ r.purchaseQuote amount then .error .ratioOverflow
      else if 1000 < interest.toNat then .error .invalidInterest
      else if 2 ^ 64 ≤ withInterest (r.purchaseQuote amount) interest then .error .interestOverflow
      else .ok (withInterest (r.purchaseQuote amount) interest) := by
  rw [buyCost, apply_ite (Except.map UInt64.toNat)]
  refine if_ctx_congr UInt64.le_iff_toNat_le (fun _ => rfl) fun hleft => ?_
  have hden : (UInt128.ofUInt64 (r.reserve1 - amount)).toNat = r.reserve1.toNat - amount.toNat := by
    rw [UInt128.toNat_ofUInt64, UInt64.toNat_sub_of_le _ _ (UInt64.le_iff_toNat_le.2 (by omega))]
  have hquote : (ratioQuote amount r.reserve2 (.ofUInt64 (r.reserve1 - amount))).map UInt64.toNat =
      if 2 ^ 64 ≤ r.purchaseQuote amount then .error .ratioOverflow else .ok (r.purchaseQuote amount) := by
    rw [ratioQuote_toNat (by omega), hden]
    rfl
  refine bind_toNat hquote fun _ q hq => bind_toNat (interestOn_toNat q interest) fun _ fee hfee => ?_
  rw [orPoolError_add?_toNat, hfee, hq, withInterest]

theorem saleProceeds_toNat (r : Reserves) (amount : UInt64) (interest : UInt32) :
    (r.saleProceeds amount interest).map UInt64.toNat =
      if r.reserve1.toNat + amount.toNat = 0 then .error .invalidLiquidity
      else if 1000 < interest.toNat then .error .invalidInterest
      else .ok (lessInterest (r.saleQuote amount) interest) := by
  obtain ⟨denominator, hsum, hden⟩ := UInt128.addChecked_ofUInt64 r.reserve1 amount
  simp only [saleProceeds, hsum]
  rw [apply_ite (Except.map UInt64.toNat)]
  refine if_ctx_congr (by rw [UInt128.isZero_iff, hden]) (fun _ => rfl) fun hsome => ?_
  have hquote : (ratioQuote amount r.reserve2 denominator).map UInt64.toNat = .ok (r.saleQuote amount) := by
    have hfits := Nat.lt_of_le_of_lt (r.saleQuote_le amount) r.reserve2.toNat_lt
    rw [saleQuote] at hfits
    rw [ratioQuote_toNat (by omega), hden, if_neg (by omega), saleQuote]
  obtain ⟨q, hq, hqn⟩ := map_eq_ok_iff.1 hquote
  rw [hq]
  show (interestOn q interest >>= _).map _ = _
  refine bind_toNat (interestOn_toNat q interest) fun hvalid fee hfee => ?_
  have hle := interest_le (n := q.toNat) (Nat.not_lt.1 hvalid)
  rw [orPoolError_sub?_toNat (by omega), hfee, hqn, lessInterest]

theorem depositFor_toNat (r : Reserves) (amount : UInt64) (interest : UInt32) :
    (r.depositFor amount interest).map UInt64.toNat =
      if 1000 < interest.toNat then .error .invalidInterest
      else if lessInterest r.reserve2.toNat interest ≤ amount.toNat then .error .drainingDisallowed
      else if 2 ^ 64 ≤ r.depositQuote amount interest then .error .ratioOverflow
      else .ok (r.depositQuote amount interest) := by
  refine bind_toNat (interestOn_toNat r.reserve2 interest) fun hvalid fee hfee => ?_
  have hle := interest_le (n := r.reserve2.toNat) (Nat.not_lt.1 hvalid)
  have havailable : (r.reserve2 - fee).toNat = lessInterest r.reserve2.toNat interest := by
    rw [UInt64.toNat_sub_of_le _ _ (UInt64.le_iff_toNat_le.2 (by omega)), hfee, lessInterest]
  rw [apply_ite (Except.map UInt64.toNat)]
  refine if_ctx_congr (by rw [UInt64.le_iff_toNat_le, havailable]) (fun _ => rfl) fun hleft => ?_
  have hden : (UInt128.ofUInt64 (r.reserve2 - fee - amount)).toNat =
      lessInterest r.reserve2.toNat interest - amount.toNat := by
    rw [UInt128.toNat_ofUInt64, UInt64.toNat_sub_of_le _ _ (UInt64.le_iff_toNat_le.2 (by omega)), havailable]
  rw [ratioQuote_toNat (by omega), hden]
  rfl

/-- **The frontier of the quotes.** Each quote is the formula of the constant product in natural numbers,
rounded down once for the quote and once for the interest, or the first refusal that applies: what
would drain the pool, what does not fit 64 bits, an interest that is more than the whole, or a sale
with nothing on either side of it. -/
theorem quotes_frontier (r : Reserves) (amount : UInt64) (interest : UInt32) :
    ((r.buyCost amount interest).map UInt64.toNat =
      if r.reserve1.toNat ≤ amount.toNat then .error .drainingDisallowed
      else if 2 ^ 64 ≤ r.purchaseQuote amount then .error .ratioOverflow
      else if 1000 < interest.toNat then .error .invalidInterest
      else if 2 ^ 64 ≤ withInterest (r.purchaseQuote amount) interest then .error .interestOverflow
      else .ok (withInterest (r.purchaseQuote amount) interest)) ∧
    ((r.saleProceeds amount interest).map UInt64.toNat =
      if r.reserve1.toNat + amount.toNat = 0 then .error .invalidLiquidity
      else if 1000 < interest.toNat then .error .invalidInterest
      else .ok (lessInterest (r.saleQuote amount) interest)) ∧
    (r.depositFor amount interest).map UInt64.toNat =
      if 1000 < interest.toNat then .error .invalidInterest
      else if lessInterest r.reserve2.toNat interest ≤ amount.toNat then .error .drainingDisallowed
      else if 2 ^ 64 ≤ r.depositQuote amount interest then .error .ratioOverflow
      else .ok (r.depositQuote amount interest) :=
  ⟨r.buyCost_toNat amount interest, r.saleProceeds_toNat amount interest, r.depositFor_toNat amount interest⟩

/-- **A sale pays the quote less the interest on it**, unless there is nothing on either side of it. -/
theorem saleProceeds_eq_ok_iff {r : Reserves} {amount proceeds : UInt64} {interest : UInt32} :
    r.saleProceeds amount interest = .ok proceeds ↔
      0 < r.reserve1.toNat + amount.toNat ∧ interest.toNat ≤ 1000 ∧
        proceeds.toNat = r.saleQuote amount - r.saleQuote amount * interest.toNat / 1000 := by
  rw [eq_ok_iff_toNat, saleProceeds_toNat, guard_eq_ok_iff, guard_eq_ok_iff, Except.ok.injEq, Nat.not_lt,
    Nat.pos_iff_ne_zero, eq_comm (b := proceeds.toNat), lessInterest]

/-- **A purchase costs the quote and the interest on it**, unless it would drain the pool. -/
theorem buyCost_eq_ok_iff {r : Reserves} {amount cost : UInt64} {interest : UInt32} :
    r.buyCost amount interest = .ok cost ↔
      amount.toNat < r.reserve1.toNat ∧ interest.toNat ≤ 1000 ∧
        cost.toNat = r.purchaseQuote amount + r.purchaseQuote amount * interest.toNat / 1000 := by
  have hfits := cost.toNat_lt
  rw [eq_ok_iff_toNat, buyCost_toNat, withInterest, guard_eq_ok_iff, guard_eq_ok_iff, guard_eq_ok_iff,
    guard_eq_ok_iff, Except.ok.injEq]
  omega

/-- **A deposit is what the amount is worth in the other token**, unless it would take all that the
interest leaves. -/
theorem depositFor_eq_ok_iff {r : Reserves} {amount deposit : UInt64} {interest : UInt32} :
    r.depositFor amount interest = .ok deposit ↔ interest.toNat ≤ 1000 ∧
      amount.toNat < lessInterest r.reserve2.toNat interest ∧ deposit.toNat = r.depositQuote amount interest := by
  have hfits := deposit.toNat_lt
  rw [eq_ok_iff_toNat, depositFor_toNat, guard_eq_ok_iff, guard_eq_ok_iff, guard_eq_ok_iff, Except.ok.injEq]
  omega

/-! ## The two quotes of a pool -/

variable {r : Reserves} {paid received : UInt64}

theorem saleProceeds_free_eq_ok_iff {amount proceeds : UInt64} :
    r.saleProceeds amount 0 = .ok proceeds ↔
      0 < r.reserve1.toNat + amount.toNat ∧ proceeds.toNat = r.saleQuote amount := by
  simp [saleProceeds_eq_ok_iff]

theorem buyCost_free_eq_ok_iff {amount cost : UInt64} :
    r.buyCost amount 0 = .ok cost ↔
      amount.toNat < r.reserve1.toNat ∧ cost.toNat = r.purchaseQuote amount := by
  simp [buyCost_eq_ok_iff]

theorem purchaseQuote_le_of_le_saleQuote (h : received.toNat ≤ r.saleQuote paid) :
    r.inverted.purchaseQuote received ≤ paid.toNat := by
  have hsale := Nat.mul_le_of_le_div _ _ _ h
  apply Nat.div_le_of_le_mul
  show received.toNat * r.reserve1.toNat ≤ (r.reserve2.toNat - received.toNat) * paid.toNat
  rw [Nat.sub_mul, Nat.mul_comm r.reserve2.toNat]
  apply Nat.le_sub_of_add_le
  rwa [← Nat.mul_add]

theorem saleQuote_le_of_le_purchaseQuote (h : paid.toNat ≤ r.inverted.purchaseQuote received) :
    r.saleQuote paid ≤ received.toNat := by
  have hcost : paid.toNat * (r.reserve2.toNat - received.toNat) ≤ received.toNat * r.reserve1.toNat :=
    Nat.mul_le_of_le_div _ _ _ h
  apply Nat.div_le_of_le_mul
  rw [Nat.mul_sub, Nat.sub_le_iff_le_add, Nat.mul_comm paid.toNat received.toNat] at hcost
  rwa [Nat.mul_comm (_ + _), Nat.mul_add]

theorem saleQuote_lt_reserve (h1 : 0 < r.reserve1.toNat) (h2 : 0 < r.reserve2.toNat) :
    r.saleQuote paid < r.reserve2.toNat := by
  rw [saleQuote, Nat.div_lt_iff_lt_mul (by omega), Nat.mul_comm]
  exact Nat.mul_lt_mul_of_pos_left (by omega) h2

end Reserves

end SwapStake
