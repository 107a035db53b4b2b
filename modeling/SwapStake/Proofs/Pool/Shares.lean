import SwapStake.Pool.Shares
import SwapStake.Proofs.Pool.Quote
/-!
# Deposits and withdrawals on natural numbers

When a deposit or a withdrawal is accepted, and what it leaves behind, told by the formulas for the
supply of shares and for the reserves paid out (`addLiquidity_eq_ok_iff`, `takeLiquidity_eq_ok_iff`). A
withdrawal pays out no more than its part of each reserve, so what stands behind a share does not
fall (`Pool.Withdrawn.backs`), and it is refused only for shares that the pool has not issued
(`takeLiquidity_eq_error_iff`).
-/

namespace SwapStake

namespace Reserves

/-- The supply that a change of reserves leads to: in proportion to the worth, or all of the new worth
when there is nothing to be in proportion to. -/
def rescaled (old new : Reserves) (supply : UInt64) : Nat :=
  if old.worth = 0 ∨ supply = 0 then new.worth.toNat
  else supply.toNat * new.worth.toNat / old.worth.toNat

theorem rescaledSupply_eq_ok_iff {old new : Reserves} {supply s : UInt64} :
    old.rescaledSupply new supply = .ok s ↔ old.rescaled new supply = s.toNat := by
  unfold rescaledSupply rescaled
  split
  · rw [Except.ok.injEq, UInt64.toNat_inj]
  · rename_i hscale
    have hworth : 0 < (UInt128.ofUInt64 old.worth).toNat := by
      rw [UInt128.toNat_ofUInt64]
      exact Word64.toNat_pos fun h => hscale (.inl h)
    rw [orPoolError_eq_ok_iff, mulDivWord?_eq_some_iff hworth, UInt128.toNat_ofUInt64]

theorem rescaled_le_worth {old new : Reserves} {supply : UInt64} (h : supply ≤ old.worth) :
    old.rescaled new supply ≤ new.worth.toNat := by
  unfold rescaled
  split
  · exact Nat.le_refl _
  · refine Nat.div_le_of_le_mul ?_
    exact Nat.mul_le_mul_right _ (UInt64.le_iff_toNat_le.1 h)

end Reserves

namespace Pool

variable {p p' : Pool}

/-! ## Deposits -/

/-- **A pool is created from some of each of two tokens**, and its whole worth is issued. -/
theorem create_eq_ok_iff {share token1 token2 : TokenId} {amount1 amount2 issued : UInt64} :
    create share token1 token2 amount1 amount2 = .ok (p, issued) ↔
      token1 ≠ token2 ∧ amount1 ≠ 0 ∧ amount2 ≠ 0 ∧ issued = p.supply ∧
        p = ⟨share, token1, token2, (⟨amount1, amount2⟩ : Reserves).worth, ⟨amount1, amount2⟩⟩ := by
  rw [create, guard_eq_ok_iff, bind_eq_ok_iff]
  refine and_congr_right fun _ => ?_
  constructor
  · rintro ⟨_, hfirst, h⟩
    rw [checkFirstDeposit, guard_eq_ok_iff, not_or] at hfirst
    obtain ⟨rfl, rfl⟩ := Prod.mk.inj (pure_eq_ok_iff.1 h)
    exact ⟨hfirst.1.1, hfirst.1.2, rfl, rfl⟩
  · rintro ⟨hsome1, hsome2, rfl, rfl⟩
    refine ⟨(), ?_, rfl⟩
    rw [checkFirstDeposit, guard_eq_ok_iff, not_or]
    exact ⟨⟨hsome1, hsome2⟩, rfl⟩

/-- A deposit that is accepted. Both reserves grow by what is deposited, the supply is rescaled, and what
it grows by is issued. -/
structure Deposited (p : Pool) (amount1 amount2 : UInt64) (p' : Pool) (issued : UInt64) : Prop where
  some1 : amount1 ≠ 0
  some2 : amount2 ≠ 0
  grows1 : p.reserves.reserve1.toNat + amount1.toNat = p'.reserves.reserve1.toNat
  grows2 : p.reserves.reserve2.toNat + amount2.toNat = p'.reserves.reserve2.toNat
  supply : p.reserves.rescaled p'.reserves p.supply = p'.supply.toNat
  issued : p.supply.toNat + issued.toNat = p'.supply.toNat
  others : p' = { p with supply := p'.supply, reserves := p'.reserves }

theorem sharesIssued_eq_ok_iff {old new : Reserves} {supply issued : UInt64} :
    old.sharesIssued new supply = .ok issued ↔ ∃ s, old.rescaled new supply = UInt64.toNat s ∧
      supply.toNat + issued.toNat = s.toNat := by
  rw [Reserves.sharesIssued, bind_eq_ok_iff]
  refine exists_congr fun s => ?_
  rw [Reserves.rescaledSupply_eq_ok_iff, orPoolError_eq_ok_iff, Word64.sub?_eq_some_iff]

/-- **A deposit is accepted when it is one of both tokens and all that it leads to fits.** -/
theorem addLiquidity_eq_ok_iff {amount1 amount2 issued : UInt64} :
    p.addLiquidity amount1 amount2 = .ok (p', issued) ↔ p.Deposited amount1 amount2 p' issued := by
  rw [addLiquidity, guard_eq_ok_iff, not_or]
  constructor
  · rintro ⟨⟨hsome1, hsome2⟩, h⟩
    obtain ⟨reserve1, hreserve1, h⟩ := bind_eq_ok_iff.1 h
    obtain ⟨reserve2, hreserve2, h⟩ := bind_eq_ok_iff.1 h
    obtain ⟨shares, hshares, h⟩ := bind_eq_ok_iff.1 h
    obtain ⟨supply, hsupply, h⟩ := bind_eq_ok_iff.1 h
    rw [orPoolError_eq_ok_iff, Word64.add?_eq_some_iff] at hreserve1 hreserve2 hsupply
    obtain ⟨s, hs, hissued⟩ := sharesIssued_eq_ok_iff.1 hshares
    obtain ⟨rfl, rfl⟩ := Prod.mk.inj (pure_eq_ok_iff.1 h)
    refine ⟨hsome1, hsome2, hreserve1, hreserve2, ?_, hsupply, rfl⟩
    exact hs.trans (hissued.symm.trans hsupply)
  · rintro ⟨hsome1, hsome2, hgrows1, hgrows2, hsupply, hissued, hothers⟩
    refine ⟨⟨hsome1, hsome2⟩, ?_⟩
    refine bind_eq_ok_iff.2 ⟨p'.reserves.reserve1, ?_, bind_eq_ok_iff.2 ⟨p'.reserves.reserve2, ?_,
      bind_eq_ok_iff.2 ⟨issued, ?_, bind_eq_ok_iff.2 ⟨p'.supply, ?_, ?_⟩⟩⟩⟩
    · rwa [orPoolError_eq_ok_iff, Word64.add?_eq_some_iff]
    · rwa [orPoolError_eq_ok_iff, Word64.add?_eq_some_iff]
    · exact sharesIssued_eq_ok_iff.2 ⟨p'.supply, hsupply, hissued⟩
    · rwa [orPoolError_eq_ok_iff, Word64.add?_eq_some_iff]
    · rw [pure_eq_ok_iff, Prod.mk.injEq]
      exact ⟨hothers.symm, rfl⟩

theorem Deposited.worth_mul_supply_le {amount1 amount2 issued : UInt64} (h : p.Deposited amount1 amount2 p' issued)
    (hsupply : p.supply ≠ 0) :
    p.reserves.worth.toNat * p'.supply.toNat ≤ p'.reserves.worth.toNat * p.supply.toNat := by
  by_cases hworth : p.reserves.worth = 0
  · rw [hworth, UInt64.toNat_zero, Nat.zero_mul]
    exact Nat.zero_le _
  · have hscaled := h.supply
    rw [Reserves.rescaled, if_neg (not_or.2 ⟨hworth, hsupply⟩)] at hscaled
    rw [← hscaled, Nat.mul_comm p'.reserves.worth.toNat]
    exact Nat.mul_div_le _ _

/-! ## Withdrawals -/

/-- A withdrawal that is accepted. Each reserve pays out the part of it that the shares are of the
supply, rounded down, and the shares leave the supply. -/
structure Withdrawn (p : Pool) (shares : UInt64) (p' : Pool) (paid : Reserves) : Prop where
  some : shares ≠ 0
  enough : shares ≤ p.supply
  paid1 : p.reserves.reserve1.toNat * shares.toNat / p.supply.toNat = paid.reserve1.toNat
  paid2 : p.reserves.reserve2.toNat * shares.toNat / p.supply.toNat = paid.reserve2.toNat
  left1 : p'.reserves.reserve1.toNat + paid.reserve1.toNat = p.reserves.reserve1.toNat
  left2 : p'.reserves.reserve2.toNat + paid.reserve2.toNat = p.reserves.reserve2.toNat
  supply : p'.supply.toNat + shares.toNat = p.supply.toNat
  others : p' = { p with supply := p'.supply, reserves := p'.reserves }

theorem shareOf_eq_ok_iff {reserve shares paid : UInt64} (h : 0 < p.supply.toNat) :
    p.shareOf reserve shares = .ok paid ↔ reserve.toNat * shares.toNat / p.supply.toNat = paid.toNat := by
  rw [shareOf, orPoolError_eq_ok_iff, mulDivWord?_eq_some_iff (by rwa [UInt128.toNat_ofUInt64]),
    UInt128.toNat_ofUInt64]

theorem part_le {reserve shares supply : Nat} (h : shares ≤ supply) : reserve * shares / supply ≤ reserve :=
  Nat.div_le_of_le_mul (by rw [Nat.mul_comm]; exact Nat.mul_le_mul_right _ h)

theorem supply_pos_of_shares {shares : UInt64} (hsome : shares ≠ 0) (henough : shares ≤ p.supply) :
    0 < p.supply.toNat :=
  Nat.lt_of_lt_of_le (Word64.toNat_pos hsome) (UInt64.le_iff_toNat_le.1 henough)

/-- **A withdrawal is accepted when the pool has issued the shares.** -/
theorem takeLiquidity_eq_ok_iff {shares : UInt64} {paid : Reserves} :
    p.takeLiquidity shares = .ok (p', paid) ↔ p.Withdrawn shares p' paid := by
  rw [takeLiquidity, guard_eq_ok_iff, not_or, UInt64.not_lt]
  constructor
  · rintro ⟨⟨hsome, henough⟩, h⟩
    have hsupply := supply_pos_of_shares hsome henough
    rw [UInt64.le_iff_toNat_le] at henough
    obtain ⟨paid1, hpaid1, h⟩ := bind_eq_ok_iff.1 h
    obtain ⟨paid2, hpaid2, h⟩ := bind_eq_ok_iff.1 h
    rw [shareOf_eq_ok_iff hsupply] at hpaid1 hpaid2
    obtain ⟨rfl, rfl⟩ := Prod.mk.inj (pure_eq_ok_iff.1 h)
    refine ⟨hsome, UInt64.le_iff_toNat_le.2 henough, hpaid1, hpaid2, ?_, ?_, ?_, rfl⟩
    · exact Word64.toNat_sub_add (hpaid1 ▸ part_le henough)
    · exact Word64.toNat_sub_add (hpaid2 ▸ part_le henough)
    · exact Word64.toNat_sub_add henough
  · rintro ⟨hsome, henough, hpaid1, hpaid2, hleft1, hleft2, hsupply, hothers⟩
    refine ⟨⟨hsome, henough⟩, ?_⟩
    have hpos := supply_pos_of_shares hsome henough
    refine bind_eq_ok_iff.2 ⟨paid.reserve1, (shareOf_eq_ok_iff hpos).2 hpaid1,
      bind_eq_ok_iff.2 ⟨paid.reserve2, (shareOf_eq_ok_iff hpos).2 hpaid2, ?_⟩⟩
    rw [pure_eq_ok_iff, Prod.mk.injEq, ← Word64.eq_sub_of_add hsupply, ← Word64.eq_sub_of_add hleft1,
      ← Word64.eq_sub_of_add hleft2]
    exact ⟨hothers.symm, rfl⟩

theorem exists_withdrawn {shares : UInt64} (hsome : shares ≠ 0) (henough : shares ≤ p.supply) :
    ∃ p' paid, p.Withdrawn shares p' paid := by
  have hle := UInt64.le_iff_toNat_le.1 henough
  have hpart (reserve : UInt64) : reserve.toNat * shares.toNat / p.supply.toNat ≤ reserve.toNat := part_le hle
  obtain ⟨paid1, hpaid1, hfits1⟩ := Word64.exists_toNat_eq_of_le (hpart p.reserves.reserve1)
  obtain ⟨paid2, hpaid2, hfits2⟩ := Word64.exists_toNat_eq_of_le (hpart p.reserves.reserve2)
  let reserves : Reserves := ⟨p.reserves.reserve1 - paid1, p.reserves.reserve2 - paid2⟩
  refine ⟨{ p with supply := p.supply - shares, reserves }, ⟨paid1, paid2⟩, hsome, henough, hpaid1.symm,
    hpaid2.symm, ?_, ?_, Word64.toNat_sub_add hle, rfl⟩
  · exact Word64.toNat_sub_add (UInt64.le_iff_toNat_le.1 hfits1)
  · exact Word64.toNat_sub_add (UInt64.le_iff_toNat_le.1 hfits2)

/-- **A withdrawal is refused for no shares and for shares that are not there**, and for nothing else. -/
theorem takeLiquidity_eq_error_iff {shares : UInt64} {e : PoolError} :
    p.takeLiquidity shares = .error e ↔ e = .invalidLiquidity ∧ (shares = 0 ∨ p.supply < shares) := by
  by_cases hbad : shares = 0 ∨ p.supply < shares
  · rw [takeLiquidity, if_pos hbad, Except.error.injEq]
    simp [hbad, eq_comm]
  · obtain ⟨hsome, henough⟩ := not_or.1 hbad
    obtain ⟨p', paid, h⟩ := exists_withdrawn hsome (UInt64.not_lt.1 henough)
    rw [takeLiquidity_eq_ok_iff.2 h]
    simp [hbad]

theorem takeLiquidity_all (h : p.supply ≠ 0) :
    p.takeLiquidity p.supply = .ok ({ p with supply := 0, reserves := ⟨0, 0⟩ }, p.reserves) := by
  have hpos := Word64.toNat_pos h
  rw [takeLiquidity_eq_ok_iff]
  exact ⟨h, UInt64.le_refl _, Nat.mul_div_cancel _ hpos, Nat.mul_div_cancel _ hpos, Nat.zero_add _,
    Nat.zero_add _, Nat.zero_add _, rfl⟩

theorem Withdrawn.emptied {shares : UInt64} {paid : Reserves} (h : p.Withdrawn shares p' paid)
    (hnone : p'.supply = 0) : p'.reserves = ⟨0, 0⟩ := by
  have hall := h.supply
  rw [hnone, UInt64.toNat_zero, Nat.zero_add, UInt64.toNat_inj] at hall
  subst hall
  have hsame := takeLiquidity_eq_ok_iff.2 h
  rw [takeLiquidity_all h.some] at hsame
  obtain ⟨rfl, -⟩ := Prod.mk.inj (Except.ok.inj hsame)
  rfl

theorem addLiquidity_of_empty {amount1 amount2 : UInt64} (hreserves : p.reserves = ⟨0, 0⟩) (hsupply : p.supply = 0)
    (hsome1 : amount1 ≠ 0) (hsome2 : amount2 ≠ 0) :
    p.addLiquidity amount1 amount2 =
      .ok ({ p with supply := (⟨amount1, amount2⟩ : Reserves).worth, reserves := ⟨amount1, amount2⟩ },
        (⟨amount1, amount2⟩ : Reserves).worth) := by
  rw [addLiquidity_eq_ok_iff]
  refine ⟨hsome1, hsome2, ?_, ?_, ?_, ?_, rfl⟩
  · rw [hreserves]
    exact Nat.zero_add _
  · rw [hreserves]
    exact Nat.zero_add _
  · rw [Reserves.rescaled, if_pos (.inr hsupply)]
  · rw [hsupply]
    exact Nat.zero_add _

theorem left_mul_supply {reserve shares supply paid left rest : Nat} (hpaid : reserve * shares / supply = paid)
    (hleft : left + paid = reserve) (hrest : rest + shares = supply) : reserve * rest ≤ left * supply := by
  have hfloor : paid * supply ≤ reserve * shares := hpaid ▸ Nat.div_mul_le_self _ _
  have hwhole : (left + paid) * supply = reserve * (rest + shares) := by rw [hleft, hrest]
  rw [Nat.add_mul, Nat.mul_add] at hwhole
  omega

/-- Of neither token a share has less behind it than it had. -/
structure Backs (p p' : Pool) : Prop where
  side1 : p.reserves.reserve1.toNat * p'.supply.toNat ≤ p'.reserves.reserve1.toNat * p.supply.toNat
  side2 : p.reserves.reserve2.toNat * p'.supply.toNat ≤ p'.reserves.reserve2.toNat * p.supply.toNat

theorem Withdrawn.backs {shares : UInt64} {paid : Reserves} (h : p.Withdrawn shares p' paid) : p.Backs p' :=
  ⟨left_mul_supply h.paid1 h.left1 h.supply, left_mul_supply h.paid2 h.left2 h.supply⟩

theorem Backs.product_le (h : p.Backs p') :
    p.reserves.product * p'.supply.toNat ^ 2 ≤ p'.reserves.product * p.supply.toNat ^ 2 := by
  calc p.reserves.product * p'.supply.toNat ^ 2
      = p.reserves.reserve1.toNat * p'.supply.toNat * (p.reserves.reserve2.toNat * p'.supply.toNat) := by
        rw [Reserves.product, Nat.pow_two, Nat.mul_mul_mul_comm]
    _ ≤ p'.reserves.reserve1.toNat * p.supply.toNat * (p'.reserves.reserve2.toNat * p.supply.toNat) :=
        Nat.mul_le_mul h.side1 h.side2
    _ = p'.reserves.product * p.supply.toNat ^ 2 := by
        rw [Reserves.product, Nat.pow_two, Nat.mul_mul_mul_comm]

end Pool

end SwapStake
