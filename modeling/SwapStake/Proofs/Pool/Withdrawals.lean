import SwapStake.Proofs.Pool.Shares
import SwapStake.Proofs.Route.SaleProduct
/-!
# What withdrawals leave behind

Shares can be handed in at once or one amount after the other. Every withdrawal rounds against who is
paid, and the next one divides what has been kept by that, so no way to split shares pays more than
handing them in together (`split_withdrawals_pay_no_more`). What carries this is that no share loses
what stands behind it: one withdrawal keeps it (`Backs.withdrawn`), and so do any (`Withdrawals.backs`).
A deposit cannot be used to get around it: its shares are counted by the growth of the worth, and who
hands them in again leaves the pool worth at least as much as before (`returned_deposit_worth`).
-/

namespace SwapStake

namespace Pool

variable {p q p' : Pool} {amounts : List UInt64} {steps : List (Pool × Reserves)}

/-! ## Withdrawals one after the other -/

/-- Hand in shares again and again. Each step is the pool that a withdrawal leaves, with what it pays. -/
def takeEach (p : Pool) : List UInt64 → Except PoolError (List (Pool × Reserves))
  | [] => .ok []
  | shares :: rest => do
    let (left, paid) ← p.takeLiquidity shares
    let later ← left.takeEach rest
    pure ((left, paid) :: later)

/-- Withdrawals that are accepted, each from what the one before it has left. -/
inductive Withdrawals : Pool → List UInt64 → List (Pool × Reserves) → Prop
  | done (p : Pool) : Withdrawals p [] []
  | cons {p left : Pool} {shares : UInt64} {paid : Reserves} {rest : List UInt64} {later : List (Pool × Reserves)}
      (first : p.Withdrawn shares left paid) (others : Withdrawals left rest later) :
      Withdrawals p (shares :: rest) ((left, paid) :: later)

/-- The pool that the last step leaves. -/
def leftBy (p : Pool) : List (Pool × Reserves) → Pool
  | [] => p
  | (left, _) :: later => left.leftBy later

/-- What is paid altogether of the token on one side. -/
def payout (side : Reserves → UInt64) (steps : List (Pool × Reserves)) : Nat :=
  (steps.map fun step => (side step.2).toNat).sum

theorem payout_cons (side : Reserves → UInt64) (left : Pool) (paid : Reserves) (later : List (Pool × Reserves)) :
    payout side ((left, paid) :: later) = (side paid).toNat + payout side later := rfl

theorem takeEach_eq_ok_iff : p.takeEach amounts = .ok steps ↔ p.Withdrawals amounts steps := by
  induction amounts generalizing p steps with
  | nil =>
    constructor
    · intro h
      obtain rfl := Except.ok.inj h
      exact .done p
    · rintro ⟨⟩
      rfl
  | cons shares rest ih =>
    constructor
    · intro h
      obtain ⟨⟨left, paid⟩, hfirst, h⟩ := bind_eq_ok_iff.1 h
      obtain ⟨later, hlater, h⟩ := bind_eq_ok_iff.1 h
      obtain rfl := pure_eq_ok_iff.1 h
      exact .cons (takeLiquidity_eq_ok_iff.1 hfirst) (ih.1 hlater)
    · rintro (_ | ⟨first, others⟩)
      refine bind_eq_ok_iff.2 ⟨_, takeLiquidity_eq_ok_iff.2 first, ?_⟩
      exact bind_eq_ok_iff.2 ⟨_, ih.2 others, rfl⟩

theorem exists_withdrawals (hsome : ∀ shares ∈ amounts, shares ≠ 0)
    (henough : (amounts.map UInt64.toNat).sum ≤ p.supply.toNat) : ∃ steps, p.Withdrawals amounts steps := by
  induction amounts generalizing p with
  | nil => exact ⟨[], .done p⟩
  | cons shares rest ih =>
    rw [List.forall_mem_cons] at hsome
    rw [List.map_cons, List.sum_cons] at henough
    have hshares : shares ≤ p.supply := UInt64.le_iff_toNat_le.2 (by omega)
    obtain ⟨left, paid, hfirst⟩ := exists_withdrawn hsome.1 hshares
    have hsupply := hfirst.supply
    obtain ⟨later, hothers⟩ := ih (p := left) hsome.2 (by omega)
    exact ⟨_, .cons hfirst hothers⟩

/-! ## What a run of withdrawals keeps -/

/-- What is left and what was handed in and paid, together. -/
structure Accounted (p : Pool) (amounts : List UInt64) (steps : List (Pool × Reserves)) : Prop where
  supply : (p.leftBy steps).supply.toNat + (amounts.map UInt64.toNat).sum = p.supply.toNat
  side1 : (p.leftBy steps).reserves.reserve1.toNat + payout Reserves.reserve1 steps = p.reserves.reserve1.toNat
  side2 : (p.leftBy steps).reserves.reserve2.toNat + payout Reserves.reserve2 steps = p.reserves.reserve2.toNat

theorem Withdrawals.accounted (h : p.Withdrawals amounts steps) : p.Accounted amounts steps := by
  induction h with
  | done p => exact ⟨rfl, rfl, rfl⟩
  | cons first others ih =>
    obtain ⟨hsupply, hside1, hside2⟩ := ih
    have hsupply0 := first.supply
    have hleft1 := first.left1
    have hleft2 := first.left2
    constructor
    · rw [leftBy, List.map_cons, List.sum_cons]
      omega
    · rw [leftBy, payout_cons]
      omega
    · rw [leftBy, payout_cons]
      omega

theorem backing_trans {reserve supply reserve1 supply1 reserve2 supply2 : Nat} (hpos : 0 < supply1)
    (h1 : reserve * supply1 ≤ reserve1 * supply) (h2 : reserve1 * supply2 ≤ reserve2 * supply1) :
    reserve * supply2 ≤ reserve2 * supply := by
  refine Nat.le_of_mul_le_mul_right ?_ hpos
  calc reserve * supply2 * supply1
      = reserve * supply1 * supply2 := Nat.mul_right_comm _ _ _
    _ ≤ reserve1 * supply * supply2 := Nat.mul_le_mul_right _ h1
    _ = reserve1 * supply2 * supply := Nat.mul_right_comm _ _ _
    _ ≤ reserve2 * supply1 * supply := Nat.mul_le_mul_right _ h2
    _ = reserve2 * supply * supply1 := Nat.mul_right_comm _ _ _

theorem Backs.withdrawn {shares : UInt64} {paid : Reserves} (hq : p.Backs q) (h : q.Withdrawn shares p' paid) :
    p.Backs p' := by
  have hpos := supply_pos_of_shares h.some h.enough
  exact ⟨backing_trans hpos hq.side1 h.backs.side1, backing_trans hpos hq.side2 h.backs.side2⟩

theorem Withdrawals.backs (h : q.Withdrawals amounts steps) (hq : p.Backs q) :
    p.Backs (q.leftBy steps) ∧ ∀ step ∈ steps, p.Backs step.1 := by
  induction h with
  | done q => exact ⟨hq, fun step hstep => absurd hstep List.not_mem_nil⟩
  | cons first others ih =>
    have hleft := hq.withdrawn first
    obtain ⟨hlast, hlater⟩ := ih hleft
    exact ⟨hlast, List.forall_mem_cons.2 ⟨hleft, hlater⟩⟩

/-- Without shares there is nothing in the pool. -/
def Cleared (p : Pool) : Prop :=
  p.supply = 0 → p.reserves = ⟨0, 0⟩

theorem Withdrawals.cleared (h : p.Withdrawals amounts steps) (hp : p.Cleared) : (p.leftBy steps).Cleared := by
  induction h with
  | done p => exact hp
  | cons first others ih => exact ih first.emptied

/-! ## What withdrawals pay -/

theorem gone_le_part {reserve left gone supply rest shares : Nat} (hpos : 0 < supply)
    (hbacks : reserve * rest ≤ left * supply) (hleft : left + gone = reserve) (hrest : rest + shares = supply) :
    gone ≤ reserve * shares / supply := by
  rw [Nat.le_div_iff_mul_le hpos]
  have hwhole : (left + gone) * supply = reserve * (rest + shares) := by rw [hleft, hrest]
  rw [Nat.add_mul, Nat.mul_add] at hwhole
  omega

/-- **Splitting a withdrawal never pays more, and leaves nothing behind.** A pool that has issued some
shares accepts any withdrawals of no more than those, and none can fail for want of room. After every
step each share has as much of both tokens behind it as at first, altogether no more is paid than for all
that is handed in at once, and who hands in all shares is paid all of the reserves. -/
theorem split_withdrawals_pay_no_more {whole : Nat} (hsupply : p.supply ≠ 0)
    (hsome : ∀ shares ∈ amounts, shares ≠ 0) (total : (amounts.map UInt64.toNat).sum = whole)
    (henough : whole ≤ p.supply.toNat) :
    (∀ (q : Pool) (shares : UInt64), q.takeLiquidity shares ≠ .error .shareOverflow) ∧
      ∃ steps, p.takeEach amounts = .ok steps ∧ p.Withdrawals amounts steps ∧
        (∀ step ∈ steps, p.Backs step.1) ∧
        payout Reserves.reserve1 steps ≤ p.reserves.reserve1.toNat * whole / p.supply.toNat ∧
        payout Reserves.reserve2 steps ≤ p.reserves.reserve2.toNat * whole / p.supply.toNat ∧
        (whole = p.supply.toNat →
          payout Reserves.reserve1 steps = p.reserves.reserve1.toNat ∧
          payout Reserves.reserve2 steps = p.reserves.reserve2.toNat) := by
  have hpos := Word64.toNat_pos hsupply
  obtain ⟨steps, hsteps⟩ := exists_withdrawals hsome (total ▸ henough)
  obtain ⟨hrest, hleft1, hleft2⟩ := hsteps.accounted
  obtain ⟨hlast, hbacks⟩ := hsteps.backs (p := p) ⟨Nat.le_refl _, Nat.le_refl _⟩
  rw [total] at hrest
  refine ⟨fun q shares hfull => ?_, steps, takeEach_eq_ok_iff.2 hsteps, hsteps, hbacks,
    gone_le_part hpos hlast.side1 hleft1 hrest, gone_le_part hpos hlast.side2 hleft2 hrest, fun hall => ?_⟩
  · obtain ⟨hkind, -⟩ := takeLiquidity_eq_error_iff.1 hfull
    cases hkind
  · -- The bound above is the whole reserve here, but that all of it is paid is up to the last withdrawal.
    have hnone : (p.leftBy steps).supply = 0 := by
      rw [← UInt64.toNat_inj, UInt64.toNat_zero]
      omega
    have hempty := hsteps.cleared (fun h => absurd h hsupply) hnone
    rw [hempty] at hleft1 hleft2
    exact ⟨(Nat.zero_add _).symm.trans hleft1, (Nat.zero_add _).symm.trans hleft2⟩

/-- Ten shares of 100 and 5. -/
def tenShares : Pool :=
  ⟨⟨9⟩, ⟨1⟩, ⟨2⟩, 10, ⟨100, 5⟩⟩

theorem split_withdrawals_pay_no_more_rounded :
    (∃ steps, tenShares.takeEach [3, 3] = .ok steps ∧ payout Reserves.reserve2 steps = 2 ∧
      payout Reserves.reserve2 steps ≤ 5 * 6 / 10) ∧
    ∃ steps, tenShares.takeEach [3, 3, 4] = .ok steps ∧ payout Reserves.reserve1 steps = 100 ∧
      payout Reserves.reserve2 steps = 5 := by
  obtain ⟨-, twice, htwice, -, -, -, hpaid, -⟩ :=
    @split_withdrawals_pay_no_more tenShares [3, 3] 6 (by decide) (by simp) rfl (by decide)
  obtain ⟨-, steps, hsteps, -, -, -, -, hall⟩ :=
    @split_withdrawals_pay_no_more tenShares [3, 3, 4] 10 (by decide) (by simp) rfl (by decide)
  obtain ⟨hpaid1, hpaid2⟩ := hall rfl
  -- twice 3 shares are paid 2 of the second token, where 6 at once would be paid 3
  have hrun : tenShares.takeEach [3, 3] = .ok [({ tenShares with supply := 7, reserves := ⟨70, 4⟩ }, ⟨30, 1⟩),
      ({ tenShares with supply := 4, reserves := ⟨40, 3⟩ }, ⟨30, 1⟩)] := by decide +kernel
  obtain rfl := Except.ok.inj (hrun.symm.trans htwice)
  exact ⟨⟨_, hrun, rfl, hpaid⟩, steps, hsteps, hpaid1, hpaid2⟩

/-! ## The shares of a deposit -/

/-- **Who hands in the shares of a deposit leaves the pool worth no less.** Whatever the supply is to the
worth, and in whatever proportion the two tokens are deposited, the shares that were issued are accepted,
the supply is again what it was, and so is the worth or more. -/
theorem returned_deposit_worth {deposited : Pool} {amount1 amount2 issued : UInt64} (hsupply : p.supply ≠ 0)
    (hdeposit : p.addLiquidity amount1 amount2 = .ok (deposited, issued)) (hissued : issued ≠ 0) :
    ∃ left paid, deposited.takeLiquidity issued = .ok (left, paid) ∧ left.supply = p.supply ∧
      p.reserves.worth ≤ left.reserves.worth := by
  have hadded := addLiquidity_eq_ok_iff.1 hdeposit
  have hgrown := hadded.issued
  have henough : issued ≤ deposited.supply := UInt64.le_iff_toNat_le.2 (by omega)
  obtain ⟨left, paid, htaken⟩ := exists_withdrawn hissued henough
  have hback := htaken.supply
  have hsame : left.supply = p.supply := UInt64.toNat_inj.1 (by omega)
  refine ⟨left, paid, takeLiquidity_eq_ok_iff.2 htaken, hsame, ?_⟩
  have hpos : 0 < deposited.supply.toNat ^ 2 := Nat.pow_pos (supply_pos_of_shares hissued henough)
  -- In squares: the roots themselves are rounded, and so a root of the product left cannot be compared.
  rw [UInt64.le_iff_toNat_le, Reserves.worth_toNat left.reserves, Nat.le_sqrt']
  refine Nat.le_of_mul_le_mul_right ?_ hpos
  calc p.reserves.worth.toNat ^ 2 * deposited.supply.toNat ^ 2
      = (p.reserves.worth.toNat * deposited.supply.toNat) ^ 2 := (Nat.mul_pow _ _ _).symm
    _ ≤ (deposited.reserves.worth.toNat * p.supply.toNat) ^ 2 :=
        Nat.pow_le_pow_left (hadded.worth_mul_supply_le hsupply) 2
    _ = deposited.reserves.worth.toNat ^ 2 * p.supply.toNat ^ 2 := Nat.mul_pow _ _ _
    _ ≤ deposited.reserves.product * left.supply.toNat ^ 2 := by
        rw [hsame, Reserves.worth_toNat]
        exact Nat.mul_le_mul_right _ (Nat.sqrt_le' _)
    _ ≤ left.reserves.product * deposited.supply.toNat ^ 2 := htaken.backs.product_le

theorem returned_deposit_worth_unbalanced :
    (⟨⟨9⟩, ⟨1⟩, ⟨2⟩, 7, ⟨10, 3⟩⟩ : Pool).addLiquidity 5 1 = .ok (⟨⟨9⟩, ⟨1⟩, ⟨2⟩, 9, ⟨15, 4⟩⟩, 2) ∧
      ∃ left, (⟨⟨9⟩, ⟨1⟩, ⟨2⟩, 9, ⟨15, 4⟩⟩ : Pool).takeLiquidity 2 = .ok (left, ⟨3, 0⟩) ∧ left.supply = 7 ∧
        (⟨10, 3⟩ : Reserves).worth ≤ left.reserves.worth := by
  have hbefore : (⟨10, 3⟩ : Reserves).worth = 5 := by
    rw [← UInt64.toNat_inj, Reserves.worth_toNat]
    exact (Nat.eq_sqrt.2 (by decide)).symm
  have hafter : (⟨15, 4⟩ : Reserves).worth = 7 := by
    rw [← UInt64.toNat_inj, Reserves.worth_toNat]
    exact (Nat.eq_sqrt.2 (by decide)).symm
  have hdeposit : (⟨⟨9⟩, ⟨1⟩, ⟨2⟩, 7, ⟨10, 3⟩⟩ : Pool).addLiquidity 5 1 = .ok (⟨⟨9⟩, ⟨1⟩, ⟨2⟩, 9, ⟨15, 4⟩⟩, 2) := by
    rw [addLiquidity_eq_ok_iff]
    refine ⟨by decide, by decide, rfl, rfl, ?_, rfl, rfl⟩
    rw [Reserves.rescaled, hbefore, hafter]
    rfl
  have hrun : (⟨⟨9⟩, ⟨1⟩, ⟨2⟩, 9, ⟨15, 4⟩⟩ : Pool).takeLiquidity 2 = .ok (⟨⟨9⟩, ⟨1⟩, ⟨2⟩, 7, ⟨12, 4⟩⟩, ⟨3, 0⟩) := by
    decide +kernel
  obtain ⟨left, paid, htaken, hsupply, hworth⟩ := returned_deposit_worth (by decide) hdeposit (by decide)
  obtain ⟨rfl, rfl⟩ := Prod.mk.inj (Except.ok.inj (hrun.symm.trans htaken))
  exact ⟨hdeposit, _, hrun, hsupply, hworth⟩

end Pool

end SwapStake
