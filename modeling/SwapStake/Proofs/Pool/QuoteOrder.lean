import Mathlib.Tactic.Ring
import SwapStake.Proofs.Pool.Quote
/-!
# Quotes compared

What a quote rounds to is told by the least or the greatest number on its side of a bound that has no
quotient in it (`lessInterest_le_iff`, `le_saleQuote_iff`, `le_depositQuote_iff`). Two quotes are then
compared through their bounds. So quotes are monotone: who asks for less, at no higher an interest, is
served where the other is, and pays no more (`quotes_monotone`). And `depositFor` undoes `saleProceeds`
up to one unit, though the one takes its interest from the reserve and the other from the quote
(`depositFor_inverts_sale`).
-/

namespace SwapStake

/-! ## Interest -/

section Interest

variable {n n' m : Nat} {interest interest' : UInt32}

theorem left_add_charged (n : Nat) (valid : interest.toNat ≤ 1000) :
    n * (1000 - interest.toNat) + n * interest.toNat = n * 1000 := by
  rw [← Nat.mul_add, Nat.sub_add_cancel valid]

theorem lessInterest_le_iff (valid : interest.toNat ≤ 1000) :
    lessInterest n interest ≤ m ↔ n * (1000 - interest.toNat) ≤ m * 1000 := by
  have hparts := left_add_charged n valid
  unfold lessInterest
  omega

theorem lessInterest_mul_lt (valid : interest.toNat ≤ 1000) :
    lessInterest n interest * 1000 < n * (1000 - interest.toNat) + 1000 := by
  have hparts := left_add_charged n valid
  unfold lessInterest
  omega

theorem lessInterest_zero (n : Nat) : lessInterest n 0 = n := by
  simp [lessInterest]

theorem withInterest_zero (n : Nat) : withInterest n 0 = n := by
  simp [withInterest]

theorem lessInterest_le_lessInterest (valid : interest'.toNat ≤ 1000) (hn : n ≤ n')
    (hinterest : interest.toNat ≤ interest'.toNat) : lessInterest n interest' ≤ lessInterest n' interest := by
  have hkept := (lessInterest_le_iff (Nat.le_trans hinterest valid)).1 (Nat.le_refl (lessInterest n' interest))
  rw [lessInterest_le_iff valid]
  calc n * (1000 - interest'.toNat)
      ≤ n' * (1000 - interest.toNat) := Nat.mul_le_mul hn (Nat.sub_le_sub_left hinterest 1000)
    _ ≤ lessInterest n' interest * 1000 := hkept

theorem withInterest_le_withInterest (hn : n ≤ n') (hinterest : interest.toNat ≤ interest'.toNat) :
    withInterest n interest ≤ withInterest n' interest' :=
  Nat.add_le_add hn (Nat.div_le_div_right (Nat.mul_le_mul hn hinterest))

end Interest

namespace Reserves

variable {r : Reserves} {amount amount' : UInt64} {interest interest' : UInt32} {n : Nat}

/-! ## Quotes before interest -/

theorem le_saleQuote_iff (pos : 0 < r.reserve1.toNat + amount.toNat) :
    n ≤ r.saleQuote amount ↔ n * (r.reserve1.toNat + amount.toNat) ≤ amount.toNat * r.reserve2.toNat :=
  Nat.le_div_iff_mul_le pos

theorem le_depositQuote_iff (left : amount.toNat < lessInterest r.reserve2.toNat interest) :
    n ≤ r.depositQuote amount interest ↔
      n * lessInterest r.reserve2.toNat interest ≤ amount.toNat * (r.reserve1.toNat + n) := by
  rw [depositQuote, Nat.le_div_iff_mul_le (Nat.sub_pos_of_lt left), Nat.mul_sub, Nat.mul_add,
    Nat.sub_le_iff_le_add, Nat.mul_comm amount.toNat n]

theorem purchaseQuote_le_purchaseQuote (hamount : amount.toNat ≤ amount'.toNat)
    (left : amount'.toNat < r.reserve1.toNat) : r.purchaseQuote amount ≤ r.purchaseQuote amount' :=
  Nat.div_le_div (Nat.mul_le_mul_right _ hamount) (Nat.sub_le_sub_left hamount _) (by omega)

theorem saleQuote_le_saleQuote (hamount : amount.toNat ≤ amount'.toNat)
    (pos : 0 < r.reserve1.toNat + amount.toNat) : r.saleQuote amount ≤ r.saleQuote amount' := by
  obtain ⟨more, hmore⟩ := Nat.exists_eq_add_of_le hamount
  have hquote := (le_saleQuote_iff pos).1 (Nat.le_refl (r.saleQuote amount))
  rw [le_saleQuote_iff (by omega), hmore]
  calc r.saleQuote amount * (r.reserve1.toNat + (amount.toNat + more))
      = r.saleQuote amount * (r.reserve1.toNat + amount.toNat) + more * r.saleQuote amount := by ring
    _ ≤ amount.toNat * r.reserve2.toNat + more * r.reserve2.toNat :=
        Nat.add_le_add hquote (Nat.mul_le_mul_left more (r.saleQuote_le amount))
    _ = (amount.toNat + more) * r.reserve2.toNat := by ring

theorem depositQuote_le_depositQuote (hamount : amount.toNat ≤ amount'.toNat)
    (hinterest : interest.toNat ≤ interest'.toNat) (valid : interest'.toNat ≤ 1000)
    (left : amount'.toNat < lessInterest r.reserve2.toNat interest') :
    r.depositQuote amount interest ≤ r.depositQuote amount' interest' := by
  have hkept := lessInterest_le_lessInterest valid (Nat.le_refl r.reserve2.toNat) hinterest
  exact Nat.div_le_div (Nat.mul_le_mul_right _ hamount) (by omega) (by omega)

/-! ## Monotone quotes -/

section Monotone

variable (hamount : amount ≤ amount') (hinterest : interest ≤ interest')

include hamount hinterest

theorem buyCost_mono {cost' : UInt64} (h : r.buyCost amount' interest' = .ok cost') :
    ∃ cost, r.buyCost amount interest = .ok cost ∧ cost ≤ cost' := by
  rw [UInt64.le_iff_toNat_le] at hamount
  rw [UInt32.le_iff_toNat_le] at hinterest
  obtain ⟨hleft, hvalid, hcost'⟩ := buyCost_eq_ok_iff.1 h
  have hmono := withInterest_le_withInterest (purchaseQuote_le_purchaseQuote hamount hleft) hinterest
  rw [withInterest, withInterest, ← hcost'] at hmono
  obtain ⟨cost, hcost, hle⟩ := Word64.exists_toNat_eq_of_le hmono
  exact ⟨cost, buyCost_eq_ok_iff.2 ⟨by omega, by omega, hcost⟩, hle⟩

theorem depositFor_mono {deposit' : UInt64} (h : r.depositFor amount' interest' = .ok deposit') :
    ∃ deposit, r.depositFor amount interest = .ok deposit ∧ deposit ≤ deposit' := by
  rw [UInt64.le_iff_toNat_le] at hamount
  rw [UInt32.le_iff_toNat_le] at hinterest
  obtain ⟨hvalid, hleft, hdeposit'⟩ := depositFor_eq_ok_iff.1 h
  have hkept := lessInterest_le_lessInterest hvalid (Nat.le_refl r.reserve2.toNat) hinterest
  have hmono := depositQuote_le_depositQuote hamount hinterest hvalid hleft
  rw [← hdeposit'] at hmono
  obtain ⟨deposit, hdeposit, hle⟩ := Word64.exists_toNat_eq_of_le hmono
  exact ⟨deposit, depositFor_eq_ok_iff.2 ⟨by omega, by omega, hdeposit⟩, hle⟩

theorem saleProceeds_mono {proceeds proceeds' : UInt64} (h : r.saleProceeds amount interest' = .ok proceeds)
    (h' : r.saleProceeds amount' interest = .ok proceeds') : proceeds ≤ proceeds' := by
  rw [UInt64.le_iff_toNat_le] at hamount
  rw [UInt32.le_iff_toNat_le] at hinterest
  obtain ⟨hpos, hvalid, hproceeds⟩ := saleProceeds_eq_ok_iff.1 h
  obtain ⟨-, -, hproceeds'⟩ := saleProceeds_eq_ok_iff.1 h'
  rw [UInt64.le_iff_toNat_le, hproceeds, hproceeds']
  exact lessInterest_le_lessInterest hvalid (saleQuote_le_saleQuote hamount hpos) hinterest

end Monotone

/-- **Quotes are monotone.** Where an amount can be bought, or deposited for, so can any smaller amount at
any lower interest, for no more. A sale pays no less for a larger amount, and no more at a higher
interest. -/
theorem quotes_monotone (hamount : amount ≤ amount') (hinterest : interest ≤ interest') :
    (∀ cost', r.buyCost amount' interest' = .ok cost' →
      ∃ cost, r.buyCost amount interest = .ok cost ∧ cost ≤ cost') ∧
    (∀ deposit', r.depositFor amount' interest' = .ok deposit' →
      ∃ deposit, r.depositFor amount interest = .ok deposit ∧ deposit ≤ deposit') ∧
    (∀ proceeds proceeds', r.saleProceeds amount interest = .ok proceeds →
      r.saleProceeds amount' interest = .ok proceeds' → proceeds ≤ proceeds') ∧
    ∀ proceeds proceeds', r.saleProceeds amount interest = .ok proceeds →
      r.saleProceeds amount interest' = .ok proceeds' → proceeds' ≤ proceeds :=
  ⟨fun _ => buyCost_mono hamount hinterest, fun _ => depositFor_mono hamount hinterest,
    fun _ _ => saleProceeds_mono hamount (UInt32.le_refl _),
    fun _ _ h h' => saleProceeds_mono (UInt64.le_refl _) hinterest h' h⟩

/-- Four of the second token for one of the first. -/
def trialReserves : Reserves := ⟨1000, 4000⟩

theorem quotes_monotone_trial :
    (trialReserves.buyCost 250 300 = .ok 1732 ∧ ∃ cost, trialReserves.buyCost 100 3 = .ok cost ∧ cost ≤ 1732) ∧
      (trialReserves.depositFor 250 300 = .ok 98 ∧
        ∃ deposit, trialReserves.depositFor 100 3 = .ok deposit ∧ deposit ≤ 98) ∧
      (trialReserves.saleProceeds 100 3 = .ok 362 ∧ trialReserves.saleProceeds 250 3 = .ok 798 ∧
        (362 : UInt64) ≤ 798) ∧
      trialReserves.saleProceeds 100 300 = .ok 255 ∧ (255 : UInt64) ≤ 362 := by
  have hbuy : trialReserves.buyCost 250 300 = .ok 1732 := by decide +kernel
  have hdeposit : trialReserves.depositFor 250 300 = .ok 98 := by decide +kernel
  have hsale : trialReserves.saleProceeds 100 3 = .ok 362 := by decide +kernel
  have hlarger : trialReserves.saleProceeds 250 3 = .ok 798 := by decide +kernel
  have hdearer : trialReserves.saleProceeds 100 300 = .ok 255 := by decide +kernel
  obtain ⟨hcosts, hdeposits, hamounts, hinterests⟩ :=
    @quotes_monotone trialReserves 100 250 3 300 (by decide) (by decide)
  exact ⟨⟨hbuy, hcosts _ hbuy⟩, ⟨hdeposit, hdeposits _ hdeposit⟩, ⟨hsale, hlarger, hamounts _ _ hsale hlarger⟩,
    hdearer, hinterests _ _ hsale hdearer⟩

/-! ## Deposits and sales -/

section Inverse

variable (left : amount.toNat < lessInterest r.reserve2.toNat interest) (valid : interest.toNat ≤ 1000)

include left valid

theorem lessInterest_saleQuote_le {deposit : UInt64} (pos : 0 < r.reserve1.toNat + deposit.toNat)
    (h : deposit.toNat ≤ r.depositQuote amount interest) :
    lessInterest (r.saleQuote deposit) interest ≤ amount.toNat := by
  have hquote := (le_saleQuote_iff pos).1 (Nat.le_refl (r.saleQuote deposit))
  have hkept := (lessInterest_le_iff valid).1 (Nat.le_refl (lessInterest r.reserve2.toNat interest))
  rw [le_depositQuote_iff left] at h
  rw [lessInterest_le_iff valid]
  apply Nat.le_of_mul_le_mul_right _ pos
  generalize lessInterest r.reserve2.toNat interest = kept at *
  generalize 1000 - interest.toNat = part at *
  -- the two interests and the two quotes are all rounded down, which together costs less than two units
  calc r.saleQuote deposit * part * (r.reserve1.toNat + deposit.toNat)
      = r.saleQuote deposit * (r.reserve1.toNat + deposit.toNat) * part := by ring
    _ ≤ deposit.toNat * r.reserve2.toNat * part := Nat.mul_le_mul_right _ hquote
    _ = deposit.toNat * (r.reserve2.toNat * part) := by ring
    _ ≤ deposit.toNat * (kept * 1000) := Nat.mul_le_mul_left _ hkept
    _ = deposit.toNat * kept * 1000 := by ring
    _ ≤ amount.toNat * (r.reserve1.toNat + deposit.toNat) * 1000 := Nat.mul_le_mul_right _ h
    _ = amount.toNat * 1000 * (r.reserve1.toNat + deposit.toNat) := by ring

theorem le_lessInterest_saleQuote_add_one {more : UInt64} (h : r.depositQuote amount interest < more.toNat) :
    amount.toNat ≤ lessInterest (r.saleQuote more) interest + 1 := by
  have hpos : 0 < r.reserve1.toNat + more.toNat := by omega
  have hquote := mt (le_saleQuote_iff hpos).2 (Nat.not_succ_le_self (r.saleQuote more))
  have hkept := lessInterest_mul_lt (n := r.reserve2.toNat) valid
  have hproceeds := (lessInterest_le_iff valid).1 (Nat.le_refl (lessInterest (r.saleQuote more) interest))
  have hdeposit := mt (le_depositQuote_iff left).2 (Nat.not_le.2 h)
  have hpart : 1000 - interest.toNat ≤ 1000 := Nat.sub_le _ _
  rw [Nat.not_le] at hquote hdeposit
  generalize lessInterest r.reserve2.toNat interest = kept at *
  generalize 1000 - interest.toNat = part at *
  have hbound : amount.toNat * 1000 < r.saleQuote more * part + part + 999 := by
    apply Nat.lt_of_mul_lt_mul_right (a := r.reserve1.toNat + more.toNat)
    calc amount.toNat * 1000 * (r.reserve1.toNat + more.toNat)
        = amount.toNat * (r.reserve1.toNat + more.toNat) * 1000 := by ring
      _ < more.toNat * kept * 1000 := Nat.mul_lt_mul_of_pos_right hdeposit (by decide)
      _ = more.toNat * (kept * 1000) := by ring
      _ ≤ more.toNat * (r.reserve2.toNat * part + 999) := Nat.mul_le_mul_left _ (by omega)
      _ = more.toNat * r.reserve2.toNat * part + more.toNat * 999 := by ring
      _ ≤ (r.saleQuote more + 1) * (r.reserve1.toNat + more.toNat) * part +
            (r.reserve1.toNat + more.toNat) * 999 :=
          Nat.add_le_add (Nat.mul_le_mul_right _ hquote.le) (Nat.mul_le_mul_right _ (Nat.le_add_left _ _))
      _ = (r.saleQuote more * part + part + 999) * (r.reserve1.toNat + more.toNat) := by ring
  omega

end Inverse

theorem le_saleQuote_of_depositQuote_lt {more : UInt64} (left : amount.toNat < r.reserve2.toNat)
    (h : r.depositQuote amount 0 < more.toNat) : amount.toNat ≤ r.saleQuote more := by
  have hdeposit := mt (le_depositQuote_iff (by rwa [lessInterest_zero])).2 (Nat.not_le.2 h)
  rw [lessInterest_zero, Nat.not_le] at hdeposit
  rw [le_saleQuote_iff (by omega)]
  exact hdeposit.le

theorem depositFor_free (r : Reserves) (amount : UInt64) : r.depositFor amount 0 = r.inverted.buyCost amount 0 := by
  have hquote : r.depositQuote amount 0 = r.inverted.purchaseQuote amount := by
    rw [depositQuote, lessInterest_zero]
    rfl
  have hvalid : ¬ 1000 < (0 : UInt32).toNat := by decide
  rw [← map_toNat_inj, depositFor_toNat, buyCost_toNat, lessInterest_zero, withInterest_zero, hquote,
    if_neg hvalid, if_neg hvalid]
  show (if r.inverted.reserve1.toNat ≤ amount.toNat then _ else _) = _
  split_ifs <;> rfl

theorem saleProceeds_of_pos (pos : 0 < r.reserve1.toNat + amount.toNat) (valid : interest.toNat ≤ 1000) :
    ∃ proceeds, r.saleProceeds amount interest = .ok proceeds ∧
      proceeds.toNat = lessInterest (r.saleQuote amount) interest := by
  have hle : lessInterest (r.saleQuote amount) interest ≤ r.reserve2.toNat :=
    Nat.le_trans (Nat.sub_le _ _) (r.saleQuote_le amount)
  obtain ⟨proceeds, hproceeds, -⟩ := Word64.exists_toNat_eq_of_le hle
  exact ⟨proceeds, saleProceeds_eq_ok_iff.2 ⟨pos, valid, hproceeds⟩, hproceeds⟩

/-- **A deposit is the inverse of a sale up to one unit**, interest included: sold, it pays no more than the
amount that it was quoted for, and with one unit more the sale falls short of that amount by a unit at
most, and by nothing without interest. Then a deposit is also the cost of a purchase from the other
side. -/
theorem depositFor_inverts_sale (r : Reserves) :
    (∀ amount interest deposit, 0 < r.reserve1.toNat → r.depositFor amount interest = .ok deposit →
      (∃ proceeds, r.saleProceeds deposit interest = .ok proceeds ∧ proceeds ≤ amount) ∧
      (deposit.toNat < 2 ^ 64 - 1 → ∃ proceeds, r.saleProceeds (deposit + 1) interest = .ok proceeds ∧
        amount.toNat ≤ proceeds.toNat + 1 ∧ (interest = 0 → amount ≤ proceeds))) ∧
    ∀ amount, r.depositFor amount 0 = r.inverted.buyCost amount 0 := by
  refine ⟨fun amount interest deposit hstocked h => ?_, r.depositFor_free⟩
  obtain ⟨hvalid, hleft, hdeposit⟩ := depositFor_eq_ok_iff.1 h
  constructor
  · obtain ⟨proceeds, hsale, hproceeds⟩ := saleProceeds_of_pos (Nat.add_pos_left hstocked deposit.toNat) hvalid
    refine ⟨proceeds, hsale, ?_⟩
    rw [UInt64.le_iff_toNat_le, hproceeds]
    exact lessInterest_saleQuote_le hleft hvalid (Nat.add_pos_left hstocked _) hdeposit.le
  · intro hroom
    have hmore : (deposit + 1).toNat = deposit.toNat + 1 := by
      rw [UInt64.toNat_add, UInt64.toNat_one, Nat.mod_eq_of_lt (by omega)]
    obtain ⟨proceeds, hsale, hproceeds⟩ := saleProceeds_of_pos (Nat.add_pos_left hstocked (deposit + 1).toNat) hvalid
    refine ⟨proceeds, hsale, ?_, ?_⟩
    · rw [hproceeds]
      exact le_lessInterest_saleQuote_add_one hleft hvalid (by omega)
    · rintro rfl
      rw [lessInterest_zero] at hleft hproceeds
      rw [UInt64.le_iff_toNat_le, hproceeds]
      exact le_saleQuote_of_depositQuote_lt hleft (by omega)

theorem depositFor_inverts_sale_tight :
    (⟨1, 13⟩ : Reserves).depositFor 8 300 = .ok 4 ∧
      (∃ proceeds, (⟨1, 13⟩ : Reserves).saleProceeds 4 300 = .ok proceeds ∧ proceeds ≤ 8) ∧
      ∃ proceeds, (⟨1, 13⟩ : Reserves).saleProceeds (4 + 1) 300 = .ok proceeds ∧ proceeds = 7 ∧
        (8 : UInt64).toNat ≤ proceeds.toNat + 1 := by
  have hdeposit : (⟨1, 13⟩ : Reserves).depositFor 8 300 = .ok 4 := by decide +kernel
  -- the deposit itself sells for 7 as well
  have hmore : (⟨1, 13⟩ : Reserves).saleProceeds (4 + 1) 300 = .ok 7 := by decide +kernel
  obtain ⟨hsale, hbeyond⟩ := (depositFor_inverts_sale ⟨1, 13⟩).1 8 300 4 (by decide) hdeposit
  obtain ⟨proceeds, hproceeds, hshort, -⟩ := hbeyond (by decide)
  exact ⟨hdeposit, hsale, proceeds, hproceeds, (Except.ok.inj (hmore.symm.trans hproceeds)).symm, hshort⟩

end Reserves

end SwapStake
