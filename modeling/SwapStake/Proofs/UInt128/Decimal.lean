import SwapStake.Proofs.Answers
import SwapStake.Proofs.UInt128.MulDiv
import SwapStake.UInt128.Decimal
/-!
# Numerals and words

Reading goes digit by digit and writing chunk by chunk. Both are told by the value of a list of digits,
`Nat.ofDigitChars`, and by its inverse `Nat.toDigits`: a list of digits is read if its value fits the
word, since the value of what has been read never exceeds that of the whole (`ofDigits_eq_ok_iff`), and
the chunks of a word put together are its digits (`toDecimal_eq`). Of all numerals of a number the one
that is written has no leading zeros (`withoutLeadingZeros_eq`).
-/

namespace SwapStake

/-! ## Lists of digits -/

/-- Zeros in front of other digits left out. The last digit stays. -/
def withoutLeadingZeros : List Char → List Char
  | '0' :: c :: rest => withoutLeadingZeros (c :: rest)
  | digits => digits

theorem digitChar_of_isDigit {c : Char} (h : c.isDigit) :
    c.toNat - '0'.toNat < 10 ∧ Nat.digitChar (c.toNat - '0'.toNat) = c := by
  have hzero : '0'.toNat = 48 := rfl
  have hrange : 48 ≤ c.toNat ∧ c.toNat ≤ 57 := by
    rw [Char.isDigit, Bool.and_eq_true, decide_eq_true_eq, decide_eq_true_eq] at h
    exact h
  have hlt : c.toNat - '0'.toNat < 10 := by omega
  refine ⟨hlt, Char.toNat_inj.1 ?_⟩
  rw [Nat.toNat_digitChar_of_lt_ten hlt]
  omega

theorem toDigits_append {digits : List Char} {n : Nat} (hn : 0 < n) (h : ∀ c ∈ digits, c.isDigit) :
    Nat.toDigits 10 n ++ digits = Nat.toDigits 10 (Nat.ofDigitChars 10 digits n) := by
  induction digits generalizing n with
  | nil => simp
  | cons c digits ih =>
    obtain ⟨hc, hdigits⟩ := List.forall_mem_cons.1 h
    obtain ⟨hlt, hchar⟩ := digitChar_of_isDigit hc
    have hstep : Nat.toDigits 10 n ++ [c] = Nat.toDigits 10 (10 * n + (c.toNat - '0'.toNat)) := by
      rw [← Nat.toDigits_append_toDigits (by decide) hn hlt, Nat.toDigits_of_lt_base hlt, hchar]
    rw [Nat.ofDigitChars_cons, ← ih (by omega) hdigits, ← hstep, List.append_assoc, List.singleton_append]

/-- **Without its leading zeros a list of digits is what is written for its value.** -/
theorem withoutLeadingZeros_eq {digits : List Char} (hne : digits ≠ []) (h : ∀ c ∈ digits, c.isDigit) :
    withoutLeadingZeros digits = Nat.toDigits 10 (Nat.ofDigitChars 10 digits 0) := by
  fun_induction withoutLeadingZeros digits with
  | case1 c rest ih =>
    exact ih (List.cons_ne_nil _ _) (List.forall_mem_cons.1 h).2
  | case2 digits hplain =>
    cases digits with
    | nil => exact absurd rfl hne
    | cons c rest =>
      obtain ⟨hc, hrest⟩ := List.forall_mem_cons.1 h
      obtain ⟨hlt, hchar⟩ := digitChar_of_isDigit hc
      have hfirst : [c] = Nat.toDigits 10 (c.toNat - '0'.toNat) := by
        rw [Nat.toDigits_of_lt_base hlt, hchar]
      rw [Nat.ofDigitChars_cons, Nat.mul_zero, Nat.zero_add]
      rcases Nat.eq_zero_or_pos (c.toNat - '0'.toNat) with hzero | hpos
      · -- a zero that stays is the only digit
        rw [hzero] at hchar
        cases rest with
        | nil => rw [Nat.ofDigitChars_nil, hfirst]
        | cons d rest => exact absurd (by rw [← hchar]; rfl) (hplain d rest)
      · rw [← toDigits_append hpos hrest, ← hfirst, List.singleton_append]

theorem le_ofDigitChars (digits : List Char) (n : Nat) : n ≤ Nat.ofDigitChars 10 digits n := by
  rw [Nat.ofDigitChars_eq_ofDigitChars_zero]
  exact Nat.le_add_right_of_le (Nat.le_mul_of_pos_left _ (Nat.pow_pos (by decide)))

theorem isDigit_of_mem_toDigits {n : Nat} : ∀ c ∈ Nat.toDigits 10 n, c.isDigit :=
  fun _ => Nat.isDigit_of_mem_toDigits (by decide) (by decide)

theorem eq_zero_of_head_toDigits {n : Nat} (h : (Nat.toDigits 10 n).head? = some '0') : n = 0 := by
  induction n using Nat.strong_induction_on with
  | _ n ih =>
    rcases Nat.lt_or_ge n 10 with hlt | hge
    · rw [Nat.toDigits_of_lt_base hlt, List.head?_cons, Option.some_inj, Nat.digitChar_eq_zero] at h
      exact h
    · rw [Nat.toDigits_of_base_le (by decide) hge, List.head?_append,
        Option.or_of_isSome (List.isSome_head?.2 Nat.toDigits_ne_nil)] at h
      have hzero := ih (n / 10) (Nat.div_lt_self (by omega) (by decide)) h
      omega

namespace UInt128

/-! ## Reading -/

theorem appendDigit_eq_ok_iff {v w : UInt128} {d : UInt64} :
    appendDigit v d = .ok w ↔ 10 * v.toNat + d.toNat = w.toNat := by
  have hten : (ofUInt64 10).toNat = 10 := rfl
  rw [appendDigit, bind_eq_ok_iff]
  constructor
  · rintro ⟨product, hproduct, h⟩
    rw [mulChecked_eq_ok_iff, hten] at hproduct
    rw [addChecked_eq_ok_iff, toNat_ofUInt64] at h
    omega
  · intro h
    have hw := w.toNat_lt
    have hproduct : (ofNat (v.toNat * 10)).toNat = v.toNat * 10 := by
      rw [toNat_ofNat, Nat.mod_eq_of_lt (by omega)]
    refine ⟨ofNat (v.toNat * 10), ?_, ?_⟩
    · rw [mulChecked_eq_ok_iff, hten, hproduct]
    · rw [addChecked_eq_ok_iff, toNat_ofUInt64, hproduct]
      omega

theorem readDigit_eq_ok_iff {v w : UInt128} {c : Char} :
    readDigit v c = .ok w ↔ c.isDigit ∧ 10 * v.toNat + (c.toNat - '0'.toNat) = w.toNat := by
  rw [readDigit, digit?]
  by_cases hc : c.isDigit
  · have hdigit : (UInt64.ofNat (c.toNat - '0'.toNat)).toNat = c.toNat - '0'.toNat :=
      UInt64.toNat_ofNat_of_lt' (Nat.lt_trans (digitChar_of_isDigit hc).1 (by decide))
    rw [if_pos hc]
    show (appendDigit v _).mapError _ = .ok w ↔ _
    rw [mapError_eq_ok_iff, appendDigit_eq_ok_iff, hdigit, and_iff_right hc]
  · rw [if_neg hc]
    exact iff_of_false nofun fun h => hc h.1

/-- **Digits are read if the number they stand for fits the word.** -/
theorem ofDigits_eq_ok_iff {digits : List Char} {v w : UInt128} :
    ofDigits v digits = .ok w ↔ (∀ c ∈ digits, c.isDigit) ∧ Nat.ofDigitChars 10 digits v.toNat = w.toNat := by
  induction digits generalizing v with
  | nil => simp [ofDigits, toNat_inj]
  | cons c digits ih =>
    rw [ofDigits, bind_eq_ok_iff, List.forall_mem_cons, Nat.ofDigitChars_cons]
    constructor
    · rintro ⟨u, hu, h⟩
      obtain ⟨hc, hvalue⟩ := readDigit_eq_ok_iff.1 hu
      obtain ⟨hdigits, hw⟩ := ih.1 h
      exact ⟨⟨hc, hdigits⟩, by rw [hvalue, hw]⟩
    · rintro ⟨⟨hc, hdigits⟩, hw⟩
      -- what has been read is no more than the whole, so it fits
      have hle := le_ofDigitChars digits (10 * v.toNat + (c.toNat - '0'.toNat))
      have hlt := w.toNat_lt
      have hu : (ofNat (10 * v.toNat + (c.toNat - '0'.toNat))).toNat = 10 * v.toNat + (c.toNat - '0'.toNat) := by
        rw [toNat_ofNat, Nat.mod_eq_of_lt (by omega)]
      exact ⟨_, readDigit_eq_ok_iff.2 ⟨hc, hu.symm⟩, ih.2 ⟨hdigits, by rw [hu, hw]⟩⟩

theorem readDigit_error {v : UInt128} {c : Char} {e : ArithmeticError} (h : readDigit v c = .error e) :
    e = .malformedDecimal := by
  rw [readDigit] at h
  split at h
  · exact (Except.error.inj h).symm
  · rename_i d _
    cases happend : appendDigit v d with
    | ok w =>
      rw [happend] at h
      cases h
    | error _ =>
      rw [happend] at h
      exact (Except.error.inj h).symm

theorem ofDigits_error {digits : List Char} {v : UInt128} {e : ArithmeticError}
    (h : ofDigits v digits = .error e) : e = .malformedDecimal := by
  induction digits generalizing v with
  | nil => cases h
  | cons c digits ih =>
    rw [ofDigits] at h
    cases hread : readDigit v c with
    | ok w =>
      rw [hread] at h
      exact ih h
    | error _ =>
      rw [hread] at h
      obtain rfl := Except.error.inj h
      exact readDigit_error hread

/-- A nonempty run of digits. -/
structure Numeral (s : String) : Prop where
  nonempty : s.toList ≠ []
  digits : ∀ c ∈ s.toList, c.isDigit

/-- The number that a numeral stands for. -/
def numeralValue (s : String) : Nat :=
  Nat.ofDigitChars 10 s.toList 0

theorem ofDecimal_eq_ok_iff {s : String} {v : UInt128} :
    ofDecimal s = .ok v ↔ Numeral s ∧ numeralValue s = v.toNat := by
  rw [ofDecimal]
  split
  · rename_i hempty
    exact iff_of_false (by simp) fun h => h.1.nonempty hempty
  · rename_i hne
    rw [ofDigits_eq_ok_iff]
    exact and_congr_left' ⟨fun h => ⟨hne, h⟩, Numeral.digits⟩

theorem ofDecimal_error {s : String} {e : ArithmeticError} (h : ofDecimal s = .error e) :
    e = .malformedDecimal := by
  rw [ofDecimal] at h
  split at h
  · exact (Except.error.inj h).symm
  · exact ofDigits_error h

/-! ## Writing -/

theorem isDigit_of_mem_paddedChunk {c : UInt64} : ∀ d ∈ paddedChunk c, d.isDigit := by
  intro d hd
  rcases List.mem_append.1 hd with h | h
  · rw [List.eq_of_mem_replicate h]
    rfl
  · exact isDigit_of_mem_toDigits d h

theorem ofDigitChars_paddedChunk {c : UInt64} (h : c.toNat < chunkBase.toNat) (n : Nat) :
    Nat.ofDigitChars 10 (paddedChunk c) n = chunkBase.toNat * n + c.toNat := by
  have hlength : (Nat.toDigits 10 c.toNat).length ≤ chunkDigits :=
    (Nat.length_toDigits_le_iff (by decide) (by decide)).2 h
  have hbase : 10 ^ (Nat.toDigits 10 c.toNat).length * 10 ^ (chunkDigits - (Nat.toDigits 10 c.toNat).length) =
      chunkBase.toNat := by
    rw [← Nat.pow_add, Nat.add_sub_cancel' hlength]
    rfl
  rw [paddedChunk, Nat.ofDigitChars_append, Nat.ofDigitChars_replicate_zero,
    Nat.ofDigitChars_eq_ofDigitChars_zero, Nat.ofDigitChars_ten_toDigits, ← Nat.mul_assoc, hbase]

theorem chunks_ne_nil (v : UInt128) : v.chunks ≠ [] := by
  rw [chunks]
  split
  split <;> simp

theorem chunksText_concat {upper : List UInt64} (h : upper ≠ []) (c : UInt64) :
    chunksText (upper ++ [c]) = chunksText upper ++ paddedChunk c := by
  cases upper with
  | nil => exact absurd rfl h
  | cons first rest => simp [chunksText]

theorem chunksText_chunks (v : UInt128) : chunksText v.chunks.reverse = Nat.toDigits 10 v.toNat := by
  fun_induction chunks v with
  | case1 v q r hdiv hq =>
    obtain ⟨hquot, hrem⟩ := divWord_toNat v (d := chunkBase) (by decide)
    rw [hdiv] at hquot hrem
    rw [isZero_iff, hquot, Nat.div_eq_zero_iff_lt (by decide)] at hq
    rw [Nat.mod_eq_of_lt hq] at hrem
    simp [chunksText, hrem]
  | case2 v q r hdiv hq ih =>
    obtain ⟨hquot, hrem⟩ := divWord_toNat v (d := chunkBase) (by decide)
    rw [hdiv] at hquot hrem
    rw [isZero_iff] at hq
    have hr : r.toNat < chunkBase.toNat := by
      rw [hrem]
      exact Nat.mod_lt _ (by decide)
    calc chunksText (r :: q.chunks).reverse
        = chunksText q.chunks.reverse ++ paddedChunk r := by
          rw [List.reverse_cons, chunksText_concat (by simpa using chunks_ne_nil q)]
      _ = Nat.toDigits 10 (chunkBase.toNat * q.toNat + r.toNat) := by
          rw [ih, toDigits_append (Nat.pos_of_ne_zero hq) isDigit_of_mem_paddedChunk, ofDigitChars_paddedChunk hr]
      _ = Nat.toDigits 10 v.toNat := by
          rw [hquot, hrem, Nat.div_add_mod]

/-- **What is written for a word are the digits of its number.** -/
theorem toDecimal_eq (v : UInt128) : toDecimal v = String.ofList (Nat.toDigits 10 v.toNat) := by
  rw [toDecimal, chunksText_chunks]

theorem toDecimal_numeral (v : UInt128) : Numeral (toDecimal v) := by
  rw [toDecimal_eq]
  constructor
  · simp
  · simpa using isDigit_of_mem_toDigits

theorem toDecimal_value (v : UInt128) : numeralValue (toDecimal v) = v.toNat := by
  rw [toDecimal_eq, numeralValue, String.toList_ofList, Nat.ofDigitChars_ten_toDigits]

/-- **Words and their decimal numerals.** A text is read exactly if it is a numeral, with any number of
leading zeros, of a number below `2 ^ 128`, and then as that number; every other text is malformed. What
is written for a word is the numeral of its number without a leading zero, but for zero itself. It is read
back as that word, and what is read is written without its leading zeros. -/
theorem decimal_numerals :
    (∀ s, (∃ v, ofDecimal s = .ok v) ↔ Numeral s ∧ numeralValue s < 2 ^ 128) ∧
    (∀ s v, ofDecimal s = .ok v → numeralValue s = v.toNat) ∧
    (∀ s, ¬ (Numeral s ∧ numeralValue s < 2 ^ 128) → ofDecimal s = .error .malformedDecimal) ∧
    (∀ v, Numeral (toDecimal v) ∧ numeralValue (toDecimal v) = v.toNat ∧
      ((toDecimal v).toList.head? = some '0' → toDecimal v = "0")) ∧
    (∀ v, ofDecimal (toDecimal v) = .ok v) ∧
    ∀ s v, ofDecimal s = .ok v → toDecimal v = String.ofList (withoutLeadingZeros s.toList) := by
  have hread (s) : (∃ v, ofDecimal s = .ok v) ↔ Numeral s ∧ numeralValue s < 2 ^ 128 := by
    constructor
    · rintro ⟨v, h⟩
      obtain ⟨hs, hvalue⟩ := ofDecimal_eq_ok_iff.1 h
      exact ⟨hs, hvalue ▸ v.toNat_lt⟩
    · rintro ⟨hs, hlt⟩
      exact ⟨ofNat (numeralValue s), ofDecimal_eq_ok_iff.2 ⟨hs, by rw [toNat_ofNat, Nat.mod_eq_of_lt hlt]⟩⟩
  refine ⟨hread, fun s v h => (ofDecimal_eq_ok_iff.1 h).2, fun s h => ?_, fun v => ?_, fun v => ?_, fun s v h => ?_⟩
  · cases hs : ofDecimal s with
    | ok v => exact absurd ((hread s).1 ⟨v, hs⟩) h
    | error e => rw [ofDecimal_error hs]
  · refine ⟨toDecimal_numeral v, toDecimal_value v, fun hzero => ?_⟩
    rw [toDecimal_eq, String.toList_ofList] at hzero
    rw [toDecimal_eq, eq_zero_of_head_toDigits hzero]
    rfl
  · exact ofDecimal_eq_ok_iff.2 ⟨toDecimal_numeral v, toDecimal_value v⟩
  · obtain ⟨hs, hvalue⟩ := ofDecimal_eq_ok_iff.1 h
    rw [toDecimal_eq, withoutLeadingZeros_eq hs.nonempty hs.digits, ← hvalue, numeralValue]

example : ofDecimal "00340282366920938463463374607431768211455" = .ok max ∧
    ofDecimal "340282366920938463463374607431768211456" = .error .malformedDecimal := by
  decide +kernel

end UInt128

end SwapStake
