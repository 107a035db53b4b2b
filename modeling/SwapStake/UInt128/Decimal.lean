import SwapStake.UInt128.Division
/-!
# Decimal numerals of 128-bit words

Reading takes a nonempty run of ASCII digits whose value fits the word, with any number of leading
zeros, and nothing else. Writing cuts the word into chunks of nineteen digits, the most that fit a
limb, and pads all chunks but the first.
-/

namespace SwapStake.UInt128

def digit? (c : Char) : Option UInt64 :=
  if c.isDigit then some (UInt64.ofNat (c.toNat - '0'.toNat)) else none

def appendDigit (v : UInt128) (d : UInt64) : Except ArithmeticError UInt128 := do
  (← v.mulChecked (ofUInt64 10)).addChecked (ofUInt64 d)

/-- Read one more character. Every failure, also an overflow, is a malformed numeral. -/
def readDigit (v : UInt128) (c : Char) : Except ArithmeticError UInt128 :=
  match digit? c with
  | none => .error .malformedDecimal
  | some d => (appendDigit v d).mapError fun _ => .malformedDecimal

def ofDigits (v : UInt128) : List Char → Except ArithmeticError UInt128
  | [] => .ok v
  | c :: rest => do ofDigits (← readDigit v c) rest

def ofDecimal (s : String) : Except ArithmeticError UInt128 :=
  match s.toList with
  | [] => .error .malformedDecimal
  | cs => ofDigits zero cs

/-! ## Writing -/

/-- The digits of one chunk. -/
def chunkDigits : Nat := 19

/-- The number of chunks' values, `10 ^ 19`. -/
def chunkBase : UInt64 := 10000000000000000000

theorem divWord_chunkBase_lt (v : UInt128) (h : (divWord v chunkBase).1.isZero = false) :
    (divWord v chunkBase).1.toNat < v.toNat := by
  have hq := (divWord_toNat v (d := chunkBase) (by decide)).1
  have hb : chunkBase.toNat = 10000000000000000000 := rfl
  have hne : (divWord v chunkBase).1.toNat ≠ 0 := by
    intro h0
    have : (divWord v chunkBase).1 = zero := toNat_inj.1 (by rw [h0]; rfl)
    rw [this] at h
    exact absurd h (by decide)
  rw [hb] at hq
  rw [hq] at hne ⊢
  exact Nat.div_lt_self (by omega) (by decide)

/-- The chunks of a word, the lowest first. -/
def chunks (v : UInt128) : List UInt64 :=
  match _hd : divWord v chunkBase with
  | (q, r) => if _hq : q.isZero then [r] else r :: chunks q
termination_by v.toNat
decreasing_by
  have h := divWord_chunkBase_lt v (by rw [_hd]; simpa using _hq)
  rwa [_hd] at h

/-- A chunk with leading zeros up to its full length. -/
def paddedChunk (c : UInt64) : List Char :=
  let digits := Nat.toDigits 10 c.toNat
  List.replicate (chunkDigits - digits.length) '0' ++ digits

/-- The numeral of a list of chunks, the highest first. -/
def chunksText : List UInt64 → List Char
  | [] => []
  | first :: rest => Nat.toDigits 10 first.toNat ++ rest.flatMap paddedChunk

def toDecimal (v : UInt128) : String :=
  String.ofList (chunksText v.chunks.reverse)

end SwapStake.UInt128
