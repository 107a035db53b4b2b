/-!
# Dates and times of TOML

A date, a time of day, or a date with a time and perhaps an offset. Months have their days, leap
years are those of the Gregorian calendar, a minute may have a sixtieth second, and fractions of a
second have any number of digits. Every reader returns what follows what it has read.
-/

namespace SwapStake.Toml

def twoDigits? : List Char → Option (Nat × List Char)
  | a :: b :: rest =>
    if a.isDigit ∧ b.isDigit then
      some ((a.toNat - '0'.toNat) * 10 + (b.toNat - '0'.toNat), rest)
    else none
  | _ => none

def twoDigitsIn? (lo hi : Nat) (s : List Char) : Option (Nat × List Char) := do
  let (n, rest) ← twoDigits? s
  if lo ≤ n ∧ n ≤ hi then some (n, rest) else none

/-- What follows a given character. -/
def after? (c : Char) : List Char → Option (List Char)
  | d :: rest => if c = d then some rest else none
  | [] => none

def daysIn (year month : Nat) : Nat :=
  if month = 2 then
    if year % 4 = 0 ∧ (year % 100 ≠ 0 ∨ year % 400 = 0) then 29 else 28
  else if month = 4 ∨ month = 6 ∨ month = 9 ∨ month = 11 then 30
  else 31

def date? (s : List Char) : Option (List Char) := do
  let (century, s) ← twoDigits? s
  let (year, s) ← twoDigits? s
  let (month, s) ← twoDigitsIn? 1 12 (← after? '-' s)
  let (_, s) ← twoDigitsIn? 1 (daysIn (century * 100 + year) month) (← after? '-' s)
  some s

/-- The fraction of a second, if there is one. -/
def dropFraction : List Char → List Char
  | '.' :: c :: rest => if c.isDigit then rest.dropWhile Char.isDigit else '.' :: c :: rest
  | s => s

def time? (s : List Char) : Option (List Char) := do
  let (_, s) ← twoDigitsIn? 0 23 s
  let (_, s) ← twoDigitsIn? 0 59 (← after? ':' s)
  let (_, s) ← twoDigitsIn? 0 60 (← after? ':' s)
  some (dropFraction s)

/-- An offset from universal time; nothing is also one. -/
def offset? : List Char → Option (List Char)
  | c :: rest =>
    if c = 'Z' ∨ c = 'z' then some rest
    else if c = '+' ∨ c = '-' then do
      let (_, s) ← twoDigitsIn? 0 23 rest
      let (_, s) ← twoDigitsIn? 0 59 (← after? ':' s)
      some s
    else some (c :: rest)
  | [] => some []

def isTime (s : List Char) : Bool :=
  time? s = some []

/-- Whether a whole token is a time of day, perhaps with an offset. -/
def isOffsetTime (s : List Char) : Bool :=
  ((time? s).bind offset?) = some []

def isDate (s : List Char) : Bool :=
  date? s = some []

/-- Whether a whole token is a date and a time with a `T` between them. -/
def isDateTime (s : List Char) : Bool :=
  match date? s with
  | some (c :: rest) => (c = 'T' || c = 't') && isOffsetTime rest
  | _ => false

end SwapStake.Toml
