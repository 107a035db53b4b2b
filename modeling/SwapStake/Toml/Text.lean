/-!
# Strings of TOML

The four kinds of strings: between quotes with escapes, between apostrophes without, and both
between three of them over several lines. Controls other than the tab never stand in a string; a
line break stands only in the long kinds, begins no content directly behind the opening marks, and
is always a line feed in the value. Each reader begins behind the opening marks and returns the
content and what follows the closing ones.
-/

namespace SwapStake.Toml

def isBlank (c : Char) : Bool := c = ' ' || c = '\t'

/-- A character that may stand in comments and strings: no control but the tab. -/
def isPrintable (c : Char) : Bool :=
  c = '\t' || (0x20 ≤ c.toNat && c.toNat ≠ 0x7f)

def newline? : List Char → Option (List Char)
  | '\n' :: rest => some rest
  | '\r' :: '\n' :: rest => some rest
  | _ => none

/-- What follows a line break, or everything if there is none. -/
def dropNewline (s : List Char) : List Char :=
  (newline? s).getD s

/-! ## Escapes -/

/-- The character of an escape of one letter. -/
def shortEscape? : Char → Option Char
  | 'b' => some '\x08'
  | 't' => some '\t'
  | 'n' => some '\n'
  | 'f' => some '\x0c'
  | 'r' => some '\r'
  | '"' => some '"'
  | '\\' => some '\\'
  | _ => none

def hexValue? (c : Char) : Option Nat :=
  if c.isDigit then some (c.toNat - '0'.toNat)
  else if 'a' ≤ c ∧ c ≤ 'f' then some (c.toNat - 'a'.toNat + 10)
  else if 'A' ≤ c ∧ c ≤ 'F' then some (c.toNat - 'A'.toNat + 10)
  else none

/-- The character with this code point in hexadecimal. Surrogates are no characters. -/
def codePoint? (digits : List Char) : Option Char := do
  let n ← digits.foldlM (fun n c => (hexValue? c).map (n * 16 + ·)) 0
  if n.isValidChar then some (Char.ofNat n) else none

/-! ## Short strings -/

/-- The content of a string between quotes. -/
def basicString : List Char → Option (List Char × List Char)
  | '"' :: rest => some ([], rest)
  | '\\' :: 'u' :: a :: b :: c :: d :: rest => do
    let x ← codePoint? [a, b, c, d]
    let (content, rest) ← basicString rest
    some (x :: content, rest)
  | '\\' :: 'U' :: a :: b :: c :: d :: e :: f :: g :: h :: rest => do
    let x ← codePoint? [a, b, c, d, e, f, g, h]
    let (content, rest) ← basicString rest
    some (x :: content, rest)
  | '\\' :: c :: rest => do
    let x ← shortEscape? c
    let (content, rest) ← basicString rest
    some (x :: content, rest)
  | c :: rest =>
    if isPrintable c then do
      let (content, rest) ← basicString rest
      some (c :: content, rest)
    else none
  | [] => none

/-- The content of a string between apostrophes. -/
def literalString : List Char → Option (List Char × List Char)
  | '\'' :: rest => some ([], rest)
  | c :: rest =>
    if isPrintable c then do
      let (content, rest) ← literalString rest
      some (c :: content, rest)
    else none
  | [] => none

/-! ## Long strings -/

/-- Where the reader of a long string with escapes stands. -/
inductive Folding where
  /-- In the content. -/
  | off
  /-- Behind a backslash at the end of a line, before the line break. -/
  | opening
  /-- Behind that line break, where blanks and further line breaks are left out. -/
  | skipping
deriving DecidableEq

/-- The content of a string between three quotes. One or two quotes may stand anywhere, also before
the closing ones. -/
def longBasic : Folding → List Char → Option (List Char × List Char)
  | .opening, c :: rest =>
    if isBlank c then longBasic .opening rest
    else if c = '\n' then longBasic .skipping rest
    else if c = '\r' ∧ rest.head? = some '\n' then longBasic .opening rest
    else none
  | _, '"' :: '"' :: '"' :: '"' :: '"' :: rest => some (['"', '"'], rest)
  | _, '"' :: '"' :: '"' :: '"' :: rest => some (['"'], rest)
  | _, '"' :: '"' :: '"' :: rest => some ([], rest)
  | _, '\\' :: 'u' :: a :: b :: c :: d :: rest => do
    let x ← codePoint? [a, b, c, d]
    let (content, rest) ← longBasic .off rest
    some (x :: content, rest)
  | _, '\\' :: 'U' :: a :: b :: c :: d :: e :: f :: g :: h :: rest => do
    let x ← codePoint? [a, b, c, d, e, f, g, h]
    let (content, rest) ← longBasic .off rest
    some (x :: content, rest)
  | _, '\\' :: c :: rest =>
    if isBlank c then longBasic .opening rest
    else if c = '\n' then longBasic .skipping rest
    else if c = '\r' ∧ rest.head? = some '\n' then longBasic .opening rest
    else do
      let x ← shortEscape? c
      let (content, rest) ← longBasic .off rest
      some (x :: content, rest)
  | mode, '\r' :: '\n' :: rest =>
    if mode = .skipping then longBasic .skipping rest
    else do
      let (content, rest) ← longBasic .off rest
      some ('\n' :: content, rest)
  | mode, c :: rest =>
    if mode = .skipping ∧ (isBlank c ∨ c = '\n') then longBasic .skipping rest
    else if isPrintable c ∨ c = '\n' then do
      let (content, rest) ← longBasic .off rest
      some (c :: content, rest)
    else none
  | _, [] => none

/-- The content of a string between three apostrophes. -/
def longLiteral : List Char → Option (List Char × List Char)
  | '\'' :: '\'' :: '\'' :: '\'' :: '\'' :: rest => some (['\'', '\''], rest)
  | '\'' :: '\'' :: '\'' :: '\'' :: rest => some (['\''], rest)
  | '\'' :: '\'' :: '\'' :: rest => some ([], rest)
  | '\r' :: '\n' :: rest => do
    let (content, rest) ← longLiteral rest
    some ('\n' :: content, rest)
  | c :: rest =>
    if isPrintable c ∨ c = '\n' then do
      let (content, rest) ← longLiteral rest
      some (c :: content, rest)
    else none
  | [] => none

/-- A string of any kind with its opening marks. -/
def string? : List Char → Option (List Char × List Char)
  | '"' :: '"' :: '"' :: rest => longBasic .off (dropNewline rest)
  | '\'' :: '\'' :: '\'' :: rest => longLiteral (dropNewline rest)
  | '"' :: rest => basicString rest
  | '\'' :: rest => literalString rest
  | _ => none

end SwapStake.Toml
