import SwapStake.Toml.DateTime
import SwapStake.Toml.Number
import SwapStake.Toml.Table
import SwapStake.Toml.Text
/-!
# TOML documents

From the text of a document to its root table. A document is read into statements, a key with its
value or a header on each line, and the statements are then built into a tree. Arrays and tables
between braces may be nested less than `nestingLimit` deep, and a dotted key has fewer parts than
that. Readers take a list of characters and return what they have read with what follows it.
-/

namespace SwapStake.Toml

/-- How deep values may be nested, and how many parts a dotted key may have; both stay below. -/
def nestingLimit : Nat := 80

def dropBlanks (s : List Char) : List Char :=
  s.dropWhile isBlank

/-- What follows a comment; without a comment, everything. A comment with a control in it is none.
-/
def comment? : List Char → Option (List Char)
  | '#' :: rest =>
    match rest.dropWhile isPrintable with
    | [] => some []
    | s => if (newline? s).isSome then some s else none
  | s => some s

/-- What follows the end of a line: blanks, a comment, and a line break or the end of the document.
-/
def endOfLine? (s : List Char) : Option (List Char) := do
  match ← comment? (dropBlanks s) with
  | [] => some []
  | s => newline? s

/-- What follows blanks, line breaks and comments. -/
def dropLines (s : List Char) : Option (List Char) :=
  match dropBlanks s with
  | [] => some []
  | c :: rest =>
    if c = '#' ∨ (newline? (c :: rest)).isSome then
      match endOfLine? (c :: rest) with
      | some s' => if s'.length < s.length then dropLines s' else some s'
      | none => none
    else some (c :: rest)
termination_by s.length

/-! ## Keys -/

def isBare (c : Char) : Bool :=
  c.isAlphanum || c = '-' || c = '_'

def keyPart? : List Char → Option (String × List Char)
  | '"' :: rest => (basicString rest).map fun (k, rest) => (String.ofList k, rest)
  | '\'' :: rest => (literalString rest).map fun (k, rest) => (String.ofList k, rest)
  | s =>
    match s.takeWhile isBare with
    | [] => none
    | k => some (String.ofList k, s.dropWhile isBare)

/-- The parts of a dotted key with at most `limit` parts, with blanks around them. -/
def keyParts? : (limit : Nat) → List Char → Option (List String × List Char)
  | 0, _ => none
  | limit + 1, s => do
    let (k, s) ← keyPart? (dropBlanks s)
    match dropBlanks s with
    | '.' :: rest =>
      let (ks, rest) ← keyParts? limit rest
      some (k :: ks, rest)
    | rest => some ([k], rest)

/-- A dotted key, and blanks around it. -/
def key? (s : List Char) : Option (List String × List Char) :=
  keyParts? (nestingLimit - 1) s

/-! ## Values -/

/-- A character that a number, a date, a time or a boolean may consist of. -/
def isTokenChar (c : Char) : Bool :=
  c.isAlphanum || c = '_' || c = '+' || c = '-' || c = '.' || c = ':'

/-- The value of a token that is neither a date nor a string. -/
def tokenValue? (s : List Char) : Option Value :=
  if s = "true".toList then some (.boolean true)
  else if s = "false".toList then some (.boolean false)
  else if isDateTime s ∨ isDate s ∨ isTime s then some (.dateTime (String.ofList s))
  else match integer? s with
    | some n => some (.integer n)
    | none => (float? s).map .float

/-- A date, a space and a time. -/
def spacedDateTime? (s : List Char) : Option (Value × List Char) :=
  let date := s.takeWhile isTokenChar
  match s.dropWhile isTokenChar with
  | ' ' :: rest =>
    let time := rest.takeWhile isTokenChar
    if isDate date ∧ isOffsetTime time then
      some (.dateTime (String.ofList (date ++ ' ' :: time)), rest.dropWhile isTokenChar)
    else none
  | _ => none

/-- A value that is written as one token. -/
def token? (s : List Char) : Option (Value × List Char) :=
  match spacedDateTime? s with
  | some r => some r
  | none => (tokenValue? (s.takeWhile isTokenChar)).map fun v => (v, s.dropWhile isTokenChar)

/-- The items of an array behind its opening bracket, each read by `item`. Line breaks and comments
may stand around items, and a comma behind the last one. -/
def items? (item : List Char → Option (Value × List Char)) (s : List Char) :
    Option (List Value × List Char) := do
  match ← dropLines s with
  | ']' :: rest => some ([], rest)
  | start =>
    let (v, rest) ← item start
    match ← dropLines rest with
    | ']' :: rest => some ([v], rest)
    | ',' :: rest =>
      if rest.length < s.length then
        let (vs, rest) ← items? item rest
        some (v :: vs, rest)
      else none
    | _ => none
termination_by s.length

/-- A dotted key, the sign of equality and a value read by `item`. -/
def pair? (item : List Char → Option (Value × List Char)) (s : List Char) :
    Option ((List String × String × Value) × List Char) := do
  let (key, rest) ← key? s
  let (v, rest) ← item (dropBlanks (← after? '=' rest))
  some ((key.dropLast, key.getLastD "", v), rest)

/-- The pairs between braces behind the first of them, each value read by `item`. -/
def pairs? (item : List Char → Option (Value × List Char)) (s : List Char) :
    Option (List (List String × String × Value) × List Char) := do
  let (p, rest) ← pair? item s
  match dropBlanks rest with
  | '\x7d' :: rest => some ([p], rest)
  | ',' :: rest =>
    if rest.length < s.length then
      let (ps, rest) ← pairs? item rest
      some (p :: ps, rest)
    else none
  | _ => none
termination_by s.length

/-- A table between braces behind the first of them. -/
def inlineTable? (item : List Char → Option (Value × List Char)) (s : List Char) :
    Option (Value × List Char) :=
  match dropBlanks s with
  | '\x7d' :: rest => some (.table .inline [], rest)
  | s => do
    let (pairs, rest) ← pairs? item s
    some (← buildInline pairs, rest)

/-- A value in which arrays and tables are nested less than `depth` deep. -/
def value? : (depth : Nat) → List Char → Option (Value × List Char)
  | 0, _ => none
  | depth + 1, s =>
    match s with
    | '[' :: rest =>
      if depth = 0 then none else (items? (value? depth) rest).map fun (vs, rest) => (.array vs, rest)
    | '\x7b' :: rest => if depth = 0 then none else inlineTable? (value? depth) rest
    | c :: _ =>
      if c = '"' ∨ c = '\'' then (string? s).map fun (t, rest) => (.string (String.ofList t), rest)
      else token? s
    | [] => none

/-! ## Statements -/

/-- A header or a key with its value, up to the end of its line. -/
def statement? (s : List Char) : Option (Statement × List Char) := do
  match s with
  | '[' :: '[' :: rest =>
    let (key, rest) ← key? rest
    some (.appendTable key, ← endOfLine? (← after? ']' (← after? ']' rest)))
  | '[' :: rest =>
    let (key, rest) ← key? rest
    some (.openTable key, ← endOfLine? (← after? ']' rest))
  | s =>
    let ((path, key, v), rest) ← pair? (value? nestingLimit) s
    some (.assign path key v, ← endOfLine? rest)

def statements? (s : List Char) : Option (List Statement) := do
  match ← dropLines s with
  | [] => some []
  | start =>
    let (st, rest) ← statement? start
    if rest.length < s.length then
      return st :: (← statements? rest)
    else none
termination_by s.length

/-- The root table of a document. A byte order mark may stand before it. -/
def parse (text : String) : Option Entries := do
  let s := match text.toList with
    | '\ufeff' :: rest => rest
    | s => s
  build (← statements? s)

end SwapStake.Toml
