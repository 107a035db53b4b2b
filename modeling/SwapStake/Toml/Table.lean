/-!
# TOML values and how tables are built

What a TOML document says. A table remembers how it came to be, because that decides what may still
be added to it: by a header of its own, by a header of a table inside it, by a dotted key, or as a
value between braces. An array that headers build up is told apart from an array that is written as
a value, which nothing can extend.

A document is a list of statements, and each of them extends one tree of tables or contradicts what
was said before. A key can be set once. A header opens a table that has none yet; a table whose
inner tables have headers may still get its own. A dotted key goes only through tables without a
header of their own and ends in one that dotted keys have made. In an array of tables all that
follows goes to the last table.
-/

namespace SwapStake.Toml

/-- How a table came to be. -/
inductive Origin where
  /-- It has a header of its own. -/
  | header
  /-- Only the header of a table inside it has been seen. -/
  | implied
  /-- A dotted key goes through it. -/
  | dotted
  /-- It is written as a value. -/
  | inline
deriving DecidableEq, Repr

inductive Value where
  | string (s : String)
  | integer (n : Int)
  | float (x : Float)
  | boolean (b : Bool)
  /-- A date, a time, or both, as it is written. -/
  | dateTime (text : String)
  /-- An array that is written as a value. -/
  | array (items : List Value)
  /-- An array of the tables under equal headers. -/
  | tables (items : List Value)
  | table (origin : Origin) (entries : List (String × Value))
deriving Inhabited

/-- The entries of a table, in the order in which they were first met. -/
abbrev Entries := List (String × Value)

namespace Entries

def get? (es : Entries) (key : String) : Option Value :=
  (es.find? fun e => e.1 = key).map Prod.snd

/-- Set the value of a key, in its place if the key is there. -/
def set (es : Entries) (key : String) (v : Value) : Entries :=
  if es.any fun e => e.1 = key then es.map fun e => if e.1 = key then (key, v) else e
  else es ++ [(key, v)]

end Entries

/-! ## Building tables -/

/-- A statement of a document. -/
inductive Statement where
  /-- Set a key, below the tables of the dotted key before it. -/
  | assign (path : List String) (key : String) (value : Value)
  /-- Go on with the table under this header. -/
  | openTable (path : List String)
  /-- Go on with a new last table of the array under this header. -/
  | appendTable (path : List String)

namespace Entries

/-- Set a key below the tables of a dotted key. -/
def assign (key : String) (v : Value) : List String → Entries → Option Entries
  | [], es => if (es.get? key).isSome then none else some (es.set key v)
  | k :: rest, es =>
    match es.get? k with
    | none => (assign key v rest []).map fun sub => es.set k (.table .dotted sub)
    | some (.table .dotted sub) => (assign key v rest sub).map fun sub => es.set k (.table .dotted sub)
    | some (.table .implied sub) =>
      if rest = [] then none
      else (assign key v rest sub).map fun sub => es.set k (.table .implied sub)
    | some (.tables items) =>
      match rest, items.getLast? with
      | _ :: _, some (.table o sub) =>
        (assign key v rest sub).map fun sub => es.set k (.tables (items.dropLast ++ [.table o sub]))
      | _, _ => none
    | some _ => none

/-- Change the table under a header. Tables on the way that are not there yet become implied ones.
-/
def under (change : Entries → Option Entries) : List String → Entries → Option Entries
  | [], es => change es
  | k :: rest, es =>
    match es.get? k with
    | none => (under change rest []).map fun sub => es.set k (.table .implied sub)
    | some (.table .inline _) => none
    | some (.table o sub) => (under change rest sub).map fun sub => es.set k (.table o sub)
    | some (.tables items) =>
      match items.getLast? with
      | some (.table o sub) =>
        (under change rest sub).map fun sub => es.set k (.tables (items.dropLast ++ [.table o sub]))
      | _ => none
    | some _ => none

/-- Give the table `key` its header. -/
def openTable (key : String) (es : Entries) : Option Entries :=
  match es.get? key with
  | none => some (es.set key (.table .header []))
  | some (.table .implied sub) => some (es.set key (.table .header sub))
  | some _ => none

/-- Add an empty table to the array of tables `key`. -/
def appendTable (key : String) (es : Entries) : Option Entries :=
  match es.get? key with
  | none => some (es.set key (.tables [.table .header []]))
  | some (.tables items) => some (es.set key (.tables (items ++ [.table .header []])))
  | some _ => none

/-- Change the parent of the last key of a header. -/
def underParent (change : String → Entries → Option Entries) (path : List String) (es : Entries) :
    Option Entries :=
  match path.getLast? with
  | some key => es.under (change key) path.dropLast
  | none => none

end Entries

/-- A document up to some statement: its root table, and the header that the next keys belong to. -/
structure Progress where
  root : Entries
  current : List String

/-- Take in one statement, unless it contradicts the ones before it. -/
def Progress.step (p : Progress) : Statement → Option Progress
  | .assign path key v =>
    (p.root.under (Entries.assign key v path) p.current).map fun root => { p with root }
  | .openTable path => (p.root.underParent Entries.openTable path).map fun root => ⟨root, path⟩
  | .appendTable path => (p.root.underParent Entries.appendTable path).map fun root => ⟨root, path⟩

/-- The root table that a list of statements builds. -/
def build (statements : List Statement) : Option Entries :=
  (statements.foldlM Progress.step ⟨[], []⟩).map Progress.root

/-- The table that the keys between two braces build. -/
def buildInline (pairs : List (List String × String × Value)) : Option Value :=
  (pairs.foldlM (fun es (path, key, v) => Entries.assign key v path es) []).map (.table .inline)

end SwapStake.Toml
