import SwapStake.Token.Basic
/-!
# Names of pairs

Two tokens have a direct order: the native coin is the second one, and of two other tokens the one
whose name comes first is the first. The name of a pair is the name of its second token, the
separator, and the name of its first token, so a pair with the native coin begins with the native
coin's name. Reading such a name back accepts it only in this order.
-/

namespace SwapStake

namespace TokenDirectory

/-- The name of a token that must have one. -/
def name (d : TokenDirectory) (t : TokenId) : Except NameError String :=
  match d.nameOf? t with
  | some n => .ok n
  | none => .error (.unknownToken t)

/-- The token of a name that must have one. -/
def id (d : TokenDirectory) (name : String) : Except NameError TokenId :=
  match d.idOf? name with
  | some t => .ok t
  | none => .error (.unknownName name)

/-- Two tokens in direct order. Names are ordered by their code points. -/
def directOrder (d : TokenDirectory) (a b : TokenId) : Except NameError (TokenId × TokenId) :=
  if a = b then .error .identicalTokens
  else do
    let nameA ← d.name a
    let nameB ← d.name b
    if d.isNative a then pure (b, a)
    else if d.isNative b then pure (a, b)
    else if nameB < nameA then pure (b, a)
    else pure (a, b)

/-- The name of the pair of two tokens, in whatever order they are given. -/
def pairName (d : TokenDirectory) (a b : TokenId) : Except NameError String := do
  let (first, second) ← d.directOrder a b
  let left ← d.name second
  let right ← d.name first
  pure (String.ofList (left.toList ++ pairSeparator :: right.toList))

/-- A text cut at the first separator. -/
def cutAtSeparator : List Char → Option (List Char × List Char)
  | [] => none
  | c :: rest =>
    if c = pairSeparator then some ([], rest)
    else (cutAtSeparator rest).map fun (left, right) => (c :: left, right)

/-- The two tokens of a pair's name, in direct order. -/
def ofPairName (d : TokenDirectory) (name : String) : Except NameError (TokenId × TokenId) :=
  match cutAtSeparator name.toList with
  | none => .error (.invalidPairName name)
  | some (left, right) =>
    if left = [] ∨ right = [] ∨ left = right then .error (.invalidPairName name)
    else do
      let second ← d.id (String.ofList left)
      let first ← d.id (String.ofList right)
      if (← d.directOrder first second) = (first, second) then pure (first, second)
      else .error (.invalidPairName name)

/-- Whether a text is the name of a pair of known tokens. -/
def isPairName (d : TokenDirectory) (name : String) : Bool :=
  (d.ofPairName name).isOk

end TokenDirectory

end SwapStake
