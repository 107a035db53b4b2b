import SwapStake.ErrorKind
import SwapStake.Text.Quoted
/-!
# Tokens and their registry

A token is known by the number its registry gave it. `TokenDirectory` is what the rest of the
library asks about tokens: the name of a token, the token of a name, and which one is the native
coin of the chain. Whoever answers, a registry of this library or another one, is a directory.

A registry starts with the native coin and grows by one token at a time. A new token needs a number
and a name that are both new, and its name has to be nonempty and free of the separator of pair
names. The name of the native coin is taken as it is given. Each direction of the directory has a
table of its own, and a registration writes to both.
-/

namespace SwapStake

structure TokenId where
  number : UInt64
deriving DecidableEq, Repr, Inhabited

def TokenId.text (t : TokenId) : String :=
  "#" ++ t.number.toNat.repr

/-- Names and numbers of tokens. -/
structure TokenDirectory where
  nameOf? : TokenId → Option String
  idOf? : String → Option TokenId
  isNative : TokenId → Bool

/-! ## Errors about names

What can be wrong with the name of a token or of a pair of tokens. All of them lie outside the
domain of the operation that reports them. -/

inductive NameError where
  | unknownToken (token : TokenId)
  /-- The name is not the name of a token, or cannot be one. -/
  | unknownName (name : String)
  | duplicateToken (name : String)
  | identicalTokens
  /-- The name is not the name of a pair in canonical order. -/
  | invalidPairName (name : String)
deriving DecidableEq, Repr

namespace NameError

def message : NameError → String
  | unknownToken t => "unknown token " ++ t.text
  | unknownName n => "unknown token name " ++ Text.quoted n
  | duplicateToken n => "duplicate token " ++ Text.quoted n
  | identicalTokens => "identical tokens"
  | invalidPairName n => "invalid pool name " ++ Text.quoted n

def kind : NameError → ErrorKind := fun _ => .domainError

end NameError

/-! ## The registry -/

def pairSeparator : Char := '/'

/-- The native coin, and the names and the numbers of all tokens. -/
structure TokenRegistry where
  native : TokenId
  names : List (TokenId × String)
  ids : List (String × TokenId)
deriving DecidableEq, Repr

namespace TokenRegistry

/-- The registry that holds only the native coin. -/
def new (native : TokenId) (name : String) : TokenRegistry :=
  ⟨native, [(native, name)], [(name, native)]⟩

def nameOf? (r : TokenRegistry) (t : TokenId) : Option String :=
  r.names.lookup t

def idOf? (r : TokenRegistry) (name : String) : Option TokenId :=
  r.ids.lookup name

def isNative (r : TokenRegistry) (t : TokenId) : Bool :=
  t = r.native

def register (r : TokenRegistry) (t : TokenId) (name : String) : Except NameError TokenRegistry :=
  if name.toList = [] ∨ pairSeparator ∈ name.toList then
    .error (.unknownName name)
  else if (r.nameOf? t).isSome ∨ (r.idOf? name).isSome then
    .error (.duplicateToken name)
  else
    .ok { r with names := (t, name) :: r.names, ids := (name, t) :: r.ids }

def directory (r : TokenRegistry) : TokenDirectory :=
  ⟨r.nameOf?, r.idOf?, r.isNative⟩

end TokenRegistry

end SwapStake
