/-!
# Error kinds

Every part of the library has an error type of its own whose constructors are causes. A caller that
only wants to know how to react reads the kind of an error instead: did a value not fit its word,
was a text malformed, did a daemon or a wallet fail. The wording of a kind is fixed here and nowhere
else.
-/

namespace SwapStake

/-- What went wrong, without the details. -/
inductive ErrorKind where
  | arithmeticOverflow
  | divisionNotExact
  | parseError
  | domainError
  /-- The daemon, the wallet or the file system failed. -/
  | externalFailure
  /-- The operation is not possible in the present state. -/
  | stateError
deriving DecidableEq, Repr

def ErrorKind.text : ErrorKind → String
  | .arithmeticOverflow => "arithmetic overflow"
  | .divisionNotExact => "division not exact"
  | .parseError => "parse error"
  | .domainError => "domain error"
  | .externalFailure => "external failure"
  | .stateError => "state error"

end SwapStake
