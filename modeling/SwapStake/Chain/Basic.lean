import SwapStake.Token.Basic
/-!
# What the chain and the wallet tell

The head of the chain, the parameters for the next block, the outputs that a wallet can stake, and
the block time that one of them has been found to have. The daemon and the wallet are outside this
library, so they may also answer with a failure.
-/

namespace SwapStake

/-! ## Hashes of 256 bits

Block hashes, proof-of-stake hashes, transaction numbers and key images are all 32 bytes. A `Hasher`
makes one from any bytes. -/

structure Hash256 where
  bytes : Vector UInt8 32
deriving DecidableEq, Repr

namespace Hash256

/-- The first 32 of some bytes, with zeros for those that are missing. -/
def ofBytes (l : List UInt8) : Hash256 :=
  ⟨Vector.ofFn fun i => (l[i.val]?).getD 0⟩

def toList (h : Hash256) : List UInt8 := h.bytes.toList

instance : Inhabited Hash256 := ⟨ofBytes []⟩

def hexDigit (n : Nat) : Char := (Nat.toDigits 16 n).headD '0'

def text (h : Hash256) : String :=
  String.ofList (h.toList.flatMap fun b => [hexDigit (b.toNat / 16), hexDigit (b.toNat % 16)])

end Hash256

abbrev Hasher := List UInt8 → Hash256

/-! ## Answers -/

/-- Units in one coin. -/
def coin : UInt64 := 1000000000000

/-- The top block. -/
structure ChainHead where
  height : UInt64
  hash : Hash256
deriving DecidableEq, Repr, Inhabited

/-- The parameters for the next block. -/
structure MiningInfo where
  height : UInt64
  posHash : Hash256
  difficulty : UInt64
  /-- The time of the top block in milliseconds. -/
  timestamp : UInt64
deriving DecidableEq, Repr, Inhabited

/-- An unspent output of the wallet. -/
structure WalletOutput where
  keyImage : Hash256
  amount : UInt64
  token : TokenId
  /-- Its number among all outputs of the chain. -/
  index : UInt64
  /-- The height of the block that made it. -/
  height : UInt64
deriving DecidableEq, Repr, Inhabited

/-- An output that may stake, with the time of its block. -/
structure StakeDetails where
  posHash : Hash256
  amount : UInt64
  index : UInt64
  /-- The time of its block in milliseconds. -/
  nextBlockTime : UInt64
  /-- The difficulty that the time was computed for. -/
  difficulty : UInt64
deriving DecidableEq, Repr, Inhabited

/-! ## Failures

All of them are of one kind. -/

inductive ServiceError where
  | network
  /-- The daemon is busy catching up. -/
  | busy
  | rpc (text : String)
  | notFound (text : String)
  | build (text : String)
  | commit (text : String)
  | walletUnavailable
deriving DecidableEq, Repr

namespace ServiceError

def message : ServiceError → String
  | network => "network error"
  | busy => "daemon busy"
  | rpc t => "rpc error: " ++ t
  | notFound t => "not found: " ++ t
  | build t => "build failed: " ++ t
  | commit t => "commit failed: " ++ t
  | walletUnavailable => "wallet unavailable"

def kind : ServiceError → ErrorKind := fun _ => .externalFailure

end ServiceError

end SwapStake
