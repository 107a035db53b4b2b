import SwapStake.Chain.Basic
import SwapStake.Route.Leg
import SwapStake.Settings.Basic
import SwapStake.Token.PairName

/-!
# Orders, services and quotes of an exchange

A caller orders an exchange. The daemon knows the pools, and the wallet builds and relays
transactions. A round of an exchange asks each of them at most once, so all that they can answer
during a round is one value of `ExchangeServices`. The next round may find others.

A round exchanges a token for the native coin or the native coin for a token, in the one pool that
has the name of the pair. The native coin is the second token of that pool.
-/

namespace SwapStake

/-! ## Orders

What a caller of the exchange desk asks for: a request of the router, the account of the wallet that
pays and receives, and the limits of the attempt. -/

structure ExchangeOrder where
  /-- Who is told how the exchange goes. -/
  caller : String
  /-- The account of the wallet that pays and receives. -/
  account : UInt32
  request : SwapRequest
  maxRounds : UInt32
  /-- How far, as a fraction, the price may get worse after the first round. -/
  maxSlippage : Float
  /-- How many decoys an input of a transaction has. -/
  fakeOuts : UInt64
deriving Repr

/-- An order with the limits of the settings. -/
def ExchangeOrder.withDefaults (settings : ExchangeSettings) (caller : String) (account : UInt32)
    (request : SwapRequest) : ExchangeOrder :=
  { caller, account, request
    maxRounds := settings.maxRounds
    maxSlippage := settings.maxSlippage
    fakeOuts := settings.fakeOuts }

/-! ## Services -/

structure Transaction where
  id : Hash256
  fee : UInt64
deriving DecidableEq, Repr

/-- What a wallet is asked to put into a transaction. -/
structure BuildOrder where
  account : UInt32
  plan : Plan
  legs : List Leg
  fakeOuts : UInt64
deriving DecidableEq, Repr

structure ExchangeServices where
  directory : TokenDirectory
  /-- The address of the account that holds the reserves. -/
  lpAddress : String
  walletAddress : UInt32 → String
  pool : String → Except ServiceError Pool
  build : BuildOrder → Except ServiceError (List Transaction)
  commit : Transaction → Except ServiceError Unit

/-! ## Quotes for a round -/

/-- Why there is no quote. -/
inductive QuoteError where
  | notNative
  | pair (error : NameError)
  /-- The daemon does not give the pool. -/
  | unavailable (pool : String) (error : ServiceError)
  /-- The native coin is the first token of the pool. -/
  | nativeFirst (pool : String)
  /-- The pool does not allow the request. -/
  | plan (error : RouteError)
deriving DecidableEq, Repr

def QuoteError.message : QuoteError → String
  | notNative => "cross exchange not supported"
  | pair e => "invalid token pair: " ++ e.message
  | unavailable pool e => "failed to get pool " ++ pool ++ ": " ++ e.message
  | nativeFirst pool => "invalid pool " ++ pool ++ ": native coin as token1"
  | plan e => "failed to quote exchange: " ++ e.message

namespace ExchangeServices

def poolName (s : ExchangeServices) (r : SwapRequest) : Except QuoteError String :=
  if s.directory.isNative r.source ∨ s.directory.isNative r.destination then
    (s.directory.pairName r.source r.destination).mapError .pair
  else .error .notNative

/-- The plan of a request in the pool of a name. -/
def planIn (s : ExchangeServices) (name : String) (r : SwapRequest) : Except QuoteError Plan := do
  let pool ← (s.pool name).mapError (.unavailable name)
  if s.directory.isNative pool.token1 then .error (.nativeFirst name)
  else (Plan.inPool [pool] r).mapError .plan

end ExchangeServices

end SwapStake
