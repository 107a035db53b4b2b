import SwapStake.Binary64
import SwapStake.Exchange.Services
import SwapStake.Metrics

/-!
# Reports and effects of an exchange

An exchange tells its caller of every round and of its end. What a report is about is a `Notice`,
which is a cause; the wording follows from it. `ExchangeEffect` is everything that an exchange does
to the world, in the order in which it does it, so a run of exchanges is known from its effects.
-/

namespace SwapStake

inductive ExchangeFailure where
  | replaced
  | stopped
  | roundsExhausted
  | quote (error : QuoteError)
  | slippage
  | build (error : ServiceError)
  /-- The wallet built another number of transactions than one. -/
  | transactionCount (count : Nat)
  /-- A transaction is confirmed although the exchange had ended. -/
  | lateConfirmation
deriving DecidableEq, Repr

def ExchangeFailure.message : ExchangeFailure → String
  | replaced => "exchange replaced by a new exchange"
  | stopped => "exchange stopped by user"
  | roundsExhausted => "exceeded maximal tries"
  | quote e => e.message
  | slippage => "exceeded slippage range"
  | build e => "failed to build exchange transaction: " ++ e.message
  | transactionCount n => "expected one exchange transaction, got " ++ n.repr
  | lateConfirmation => "internal error: transaction confirmed after exchange completed"

/-- What is told about a round with a transaction. -/
structure RoundSummary where
  /-- The number of the round, from one. -/
  number : Nat
  paid : UInt64
  paidToken : String
  received : UInt64
  receivedToken : String
  /-- The fixed amount of the request for one unit of the other. -/
  rate : Float
  fee : UInt64
  /-- How far the exchange moves the price of the pool, in percent. -/
  impact : Float
  /-- How far the price has got worse since the first round, as a fraction. -/
  slippage : Float
deriving Repr

def RoundSummary.message (s : RoundSummary) : String :=
  "round " ++ s.number.repr ++ ": pay " ++ s.paid.toNat.repr ++ " " ++ s.paidToken ++ " for " ++
    s.received.toNat.repr ++ " " ++ s.receivedToken ++ ", rate " ++ Binary64.fixedText 6 s.rate ++ ", fee " ++
    s.fee.toNat.repr ++ ", price impact " ++ Binary64.fixedText 2 s.impact ++ "%, slippage " ++
    Binary64.fixedText 2 (s.slippage * 100.0) ++ "%"

inductive Notice where
  | built (summary : RoundSummary)
  /-- The transaction of a round is not relayed. -/
  | notCommitted (error : ServiceError)
  | completed
  | failed (failure : ExchangeFailure)
deriving Repr

namespace Notice

def message : Notice → String
  | built s => s.message
  | notCommitted e => "failed to commit transaction: " ++ e.message
  | completed => "exchange completed"
  | failed f => f.message

def success : Notice → Bool
  | built _ | completed => true
  | notCommitted _ | failed _ => false

def terminal : Notice → Bool
  | completed | failed _ => true
  | built _ | notCommitted _ => false

end Notice

/-- What a caller is told. -/
structure ExchangeReport where
  caller : String
  notice : Notice
  /-- The rate of the first round. -/
  firstRate : Float
  /-- The rate of the last round. -/
  rate : Float
  slippage : Float
  /-- How many rounds have built a transaction. -/
  round : UInt32
  /-- The transaction of the round. -/
  transaction : Option Hash256
deriving Repr

/-- What an exchange does to the world. -/
inductive ExchangeEffect where
  | asked (pool : String)
  | built (order : BuildOrder)
  /-- The wallet is asked to relay, which it does or does not. -/
  | committed (transaction : Transaction) (relayed : Bool)
  | counted (counter : Counter)
  | reported (report : ExchangeReport)
deriving Repr

/-- The metrics after some effects. -/
def Metrics.afterExchange (m : Metrics) (effects : List ExchangeEffect) : Metrics :=
  effects.foldl (fun m e => match e with
    | .counted c => m.count c
    | _ => m) m

end SwapStake
