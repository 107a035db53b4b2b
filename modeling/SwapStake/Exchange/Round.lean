import SwapStake.Exchange.Report

/-!
# Rounds of an exchange

An exchange runs until it has ended, in rounds: the pool is quoted anew, the rate is compared with
that of the first round, and if it has not got too much worse, a transaction is built and relayed.
The transactions that were relayed are kept until one of them is confirmed, which completes the
exchange. An exchange that has ended keeps its order and its transactions, because a late
confirmation is still told to its caller.
-/

namespace SwapStake

/-- A round whose transaction was relayed. -/
structure RelayedRound where
  rate : Float
  slippage : Float
  /-- The number of the round, from one. -/
  number : UInt32
deriving Repr

structure Exchange where
  order : ExchangeOrder
  running : Bool := true
  /-- The transactions that were relayed and are not confirmed. -/
  pending : List (Hash256 × RelayedRound) := []
  /-- The rate of the first round that was quoted. -/
  firstRate : Option Float := none
  /-- The rate of the last round that was quoted. -/
  rate : Float := 0.0
  /-- How far that rate is worse than the first, as a fraction. -/
  slippage : Float := 0.0
  /-- How many rounds have built a transaction. -/
  round : UInt32 := 0
  /-- The height from which on a round does not wait for transactions. -/
  nextHeight : Option UInt64 := none
deriving Repr

/-- The fixed amount of a plan's request for one unit of the other. -/
def Plan.rate (p : Plan) : Float :=
  p.request.amount.toFloat / (match p.request.side with
    | .buy => p.amountIn
    | .sell => p.amountOut).toFloat

/-- How far a rate is worse than the first one, as a fraction. A purchase gets worse as its rate
falls, a sale as it grows. -/
def Side.slippage (side : Side) (first rate : Float) : Float :=
  match side with
  | .buy => (first - rate) / first
  | .sell => (rate - first) / first

def precededBy (effects : List ExchangeEffect) (r : α × List ExchangeEffect) : α × List ExchangeEffect :=
  (r.1, effects ++ r.2)

namespace Exchange

def report (x : Exchange) (notice : Notice) (transaction : Option Hash256) : ExchangeEffect :=
  .reported
    { caller := x.order.caller
      notice
      firstRate := x.firstRate.getD 0.0
      rate := x.rate
      slippage := x.slippage
      round := x.round
      transaction }

/-- End the exchange. Only the end of an exchange that runs is counted, but every end is reported.
-/
def finish (x : Exchange) (notice : Notice) (transaction : Option Hash256) : Exchange × List ExchangeEffect :=
  let ended := { x with running := false }
  (ended,
    (if x.running then
      [.counted (if notice.success then .exchangesCompleted else .exchangesFailed)]
    else []) ++ [ended.report notice transaction])

def fail (x : Exchange) (failure : ExchangeFailure) : Exchange × List ExchangeEffect :=
  x.finish (.failed failure) none

/-- Take over the rate of a new quote. -/
def quoted (x : Exchange) (plan : Plan) : Exchange :=
  let first := x.firstRate.getD plan.rate
  { x with
    firstRate := some first
    rate := plan.rate
    slippage := x.order.request.side.slippage first plan.rate }

def tokenName (s : ExchangeServices) (t : TokenId) : String :=
  (s.directory.nameOf? t).getD t.text

/-- What is told about a round that has built its transaction. -/
def summary (s : ExchangeServices) (x : Exchange) (plan : Plan) (fee : UInt64) : RoundSummary :=
  { number := x.round.toNat + 1
    paid := plan.amountIn
    paidToken := tokenName s plan.request.source
    received := plan.amountOut
    receivedToken := tokenName s plan.request.destination
    rate := x.rate
    fee
    impact := (plan.swaps.head?.map Swap.priceImpact).getD 0.0
    slippage := x.slippage }

/-- Keep a transaction that was relayed; a second round with the same transaction takes the place of
the first. -/
def relayed (x : Exchange) (t : Hash256) : Exchange :=
  { x with pending := (t, ⟨x.rate, x.slippage, x.round⟩) :: x.pending.filter fun e => e.1 ≠ t }

/-- Tell of a transaction and relay it. -/
def submit (s : ExchangeServices) (x : Exchange) (plan : Plan) (t : Transaction) :
    Exchange × List ExchangeEffect :=
  let told := x.report (.built (x.summary s plan t.fee)) (some t.id)
  let next := { x with round := x.round + 1 }
  match s.commit t with
  | .ok _ => (next.relayed t.id, [told, .counted .exchangeRounds, .committed t true])
  | .error e =>
    (next, [told, .counted .exchangeRounds, .committed t false, next.report (.notCommitted e) (some t.id)])

def buildAndSubmit (s : ExchangeServices) (x : Exchange) (plan : Plan) : Exchange × List ExchangeEffect :=
  let order : BuildOrder :=
    { account := x.order.account
      plan
      legs := plan.legs s.lpAddress (s.walletAddress x.order.account)
      fakeOuts := x.order.fakeOuts }
  precededBy [.built order] <|
    match s.build order with
    | .ok [t] => x.submit s plan t
    | .ok ts => x.fail (.transactionCount ts.length)
    | .error e => x.fail (.build e)

/-- Go on with a plan, unless its rate is too bad. -/
def accept (s : ExchangeServices) (x : Exchange) (plan : Plan) : Exchange × List ExchangeEffect :=
  if x.order.maxSlippage < x.slippage then
    precededBy [.counted .slippageAborts] (x.fail .slippage)
  else x.buildAndSubmit s plan

/-- One round. An exchange that has ended has none. -/
def runRound (s : ExchangeServices) (x : Exchange) : Exchange × List ExchangeEffect :=
  if ¬ x.running then (x, [])
  else if x.order.maxRounds ≤ x.round then x.fail .roundsExhausted
  else
    match s.poolName x.order.request with
    | .error e => x.fail (.quote e)
    | .ok name =>
      precededBy [.asked name] <|
        match s.planIn name x.order.request with
        | .error e => x.fail (.quote e)
        | .ok plan => (x.quoted plan).accept s plan

/-! ## What happens on the chain -/

/-- A new block. It brings a round if nothing is pending, or if enough blocks have passed since the
last block that brought one, or since the first block. -/
def block (s : ExchangeServices) (blocksBetween : UInt64) (x : Exchange) (height : UInt64) :
    Exchange × List ExchangeEffect :=
  let later := Word64.addSaturating height blocksBetween
  if ¬ x.running then (x, [])
  else
    let next := x.nextHeight.getD later
    if x.pending.isEmpty ∨ next ≤ height then { x with nextHeight := some later }.runRound s
    else ({ x with nextHeight := some next }, [])

/-- A transaction is confirmed. Rate, slippage and round become those of its round. -/
def confirmed (x : Exchange) (t : Hash256) : Exchange × List ExchangeEffect :=
  match x.pending.lookup t with
  | none => (x, [])
  | some r =>
    let restored := { x with
      pending := x.pending.filter fun e => e.1 ≠ t
      rate := r.rate
      slippage := r.slippage
      round := r.number }
    if x.running then { restored with pending := [] }.finish .completed (some t)
    else restored.finish (.failed .lateConfirmation) (some t)

/-- The caller gives up. This is reported also after the end. -/
def stop (x : Exchange) : Exchange × List ExchangeEffect :=
  { x with pending := [] }.fail .stopped

end Exchange

end SwapStake
