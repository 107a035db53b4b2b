import SwapStake.Exchange.Round

/-!
# The exchange desk and its handle

A desk has at most one exchange that runs. It starts one on demand, feeds it with blocks and
confirmations, and keeps it after its end until the next one starts. `ExchangeDesk.step` is one
event; a run of a desk is a list of events, each with what the services answer during it.

A desk that works on its own is reached through a handle. A call returns when the desk has dealt
with the event. When what the desk runs on is gone, calls fail, and the handle goes on showing what
it has seen last.
-/

namespace SwapStake

structure ExchangeDesk where
  /-- How many blocks a round waits for its transactions, at least one. -/
  blocksBetween : UInt64
  /-- The last exchange that was started. -/
  current : Option Exchange := none
deriving Repr

/-- What can happen to a desk. -/
inductive ExchangeEvent where
  | start (order : ExchangeOrder)
  | round
  | block (height : UInt64)
  | confirmed (transaction : Hash256)
  | stop
deriving Repr

namespace ExchangeDesk

def new (settings : ExchangeSettings) : ExchangeDesk :=
  { blocksBetween := max settings.blocksBetweenRounds 1 }

def inProgress (d : ExchangeDesk) : Bool :=
  d.current.any Exchange.running

/-- How many rounds of the last exchange have built a transaction. -/
def round (d : ExchangeDesk) : UInt32 :=
  (d.current.map Exchange.round).getD 0

/-- How many transactions of the last exchange wait to be confirmed. -/
def pendingCount (d : ExchangeDesk) : Nat :=
  (d.current.map fun x => x.pending.length).getD 0

/-- The end of an exchange that runs, because another one starts. -/
def replaced : Option Exchange → List ExchangeEffect
  | some x => if x.running then (x.fail .replaced).2 else []
  | none => []

def modify (d : ExchangeDesk) (f : Exchange → Exchange × List ExchangeEffect) :
    ExchangeDesk × List ExchangeEffect :=
  match d.current with
  | some x => ({ d with current := some (f x).1 }, (f x).2)
  | none => (d, [])

def step (s : ExchangeServices) (d : ExchangeDesk) : ExchangeEvent → ExchangeDesk × List ExchangeEffect
  | .start order =>
    let first := ({ order } : Exchange).runRound s
    ({ d with current := some first.1 }, replaced d.current ++ first.2)
  | .round => d.modify (Exchange.runRound s)
  | .block height => d.modify fun x => x.block s d.blocksBetween height
  | .confirmed t => d.modify fun x => x.confirmed t
  | .stop => d.modify Exchange.stop

end ExchangeDesk

/-! ## Handles -/

inductive ExchangeHandleError where
  | stopped
deriving DecidableEq, Repr

namespace ExchangeHandleError

def message : ExchangeHandleError → String
  | stopped => "exchanger stopped"

def kind : ExchangeHandleError → ErrorKind := fun _ => .stateError

end ExchangeHandleError

structure ExchangeHandle where
  /-- The desk as it was seen last. -/
  desk : ExchangeDesk
  alive : Bool := true

namespace ExchangeHandle

def new (settings : ExchangeSettings) : ExchangeHandle :=
  { desk := ExchangeDesk.new settings }

/-- Whether an exchange runs, as far as is known. -/
def inProgress (h : ExchangeHandle) : Bool :=
  h.desk.inProgress

def call (s : ExchangeServices) (h : ExchangeHandle) (e : ExchangeEvent) :
    Except ExchangeHandleError (ExchangeHandle × List ExchangeEffect) :=
  if h.alive then
    let (desk, effects) := h.desk.step s e
    .ok ({ h with desk }, effects)
  else .error .stopped

/-- What the desk runs on is gone. -/
def kill (h : ExchangeHandle) : ExchangeHandle :=
  { h with alive := false }

end ExchangeHandle

end SwapStake
