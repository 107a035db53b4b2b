import SwapStake.Chain.Basic

/-!
# Settings

What an operator can choose: the network with the account that holds the reserves, how exchanges are
made in rounds, and how the miner of blocks works. Only the network has no defaults.
-/

namespace SwapStake

inductive Network where
  | mainnet
  | testnet
  /-- The network on which releases are rehearsed. -/
  | stagenet
deriving DecidableEq, Repr

structure NetworkSettings where
  network : Network
  /-- The address of the account that holds the reserves of all pools. -/
  lpAddress : String
deriving DecidableEq, Repr

/-- How exchanges are made. -/
structure ExchangeSettings where
  /-- How many blocks a round waits for its transactions before the next one. -/
  blocksBetweenRounds : UInt64 := 5
  /-- How many rounds an exchange has when its caller does not say. -/
  maxRounds : UInt32 := 10
  /-- How far, as a fraction, a quote may get worse when its caller does not say. -/
  maxSlippage : Float := 0.05
  /-- How many decoys an input of a transaction has. -/
  fakeOuts : UInt64 := 15
  /-- The interest of pools in thousandths. -/
  poolInterest : UInt32 := 3
  /-- How many commands may wait. -/
  queueDepth : UInt64 := 64
deriving Repr

/-- How blocks are mined. Times are in milliseconds. -/
structure MiningSettings where
  /-- How often the head of the chain is looked at. -/
  pollInterval : UInt64 := 1000
  /-- How long before its time a block is put together. -/
  lead : UInt64 := 500
  /-- How many blocks an output has to be buried under before it stakes. -/
  maturity : UInt64 := 20
  /-- The least amount that stakes. -/
  minStake : UInt64 := coin
  /-- The amount around which the weight of a stake begins to flatten. -/
  knee : UInt64 := 1000 * coin
  /-- How many events may wait. -/
  queueDepth : UInt64 := 64
deriving DecidableEq, Repr

structure Settings where
  network : NetworkSettings
  exchange : ExchangeSettings := {}
  mining : MiningSettings := {}
deriving Repr

/-! ## Errors of settings

Why settings are refused. A setting that is out of range is named by its section and its key. -/

inductive CheckedSetting where
  | lpAddress
  | poolInterest
  | maxSlippage
  /-- Either of the two queue depths. -/
  | queueDepth
  | pollInterval
  | knee
deriving DecidableEq, Repr

def CheckedSetting.name : CheckedSetting → String
  | lpAddress => "network.lp_account_address"
  | poolInterest => "exchange.pool_interest"
  | maxSlippage => "exchange.default_max_slippage"
  | queueDepth => "event_queue_depth"
  | pollInterval => "mining.poll_interval_ms"
  | knee => "mining.stake_knee"

inductive SettingsError where
  /-- There is no file, or it is no text. -/
  | unreadable
  /-- The text is no document, or a setting in it is missing or of the wrong type. -/
  | malformed
  /-- A setting is out of range. -/
  | outOfRange (setting : CheckedSetting)
deriving DecidableEq, Repr

namespace SettingsError

def message : SettingsError → String
  | unreadable => "read config"
  | malformed => "parse config"
  | outOfRange s => "invalid config value: " ++ s.name

def kind : SettingsError → ErrorKind
  | unreadable => .externalFailure
  | malformed => .parseError
  | outOfRange _ => .domainError

end SettingsError

end SwapStake
