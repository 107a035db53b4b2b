import SwapStake.Settings.Basic
import SwapStake.Toml.Document

/-!
# Reading settings

Settings are a TOML document with a section for the network, one for exchanges and one for mining.
Keys that are not known are passed over, and keys that are missing have their defaults where there
are any. A section may also be an array that has its settings in order. `Settings.ofText` refuses
what is out of range; of several settings that are, it names the first in the order of
`Settings.firstOutOfRange?`.
-/

namespace SwapStake

open Toml (Value Entries)

namespace Settings

/-! ## Single settings -/

/-- The settings of a section with these keys. An array has them in the order of the keys, and a
date is a section without any of them. -/
def entriesOf? (keys : List String) : Value → Option Entries
  | .table _ entries => some entries
  | .array items | .tables items => some (keys.zip items)
  | .dateTime _ => some []
  | _ => none

/-- A setting that may be missing. -/
def fieldOr (entries : Entries) (key : String) (read : Value → Option α) (default : α) : Option α :=
  match entries.get? key with
  | some v => read v
  | none => some default

/-- A setting that has to be there. -/
def field (entries : Entries) (key : String) (read : Value → Option α) : Option α :=
  (entries.get? key).bind read

def word64? : Value → Option UInt64
  | .integer n => if 0 ≤ n ∧ n < 2 ^ 64 then some (UInt64.ofNat n.toNat) else none
  | _ => none

def word32? : Value → Option UInt32
  | .integer n => if 0 ≤ n ∧ n < 2 ^ 32 then some (UInt32.ofNat n.toNat) else none
  | _ => none

/-- A fraction; a whole number is one. -/
def fraction? : Value → Option Float
  | .float x => some x
  | .integer n => some (Binary64.ofDecimal (n < 0) n.natAbs 0)
  | _ => none

def text? : Value → Option String
  | .string s => some s
  | _ => none

def networkNamed? (name : String) : Option Network :=
  if name = "mainnet" then some .mainnet
  else if name = "testnet" then some .testnet
  else if name = "stagenet" then some .stagenet
  else none

def isEmpty : Value → Bool
  | .table _ entries => entries.isEmpty
  | .array items | .tables items => items.isEmpty
  | _ => false

/-- A network is a name, or a table whose only key is the name and has nothing under it. -/
def network? : Value → Option Network
  | .string s => networkNamed? s
  | .table _ [(key, v)] => if isEmpty v then networkNamed? key else none
  | _ => none

/-! ## Sections -/

def networkSection? (v : Value) : Option NetworkSettings := do
  let es ← entriesOf? ["network", "lp_account_address"] v
  some
    { network := ← field es "network" network?
      lpAddress := ← field es "lp_account_address" text? }

def exchangeSection? (v : Value) : Option ExchangeSettings := do
  let es ← entriesOf? ["blocks_between_rounds", "default_max_rounds", "default_max_slippage",
    "default_fake_outs", "pool_interest", "event_queue_depth"] v
  let d : ExchangeSettings := {}
  some
    { blocksBetweenRounds := ← fieldOr es "blocks_between_rounds" word64? d.blocksBetweenRounds
      maxRounds := ← fieldOr es "default_max_rounds" word32? d.maxRounds
      maxSlippage := ← fieldOr es "default_max_slippage" fraction? d.maxSlippage
      fakeOuts := ← fieldOr es "default_fake_outs" word64? d.fakeOuts
      poolInterest := ← fieldOr es "pool_interest" word32? d.poolInterest
      queueDepth := ← fieldOr es "event_queue_depth" word64? d.queueDepth }

def miningSection? (v : Value) : Option MiningSettings := do
  let es ← entriesOf? ["poll_interval_ms", "block_assembly_lead_ms", "stake_maturity_blocks",
    "min_stake_amount", "stake_knee", "event_queue_depth"] v
  let d : MiningSettings := {}
  some
    { pollInterval := ← fieldOr es "poll_interval_ms" word64? d.pollInterval
      lead := ← fieldOr es "block_assembly_lead_ms" word64? d.lead
      maturity := ← fieldOr es "stake_maturity_blocks" word64? d.maturity
      minStake := ← fieldOr es "min_stake_amount" word64? d.minStake
      knee := ← fieldOr es "stake_knee" word64? d.knee
      queueDepth := ← fieldOr es "event_queue_depth" word64? d.queueDepth }

/-- The settings of a document. -/
def ofEntries? (es : Entries) : Option Settings := do
  some
    { network := ← field es "network" networkSection?
      exchange := ← fieldOr es "exchange" exchangeSection? {}
      mining := ← fieldOr es "mining" miningSection? {} }

/-! ## Ranges -/

/-- The first setting that is out of range. -/
def firstOutOfRange? (s : Settings) : Option CheckedSetting :=
  if s.network.lpAddress = "" then some .lpAddress
  else if 1000 < s.exchange.poolInterest then some .poolInterest
  else if ¬ (0.0 ≤ s.exchange.maxSlippage ∧ s.exchange.maxSlippage ≤ 1.0) then some .maxSlippage
  else if s.exchange.queueDepth = 0 ∨ s.mining.queueDepth = 0 then some .queueDepth
  else if s.mining.pollInterval = 0 then some .pollInterval
  else if s.mining.knee = 0 then some .knee
  else none

/-- The settings that a text gives. -/
def ofText (text : String) : Except SettingsError Settings :=
  match (Toml.parse text).bind ofEntries? with
  | none => .error .malformed
  | some s =>
    match s.firstOutOfRange? with
    | some setting => .error (.outOfRange setting)
    | none => .ok s

/-- The settings in a file, which is `none` when it is not there. -/
def ofFile (file : Option ByteArray) : Except SettingsError Settings :=
  match file.bind String.fromUTF8? with
  | some text => ofText text
  | none => .error .unreadable

end Settings

end SwapStake
