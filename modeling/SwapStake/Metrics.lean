import SwapStake.Binary64

/-!
# Metrics

What an operator watches: seven counts that only grow, and the height of the chain that the miner
has seen last. Their text has three lines for each of them, in alphabetical order of the names.
-/

namespace SwapStake

inductive Counter where
  /-- Rounds of exchanges that built a transaction. -/
  | exchangeRounds
  /-- Exchanges that ended because their price had moved too far. -/
  | slippageAborts
  | exchangesCompleted
  /-- Exchanges that ended in any other way. -/
  | exchangesFailed
  /-- Blocks that could not be made because the head of the chain had changed. -/
  | blocksLost
  | blocksSubmitted
  /-- Tasks that a scheduler has dispatched. -/
  | tasksFired
deriving DecidableEq, Repr

structure Metrics where
  /-- The counts have no largest value where words would come round to zero, so they stand for those of
  a program that counts fewer than `2 ^ 64` of each sort. -/
  counts : Counter → Nat := fun _ => 0
  /-- The height of the chain as a word with a sign. -/
  chainHeight : Nat := 0

/-- The largest height that can be published. -/
def maxPublishedHeight : Nat := 2 ^ 63 - 1

/-- One line of facts about something published. -/
structure PublishedValue where
  name : String
  help : String
  /-- Whether it only grows. -/
  grows : Bool
  value : Nat
deriving DecidableEq, Repr

def PublishedValue.text (v : PublishedValue) : String :=
  "# HELP " ++ v.name ++ " " ++ v.help ++ "\n# TYPE " ++ v.name ++ (if v.grows then " counter\n" else " gauge\n") ++
    v.name ++ " " ++ Binary64.wholeText v.value ++ "\n"

namespace Metrics

instance : Inhabited Metrics := ⟨{}⟩

def count (m : Metrics) (c : Counter) : Metrics :=
  { m with counts := fun d => if d = c then m.counts d + 1 else m.counts d }

def seeHeight (m : Metrics) (height : UInt64) : Metrics :=
  { m with chainHeight := min height.toNat maxPublishedHeight }

def published (m : Metrics) : List PublishedValue := [
  ⟨"amunchain_exchange_rounds_total", "Exchange rounds submitted", true, m.counts .exchangeRounds⟩,
  ⟨"amunchain_exchange_slippage_aborts_total", "Exchanges aborted on slippage", true,
    m.counts .slippageAborts⟩,
  ⟨"amunchain_exchanges_completed_total", "Exchanges completed", true, m.counts .exchangesCompleted⟩,
  ⟨"amunchain_exchanges_failed_total", "Exchanges failed", true, m.counts .exchangesFailed⟩,
  ⟨"amunchain_pos_blocks_lost_total", "PoS attempts lost to another staker", true, m.counts .blocksLost⟩,
  ⟨"amunchain_pos_blocks_submitted_total", "PoS blocks submitted", true, m.counts .blocksSubmitted⟩,
  ⟨"amunchain_pos_chain_height", "Chain height seen by the PoS miner", false, m.chainHeight⟩,
  ⟨"amunchain_scheduler_tasks_fired_total", "Scheduler tasks dispatched", true, m.counts .tasksFired⟩]

def text (m : Metrics) : String :=
  String.join (m.published.map PublishedValue.text)

end Metrics

end SwapStake
