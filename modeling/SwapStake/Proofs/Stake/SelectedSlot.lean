import SwapStake.Proofs.Stake.Difficulty
import SwapStake.Proofs.Stake.Selection
import SwapStake.Proofs.Stake.Weight
/-!
# The slot of the selected stake

Stakes are selected by their targets for each unit of their amounts, but they wait by their targets for each
unit of their weights, and a weight is what the angle over the knee leaves of the amount. So the selected
stake need not be the first that can make a block (`selected_stake_may_be_late`). It is the first of those
that weigh no more and keep no larger part of their amounts, and it never waits for more than four thirds as
long as another, up to the rounding of the targets (`selected_stake_timing`).
-/

namespace SwapStake

/-- The contest for the block on top of the one that `info` describes. -/
def Contest.onTopOf (policy : StakePolicy) (hasher : Hasher) (unlocked : WalletOutput → Bool) (info : MiningInfo) :
    Contest :=
  ⟨policy, hasher, unlocked, info.height, info.posHash⟩

/-- How many milliseconds after the top block there is a word for. -/
def MiningInfo.remaining (info : MiningInfo) : Nat :=
  2 ^ 64 - 1 - info.timestamp.toNat

namespace StakeCandidate

variable {c d : StakeCandidate} {info : MiningInfo} {knee : UInt64} {m n : Nat}

def weight (c : StakeCandidate) (knee : UInt64) : UInt64 :=
  stakeWeight c.output.amount knee

/-- How long after the top block its block is planned for. -/
def wait (c : StakeCandidate) (info : MiningInfo) (knee : UInt64) : Nat :=
  (c.details info knee).nextBlockTime.toNat - info.timestamp.toNat

/-- The last millisecond at which a candidate has not gained one unit. -/
def unitTime (c : StakeCandidate) (info : MiningInfo) (knee : UInt64) : UInt64 :=
  timeOffset (c.weight knee) (baseTarget info.difficulty) 0

/-! ## Weights and targets -/

theorem weighted_of_rank_le (h : c.rank ≤ d.rank) (hc : c.Funded) (hd : d.Funded)
    (parts : m * ((d.weight knee).toNat * c.output.amount.toNat) ≤
      n * ((c.weight knee).toNat * d.output.amount.toNat)) :
    m * (c.target.toNat * (d.weight knee).toNat) ≤ n * (d.target.toNat * (c.weight knee).toNat) := by
  refine Nat.le_of_mul_le_mul_left ?_ (Nat.mul_pos hc.pos hd.pos)
  calc c.output.amount.toNat * d.output.amount.toNat * (m * (c.target.toNat * (d.weight knee).toNat))
      = m * ((d.weight knee).toNat * c.output.amount.toNat) * (c.target.toNat * d.output.amount.toNat) := by ac_rfl
    _ ≤ n * ((c.weight knee).toNat * d.output.amount.toNat) * (d.target.toNat * c.output.amount.toNat) :=
        Nat.mul_le_mul parts ((rank_le_iff hc hd).1 h)
    _ = c.output.amount.toNat * d.output.amount.toNat * (n * (d.target.toNat * (c.weight knee).toNat)) := by ac_rfl

theorem parts_le (c d : StakeCandidate) (knee : UInt64) : 3 * ((d.weight knee).toNat * c.output.amount.toNat) ≤
    4 * ((c.weight knee).toNat * d.output.amount.toNat) :=
  calc 3 * ((d.weight knee).toNat * c.output.amount.toNat)
      = (d.weight knee).toNat * (3 * c.output.amount.toNat) := by ac_rfl
    _ ≤ d.output.amount.toNat * (4 * (c.weight knee).toNat) :=
        Nat.mul_le_mul (stakeWeight_le _ knee) (three_mul_le_four_mul_stakeWeight _ knee)
    _ = 4 * ((c.weight knee).toNat * d.output.amount.toNat) := by ac_rfl

theorem weighted_of_clear (knee : UInt64)
    (clear : 4 * (c.target.toNat * d.output.amount.toNat) ≤ 3 * (d.target.toNat * c.output.amount.toNat)) :
    c.target.toNat * (d.weight knee).toNat ≤ d.target.toNat * (c.weight knee).toNat := by
  refine Nat.le_of_mul_le_mul_left ?_ (by decide : 0 < 4)
  calc 4 * (c.target.toNat * (d.weight knee).toNat)
      ≤ 4 * (c.target.toNat * d.output.amount.toNat) :=
        Nat.mul_le_mul_left _ (Nat.mul_le_mul_left _ (stakeWeight_le _ knee))
    _ ≤ 3 * (d.target.toNat * c.output.amount.toNat) := clear
    _ = d.target.toNat * (3 * c.output.amount.toNat) := by ac_rfl
    _ ≤ d.target.toNat * (4 * (c.weight knee).toNat) :=
        Nat.mul_le_mul_left _ (three_mul_le_four_mul_stakeWeight _ knee)
    _ = 4 * (d.target.toNat * (c.weight knee).toNat) := by ac_rfl

/-! ## Waits -/

theorem lastEarly_eq (c : StakeCandidate) (info : MiningInfo) (knee : UInt64) :
    c.lastEarly info knee = timeOffset (c.weight knee) (baseTarget info.difficulty) c.target := rfl

theorem mul_lastEarly_lt_add (info : MiningInfo) {e : Nat} (hn : 0 < n) (hmn : m ≤ n)
    (le : m * ((c.target.toNat + 1) * (d.weight knee).toNat) ≤
      n * ((d.target.toNat + 1) * (c.weight knee).toNat) + m * e * (d.weight knee).toNat) :
    m * (c.lastEarly info knee).toNat <
      n * ((d.lastEarly info knee).toNat + 1) + m * (e * ((c.unitTime info knee).toNat + 1)) := by
  refine mul_timeOffset_lt_add hn hmn ?_
  calc m * ((c.target.toNat + 1) * ((d.weight knee).toNat * (baseTarget info.difficulty).toNat))
      = m * ((c.target.toNat + 1) * (d.weight knee).toNat) * (baseTarget info.difficulty).toNat := by ac_rfl
    _ ≤ (n * ((d.target.toNat + 1) * (c.weight knee).toNat) + m * e * (d.weight knee).toNat) *
          (baseTarget info.difficulty).toNat := Nat.mul_le_mul_right _ le
    _ = n * ((d.target.toNat + 1) * ((c.weight knee).toNat * (baseTarget info.difficulty).toNat)) +
          m * e * ((d.weight knee).toNat * (baseTarget info.difficulty).toNat) := by
        rw [Nat.add_mul]
        ac_rfl

theorem lastEarly_le_of_weighted
    (le : c.target.toNat * (d.weight knee).toNat ≤ d.target.toNat * (c.weight knee).toNat)
    (heavier : d.weight knee ≤ c.weight knee) : c.lastEarly info knee ≤ d.lastEarly info knee := by
  rw [UInt64.le_iff_toNat_le] at heavier
  have hgoal : 1 * ((c.target.toNat + 1) * (d.weight knee).toNat) ≤
      1 * ((d.target.toNat + 1) * (c.weight knee).toNat) + 1 * 0 * (d.weight knee).toNat := by
    rw [Nat.one_mul, Nat.one_mul, Nat.succ_mul, Nat.succ_mul]
    omega
  have hwait := mul_lastEarly_lt_add info Nat.one_pos (Nat.le_refl 1) hgoal
  rw [UInt64.le_iff_toNat_le]
  omega

theorem mul_lastEarly_lt (hn : 0 < n) (hmn : m ≤ n)
    (le : m * (c.target.toNat * (d.weight knee).toNat) ≤ n * (d.target.toNat * (c.weight knee).toNat)) :
    m * (c.lastEarly info knee).toNat <
      n * ((d.lastEarly info knee).toNat + 1) + m * ((c.unitTime info knee).toNat + 1) := by
  have hgoal : m * ((c.target.toNat + 1) * (d.weight knee).toNat) ≤
      n * ((d.target.toNat + 1) * (c.weight knee).toNat) + m * 1 * (d.weight knee).toNat := by
    rw [Nat.succ_mul, Nat.succ_mul, Nat.mul_add, Nat.mul_add, Nat.mul_one]
    omega
  have hwait := mul_lastEarly_lt_add info hn hmn hgoal
  rwa [Nat.one_mul] at hwait

theorem unitTime_le_one (info : MiningInfo) (knee : UInt64) (whole : coin ≤ c.output.amount) :
    c.unitTime info knee ≤ 1 := by
  obtain ⟨-, hunit, -⟩ := timeOffset_bounds (c.weight knee) (baseTarget info.difficulty) 0
  have hweight : 3 * coin.toNat ≤ 4 * (c.weight knee).toNat :=
    Nat.le_trans (Nat.mul_le_mul_left 3 (UInt64.le_iff_toNat_le.1 whole)) (three_mul_le_four_mul_stakeWeight _ knee)
  have hslope := baseTarget_pos info.difficulty
  rw [UInt64.le_iff_toNat_le, UInt64.toNat_one]
  -- in two milliseconds even three quarters of a coin gain a unit
  by_contra hlong
  have hgained : (c.weight knee).toNat * 2 ≤
      (c.weight knee).toNat * (baseTarget info.difficulty).toNat * (c.unitTime info knee).toNat :=
    Nat.mul_le_mul (Nat.le_mul_of_pos_right _ hslope) (by omega)
  rw [toNat_coin] at hweight hunit
  change _ * _ * (c.unitTime info knee).toNat < _ at hunit
  rw [UInt64.toNat_zero] at hunit
  omega

theorem wait_eq_min (c : StakeCandidate) (info : MiningInfo) (knee : UInt64) :
    c.wait info knee = min (max (c.lastEarly info knee).toNat 1) info.remaining := by
  have htime := info.timestamp.toNat_lt
  rw [wait, nextBlockTime_eq_min, MiningInfo.remaining]
  omega

theorem mul_planned_lt {extra last last' room : Nat} (hn : 0 < n) (hmn : m ≤ n)
    (lt : m * last < n * (last' + 1) + extra) :
    m * min (max last 1) room < n * (min (max last' 1) room + 1) + extra := by
  rcases Nat.lt_or_ge (min (max last' 1) room) (min (max last 1) room) with hlater | hsooner
  · have hlast : min (max last 1) room ≤ last := by omega
    have hlast' : last' ≤ min (max last' 1) room := by omega
    calc m * min (max last 1) room
        ≤ m * last := Nat.mul_le_mul_left _ hlast
      _ < n * (last' + 1) + extra := lt
      _ ≤ n * (min (max last' 1) room + 1) + extra :=
          Nat.add_le_add_right (Nat.mul_le_mul_left _ (Nat.succ_le_succ hlast')) _
  · calc m * min (max last 1) room
        ≤ n * min (max last' 1) room := Nat.mul_le_mul hmn hsooner
      _ < n * (min (max last' 1) room + 1) := Nat.mul_lt_mul_of_pos_left (Nat.lt_succ_self _) hn
      _ ≤ n * (min (max last' 1) room + 1) + extra := Nat.le_add_right _ _

theorem mul_wait_lt (info : MiningInfo) (hn : 0 < n) (hmn : m ≤ n)
    (le : m * (c.target.toNat * (d.weight knee).toNat) ≤ n * (d.target.toNat * (c.weight knee).toNat)) :
    m * c.wait info knee < n * (d.wait info knee + 1) + m * ((c.unitTime info knee).toNat + 1) := by
  rw [wait_eq_min, wait_eq_min]
  exact mul_planned_lt hn hmn (mul_lastEarly_lt hn hmn le)

end StakeCandidate

/-! ## The selected stake -/

namespace Contest

variable {k : Contest} {outputs : List WalletOutput} {c : StakeCandidate} {o : WalletOutput}

/-- **How late the selected stake can be.** Its block is planned for no later time than that of another output
that weighs no more, if the other keeps no larger part of its amount as its weight, or is behind by a third in
the order that stakes are selected by; if the other weighs more, the selected stake is late by no more than
the time in which it gains a unit, and a millisecond. In all cases its wait is at most four thirds of the
other's, up to that time, and a selected stake of at least a coin gains a unit within two milliseconds. -/
theorem selected_stake_timing (info : MiningInfo) (knee : UInt64) (positive : 1 ≤ k.policy.minAmount)
    (selected : k.winner outputs = some c) (mem : o ∈ outputs) (admitted : k.admits o) :
    let d := k.candidate o
    ((d.weight knee).toNat * c.output.amount.toNat ≤ (c.weight knee).toNat * d.output.amount.toNat ∨
        4 * (c.target.toNat * d.output.amount.toNat) ≤ 3 * (d.target.toNat * c.output.amount.toNat) →
      (d.weight knee ≤ c.weight knee → (c.details info knee).nextBlockTime ≤ (d.details info knee).nextBlockTime) ∧
        c.wait info knee ≤ d.wait info knee + (c.unitTime info knee).toNat + 1) ∧
    3 * c.wait info knee ≤ 4 * d.wait info knee + 3 * (c.unitTime info knee).toNat + 6 ∧
    (coin ≤ k.policy.minAmount → c.unitTime info knee ≤ 1) := by
  intro d
  have hchosen := chosen_of_winner positive selected
  have hc : c.Funded := hchosen.funded positive
  have hd : d.Funded := funded_of_admits positive admitted
  have hrank : c.rank ≤ d.rank := (StakeCandidate.rank_le_iff hc hd).2 (hchosen.least o mem admitted)
  refine ⟨fun happart => ?_, ?_, fun hwhole => ?_⟩
  · have hweighted : c.target.toNat * (d.weight knee).toNat ≤ d.target.toNat * (c.weight knee).toNat := by
      rcases happart with hparts | hclear
      · have honce := StakeCandidate.weighted_of_rank_le hrank hc hd (Nat.mul_le_mul_left 1 hparts)
        exact Nat.le_of_mul_le_mul_left honce Nat.one_pos
      · exact StakeCandidate.weighted_of_clear knee hclear
    refine ⟨fun hheavier => StakeCandidate.nextBlockTime_mono rfl
      (StakeCandidate.lastEarly_le_of_weighted hweighted hheavier), ?_⟩
    have hwait := StakeCandidate.mul_wait_lt info Nat.one_pos (Nat.le_refl 1)
      (Nat.mul_le_mul_left 1 hweighted)
    omega
  · have hwait := StakeCandidate.mul_wait_lt info (by decide) (by decide)
      (StakeCandidate.weighted_of_rank_le hrank hc hd (StakeCandidate.parts_le c d knee))
    omega
  · exact StakeCandidate.unitTime_le_one info knee
      (UInt64.le_trans hwhole (minAmount_le_of_admits hchosen.admitted))

/-- One coin or more may stake, after 20 blocks. -/
def trialPolicy : StakePolicy :=
  ⟨⟨0⟩, coin, 20⟩

def trialHead : MiningInfo :=
  ⟨100, default, 1000, 1000000⟩

/-- Ten thousand coins, a single one, and ten thousand again. The first have the least target for their
amount, the single coin has a tenth more. -/
def trialStakes : List WalletOutput :=
  [⟨.ofBytes [0x00, 0x00, 0xe8, 0x89, 0x04, 0x23, 0xc7, 0x8a], 10000000000000000, ⟨0⟩, 1, 0⟩,
    ⟨.ofBytes [0x00, 0xc0, 0x40, 0xb5, 0x71, 0xe8, 0x03], coin, ⟨0⟩, 2, 0⟩,
    ⟨.ofBytes [0x00, 0x00, 0xe8, 0x89, 0x04, 0x23, 0xc7, 0x9a], 10000000000000000, ⟨0⟩, 3, 0⟩]

/-- The hash of an output is its key image. -/
def trialRace : Contest :=
  .onTopOf trialPolicy .ofBytes (fun _ => true) trialHead

theorem winner_trialRace :
    trialRace.winner trialStakes = some (trialRace.candidate trialStakes[0]) := by
  decide +kernel

theorem selected_stake_timing_trial :
    ((trialRace.candidate trialStakes[0]).details trialHead 1000000000000000).nextBlockTime ≤
        ((trialRace.candidate trialStakes[2]).details trialHead 1000000000000000).nextBlockTime ∧
      3 * (trialRace.candidate trialStakes[0]).wait trialHead 1000000000000000 ≤
        4 * (trialRace.candidate trialStakes[1]).wait trialHead 1000000000000000 + 9 := by
  obtain ⟨hequal, -⟩ := selected_stake_timing (o := trialStakes[2]) trialHead 1000000000000000 (by decide)
    winner_trialRace (by decide) (by decide +kernel)
  -- the single coin may be earlier, but not by much
  obtain ⟨-, hthird, hunit⟩ := selected_stake_timing (o := trialStakes[1]) trialHead 1000000000000000 (by decide)
    winner_trialRace (by decide) (by decide +kernel)
  have hunit' := UInt64.le_iff_toNat_le.1 (hunit (by decide))
  rw [UInt64.toNat_one] at hunit'
  exact ⟨(hequal (.inl (by decide +kernel))).1 (by decide +kernel), by omega⟩

/-- The selected stake need not be the first that can make a block: the angle of the ten thousand coins takes
almost a quarter of them, that of the single coin next to nothing. -/
theorem selected_stake_may_be_late :
    ¬ ∀ (policy : StakePolicy) (hasher : Hasher) (unlocked : WalletOutput → Bool) (info : MiningInfo)
      (knee : UInt64) (outputs : List WalletOutput) (c : StakeCandidate) (o : WalletOutput),
      1 ≤ policy.minAmount → (Contest.onTopOf policy hasher unlocked info).winner outputs = some c →
      o ∈ outputs → (Contest.onTopOf policy hasher unlocked info).admits o →
      (c.details info knee).nextBlockTime ≤
        (((Contest.onTopOf policy hasher unlocked info).candidate o).details info knee).nextBlockTime := by
  intro hclaim
  have hle := hclaim trialPolicy .ofBytes (fun _ => true) trialHead 1000000000000000 trialStakes _ trialStakes[1]
    (by decide) winner_trialRace (by decide) (by decide +kernel)
  have hslope : baseTarget trialHead.difficulty = 153722867280 := by decide +kernel
  have hweight : (trialRace.candidate trialStakes[0]).weight 1000000000000000 = 7658691406250000 := by
    decide +kernel
  have hweight' : (trialRace.candidate trialStakes[1]).weight 1000000000000000 = 999847412110 := by
    decide +kernel
  have htarget : (trialRace.candidate trialStakes[0]).target = 10000000000000000000 := by decide +kernel
  have htarget' : (trialRace.candidate trialStakes[1]).target = 1100000000000000 := by decide +kernel
  change (StakeCandidate.details (trialRace.candidate trialStakes[0]) _ _).nextBlockTime ≤
    (StakeCandidate.details (trialRace.candidate trialStakes[1]) _ _).nextBlockTime at hle
  rw [UInt64.le_iff_toNat_le, StakeCandidate.nextBlockTime_eq_min, StakeCandidate.nextBlockTime_eq_min,
    StakeCandidate.lastEarly_eq, StakeCandidate.lastEarly_eq, htarget, htarget', hslope, hweight, hweight',
    toNat_timeOffset, toNat_timeOffset] at hle
  revert hle
  decide

end Contest

end SwapStake
