import SwapStake.Angle
import SwapStake.Binary64
import SwapStake.Chain.Sha256
import SwapStake.Exchange.Handle
import SwapStake.Metrics
import SwapStake.Mining.Timeline
import SwapStake.Pool.Shares
import SwapStake.Route.Leg
import SwapStake.Route.Market
import SwapStake.Schedule.Timeline
import SwapStake.Settings.Read
import SwapStake.Stake.Slot
import SwapStake.Token.PairName
import SwapStake.UInt128.Decimal
import SwapStake.Proofs.Exchange.Budget
import SwapStake.Proofs.Exchange.CommitGuard
import SwapStake.Proofs.Exchange.Completion
import SwapStake.Proofs.Mining.OnePerHead
import SwapStake.Proofs.Mining.Timeline
import SwapStake.Proofs.Pool.Lifetime
import SwapStake.Proofs.Route.Conservation
import SwapStake.Proofs.Route.SaleProduct
import SwapStake.Proofs.Schedule.Timeline
import SwapStake.Proofs.Token.PairName
import SwapStake.Proofs.Route.Planning
import SwapStake.Proofs.UInt128.Decimal
import SwapStake.Proofs.Route.Composition
import SwapStake.Proofs.Route.BothSides
import SwapStake.Proofs.Route.Splitting
import SwapStake.Proofs.Exchange.Accounts
import SwapStake.Proofs.Exchange.Isolation
import SwapStake.Proofs.Mining.Tasks
import SwapStake.Proofs.Stake.Weight
import SwapStake.Proofs.UInt128.Limbs
import SwapStake.Proofs.Exchange.Pacing
import SwapStake.Proofs.Stake.SelectedSlot
import SwapStake.Proofs.Stake.WeightBounds
import SwapStake.Proofs.Route.PurchaseProduct
import SwapStake.Proofs.Stake.Selection
import SwapStake.Proofs.Route.RoundTrip
import SwapStake.Proofs.Pool.Withdrawals
import SwapStake.Proofs.Route.Tracing
import SwapStake.Proofs.Mining.ShownPlan
import SwapStake.Proofs.Angle.Accuracy
