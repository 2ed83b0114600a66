import Nosana.Checked
import Nosana.Machine
import Nosana.Totals
import Nosana.Accounts
import Nosana.Token
import Nosana.StakingState
import Nosana.JobsState
import Nosana.JobsInstructions
import Nosana.JobsProgram
import Nosana.JobsQueue
import Nosana.JobsEffects
import Nosana.JobsBoard
import Nosana.JobsConsistency
import Nosana.JobsPlacement
import Nosana.JobsVault
import Nosana.JobsSolvency
import Nosana.JobsLifecycle
import Nosana.JobsSettlement
import Nosana.JobsPayout
import Nosana.Matching
import Nosana.JobsFirstCome
import Nosana.SharePool
import Nosana.RewardsState
import Nosana.RewardsProgram
import Nosana.RewardsPool
import Nosana.RewardsBookkeeping
import Nosana.RewardsSolvency
import Nosana.RewardsRate
import Nosana.Vesting
import Nosana.StakingProgram
import Nosana.StakingVesting
import Nosana.StakingEffects
import Nosana.StakingLifecycle
import Nosana.StakingWithdraw
import Nosana.Network
import Nosana.NetworkActive
import Nosana.Tally
import Nosana.RewardsEarnings
import Nosana.RewardsLevel
import Nosana.RewardsOverflow
import Nosana.StakingInvariant
import Nosana.StakingSchedule
import Nosana.StakingMultiple
import Nosana.JobsAccess
import Nosana.JobsRestriction
import Nosana.PoolsDrain
import Nosana.PoolsRange
import Nosana.Interleaving
import Nosana.JobsAssign
import Nosana.WriterCalls
import Nosana.JobsClean
import Nosana.JobsCleanAdmin
import Nosana.JobsResults
import Nosana.JobsTotality
import Nosana.RewardsOrder
import Nosana.Method
import Nosana.NodesTypes
import Nosana.NodesState
import Nosana.NodesProgram
import Nosana.NodesRegistration
import Nosana.Projection
import Nosana.Custody
import Nosana.Spending
import Nosana.Chain
import Nosana.ChainSimulation
import Nosana.Releases
import Nosana.ChainCustody
import Nosana.ChainSolvency
import Nosana.StakingExit
import Nosana.ChainExit
import Nosana.ChainAdmission
import Nosana.JobsSigners
import Nosana.JobsContract
import Nosana.JobsAgreement
import Nosana.JobsOffers
import Nosana.JobsExit
import Nosana.Records
import Nosana.LastWrites
import Nosana.JobsTurns
import Nosana.RewardsLedger
import Nosana.JobsWages
import Nosana.RewardsClaims
import Nosana.RewardsRemainder
