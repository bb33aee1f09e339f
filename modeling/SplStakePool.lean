import SplStakePool.Lib.Checked
import SplStakePool.Lib.Exec
import SplStakePool.Lib.Transition
import SplStakePool.Lib.ShareVault
import SplStakePool.Error
import SplStakePool.BigVec
import SplStakePool.Runtime.Account
import SplStakePool.Runtime.Programs
import SplStakePool.State
import SplStakePool.Address
import SplStakePool.World
import SplStakePool.Cpi
import SplStakePool.Processor.Check
import SplStakePool.Processor.Initialize
import SplStakePool.Processor.Validator
import SplStakePool.Processor.Decrease
import SplStakePool.Processor.Increase
import SplStakePool.Processor.UpdateList
import SplStakePool.Processor.UpdatePool
import SplStakePool.Processor.Deposit
import SplStakePool.Processor.Withdraw
import SplStakePool.Processor.Manage
import SplStakePool.Instruction
import SplStakePool.Runtime.Reference
import SplStakePool.System
import SplStakePool.Invariant.Cpi
import SplStakePool.Invariant.Account
import SplStakePool.Invariant.Stake
import SplStakePool.Runtime.Session
import SplStakePool.Spec.Deposit
import SplStakePool.Spec.Withdraw
import SplStakePool.Spec.UpdatePool
import SplStakePool.Properties.SharePrice
import SplStakePool.Invariant.Token
import SplStakePool.Properties.NoExtraction
import SplStakePool.Properties.Slippage
import SplStakePool.Spec.Initialize
import SplStakePool.Spec.Manage
import SplStakePool.Spec.Validator
import SplStakePool.Spec.Increase
import SplStakePool.Spec.Decrease
import SplStakePool.Spec.UpdateList
import SplStakePool.Invariant.Core
import SplStakePool.Invariant.Entry
import SplStakePool.Effect.Increase
import SplStakePool.Effect.Decrease
import SplStakePool.Effect.Exchange
import SplStakePool.Effect.Update
import SplStakePool.Effect.Validator
import SplStakePool.Effect.Process
import SplStakePool.Invariant.Run
import SplStakePool.Properties.Solvency
import SplStakePool.Properties.StatusMachine
import SplStakePool.Spec.Signers
import SplStakePool.Properties.AccessControl
import SplStakePool.Effect.Supply
import SplStakePool.Effect.Fees
import SplStakePool.Invariant.Backing
import SplStakePool.Properties.TokenSupply
import SplStakePool.Properties.Arithmetic
import SplStakePool.Properties.FeeSchedule
import SplStakePool.Properties.PriceFreshness
import SplStakePool.Lib.Buffer
import SplStakePool.BigVec.Raw
import SplStakePool.Layout
import SplStakePool.Properties.ListWellFormed
import SplStakePool.Lib.Chunks
import SplStakePool.Client.Update
import SplStakePool.Properties.UpdateCoverage
import SplStakePool.Lib.Footprint
import SplStakePool.Lib.Commute
import SplStakePool.Effect.Locality
import SplStakePool.Properties.ChunkOrder
import SplStakePool.Properties.WithdrawalFee
import SplStakePool.Properties.MaxStake
import SplStakePool.Properties.PreferredValidators
import SplStakePool.Properties.MergeTable
import SplStakePool.Effect.Accounting
import SplStakePool.Properties.EntryAccounting
import SplStakePool.Properties.UpdateRerun
import SplStakePool.Properties.EpochFee
import SplStakePool.Lib.Borsh
import SplStakePool.Layout.Pool
import SplStakePool.Properties.Persistence
import SplStakePool.Client.Python
import SplStakePool.Properties.PythonDecoding
import SplStakePool.Layout.Instruction
import SplStakePool.Properties.InstructionEncoding
import SplStakePool.Client.JsUpdate
import SplStakePool.Properties.ClientAgreement
import SplStakePool.Client.JsWithdraw
import SplStakePool.Lib.Greedy
import SplStakePool.Properties.WithdrawalPlan
import SplStakePool.Client.Withdraw
import SplStakePool.Properties.WithdrawalExecution
import SplStakePool.Invariant.Voter
import SplStakePool.Properties.WithdrawAvailability
import SplStakePool.Invariant.Books
import SplStakePool.Properties.OrphanedStake
import SplStakePool.BigVec.Refinement
import SplStakePool.Lib.ReprC
import SplStakePool.Layout.Views
import SplStakePool.Properties.ListViews
import SplStakePool.Layout.Cleanup
import SplStakePool.Properties.CleanupFilter
import SplStakePool.Client.JsDeposit
import SplStakePool.Properties.JsDepositDecoding
import SplStakePool.Client.PyInstruction
import SplStakePool.Properties.PyInstructions
import SplStakePool.Client.AddValidator
import SplStakePool.Properties.SeedSearch
import SplStakePool.Properties.Splitting
import SplStakePool.Properties.WithdrawalPriority
import SplStakePool.Lib.Ledger
import SplStakePool.Properties.StakePaths
import SplStakePool.Properties.FaultyFeeAccount
import SplStakePool.BigVec.Errors
import SplStakePool.Properties.AddressPreimages
import SplStakePool.Invariant.Mint
import SplStakePool.Properties.UpdateAvailability
import SplStakePool.Properties.HolderValue
import SplStakePool.Invariant.Leaving
import SplStakePool.Properties.Removal
import SplStakePool.Lib.Components
import SplStakePool.Effect.Calls
import SplStakePool.Invariant.Foreign
import SplStakePool.Deployment
import SplStakePool.Properties.ManyPools
import SplStakePool.Lib.Format
import SplStakePool.Properties.WireFormat
import SplStakePool.Layout.Format
import SplStakePool.Properties.Sweep
import SplStakePool.Properties.MergingUpdates
import SplStakePool.Invariant.Delegation
import SplStakePool.Properties.StakeDelegation
import SplStakePool.Client.Rebalance
import SplStakePool.Properties.Rebalancing
import SplStakePool.Lib.Gather
import SplStakePool.Client.RebalanceBot
import SplStakePool.Properties.RebalanceBot
import SplStakePool.Spec.Errors
import SplStakePool.Properties.CalculationFailure
import SplStakePool.Effect.Payments
import SplStakePool.Properties.ClientPlan
import SplStakePool.Properties.WithdrawalSources
import SplStakePool.Effect.WithdrawalCalls
