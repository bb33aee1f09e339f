import SplStakePool.Processor.Initialize
import SplStakePool.Processor.Validator
import SplStakePool.Processor.Decrease
import SplStakePool.Processor.Increase
import SplStakePool.Processor.UpdateList
import SplStakePool.Processor.UpdatePool
import SplStakePool.Processor.Deposit
import SplStakePool.Processor.Withdraw
import SplStakePool.Processor.Manage

/-!
# Instructions and their dispatch (`instruction.rs`, `Processor::process`)

The variants in the order of the source, with the fields that their handlers read. Variants that share a
handler differ in its last arguments: whether there is a reserve account or an ephemeral one, and the minimum
that the user will accept. `Redelegate` is not supported any more and always fails.
-/

namespace SplStakePool

variable (Key : Type)

inductive StakePoolInstruction
  | initializePool (fee withdrawalFee depositFee : Fee) (referralFee : UInt8) (maxValidators : Nat)
  | addValidatorToPool (seed : UInt32)
  | removeValidatorFromPool
  | decreaseValidatorStake (lamports : Nat) (transientStakeSeed : UInt64)
  | increaseValidatorStake (lamports : Nat) (transientStakeSeed : UInt64)
  | setPreferredValidator (validatorType : PreferredValidatorType) (validatorVoteAddress : Option Key)
  | updateValidatorListBalance (startIndex : Nat) (noMerge : Bool)
  | updateStakePoolBalance
  | cleanupRemovedValidatorEntries
  | depositStake
  | withdrawStake (poolTokens : Nat)
  | setManager
  | setFee (fee : FeeType)
  | setStaker
  | depositSol (lamports : Nat)
  | setFundingAuthority (fundingType : FundingType)
  | withdrawSol (poolTokens : Nat)
  | createTokenMetadata (name symbol uri : String)
  | updateTokenMetadata (name symbol uri : String)
  | increaseAdditionalValidatorStake (lamports : Nat) (transientStakeSeed ephemeralStakeSeed : UInt64)
  | decreaseAdditionalValidatorStake (lamports : Nat) (transientStakeSeed ephemeralStakeSeed : UInt64)
  | decreaseValidatorStakeWithReserve (lamports : Nat) (transientStakeSeed : UInt64)
  | redelegate
  | depositStakeWithSlippage (minimumPoolTokensOut : Nat)
  | withdrawStakeWithSlippage (poolTokensIn minimumLamportsOut : Nat)
  | depositSolWithSlippage (lamportsIn minimumPoolTokensOut : Nat)
  | withdrawSolWithSlippage (poolTokensIn minimumLamportsOut : Nat)
  | setMaxValidatorStake (maxStake : Option Nat)
deriving DecidableEq, Repr

variable {Key} [DecidableEq Key] [Inhabited Key]

def process (rt : Runtime Key) (w : World Key) (accounts : List (AccountInfo Key))
    (instruction : StakePoolInstruction Key) : Except ProgramError (World Key) :=
  match instruction with
  | .initializePool fee withdrawalFee depositFee referralFee maxValidators =>
    processInitialize rt w accounts fee withdrawalFee depositFee referralFee maxValidators
  | .addValidatorToPool seed => processAddValidatorToPool rt w accounts seed
  | .removeValidatorFromPool => processRemoveValidatorFromPool rt w accounts
  | .decreaseValidatorStake lamports transientStakeSeed =>
    processDecreaseValidatorStake rt w accounts lamports transientStakeSeed none false
  | .decreaseValidatorStakeWithReserve lamports transientStakeSeed =>
    processDecreaseValidatorStake rt w accounts lamports transientStakeSeed none true
  | .decreaseAdditionalValidatorStake lamports transientStakeSeed ephemeralStakeSeed =>
    processDecreaseValidatorStake rt w accounts lamports transientStakeSeed (some ephemeralStakeSeed)
      true
  | .increaseValidatorStake lamports transientStakeSeed =>
    processIncreaseValidatorStake rt w accounts lamports transientStakeSeed none
  | .increaseAdditionalValidatorStake lamports transientStakeSeed ephemeralStakeSeed =>
    processIncreaseValidatorStake rt w accounts lamports transientStakeSeed (some ephemeralStakeSeed)
  | .setPreferredValidator validatorType validatorVoteAddress =>
    processSetPreferredValidator rt w accounts validatorType validatorVoteAddress
  | .updateValidatorListBalance startIndex noMerge =>
    processUpdateValidatorListBalance rt w accounts startIndex noMerge
  | .updateStakePoolBalance => processUpdateStakePoolBalance rt w accounts
  | .cleanupRemovedValidatorEntries => processCleanupRemovedValidatorEntries rt w accounts
  | .depositStake => processDepositStake rt w accounts none
  | .withdrawStake amount => processWithdrawStake rt w accounts amount none
  | .setFee fee => processSetFee rt w accounts fee
  | .setManager => processSetManager rt w accounts
  | .setStaker => processSetStaker rt w accounts
  | .setFundingAuthority fundingType => processSetFundingAuthority rt w accounts fundingType
  | .depositSol lamports => processDepositSol rt w accounts lamports none
  | .withdrawSol poolTokens => processWithdrawSol rt w accounts poolTokens none
  | .createTokenMetadata name symbol uri => processCreatePoolTokenMetadata rt w accounts name symbol uri
  | .updateTokenMetadata name symbol uri => processUpdatePoolTokenMetadata rt w accounts name symbol uri
  | .redelegate => .error .invalidInstructionData
  | .depositStakeWithSlippage minimumPoolTokensOut =>
    processDepositStake rt w accounts (some minimumPoolTokensOut)
  | .withdrawStakeWithSlippage poolTokensIn minimumLamportsOut =>
    processWithdrawStake rt w accounts poolTokensIn (some minimumLamportsOut)
  | .depositSolWithSlippage lamportsIn minimumPoolTokensOut =>
    processDepositSol rt w accounts lamportsIn (some minimumPoolTokensOut)
  | .withdrawSolWithSlippage poolTokensIn minimumLamportsOut =>
    processWithdrawSol rt w accounts poolTokensIn (some minimumLamportsOut)
  | .setMaxValidatorStake maxStake => processSetMaxValidatorStake rt w accounts maxStake

end SplStakePool
