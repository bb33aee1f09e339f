import Mathlib.Data.List.Sort
import SplStakePool.Client.Update
import SplStakePool.Processor.Withdraw

/-!
# The withdrawal of stake as the command line client plans it (`main.rs`, `instruction.rs`)

The client reads the accounts of a world and plans how a withdrawal is spread over the stake accounts of the
pool. A panic, or a value that wraps, is `none`.

It reads the accounts of the cluster and decodes them; here it reads them from the world. Sorting is stable, as that of
the source is. What the command line options for a single account leave out of the plan is not modelled.
-/

namespace SplStakePool
open Machine

variable {Key : Type}

inductive ClientError
  | accountNotFound
  | invalidTokenMint
  /-- "No stake accounts found in this pool with enough balance to withdraw" -/
  | notEnoughStake
deriving DecidableEq

variable (Key) in
structure WithdrawAccount where
  stakeAddress : Key
  voteAddress : Option Key
  poolAmount : Nat
deriving DecidableEq

section
variable [DecidableEq Key]

/-- Whether `sort_by` leaves two accounts in their order: the one of the preferred validator is first, and
the others are in the order of their lamports. -/
def sortsBefore (stakePool : StakePool Key) (left right : Key × Nat × Option Key) : Prop :=
  left.2.2 = stakePool.preferredWithdrawValidatorVoteAddress ∨
    right.2.2 ≠ stakePool.preferredWithdrawValidatorVoteAddress ∧ right.2.1 ≤ left.2.1

instance (stakePool : StakePool Key) : DecidableRel (sortsBefore stakePool) := fun _ _ =>
  inferInstanceAs (Decidable (_ ∨ _ ∧ _))

def sortedAccounts (validatorList : ValidatorList Key) (stakePool : StakePool Key)
    (getInfo : ValidatorStakeInfo Key → Key × Nat × Option Key) : List (Key × Nat × Option Key) :=
  (validatorList.validators.map getInfo).insertionSort (sortsBefore stakePool)

end

/-- The pool tokens that may be withdrawn for lamports. -/
def availableForWithdrawal (stakePool : StakePool Key) (skipFee : Bool) (lamports : Nat) : Option Nat := do
  let fee := stakePool.stakeWithdrawalFee
  let inverseFeeNumerator ← checkedSub fee.denominator.toNat fee.numerator.toNat
  let availableForWithdrawalWoFee ← stakePool.calcPoolTokensForDeposit lamports
  if skipFee then return availableForWithdrawalWoFee
  else checkedDiv (← checkedMul 64 availableForWithdrawalWoFee fee.denominator.toNat) inverseFeeNumerator

/-- The loop over the accounts, with the amount that remains after it. -/
def withdrawFromAccounts (stakePool : StakePool Key) (minBalance : Nat) (skipFee : Bool) :
    List (Key × Nat × Option Key) → Nat → Option (List (WithdrawAccount Key) × Nat)
  | [], remainingAmount => some ([], remainingAmount)
  | (stakeAddress, lamports, voteAddress) :: accounts, remainingAmount =>
    if lamports ≤ minBalance then withdrawFromAccounts stakePool minBalance skipFee accounts remainingAmount
    else do
      let available ← availableForWithdrawal stakePool skipFee lamports
      let poolAmount := min available remainingAmount
      let withdraw := ⟨stakeAddress, voteAddress, poolAmount⟩
      if remainingAmount - poolAmount = 0 then return ([withdraw], 0)
      else
        let (withdrawFrom, remainingAmount) ←
          withdrawFromAccounts stakePool minBalance skipFee accounts (remainingAmount - poolAmount)
        return (withdraw :: withdrawFrom, remainingAmount)

section
variable [DecidableEq Key] (rt : Runtime Key) (w : World Key)

/-- `min_balance` -/
def minBalance : Nat :=
  saturatingAdd 64 (rt.rentMinimumBalance stakeSpace) (minimumDelegation w.sysvars.minimumDelegation)

/-- The validator stake account of an entry with what is recorded for it. -/
def activeInfo (validator : ValidatorStakeInfo Key) : Key × Nat × Option Key :=
  ((findStakeProgramAddress rt rt.programId validator.voteAccountAddress rt.stakePoolAddress
      (nonZeroU32 validator.validatorSeedSuffix)).1,
    validator.activeStakeLamports, some validator.voteAccountAddress)

def transientInfo (validator : ValidatorStakeInfo Key) : Key × Nat × Option Key :=
  ((findTransientStakeProgramAddress rt rt.programId validator.voteAccountAddress rt.stakePoolAddress
      validator.transientSeedSuffix).1,
    saturatingSub validator.transientStakeLamports (minBalance rt w), some validator.voteAccountAddress)

/-- The accounts of the pool: the validator stake accounts, the transient ones, the reserve. -/
def withdrawableAccounts (reserveLamports : Nat) : List (Key × Nat × Option Key) :=
  sortedAccounts w.validatorList w.stakePool (activeInfo rt) ++
    sortedAccounts w.validatorList w.stakePool (transientInfo rt w) ++
    [(w.stakePool.reserveStake, reserveLamports, none)]

def prepareWithdrawAccounts (poolAmount : Nat) (skipFee : Bool) :
    Option (Except ClientError (List (WithdrawAccount Key))) :=
  match (w.accounts w.stakePool.poolMint).data with
  | .mint _ =>
    let reserveStake := w.accounts w.stakePool.reserveStake
    if reserveStake.lamports = 0 then some (.error .accountNotFound)
    else do
      let reserveLamports ← checkedSub (← checkedSub reserveStake.lamports (rt.rentMinimumBalance stakeSpace)) minimumReserve
      let _ ← checkedSub w.stakePool.stakeWithdrawalFee.denominator.toNat w.stakePool.stakeWithdrawalFee.numerator.toNat
      let (withdrawFrom, remainingAmount) ← withdrawFromAccounts w.stakePool (minBalance rt w) skipFee
        (withdrawableAccounts rt w reserveLamports) poolAmount
      if remainingAmount > 0 then return .error .notEnoughStake
      else return .ok withdrawFrom
  | _ => some (.error .invalidTokenMint)

/-- `withdraw_stake` -/
def withdrawStake (programId stakePool validatorListStorage stakePoolWithdraw stakeToSplit stakeToReceive
    userStakeAuthority userTransferAuthority userPoolTokenAccount managerFeeAccount poolMint tokenProgramId : Key)
    (poolTokensIn : Nat) : Instruction Key where
  programId
  accounts := [.writable stakePool, .writable validatorListStorage, .readonly stakePoolWithdraw,
    .writable stakeToSplit, .writable stakeToReceive, .readonly userStakeAuthority,
    ⟨userTransferAuthority, true, false⟩, .writable userPoolTokenAccount, .writable managerFeeAccount,
    .writable poolMint, .readonly rt.clockId, .readonly tokenProgramId, .readonly rt.stakeProgramId]
  data := .withdrawStake poolTokensIn

omit [DecidableEq Key] in
/-- `new_stake_account`: the account that is created to receive stake. -/
def newStakeAccount : Account Key := ⟨rt.rentMinimumBalance stakeSpace, rt.stakeProgramId, .stakeState .uninitialized⟩

variable (Key) in
/-- The keys of the caller. -/
structure WithdrawCaller where
  staker : Key
  userTransferAuthority : Key
  poolTokenAccount : Key

/-- The instruction that `command_withdraw_stake` builds for an account of a plan. -/
def WithdrawCaller.instruction (caller : WithdrawCaller Key) (s : WithdrawAccount Key) (stakeReceiver : Key) :
    Instruction Key :=
  withdrawStake rt rt.programId rt.stakePoolAddress w.stakePool.validatorList
    (findWithdrawAuthorityProgramAddress rt rt.programId rt.stakePoolAddress).1 s.stakeAddress stakeReceiver
    caller.staker caller.userTransferAuthority caller.poolTokenAccount w.stakePool.managerFeeAccount
    w.stakePool.poolMint w.stakePool.tokenProgramId s.poolAmount

end
end SplStakePool
