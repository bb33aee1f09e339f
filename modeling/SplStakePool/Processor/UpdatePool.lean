import SplStakePool.Processor.Check

/-!
# `UpdateStakePoolBalance`, `CleanupRemovedValidatorEntries` and `SetPreferredValidator`

The update of the pool adds up the reserve and the list, pays the epoch fee on what was gained, and advances the
pending fees in the first update of an epoch. It sets the counter of tokens to what the mint says. The cleanup
drops removed entries, and forgets a preferred validator that is not active any more where the pool can be
written.
-/

namespace SplStakePool
open Exec Machine

variable {Key : Type} [DecidableEq Key] (rt : Runtime Key)

variable (Key) in
structure UpdateStakePoolBalanceAccounts where
  stakePoolInfo : AccountInfo Key
  withdrawInfo : AccountInfo Key
  validatorListInfo : AccountInfo Key
  reserveStakeInfo : AccountInfo Key
  managerFeeInfo : AccountInfo Key
  poolMintInfo : AccountInfo Key
  tokenProgramInfo : AccountInfo Key

def UpdateStakePoolBalanceAccounts.parse : AccountIter Key (UpdateStakePoolBalanceAccounts Key) := do
  let stakePoolInfo ← nextAccountInfo
  let withdrawInfo ← nextAccountInfo
  let validatorListInfo ← nextAccountInfo
  let reserveStakeInfo ← nextAccountInfo
  let managerFeeInfo ← nextAccountInfo
  let poolMintInfo ← nextAccountInfo
  let tokenProgramInfo ← nextAccountInfo
  return {
    stakePoolInfo, withdrawInfo, validatorListInfo, reserveStakeInfo, managerFeeInfo, poolMintInfo,
    tokenProgramInfo }

/-- The lamports of the reserve beyond its minimum. -/
def reserveLamportsAvailable (a : Account Key) : Except ProgramError Nat := do
  match ← readStakeState a with
  | .initialized m => orErr (checkedSub a.lamports (minimumReserveLamports m)) (.custom .calculationFailure)
  | _ => .error (.custom .wrongStakeStake)

/-- Adds up the entries, all of which must be up to date. -/
def sumStakeLamports (epoch : Nat) : Nat → List (ValidatorStakeInfo Key) → Except ProgramError Nat
  | total, [] => .ok total
  | total, v :: vs => do
    ensure (epoch ≤ v.lastUpdateEpoch) (.custom .stakeListOutOfDate)
    let stake ← v.stakeLamports
    let total ← orErr (checkedAdd 64 total stake) (.custom .calculationFailure)
    sumStakeLamports epoch total vs

/-- The fee on a reward; none if the fee account is not valid. -/
def StakePool.epochFeeToMint (p : StakePool Key) (accounts : Accounts Key)
    (managerFeeInfo : AccountInfo Key) (rewardLamports : Nat) : Except ProgramError Nat :=
  match p.checkManagerFeeInfo rt accounts managerFeeInfo with
  | .ok _ => orErr (p.calcEpochFeeAmount rewardLamports) (.custom .calculationFailure)
  | .error _ => .ok 0

/-- The fees and the statistics of the pool at the first update in an epoch. -/
def StakePool.startEpoch (p : StakePool Key) (epoch : Nat) : StakePool Key :=
  { p with
    epochFee := p.nextEpochFee.get.getD p.epochFee
    nextEpochFee := p.nextEpochFee.updateEpoch
    stakeWithdrawalFee := p.nextStakeWithdrawalFee.get.getD p.stakeWithdrawalFee
    nextStakeWithdrawalFee := p.nextStakeWithdrawalFee.updateEpoch
    solWithdrawalFee := p.nextSolWithdrawalFee.get.getD p.solWithdrawalFee
    nextSolWithdrawalFee := p.nextSolWithdrawalFee.updateEpoch
    lastUpdateEpoch := epoch
    lastEpochTotalLamports := p.totalLamports
    lastEpochPoolTokenSupply := p.poolTokenSupply }

def UpdateStakePoolBalanceAccounts.process (w : World Key) (a : UpdateStakePoolBalanceAccounts Key) :
    Except ProgramError (World Key) := do
  let stakePool ← w.validStakePool rt a.stakePoolInfo
  let _ ← stakePool.checkMint w.accounts a.poolMintInfo
  stakePool.checkAuthorityWithdraw rt a.withdrawInfo.key rt.programId a.stakePoolInfo.key
  stakePool.checkReserveStake a.reserveStakeInfo
  ensure (stakePool.managerFeeAccount = a.managerFeeInfo.key) (.custom .invalidFeeAccount)
  stakePool.checkValidatorList a.validatorListInfo
  ensure (stakePool.tokenProgramId = a.tokenProgramInfo.key) .incorrectProgramId
  let validatorList ← w.validValidatorList rt a.validatorListInfo
  let previousLamports := stakePool.totalLamports
  let reserveLamports ← reserveLamportsAvailable (w.accounts a.reserveStakeInfo.key)
  let slice ← BigVec.deserializeSlice validatorList.validators 0 validatorList.validators.length
  let totalLamports ← sumStakeLamports w.sysvars.epoch reserveLamports slice
  let rewardLamports := saturatingSub totalLamports previousLamports
  let fee ← stakePool.epochFeeToMint rt w.accounts a.managerFeeInfo rewardLamports
  let accounts ← (
    if fee > 0 then tokenMintTo rt w.accounts a.poolMintInfo a.managerFeeInfo a.withdrawInfo fee
    else pure w.accounts)
  let stakePool :=
    if stakePool.lastUpdateEpoch < w.sysvars.epoch then stakePool.startEpoch w.sysvars.epoch
    else stakePool
  let poolMint ← unpackMint (accounts a.poolMintInfo.key)
  return { w with
    stakePool := { stakePool with totalLamports, poolTokenSupply := poolMint.supply }
    accounts }

def processUpdateStakePoolBalance (w : World Key) (accounts : List (AccountInfo Key)) :
    Except ProgramError (World Key) := do
  let (a, _) ← UpdateStakePoolBalanceAccounts.parse accounts
  a.process rt w

variable (Key) in
structure CleanupRemovedValidatorEntriesAccounts where
  stakePoolInfo : AccountInfo Key
  validatorListInfo : AccountInfo Key

def CleanupRemovedValidatorEntriesAccounts.parse :
    AccountIter Key (CleanupRemovedValidatorEntriesAccounts Key) := do
  let stakePoolInfo ← nextAccountInfo
  let validatorListInfo ← nextAccountInfo
  return { stakePoolInfo, validatorListInfo }

/-- A preferred validator is kept if it is in the list with status active. -/
def ValidatorList.keepPreferred (l : ValidatorList Key) (preferred : Option Key) : Option Key :=
  preferred.filter fun vote =>
    match l.find vote with
    | some v => StakeStatus.fromU8 v.status.byte = some .active
    | none => false

def CleanupRemovedValidatorEntriesAccounts.process (w : World Key)
    (a : CleanupRemovedValidatorEntriesAccounts Key) : Except ProgramError (World Key) := do
  let stakePool ← w.validStakePool rt a.stakePoolInfo
  stakePool.checkValidatorList a.validatorListInfo
  let validatorList ← w.validValidatorList rt a.validatorListInfo
  let validatorList := { validatorList with
    validators := validatorList.validators.filter fun v => ¬ v.isRemoved }
  if a.stakePoolInfo.isWritable then
    return { w with
      stakePool := { stakePool with
        preferredDepositValidatorVoteAddress :=
          validatorList.keepPreferred stakePool.preferredDepositValidatorVoteAddress
        preferredWithdrawValidatorVoteAddress :=
          validatorList.keepPreferred stakePool.preferredWithdrawValidatorVoteAddress }
      validatorList }
  else return { w with validatorList }

def processCleanupRemovedValidatorEntries (w : World Key) (accounts : List (AccountInfo Key)) :
    Except ProgramError (World Key) := do
  let (a, _) ← CleanupRemovedValidatorEntriesAccounts.parse accounts
  a.process rt w

inductive PreferredValidatorType
  | deposit | withdraw
deriving DecidableEq, Repr

variable (Key) in
structure SetPreferredValidatorAccounts where
  stakePoolInfo : AccountInfo Key
  stakerInfo : AccountInfo Key
  validatorListInfo : AccountInfo Key

def SetPreferredValidatorAccounts.parse : AccountIter Key (SetPreferredValidatorAccounts Key) := do
  let stakePoolInfo ← nextAccountInfo
  let stakerInfo ← nextAccountInfo
  let validatorListInfo ← nextAccountInfo
  return { stakePoolInfo, stakerInfo, validatorListInfo }

/-- A new preferred validator must be in the list with status active. -/
def ValidatorList.checkPreferred (l : ValidatorList Key) (voteAccountAddress : Option Key) :
    Except ProgramError Unit :=
  match voteAccountAddress with
  | some vote => do
    let v ← orErr (l.find vote) (.custom .validatorNotFound)
    ensure (v.status = StakeStatus.active.pod) (.custom .invalidPreferredValidator)
  | none => .ok ()

def StakePool.setPreferred (p : StakePool Key) (validatorType : PreferredValidatorType)
    (voteAccountAddress : Option Key) : StakePool Key :=
  match validatorType with
  | .deposit => { p with preferredDepositValidatorVoteAddress := voteAccountAddress }
  | .withdraw => { p with preferredWithdrawValidatorVoteAddress := voteAccountAddress }

def SetPreferredValidatorAccounts.process (w : World Key) (a : SetPreferredValidatorAccounts Key)
    (validatorType : PreferredValidatorType) (voteAccountAddress : Option Key) :
    Except ProgramError (World Key) := do
  checkAccountOwner rt w.accounts a.stakePoolInfo rt.programId
  checkAccountOwner rt w.accounts a.validatorListInfo rt.programId
  let stakePool ← w.validStakePool rt a.stakePoolInfo
  stakePool.checkStaker a.stakerInfo
  stakePool.checkValidatorList a.validatorListInfo
  let validatorList ← w.validValidatorList rt a.validatorListInfo
  validatorList.checkPreferred voteAccountAddress
  return { w with stakePool := stakePool.setPreferred validatorType voteAccountAddress }

def processSetPreferredValidator (w : World Key) (accounts : List (AccountInfo Key))
    (validatorType : PreferredValidatorType) (voteAccountAddress : Option Key) :
    Except ProgramError (World Key) := do
  let (a, _) ← SetPreferredValidatorAccounts.parse accounts
  a.process rt w validatorType voteAccountAddress

end SplStakePool
