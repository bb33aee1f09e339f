import SplStakePool.Processor.Check

/-!
# `AddValidatorToPool` and `RemoveValidatorFromPool`

The staker adds a validator with the minimum stake, taken from the reserve. A removal deactivates the stake of an
active entry and marks it; the entry is dropped by an update and a cleanup when the stake has cooled down.
-/

namespace SplStakePool
open Exec Machine

variable {Key : Type} [DecidableEq Key] (rt : Runtime Key)

variable (Key) in
structure AddValidatorToPoolAccounts where
  stakePoolInfo : AccountInfo Key
  stakerInfo : AccountInfo Key
  reserveStakeInfo : AccountInfo Key
  withdrawAuthorityInfo : AccountInfo Key
  validatorListInfo : AccountInfo Key
  stakeInfo : AccountInfo Key
  validatorVoteInfo : AccountInfo Key
  systemProgramInfo : AccountInfo Key
  stakeProgramInfo : AccountInfo Key

def AddValidatorToPoolAccounts.parse : AccountIter Key (AddValidatorToPoolAccounts Key) := do
  let stakePoolInfo ← nextAccountInfo
  let stakerInfo ← nextAccountInfo
  let reserveStakeInfo ← nextAccountInfo
  let withdrawAuthorityInfo ← nextAccountInfo
  let validatorListInfo ← nextAccountInfo
  let stakeInfo ← nextAccountInfo
  let validatorVoteInfo ← nextAccountInfo
  let _rentInfo ← nextSysvar rt.rentId
  let _clockInfo ← nextSysvar rt.clockId
  let _stakeHistoryInfo ← nextAccountInfo
  let _stakeConfigInfo ← nextAccountInfo
  let systemProgramInfo ← nextAccountInfo
  let stakeProgramInfo ← nextAccountInfo
  return {
    stakePoolInfo, stakerInfo, reserveStakeInfo, withdrawAuthorityInfo, validatorListInfo, stakeInfo,
    validatorVoteInfo, systemProgramInfo, stakeProgramInfo }

/-- The minimum and the rent-exempt balance, which a new validator stake account is funded with. -/
def addValidatorLamports (w : World Key) : Nat :=
  saturatingAdd 64 (minimumDelegation w.sysvars.minimumDelegation) (rt.rentMinimumBalance stakeSpace)

def AddValidatorToPoolAccounts.process (w : World Key) (a : AddValidatorToPoolAccounts Key)
    (rawValidatorSeed : UInt32) : Except ProgramError (World Key) := do
  checkSystemProgram rt a.systemProgramInfo.key
  checkStakeProgram rt a.stakeProgramInfo.key
  let stakePool ← w.validStakePool rt a.stakePoolInfo
  stakePool.checkAuthorityWithdraw rt a.withdrawAuthorityInfo.key rt.programId a.stakePoolInfo.key
  stakePool.checkStaker a.stakerInfo
  stakePool.checkReserveStake a.reserveStakeInfo
  stakePool.checkValidatorList a.validatorListInfo
  ensure (w.sysvars.epoch ≤ stakePool.lastUpdateEpoch) (.custom .stakeListAndPoolOutOfDate)
  let validatorList ← w.validValidatorList rt a.validatorListInfo
  ensure (validatorList.header.maxValidators ≠ validatorList.validators.length)
    ProgramError.accountDataTooSmall
  ensure (validatorList.validators.length < maxValidatorsInPool) (.custom .tooManyValidatorsInPool)
  ensure (validatorList.find a.validatorVoteInfo.key = none) (.custom .validatorAlreadyAdded)
  let validatorSeed := nonZeroU32 rawValidatorSeed
  let (stakeAddress, _) := findStakeProgramAddress rt rt.programId a.validatorVoteInfo.key
    a.stakePoolInfo.key validatorSeed
  ensure (stakeAddress = a.stakeInfo.key) (.custom .invalidStakeAccountAddress)
  let requiredLamports := addValidatorLamports rt w
  -- check that the reserve is not drained totally
  let reserveStake ← readStakeState (w.accounts a.reserveStakeInfo.key)
  let reserveMeta ← orErr reserveStake.meta? (.custom .wrongStakeStake)
  let reserveLamports := (w.accounts a.reserveStakeInfo.key).lamports
  ensure (minimumReserveLamports reserveMeta ≤ saturatingSub reserveLamports requiredLamports)
    ProgramError.insufficientFunds
  let accounts ← createStakeAccount rt w.accounts a.stakeInfo
  let accounts ← stakeSplit rt w.sysvars accounts a.reserveStakeInfo a.withdrawAuthorityInfo
    requiredLamports a.stakeInfo
  let accounts ← stakeDelegate rt w.sysvars accounts a.stakeInfo a.validatorVoteInfo
    a.withdrawAuthorityInfo
  let validators ← BigVec.push ValidatorStakeInfo.size (w.validatorListDataLen - ValidatorListHeader.len)
    validatorList.validators
    { status := StakeStatus.active.pod
      voteAccountAddress := a.validatorVoteInfo.key
      activeStakeLamports := requiredLamports
      transientStakeLamports := 0
      lastUpdateEpoch := w.sysvars.epoch
      transientSeedSuffix := 0
      validatorSeedSuffix := rawValidatorSeed }
  return { w with validatorList := { validatorList with validators }, accounts }

def processAddValidatorToPool (w : World Key) (accounts : List (AccountInfo Key))
    (rawValidatorSeed : UInt32) : Except ProgramError (World Key) := do
  let (a, _) ← (AddValidatorToPoolAccounts.parse rt).run accounts
  a.process rt w rawValidatorSeed

variable (Key) in
structure RemoveValidatorFromPoolAccounts where
  stakePoolInfo : AccountInfo Key
  stakerInfo : AccountInfo Key
  withdrawAuthorityInfo : AccountInfo Key
  validatorListInfo : AccountInfo Key
  stakeAccountInfo : AccountInfo Key
  transientStakeAccountInfo : AccountInfo Key
  stakeProgramInfo : AccountInfo Key

def RemoveValidatorFromPoolAccounts.parse : AccountIter Key (RemoveValidatorFromPoolAccounts Key) := do
  let stakePoolInfo ← nextAccountInfo
  let stakerInfo ← nextAccountInfo
  let withdrawAuthorityInfo ← nextAccountInfo
  let validatorListInfo ← nextAccountInfo
  let stakeAccountInfo ← nextAccountInfo
  let transientStakeAccountInfo ← nextAccountInfo
  let _clockInfo ← nextSysvar rt.clockId
  let stakeProgramInfo ← nextAccountInfo
  return {
    stakePoolInfo, stakerInfo, withdrawAuthorityInfo, validatorListInfo, stakeAccountInfo,
    transientStakeAccountInfo, stakeProgramInfo }

/-- Deactivates a stake that is not deactivated yet. -/
def deactivateIfActive (sys : Sysvars) (accounts : Accounts Key) (s : Stake Key)
    (stakeInfo authorityInfo : AccountInfo Key) : Except ProgramError (Accounts Key) :=
  if s.delegation.deactivationEpoch = epochMax then
    stakeDeactivate rt sys accounts stakeInfo authorityInfo
  else pure accounts

/-- What removal does to a transient stake: deactivates it if it is usable and active. -/
def RemoveValidatorFromPoolAccounts.removeTransient (w : World Key)
    (a : RemoveValidatorFromPoolAccounts Key) (lockup : Lockup Key) :
    Except ProgramError (Accounts Key) :=
  match getStakeState (w.accounts a.transientStakeAccountInfo.key) with
  | .ok (m, s) =>
    if stakeIsUsableByPool m a.withdrawAuthorityInfo.key lockup then
      deactivateIfActive rt w.sysvars w.accounts s a.transientStakeAccountInfo a.withdrawAuthorityInfo
    else pure w.accounts
  | .error _ => pure w.accounts

/-- Forgets a vote account as preferred validator. -/
def StakePool.resetPreferred (p : StakePool Key) (voteAccountAddress : Key) : StakePool Key :=
  { p with
    preferredDepositValidatorVoteAddress :=
      if p.preferredDepositValidatorVoteAddress = some voteAccountAddress then none
      else p.preferredDepositValidatorVoteAddress
    preferredWithdrawValidatorVoteAddress :=
      if p.preferredWithdrawValidatorVoteAddress = some voteAccountAddress then none
      else p.preferredWithdrawValidatorVoteAddress }

def RemoveValidatorFromPoolAccounts.process (w : World Key) (a : RemoveValidatorFromPoolAccounts Key) :
    Except ProgramError (World Key) := do
  checkStakeProgram rt a.stakeProgramInfo.key
  let stakePool ← w.validStakePool rt a.stakePoolInfo
  stakePool.checkAuthorityWithdraw rt a.withdrawAuthorityInfo.key rt.programId a.stakePoolInfo.key
  stakePool.checkStaker a.stakerInfo
  ensure (w.sysvars.epoch ≤ stakePool.lastUpdateEpoch) (.custom .stakeListAndPoolOutOfDate)
  stakePool.checkValidatorList a.validatorListInfo
  let validatorList ← w.validValidatorList rt a.validatorListInfo
  let (_, stake) ← getStakeState (w.accounts a.stakeAccountInfo.key)
  let voteAccountAddress := stake.delegation.voterPubkey
  let validatorStakeInfo ← orErr (validatorList.find voteAccountAddress) (.custom .validatorNotFound)
  checkValidatorStakeAddress rt rt.programId a.stakePoolInfo.key a.stakeAccountInfo.key
    voteAccountAddress (nonZeroU32 validatorStakeInfo.validatorSeedSuffix)
  ensure (validatorStakeInfo.status = StakeStatus.active.pod) (.custom .validatorNotFound)
  let (newStatus, accounts) ← (
    if validatorStakeInfo.transientStakeLamports > 0 then do
      let _ ← checkTransientStakeAddress rt rt.programId a.stakePoolInfo.key
        a.transientStakeAccountInfo.key voteAccountAddress validatorStakeInfo.transientSeedSuffix
      let accounts ← a.removeTransient rt w stakePool.lockup
      pure (StakeStatus.deactivatingAll, accounts)
    else pure (StakeStatus.deactivatingValidator, w.accounts))
  -- a stake that was force-deactivated does not need to be deactivated again
  let accounts ← deactivateIfActive rt w.sysvars accounts stake a.stakeAccountInfo
    a.withdrawAuthorityInfo
  return { w with
    stakePool := stakePool.resetPreferred voteAccountAddress
    validatorList := validatorList.set { validatorStakeInfo with status := newStatus.pod }
    accounts }

def processRemoveValidatorFromPool (w : World Key) (accounts : List (AccountInfo Key)) :
    Except ProgramError (World Key) := do
  let (a, _) ← (RemoveValidatorFromPoolAccounts.parse rt).run accounts
  a.process rt w

end SplStakePool
