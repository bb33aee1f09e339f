import SplStakePool.Processor.Check

/-!
# `UpdateValidatorListBalance`

Each entry of a slice of the list is brought up to date with its two stake accounts: the transient
account first, which is merged or counted, then the validator account.

What is done with a transient account depends on its state, on that of the validator account and on the epoch.
The decision is a function of its own, `transientAction`, so that the table of the cases can be stated; carrying
it out is a call or nothing. An entry whose accounts are not the derived ones is skipped, as in the source.
-/

namespace SplStakePool
open Exec Machine

variable {Key : Type} [DecidableEq Key] (rt : Runtime Key)

variable (Key) in
structure UpdateValidatorListBalanceAccounts where
  stakePoolInfo : AccountInfo Key
  withdrawAuthorityInfo : AccountInfo Key
  validatorListInfo : AccountInfo Key
  reserveStakeInfo : AccountInfo Key
  stakeProgramInfo : AccountInfo Key
  validatorStakeAccounts : List (AccountInfo Key)

def UpdateValidatorListBalanceAccounts.parse :
    AccountIter Key (UpdateValidatorListBalanceAccounts Key) := do
  let stakePoolInfo ← nextAccountInfo
  let withdrawAuthorityInfo ← nextAccountInfo
  let validatorListInfo ← nextAccountInfo
  let reserveStakeInfo ← nextAccountInfo
  let _clockInfo ← nextSysvar rt.clockId
  let _stakeHistoryInfo ← nextAccountInfo
  let stakeProgramInfo ← nextAccountInfo
  let validatorStakeAccounts ← remainingAccounts
  return {
    stakePoolInfo, withdrawAuthorityInfo, validatorListInfo, reserveStakeInfo, stakeProgramInfo,
    validatorStakeAccounts }

/-- `chunks_exact(2)` -/
def pairs {α : Type} : List α → List (α × α)
  | x :: y :: l => (x, y) :: pairs l
  | _ => []

/-- What an update does with a transient stake account. -/
inductive TransientAction
  /-- Not a stake of the pool: nothing is counted. -/
  | ignore
  /-- Left in place, its lamports are counted. -/
  | count
  /-- Merged into the reserve. -/
  | absorb
  /-- A delegated stake, merged into the reserve. -/
  | absorbInactive
  /-- Merged into the validator stake. -/
  | mergeValidator
  /-- Deactivated. -/
  | deactivate
deriving DecidableEq, Repr

/-- The decision on the transient stake account of an entry with a transient record. -/
def transientAction (usable : Meta Key → Bool) (epoch : Nat) (noMerge : Bool) (status : PodStakeStatus)
    (transientStakeState validatorStakeState : Option (StakeStateV2 Key)) : TransientAction :=
  match transientStakeState with
  | some (.initialized m) =>
    if usable m then
      if noMerge then .count else .absorb
    else .ignore
  | some (.stake m s) =>
    if usable m then
      if noMerge then .count
      else if stakeIsInactiveWithoutHistory s epoch then .absorbInactive
      else if StakeStatus.fromU8 status.byte = some .active then
        if s.delegation.activationEpoch < epoch then
          match validatorStakeState with
          | some (.stake _ validatorStake) =>
            -- otherwise activating or just active, not ready to merge
            if validatorStake.delegation.activationEpoch < epoch then .mergeValidator else .count
          -- the validator stake account needs to be added back into the pool
          | _ => .count
        else .count
      else if s.delegation.deactivationEpoch = epochMax then .deactivate
      else .count
    else .ignore
  | none | some .uninitialized | some .rewardsPool => .ignore

namespace UpdateValidatorListBalanceAccounts
variable (w : World Key) (a : UpdateValidatorListBalanceAccounts Key)

/-- Whether a stake account with this meta is managed by the pool. -/
def usable (m : Meta Key) : Bool :=
  stakeIsUsableByPool m a.withdrawAuthorityInfo.key w.stakePool.lockup

/-- Handles the transient stake account. Returns the status of the entry and the lamports counted. -/
def updateTransient (noMerge : Bool) (accounts : Accounts Key) (v : ValidatorStakeInfo Key)
    (validatorStakeInfo transientStakeInfo : AccountInfo Key) :
    Except ProgramError (Accounts Key × PodStakeStatus × Nat) :=
  if v.transientStakeLamports ≠ 0 then
    match transientAction (usable w a) w.sysvars.epoch noMerge v.status
      (accounts transientStakeInfo.key).stakeState? (accounts validatorStakeInfo.key).stakeState? with
    | .ignore => return (accounts, v.status, 0)
    | .count => return (accounts, v.status, (accounts transientStakeInfo.key).lamports)
    | .absorb => do
      let accounts ← stakeMerge rt w.sysvars accounts transientStakeInfo a.withdrawAuthorityInfo
        a.reserveStakeInfo
      return (accounts, ← v.status.removeTransientStake, 0)
    | .absorbInactive => do
      let accounts ← stakeMerge rt w.sysvars accounts transientStakeInfo a.withdrawAuthorityInfo
        a.reserveStakeInfo
      return (accounts, ← v.status.removeTransientStake, (accounts transientStakeInfo.key).lamports)
    | .mergeValidator => do
      let accounts ← stakeMerge rt w.sysvars accounts transientStakeInfo a.withdrawAuthorityInfo
        validatorStakeInfo
      return (accounts, v.status, (accounts transientStakeInfo.key).lamports)
    | .deactivate => do
      let accounts ← stakeDeactivate rt w.sysvars accounts transientStakeInfo a.withdrawAuthorityInfo
      return (accounts, v.status, (accounts transientStakeInfo.key).lamports)
  else return (accounts, v.status, 0)

/-- Withdraws the lamports beyond the delegation and the rent-exempt reserve to the reserve. -/
def withdrawAdditional (accounts : Accounts Key) (m : Meta Key) (s : Stake Key)
    (validatorStakeInfo : AccountInfo Key) : Except ProgramError (Accounts Key) :=
  let additionalLamports := saturatingSub
    (saturatingSub (accounts validatorStakeInfo.key).lamports s.delegation.stake) m.rentExemptReserve
  if additionalLamports > 0 then
    stakeWithdraw rt w.sysvars accounts validatorStakeInfo a.withdrawAuthorityInfo a.reserveStakeInfo
      additionalLamports
  else pure accounts

/-- Handles a delegated validator stake account, by the status of the entry. Returns the new status
and the lamports counted. -/
def updateDelegated (noMerge : Bool) (accounts : Accounts Key) (status : PodStakeStatus) (s : Stake Key)
    (validatorStakeInfo : AccountInfo Key) :
    Except ProgramError (Accounts Key × PodStakeStatus × Nat) := do
  match ← status.status with
  | .active => return (accounts, status, (accounts validatorStakeInfo.key).lamports)
  | .deactivatingValidator | .deactivatingAll =>
    if noMerge then
      return (accounts, status, (accounts validatorStakeInfo.key).lamports)
    else if stakeIsInactiveWithoutHistory s w.sysvars.epoch then
      -- the validator was removed through normal means, absorb the lamports into the reserve
      let accounts ← stakeMerge rt w.sysvars accounts validatorStakeInfo a.withdrawAuthorityInfo
        a.reserveStakeInfo
      return (accounts, ← status.removeValidatorStake, 0)
    else
      return (accounts, status, (accounts validatorStakeInfo.key).lamports)
  -- no longer part of the pool, ignored
  | .deactivatingTransient | .readyForRemoval => return (accounts, status, 0)

/-- Handles the validator stake account. Returns the status of the entry and the lamports counted. -/
def updateValidator (noMerge : Bool) (accounts : Accounts Key) (status : PodStakeStatus)
    (transientStakeLamports : Nat) (validatorStakeInfo : AccountInfo Key) :
    Except ProgramError (Accounts Key × PodStakeStatus × Nat) :=
  match (accounts validatorStakeInfo.key).stakeState? with
  | some (.stake m s) =>
    if usable w a m then do
      let accounts ← withdrawAdditional rt w a accounts m s validatorStakeInfo
      updateDelegated rt w a noMerge accounts status s validatorStakeInfo
    else return (accounts, status, 0)
  | some (.initialized m) =>
    if usable w a m then do
      -- destaked during a cluster restart or removed: absorb the lamports into the reserve
      let accounts ← stakeMerge rt w.sysvars accounts validatorStakeInfo a.withdrawAuthorityInfo
        a.reserveStakeInfo
      return (accounts, if transientStakeLamports ≠ 0 then StakeStatus.deactivatingTransient.pod
        else StakeStatus.readyForRemoval.pod, 0)
    else return (accounts, status, 0)
  | none | some .uninitialized | some .rewardsPool => return (accounts, status, 0)

/-- One entry of the slice with its two accounts; skipped if these are not the derived ones. -/
def updateEntry (noMerge : Bool) (accounts : Accounts Key) (v : ValidatorStakeInfo Key)
    (validatorStakeInfo transientStakeInfo : AccountInfo Key) :
    Except ProgramError (Accounts Key × ValidatorStakeInfo Key) :=
  if (findStakeProgramAddress rt rt.programId v.voteAccountAddress a.stakePoolInfo.key
      (nonZeroU32 v.validatorSeedSuffix)).1 ≠ validatorStakeInfo.key then
    return (accounts, v)
  else if (findTransientStakeProgramAddress rt rt.programId v.voteAccountAddress a.stakePoolInfo.key
      v.transientSeedSuffix).1 ≠ transientStakeInfo.key then
    return (accounts, v)
  else do
    let (accounts, status, transientStakeLamports) ←
      updateTransient rt w a noMerge accounts v validatorStakeInfo transientStakeInfo
    let (accounts, status, activeStakeLamports) ←
      updateValidator rt w a noMerge accounts status transientStakeLamports validatorStakeInfo
    return (accounts,
      { v with status, lastUpdateEpoch := w.sysvars.epoch, activeStakeLamports, transientStakeLamports })

/-- The loop over the slice, zipped with the pairs of accounts. -/
def updateEntries (noMerge : Bool) : Accounts Key → List (ValidatorStakeInfo Key) →
    List (AccountInfo Key × AccountInfo Key) →
    Except ProgramError (Accounts Key × List (ValidatorStakeInfo Key))
  | accounts, v :: vs, (validatorStakeInfo, transientStakeInfo) :: infos => do
    let (accounts, v) ← updateEntry rt w a noMerge accounts v validatorStakeInfo transientStakeInfo
    let (accounts, vs) ← updateEntries noMerge accounts vs infos
    return (accounts, v :: vs)
  | accounts, vs, _ => return (accounts, vs)

def process (startIndex : Nat) (noMerge : Bool) : Except ProgramError (World Key) := do
  let stakePool ← w.validStakePool rt a.stakePoolInfo
  stakePool.checkValidatorList a.validatorListInfo
  stakePool.checkAuthorityWithdraw rt a.withdrawAuthorityInfo.key rt.programId a.stakePoolInfo.key
  stakePool.checkReserveStake a.reserveStakeInfo
  checkStakeProgram rt a.stakeProgramInfo.key
  -- if rewards are being distributed, abort
  ensure (¬ w.sysvars.epochRewardsActive) (.custom .epochRewardDistributionInProgress)
  ensure (a.validatorStakeAccounts.length % 2 = 0) (.custom .unexpectedValidatorListAccountSize)
  checkAccountOwner rt w.accounts a.validatorListInfo rt.programId
  let validatorList ← w.readValidatorList rt a.validatorListInfo
  let slice ← BigVec.deserializeSlice validatorList.validators startIndex
    (a.validatorStakeAccounts.length / 2)
  ensure validatorList.header.isValid (.custom .invalidState)
  let (accounts, slice) ← updateEntries rt w a noMerge w.accounts slice (pairs a.validatorStakeAccounts)
  return { w with
    validatorList := { validatorList with
      validators := BigVec.writeSlice validatorList.validators startIndex slice }
    accounts }

end UpdateValidatorListBalanceAccounts

def processUpdateValidatorListBalance (w : World Key) (accounts : List (AccountInfo Key))
    (startIndex : Nat) (noMerge : Bool) : Except ProgramError (World Key) := do
  let (a, _) ← (UpdateValidatorListBalanceAccounts.parse rt).run accounts
  a.process rt w startIndex noMerge

end SplStakePool
