import SplStakePool.Processor.Check

/-!
# `IncreaseValidatorStake`, with its variant

Stake is split off the reserve into the transient account and delegated: directly, or through an
ephemeral account, which merges into a transient account that exists already.
-/

namespace SplStakePool
open Exec Machine

variable {Key : Type} [DecidableEq Key] (rt : Runtime Key)

variable (Key) in
structure IncreaseValidatorStakeAccounts where
  stakePoolInfo : AccountInfo Key
  stakerInfo : AccountInfo Key
  withdrawAuthorityInfo : AccountInfo Key
  validatorListInfo : AccountInfo Key
  reserveStakeAccountInfo : AccountInfo Key
  /-- The ephemeral account with its seed. -/
  maybeEphemeral : Option (UInt64 × AccountInfo Key)
  transientStakeAccountInfo : AccountInfo Key
  validatorStakeAccountInfo : AccountInfo Key
  validatorVoteAccountInfo : AccountInfo Key
  systemProgramInfo : AccountInfo Key
  stakeProgramInfo : AccountInfo Key

def IncreaseValidatorStakeAccounts.parse (maybeEphemeralStakeSeed : Option UInt64) :
    AccountIter Key (IncreaseValidatorStakeAccounts Key) := do
  let stakePoolInfo ← nextAccountInfo
  let stakerInfo ← nextAccountInfo
  let withdrawAuthorityInfo ← nextAccountInfo
  let validatorListInfo ← nextAccountInfo
  let reserveStakeAccountInfo ← nextAccountInfo
  let maybeEphemeral ←
    match maybeEphemeralStakeSeed with
    | some seed => (fun info => some (seed, info)) <$> nextAccountInfo
    | none => pure none
  let transientStakeAccountInfo ← nextAccountInfo
  let validatorStakeAccountInfo ← nextAccountInfo
  let validatorVoteAccountInfo ← nextAccountInfo
  let _clockInfo ← nextSysvar rt.clockId
  -- only the legacy instruction takes the rent account
  if maybeEphemeralStakeSeed.isNone then
    let _rentInfo ← nextSysvar rt.rentId
  let _stakeHistoryInfo ← nextAccountInfo
  let _stakeConfigInfo ← nextAccountInfo
  let systemProgramInfo ← nextAccountInfo
  let stakeProgramInfo ← nextAccountInfo
  return {
    stakePoolInfo, stakerInfo, withdrawAuthorityInfo, validatorListInfo, reserveStakeAccountInfo,
    maybeEphemeral, transientStakeAccountInfo, validatorStakeAccountInfo, validatorVoteAccountInfo,
    systemProgramInfo, stakeProgramInfo }

namespace IncreaseValidatorStakeAccounts
variable (w : World Key) (a : IncreaseValidatorStakeAccounts Key)

/-- Checks on an entry that has transient stake already. -/
def checkTransient (v : ValidatorStakeInfo Key) (transientStakeSeed : UInt64) :
    Except ProgramError Unit :=
  if v.transientStakeLamports > 0 then do
    ensure a.maybeEphemeral.isSome (.custom .transientAccountInUse)
    ensure (transientStakeSeed = v.transientSeedSuffix) .invalidSeeds
    checkIfStakeActivating (w.accounts a.transientStakeAccountInfo.key) w.sysvars.epoch
  else .ok ()

/-- Checks that the increase does not exceed the maximum stake of a validator. -/
def checkMaxValidatorStake (maxValidatorStake : Option Nat) (v : ValidatorStakeInfo Key)
    (lamports : Nat) : Except ProgramError Unit :=
  match maxValidatorStake with
  | some maxStake => do
    let currentTotalStake ← v.stakeLamports
    let newTotalStake ← orErr (checkedAdd 64 currentTotalStake lamports) (.custom .calculationFailure)
    ensure (newTotalStake ≤ maxStake) (.custom .exceedsMaxValidatorStake)
  | none => .ok ()

/-- Splits the amount into the ephemeral account if there is one, and delegates it. Returns the source
of the transient stake. -/
def splitEphemeral (totalLamports : Nat) : Except ProgramError (Accounts Key × AccountInfo Key) := do
  match a.maybeEphemeral with
  | some (ephemeralStakeSeed, ephemeralInfo) =>
    let _ ← checkEphemeralStakeAddress rt rt.programId a.stakePoolInfo.key ephemeralInfo.key
      ephemeralStakeSeed
    let accounts ← createStakeAccount rt w.accounts ephemeralInfo
    let accounts ← stakeSplit rt w.sysvars accounts a.reserveStakeAccountInfo a.withdrawAuthorityInfo
      totalLamports ephemeralInfo
    let accounts ← stakeDelegate rt w.sysvars accounts ephemeralInfo a.validatorVoteAccountInfo
      a.withdrawAuthorityInfo
    return (accounts, ephemeralInfo)
  | none => return (w.accounts, a.reserveStakeAccountInfo)

/-- Creates the transient account, splits the amount into it and delegates it if necessary. -/
def splitTransient (accounts : Accounts Key) (sourceInfo : AccountInfo Key) (totalLamports : Nat) :
    Except ProgramError (Accounts Key) := do
  let accounts ← createStakeAccount rt accounts a.transientStakeAccountInfo
  let accounts ← stakeSplit rt w.sysvars accounts sourceInfo a.withdrawAuthorityInfo totalLamports
    a.transientStakeAccountInfo
  let stakeState ← readStakeState (accounts a.transientStakeAccountInfo.key)
  -- a stake delegated on or before this epoch, which came from the ephemeral account, is good
  if stakeState.delegation?.any fun d => d.activationEpoch ≤ w.sysvars.epoch then
    pure accounts
  else
    stakeDelegate rt w.sysvars accounts a.transientStakeAccountInfo a.validatorVoteAccountInfo
      a.withdrawAuthorityInfo

def process (lamports : Nat) (transientStakeSeed : UInt64) : Except ProgramError (World Key) := do
  checkSystemProgram rt a.systemProgramInfo.key
  checkStakeProgram rt a.stakeProgramInfo.key
  let stakePool ← w.validStakePool rt a.stakePoolInfo
  stakePool.checkAuthorityWithdraw rt a.withdrawAuthorityInfo.key rt.programId a.stakePoolInfo.key
  stakePool.checkStaker a.stakerInfo
  ensure (w.sysvars.epoch ≤ stakePool.lastUpdateEpoch) (.custom .stakeListAndPoolOutOfDate)
  stakePool.checkValidatorList a.validatorListInfo
  stakePool.checkReserveStake a.reserveStakeAccountInfo
  let validatorList ← w.validValidatorList rt a.validatorListInfo
  let voteAccountAddress := a.validatorVoteAccountInfo.key
  let validatorStakeInfo ← orErr (validatorList.find voteAccountAddress) (.custom .validatorNotFound)
  checkTransient w a validatorStakeInfo transientStakeSeed
  checkValidatorStakeAccount rt w.accounts a.validatorStakeAccountInfo rt.programId a.stakePoolInfo.key
    a.withdrawAuthorityInfo.key voteAccountAddress validatorStakeInfo.validatorSeedSuffix
    stakePool.lockup
  ensure (validatorStakeInfo.status = StakeStatus.active.pod) (.custom .validatorNotFound)
  checkMaxValidatorStake stakePool.maxValidatorStake validatorStakeInfo lamports
  let stakeRent := rt.rentMinimumBalance stakeSpace
  ensure (minimumDelegation w.sysvars.minimumDelegation ≤ lamports) (.stake .insufficientDelegation)
  -- the rent exemption is withdrawn after the merge into the validator stake
  let totalLamports := saturatingAdd 64 lamports stakeRent
  ensure (stakeRent ≤ saturatingSub (w.accounts a.reserveStakeAccountInfo.key).lamports totalLamports)
    .insufficientFunds
  let (accounts, sourceInfo) ← splitEphemeral rt w a totalLamports
  let _ ← checkTransientStakeAddress rt rt.programId a.stakePoolInfo.key
    a.transientStakeAccountInfo.key voteAccountAddress transientStakeSeed
  let accounts ← (
    if validatorStakeInfo.transientStakeLamports > 0 then
      stakeMerge rt w.sysvars accounts sourceInfo a.withdrawAuthorityInfo a.transientStakeAccountInfo
    else splitTransient rt w a accounts sourceInfo totalLamports)
  let transientStakeLamports ← orErr
    (checkedAdd 64 validatorStakeInfo.transientStakeLamports totalLamports) (.custom .calculationFailure)
  return { w with
    validatorList := validatorList.set { validatorStakeInfo with
      transientStakeLamports
      transientSeedSuffix := transientStakeSeed }
    accounts }

end IncreaseValidatorStakeAccounts

def processIncreaseValidatorStake (w : World Key) (accounts : List (AccountInfo Key)) (lamports : Nat)
    (transientStakeSeed : UInt64) (maybeEphemeralStakeSeed : Option UInt64) :
    Except ProgramError (World Key) := do
  let (a, _) ← (IncreaseValidatorStakeAccounts.parse rt maybeEphemeralStakeSeed).run accounts
  a.process rt w lamports transientStakeSeed

end SplStakePool
