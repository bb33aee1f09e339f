import SplStakePool.Processor.Check

/-!
# `DecreaseValidatorStake`, with its variants

Stake is split off a validator stake account and deactivated in the transient account: directly, or
through an ephemeral account, which merges into a transient account that exists already.
-/

namespace SplStakePool
open Exec Machine

variable {Key : Type} [DecidableEq Key] (rt : Runtime Key)

variable (Key) in
structure DecreaseValidatorStakeAccounts where
  stakePoolInfo : AccountInfo Key
  stakerInfo : AccountInfo Key
  withdrawAuthorityInfo : AccountInfo Key
  validatorListInfo : AccountInfo Key
  maybeReserveStakeInfo : Option (AccountInfo Key)
  validatorStakeAccountInfo : AccountInfo Key
  /-- The ephemeral account with its seed. -/
  maybeEphemeral : Option (UInt64 × AccountInfo Key)
  transientStakeAccountInfo : AccountInfo Key
  hasStakeHistoryInfo : Bool
  systemProgramInfo : AccountInfo Key
  stakeProgramInfo : AccountInfo Key

def DecreaseValidatorStakeAccounts.parse (maybeEphemeralStakeSeed : Option UInt64)
    (fundRentExemptReserve : Bool) : AccountIter Key (DecreaseValidatorStakeAccounts Key) := do
  let stakePoolInfo ← nextAccountInfo
  let stakerInfo ← nextAccountInfo
  let withdrawAuthorityInfo ← nextAccountInfo
  let validatorListInfo ← nextAccountInfo
  let maybeReserveStakeInfo ← if fundRentExemptReserve then some <$> nextAccountInfo else pure none
  let validatorStakeAccountInfo ← nextAccountInfo
  let maybeEphemeral ←
    match maybeEphemeralStakeSeed with
    | some seed => (fun info => some (seed, info)) <$> nextAccountInfo
    | none => pure none
  let transientStakeAccountInfo ← nextAccountInfo
  let _clockInfo ← nextSysvar rt.clockId
  let hasStakeHistoryInfo := maybeEphemeralStakeSeed.isSome || fundRentExemptReserve
  -- the legacy instruction takes the rent account in place of the stake history
  let _info ← if hasStakeHistoryInfo then nextAccountInfo else nextSysvar rt.rentId
  let systemProgramInfo ← nextAccountInfo
  let stakeProgramInfo ← nextAccountInfo
  return {
    stakePoolInfo, stakerInfo, withdrawAuthorityInfo, validatorListInfo, maybeReserveStakeInfo,
    validatorStakeAccountInfo, maybeEphemeral, transientStakeAccountInfo, hasStakeHistoryInfo,
    systemProgramInfo, stakeProgramInfo }

namespace DecreaseValidatorStakeAccounts
variable (w : World Key) (a : DecreaseValidatorStakeAccounts Key)

/-- Funds the rent-exempt reserve of the ephemeral account from the pool's reserve, if needed. -/
def fundEphemeralRent (accounts : Accounts Key) (ephemeralInfo : AccountInfo Key) :
    Except ProgramError (Accounts Key) :=
  match a.maybeReserveStakeInfo with
  | some reserveStakeInfo =>
    let required := saturatingSub (rt.rentMinimumBalance stakeSpace) (accounts ephemeralInfo.key).lamports
    if required > 0 then do
      ensure (required < (accounts reserveStakeInfo.key).lamports) (.custom .reserveDepleted)
      ensure a.hasStakeHistoryInfo (.custom .missingRequiredSysvar)
      stakeWithdraw rt w.sysvars accounts reserveStakeInfo a.withdrawAuthorityInfo ephemeralInfo required
    else pure accounts
  | none => pure accounts

/-- Funds the rent-exempt reserve of the transient account from the pool's reserve, if needed. With a
full split from an ephemeral account, that account's rent-exempt reserve moves over. -/
def fundTransientRent (accounts : Accounts Key) (sourceInfo : AccountInfo Key) (splitLamports : Nat) :
    Except ProgramError (Accounts Key) :=
  match a.maybeReserveStakeInfo with
  | some reserveStakeInfo =>
    let required := saturatingSub (rt.rentMinimumBalance stakeSpace)
      (accounts a.transientStakeAccountInfo.key).lamports
    if (accounts sourceInfo.key).lamports ≠ splitLamports then do
      ensure a.hasStakeHistoryInfo (.custom .missingRequiredSysvar)
      ensure (required < (accounts reserveStakeInfo.key).lamports) (.custom .reserveDepleted)
      if required > 0 then
        stakeWithdraw rt w.sysvars accounts reserveStakeInfo a.withdrawAuthorityInfo
          a.transientStakeAccountInfo required
      else pure accounts
    else pure accounts
  | none => pure accounts

def checkMaybeReserveStake (stakePool : StakePool Key) : Except ProgramError Unit :=
  match a.maybeReserveStakeInfo with
  | some reserveStakeInfo => stakePool.checkReserveStake reserveStakeInfo
  | none => .ok ()

/-- Checks on an entry that has transient stake already. -/
def checkTransient (v : ValidatorStakeInfo Key) (transientStakeSeed : UInt64) :
    Except ProgramError Unit :=
  if v.transientStakeLamports > 0 then do
    ensure a.maybeEphemeral.isSome (.custom .transientAccountInUse)
    ensure (transientStakeSeed = v.transientSeedSuffix) .invalidSeeds
    checkIfStakeDeactivating (w.accounts a.transientStakeAccountInfo.key) w.sysvars.epoch
  else .ok ()

/-- Fails if too little remains; the message of that failure computes the most that can be taken. -/
def checkRemaining (validatorLamports remainingLamports requiredLamports : Nat) :
    Except ProgramError Unit :=
  if remainingLamports < requiredLamports then do
    let _maximum ← orErr (checkedSub validatorLamports requiredLamports) (.custom .calculationFailure)
    .error .insufficientFunds
  else .ok ()

/-- Splits the amount into the ephemeral account if there is one. Returns the source of the transient
stake and the amount to take from it. -/
def splitEphemeral (lamports : Nat) : Except ProgramError (Accounts Key × AccountInfo Key × Nat) := do
  match a.maybeEphemeral with
  | some (ephemeralStakeSeed, ephemeralInfo) =>
    let _ ← checkEphemeralStakeAddress rt rt.programId a.stakePoolInfo.key ephemeralInfo.key
      ephemeralStakeSeed
    let accounts ← createStakeAccount rt w.accounts ephemeralInfo
    let accounts ← fundEphemeralRent rt w a accounts ephemeralInfo
    let accounts ← stakeSplit rt w.sysvars accounts a.validatorStakeAccountInfo a.withdrawAuthorityInfo
      lamports ephemeralInfo
    let accounts ← stakeDeactivate rt w.sysvars accounts ephemeralInfo a.withdrawAuthorityInfo
    return (accounts, ephemeralInfo, (accounts ephemeralInfo.key).lamports)
  | none => return (w.accounts, a.validatorStakeAccountInfo, lamports)

/-- Creates the transient account, funds its rent and splits the amount into it. -/
def splitTransient (accounts : Accounts Key) (sourceInfo : AccountInfo Key) (splitLamports : Nat) :
    Except ProgramError (Accounts Key) := do
  let accounts ← createStakeAccount rt accounts a.transientStakeAccountInfo
  let accounts ← fundTransientRent rt w a accounts sourceInfo splitLamports
  let accounts ← stakeSplit rt w.sysvars accounts sourceInfo a.withdrawAuthorityInfo splitLamports
    a.transientStakeAccountInfo
  let (_, stake) ← getStakeState (accounts a.transientStakeAccountInfo.key)
  if stake.delegation.deactivationEpoch = epochMax then
    stakeDeactivate rt w.sysvars accounts a.transientStakeAccountInfo a.withdrawAuthorityInfo
  else pure accounts

def process (lamports : Nat) (transientStakeSeed : UInt64) : Except ProgramError (World Key) := do
  checkSystemProgram rt a.systemProgramInfo.key
  checkStakeProgram rt a.stakeProgramInfo.key
  let stakePool ← w.validStakePool rt a.stakePoolInfo
  stakePool.checkAuthorityWithdraw rt a.withdrawAuthorityInfo.key rt.programId a.stakePoolInfo.key
  stakePool.checkStaker a.stakerInfo
  ensure (w.sysvars.epoch ≤ stakePool.lastUpdateEpoch) (.custom .stakeListAndPoolOutOfDate)
  stakePool.checkValidatorList a.validatorListInfo
  let validatorList ← w.validValidatorList rt a.validatorListInfo
  checkMaybeReserveStake a stakePool
  let (m, stake) ← getStakeState (w.accounts a.validatorStakeAccountInfo.key)
  let voteAccountAddress := stake.delegation.voterPubkey
  let validatorStakeInfo ← orErr (validatorList.find voteAccountAddress) (.custom .validatorNotFound)
  checkValidatorStakeAddress rt rt.programId a.stakePoolInfo.key a.validatorStakeAccountInfo.key
    voteAccountAddress (nonZeroU32 validatorStakeInfo.validatorSeedSuffix)
  checkTransient w a validatorStakeInfo transientStakeSeed
  ensure (validatorStakeInfo.status = StakeStatus.active.pod) (.custom .validatorNotFound)
  ensure (minimumDelegation w.sysvars.minimumDelegation ≤ lamports) .accountNotRentExempt
  let remainingLamports ← orErr
    (checkedSub (w.accounts a.validatorStakeAccountInfo.key).lamports lamports) .insufficientFunds
  checkRemaining (w.accounts a.validatorStakeAccountInfo.key).lamports remainingLamports
    (minimumStakeLamports m w.sysvars.minimumDelegation)
  let (accounts, sourceInfo, splitLamports) ← splitEphemeral rt w a lamports
  let _ ← checkTransientStakeAddress rt rt.programId a.stakePoolInfo.key
    a.transientStakeAccountInfo.key voteAccountAddress transientStakeSeed
  let accounts ← (
    if validatorStakeInfo.transientStakeLamports > 0 then
      stakeMerge rt w.sysvars accounts sourceInfo a.withdrawAuthorityInfo a.transientStakeAccountInfo
    else splitTransient rt w a accounts sourceInfo splitLamports)
  let activeStakeLamports ← orErr (checkedSub validatorStakeInfo.activeStakeLamports lamports)
    (.custom .calculationFailure)
  return { w with
    validatorList := validatorList.set { validatorStakeInfo with
      activeStakeLamports
      transientStakeLamports := (accounts a.transientStakeAccountInfo.key).lamports
      transientSeedSuffix := transientStakeSeed }
    accounts }

end DecreaseValidatorStakeAccounts

def processDecreaseValidatorStake (w : World Key) (accounts : List (AccountInfo Key)) (lamports : Nat)
    (transientStakeSeed : UInt64) (maybeEphemeralStakeSeed : Option UInt64)
    (fundRentExemptReserve : Bool) : Except ProgramError (World Key) := do
  let (a, _) ← (DecreaseValidatorStakeAccounts.parse rt maybeEphemeralStakeSeed
    fundRentExemptReserve).run accounts
  a.process rt w lamports transientStakeSeed

end SplStakePool
