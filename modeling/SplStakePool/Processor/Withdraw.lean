import SplStakePool.Processor.Validator

/-!
# `WithdrawStake` and `WithdrawSol`, with their variants

The tokens, less the fee, are worth lamports at the price of the pool. Where a withdrawal of stake takes them from
is its plan: the checks of the source on the account and its entry, with the amount that results, before any call
is made. It is a function of its own, because the clients have to guess its outcome.
-/

namespace SplStakePool
open Exec Machine

variable {Key : Type} [DecidableEq Key] (rt : Runtime Key)

/-- The fee on a withdrawal: none from the fee account itself, or if that account is faulty. -/
def StakePool.withdrawalFee (p : StakePool Key) (accounts : Accounts Key) (calcFee : Nat → Option Nat)
    (burnFromPoolInfo managerFeeInfo : AccountInfo Key) (poolTokens : Nat) : Except ProgramError Nat :=
  if p.managerFeeAccount = burnFromPoolInfo.key then .ok 0
  else
    match p.checkManagerFeeInfo rt accounts managerFeeInfo with
    | .error _ => .ok 0
    | .ok _ => orErr (calcFee poolTokens) (.custom .calculationFailure)

/-- The lamports of a withdrawal, which must not be zero or below the minimum. -/
def StakePool.withdrawLamports (p : StakePool Key) (poolTokensBurnt : Nat)
    (minimumLamportsOut : Option Nat) : Except ProgramError Nat := do
  let withdrawLamports ← orErr (p.calcLamportsWithdrawAmount poolTokensBurnt)
    (.custom .calculationFailure)
  ensure (withdrawLamports ≠ 0) (.custom .withdrawalTooSmall)
  ensure (minimumLamportsOut.all fun m => m ≤ withdrawLamports) (.custom .exceededSlippage)
  return withdrawLamports

/-- Subtracts a withdrawal from the counters of the pool. -/
def StakePool.subWithdrawal (p : StakePool Key) (poolTokensBurnt withdrawLamports : Nat) :
    Option (StakePool Key) := do
  let poolTokenSupply ← checkedSub p.poolTokenSupply poolTokensBurnt
  let totalLamports ← checkedSub p.totalLamports withdrawLamports
  return { p with poolTokenSupply, totalLamports }

/-- Transfers the fee of a withdrawal to the manager. -/
def transferFee (accounts : Accounts Key) (source mint destination authority : AccountInfo Key)
    (poolTokensFee decimals : Nat) : Except ProgramError (Accounts Key) :=
  if poolTokensFee > 0 then
    tokenTransfer rt accounts source mint destination authority poolTokensFee decimals
  else pure accounts

/-! ## `WithdrawStake` -/

variable (Key) in
structure WithdrawStakeAccounts where
  stakePoolInfo : AccountInfo Key
  validatorListInfo : AccountInfo Key
  withdrawAuthorityInfo : AccountInfo Key
  stakeSplitFrom : AccountInfo Key
  stakeSplitTo : AccountInfo Key
  userStakeAuthorityInfo : AccountInfo Key
  userTransferAuthorityInfo : AccountInfo Key
  burnFromPoolInfo : AccountInfo Key
  managerFeeInfo : AccountInfo Key
  poolMintInfo : AccountInfo Key
  tokenProgramInfo : AccountInfo Key
  stakeProgramInfo : AccountInfo Key

def WithdrawStakeAccounts.parse : AccountIter Key (WithdrawStakeAccounts Key) := do
  let stakePoolInfo ← nextAccountInfo
  let validatorListInfo ← nextAccountInfo
  let withdrawAuthorityInfo ← nextAccountInfo
  let stakeSplitFrom ← nextAccountInfo
  let stakeSplitTo ← nextAccountInfo
  let userStakeAuthorityInfo ← nextAccountInfo
  let userTransferAuthorityInfo ← nextAccountInfo
  let burnFromPoolInfo ← nextAccountInfo
  let managerFeeInfo ← nextAccountInfo
  let poolMintInfo ← nextAccountInfo
  let _clockInfo ← nextSysvar rt.clockId
  let tokenProgramInfo ← nextAccountInfo
  let stakeProgramInfo ← nextAccountInfo
  return {
    stakePoolInfo, validatorListInfo, withdrawAuthorityInfo, stakeSplitFrom, stakeSplitTo,
    userStakeAuthorityInfo, userTransferAuthorityInfo, burnFromPoolInfo, managerFeeInfo, poolMintInfo,
    tokenProgramInfo, stakeProgramInfo }

variable (Key) in
/-- Where the lamports of a withdrawal come from, with the amount: the reserve, or an entry's account. -/
structure WithdrawPlan where
  item : Option (ValidatorStakeInfo Key × StakeWithdrawSource)
  withdrawLamports : Nat

/-- The pool after the preferred validators were reset for a removed one. -/
def WithdrawPlan.stakePool (plan : WithdrawPlan Key) (p : StakePool Key) : StakePool Key :=
  match plan.item with
  | some (v, .validatorRemoval) => p.resetPreferred v.voteAccountAddress
  | _ => p

/-- The entry after the withdrawal. -/
def ValidatorStakeInfo.withdraw (v : ValidatorStakeInfo Key) (source : StakeWithdrawSource)
    (lamports : Nat) : Except ProgramError (ValidatorStakeInfo Key) :=
  match source with
  | .active => do
    let activeStakeLamports ← orErr (checkedSub v.activeStakeLamports lamports)
      (.custom .calculationFailure)
    return { v with activeStakeLamports }
  | .transient => do
    let transientStakeLamports ← orErr (checkedSub v.transientStakeLamports lamports)
      (.custom .calculationFailure)
    return { v with transientStakeLamports }
  | .validatorRemoval => do
    let activeStakeLamports ← orErr (checkedSub v.activeStakeLamports lamports)
      (.custom .calculationFailure)
    ensure (activeStakeLamports = 0) (.custom .stakeListAndPoolOutOfDate)
    -- there is no transient stake, so the entry is immediately ready for removal
    return { v with activeStakeLamports, status := StakeStatus.readyForRemoval.pod }

/-- The validator list after a withdrawal. -/
def ValidatorList.withdraw (l : ValidatorList Key) (plan : WithdrawPlan Key) :
    Except ProgramError (ValidatorList Key) :=
  match plan.item with
  | some (v, source) => do
    let v ← v.withdraw source plan.withdrawLamports
    return l.set v
  | none => .ok l

namespace WithdrawStakeAccounts
variable (w : World Key) (a : WithdrawStakeAccounts Key)

/-- A withdrawal from the reserve: the validators have no withdrawable stake, the reserve has enough. -/
def planReserve (m : Meta Key) (hasStake : Bool) (withdrawLamports : Nat) :
    Except ProgramError (WithdrawPlan Key) := do
  ensure (¬ hasStake) (.custom .stakeLamportsNotEqualToMinimum)
  ensure (minimumReserveLamports m ≤
      saturatingSub (w.accounts a.stakeSplitFrom.key).lamports withdrawLamports)
    (.custom .solWithdrawalTooLarge)
  return { item := none, withdrawLamports }

/-- The preferred validator must be used while it has lamports available. -/
def checkPreferredWithdraw (stakePool : StakePool Key) (validatorList : ValidatorList Key)
    (voteAccountAddress : Key) (minimumLamportsWithTolerance : Nat) : Except ProgramError Unit :=
  match stakePool.preferredWithdrawValidatorVoteAddress with
  | some preferred =>
    -- in case the preferred validator was somehow removed, any validator is allowed
    match validatorList.find preferred with
    | some v =>
      let availableLamports := saturatingSub v.activeStakeLamports minimumLamportsWithTolerance
      ensure (¬ (preferred ≠ voteAccountAddress ∧ availableLamports > 0))
        (.custom .incorrectWithdrawVoteAddress)
    | none => .ok ()
  | none => .ok ()

/-- The source of a withdrawal from an entry, and that the account is the one of the source. -/
def withdrawSource (v : ValidatorStakeInfo Key) (voteAccountAddress : Key)
    (hasActiveStake hasTransientStake : Bool) : Except ProgramError StakeWithdrawSource :=
  if hasActiveStake then do
    checkValidatorStakeAddress rt rt.programId a.stakePoolInfo.key a.stakeSplitFrom.key
      voteAccountAddress (nonZeroU32 v.validatorSeedSuffix)
    return .active
  else if hasTransientStake ∨ v.transientStakeLamports ≠ 0 then do
    let _ ← checkTransientStakeAddress rt rt.programId a.stakePoolInfo.key a.stakeSplitFrom.key
      voteAccountAddress v.transientSeedSuffix
    return .transient
  else do
    checkValidatorStakeAddress rt rt.programId a.stakePoolInfo.key a.stakeSplitFrom.key
      voteAccountAddress (nonZeroU32 v.validatorSeedSuffix)
    return .validatorRemoval

/-- The amount taken from an entry's account: enough must remain, or the whole account is taken, with
the amount truncated down to its lamports. -/
def withdrawAmount (source : StakeWithdrawSource) (splitFromLamports withdrawLamports requiredLamports
    lamportsPerPoolToken : Nat) : Except ProgramError Nat :=
  match source with
  | .active | .transient => do
    ensure (requiredLamports ≤ saturatingSub splitFromLamports withdrawLamports)
      (.custom .stakeLamportsNotEqualToMinimum)
    return withdrawLamports
  | .validatorRemoval => do
    let upperBound := saturatingAdd 64 splitFromLamports lamportsPerPoolToken
    ensure (splitFromLamports ≤ withdrawLamports ∧ withdrawLamports ≤ upperBound)
      (.custom .stakeLamportsNotEqualToMinimum)
    return splitFromLamports

/-- A withdrawal from the account of an entry. -/
def planValidator (stakePool : StakePool Key) (validatorList : ValidatorList Key)
    (stakeState : StakeStateV2 Key) (hasActiveStake hasTransientStake : Bool)
    (withdrawLamports requiredLamports lamportsPerPoolToken : Nat) :
    Except ProgramError (WithdrawPlan Key) := do
  let delegation ← orErr stakeState.delegation? (.custom .wrongStakeStake)
  let voteAccountAddress := delegation.voterPubkey
  checkPreferredWithdraw stakePool validatorList voteAccountAddress
    (saturatingAdd 64 requiredLamports lamportsPerPoolToken)
  let v ← orErr (validatorList.find voteAccountAddress) (.custom .validatorNotFound)
  let source ← withdrawSource rt a v voteAccountAddress hasActiveStake hasTransientStake
  ensure (v.status = StakeStatus.active.pod) (.custom .validatorNotFound)
  let withdrawLamports ← withdrawAmount source (w.accounts a.stakeSplitFrom.key).lamports
    withdrawLamports requiredLamports lamportsPerPoolToken
  return { item := some (v, source), withdrawLamports }

/-- Figures out where the lamports come from. -/
def plan (stakePool : StakePool Key) (validatorList : ValidatorList Key) (withdrawLamports : Nat) :
    Except ProgramError (WithdrawPlan Key) := do
  let stakeState ← readStakeState (w.accounts a.stakeSplitFrom.key)
  let m ← orErr stakeState.meta? (.custom .wrongStakeStake)
  let requiredLamports := minimumStakeLamports m w.sysvars.minimumDelegation
  let lamportsPerPoolToken ← orErr stakePool.getLamportsPerPoolToken (.custom .calculationFailure)
  let minimumLamportsWithTolerance := saturatingAdd 64 requiredLamports lamportsPerPoolToken
  let hasActiveStake := validatorList.validators.any fun v =>
    v.activeLamportsGreaterThan minimumLamportsWithTolerance && v.isActive
  let hasTransientStake := validatorList.validators.any fun v =>
    v.transientLamportsGreaterThan minimumLamportsWithTolerance && v.isActive
  if a.stakeSplitFrom.key = stakePool.reserveStake then
    planReserve w a m (hasTransientStake || hasActiveStake) withdrawLamports
  else
    planValidator rt w a stakePool validatorList stakeState hasActiveStake hasTransientStake
      withdrawLamports requiredLamports lamportsPerPoolToken

def process (poolTokens : Nat) (minimumLamportsOut : Option Nat) : Except ProgramError (World Key) := do
  checkStakeProgram rt a.stakeProgramInfo.key
  let stakePool ← w.validStakePool rt a.stakePoolInfo
  let decimals ← stakePool.checkMint w.accounts a.poolMintInfo
  stakePool.checkValidatorList a.validatorListInfo
  stakePool.checkAuthorityWithdraw rt a.withdrawAuthorityInfo.key rt.programId a.stakePoolInfo.key
  ensure (stakePool.managerFeeAccount = a.managerFeeInfo.key) (.custom .invalidFeeAccount)
  ensure (stakePool.tokenProgramId = a.tokenProgramInfo.key) .incorrectProgramId
  ensure (w.sysvars.epoch ≤ stakePool.lastUpdateEpoch) (.custom .stakeListAndPoolOutOfDate)
  let validatorList ← w.validValidatorList rt a.validatorListInfo
  let poolTokensFee ← stakePool.withdrawalFee rt w.accounts stakePool.calcPoolTokensStakeWithdrawalFee
    a.burnFromPoolInfo a.managerFeeInfo poolTokens
  let poolTokensBurnt ← orErr (checkedSub poolTokens poolTokensFee) (.custom .calculationFailure)
  let withdrawLamports ← stakePool.withdrawLamports poolTokensBurnt minimumLamportsOut
  let plan ← plan rt w a stakePool validatorList withdrawLamports
  let accounts ← tokenBurn rt w.accounts a.burnFromPoolInfo a.poolMintInfo a.userTransferAuthorityInfo
    poolTokensBurnt
  let accounts ← stakeSplit rt w.sysvars accounts a.stakeSplitFrom a.withdrawAuthorityInfo
    plan.withdrawLamports a.stakeSplitTo
  let accounts ← stakeAuthorizeSigned rt w.sysvars accounts a.stakeSplitTo a.withdrawAuthorityInfo
    a.userStakeAuthorityInfo.key
  let accounts ← transferFee rt accounts a.burnFromPoolInfo a.poolMintInfo a.managerFeeInfo
    a.userTransferAuthorityInfo poolTokensFee decimals
  let stakePool ← orErr ((plan.stakePool stakePool).subWithdrawal poolTokensBurnt plan.withdrawLamports)
    (.custom .calculationFailure)
  let validatorList ← validatorList.withdraw plan
  return { w with stakePool, validatorList, accounts }

end WithdrawStakeAccounts

def processWithdrawStake (w : World Key) (accounts : List (AccountInfo Key)) (poolTokens : Nat)
    (minimumLamportsOut : Option Nat) : Except ProgramError (World Key) := do
  let (a, _) ← (WithdrawStakeAccounts.parse rt).run accounts
  a.process rt w poolTokens minimumLamportsOut

/-! ## `WithdrawSol` -/

variable (Key) in
structure WithdrawSolAccounts where
  stakePoolInfo : AccountInfo Key
  withdrawAuthorityInfo : AccountInfo Key
  userTransferAuthorityInfo : AccountInfo Key
  burnFromPoolInfo : AccountInfo Key
  reserveStakeInfo : AccountInfo Key
  destinationLamportsInfo : AccountInfo Key
  managerFeeInfo : AccountInfo Key
  poolMintInfo : AccountInfo Key
  stakeProgramInfo : AccountInfo Key
  tokenProgramInfo : AccountInfo Key
  solWithdrawAuthorityInfo : Option (AccountInfo Key)

def WithdrawSolAccounts.parse : AccountIter Key (WithdrawSolAccounts Key) := do
  let stakePoolInfo ← nextAccountInfo
  let withdrawAuthorityInfo ← nextAccountInfo
  let userTransferAuthorityInfo ← nextAccountInfo
  let burnFromPoolInfo ← nextAccountInfo
  let reserveStakeInfo ← nextAccountInfo
  let destinationLamportsInfo ← nextAccountInfo
  let managerFeeInfo ← nextAccountInfo
  let poolMintInfo ← nextAccountInfo
  let _clockInfo ← nextAccountInfo
  let _stakeHistoryInfo ← nextAccountInfo
  let stakeProgramInfo ← nextAccountInfo
  let tokenProgramInfo ← nextAccountInfo
  let solWithdrawAuthorityInfo ← nextAccountInfo?
  return {
    stakePoolInfo, withdrawAuthorityInfo, userTransferAuthorityInfo, burnFromPoolInfo,
    reserveStakeInfo, destinationLamportsInfo, managerFeeInfo, poolMintInfo, stakeProgramInfo,
    tokenProgramInfo, solWithdrawAuthorityInfo }

/-- The reserve must keep its minimum. -/
def checkReserveAfter (a : Account Key) (withdrawLamports : Nat) : Except ProgramError Unit := do
  match ← readStakeState a with
  | .initialized m =>
    ensure (minimumReserveLamports m ≤ saturatingSub a.lamports withdrawLamports)
      (.custom .solWithdrawalTooLarge)
  | _ => .error (.custom .wrongStakeStake)

def WithdrawSolAccounts.process (w : World Key) (a : WithdrawSolAccounts Key) (poolTokens : Nat)
    (minimumLamportsOut : Option Nat) : Except ProgramError (World Key) := do
  let stakePool ← w.validStakePool rt a.stakePoolInfo
  stakePool.checkAuthorityWithdraw rt a.withdrawAuthorityInfo.key rt.programId a.stakePoolInfo.key
  stakePool.checkSolWithdrawAuthority a.solWithdrawAuthorityInfo
  let decimals ← stakePool.checkMint w.accounts a.poolMintInfo
  stakePool.checkReserveStake a.reserveStakeInfo
  ensure (stakePool.tokenProgramId = a.tokenProgramInfo.key) .incorrectProgramId
  checkStakeProgram rt a.stakeProgramInfo.key
  ensure (stakePool.managerFeeAccount = a.managerFeeInfo.key) (.custom .invalidFeeAccount)
  ensure (w.sysvars.epoch ≤ stakePool.lastUpdateEpoch) (.custom .stakeListAndPoolOutOfDate)
  let poolTokensFee ← stakePool.withdrawalFee rt w.accounts stakePool.calcPoolTokensSolWithdrawalFee
    a.burnFromPoolInfo a.managerFeeInfo poolTokens
  let poolTokensBurnt ← orErr (checkedSub poolTokens poolTokensFee) (.custom .calculationFailure)
  let withdrawLamports ← stakePool.withdrawLamports poolTokensBurnt minimumLamportsOut
  checkReserveAfter (w.accounts a.reserveStakeInfo.key) withdrawLamports
  let accounts ← tokenBurn rt w.accounts a.burnFromPoolInfo a.poolMintInfo a.userTransferAuthorityInfo
    poolTokensBurnt
  let accounts ← transferFee rt accounts a.burnFromPoolInfo a.poolMintInfo a.managerFeeInfo
    a.userTransferAuthorityInfo poolTokensFee decimals
  let accounts ← stakeWithdraw rt w.sysvars accounts a.reserveStakeInfo a.withdrawAuthorityInfo
    a.destinationLamportsInfo withdrawLamports
  let stakePool ← orErr (stakePool.subWithdrawal poolTokensBurnt withdrawLamports)
    (.custom .calculationFailure)
  return { w with stakePool, accounts }

def processWithdrawSol (w : World Key) (accounts : List (AccountInfo Key)) (poolTokens : Nat)
    (minimumLamportsOut : Option Nat) : Except ProgramError (World Key) := do
  let (a, _) ← WithdrawSolAccounts.parse accounts
  a.process rt w poolTokens minimumLamportsOut

end SplStakePool
