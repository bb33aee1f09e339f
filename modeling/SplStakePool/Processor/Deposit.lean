import SplStakePool.Processor.Check

/-!
# `DepositStake` and `DepositSol`, with their variants

Both compute the tokens of the user, of the manager and of the referrer from the lamports that came in, mint them
and add to the counters. A deposit of stake first hands the account to the pool and merges it into the stake of
the validator, so that what came in is the difference of that account before and after.
-/

namespace SplStakePool
open Exec Machine

variable {Key : Type} [DecidableEq Key] (rt : Runtime Key)

/-- The pool tokens of a deposit: what the user, the manager and the referrer receive. -/
structure DepositTokens where
  newPoolTokens : Nat
  user : Nat
  managerFee : Nat
  referralFee : Nat
deriving DecidableEq, Repr

/-- The checks on a deposit's tokens before they are minted. -/
def DepositTokens.check (t : DepositTokens) (minimumPoolTokensOut : Option Nat) :
    Except ProgramError Unit := do
  ensure (saturatingAdd 64 (saturatingAdd 64 t.user t.managerFee) t.referralFee = t.newPoolTokens)
    (.custom .calculationFailure)
  ensure (t.user ≠ 0) (.custom .depositTooSmall)
  ensure (minimumPoolTokensOut.all fun m => m ≤ t.user) (.custom .exceededSlippage)

/-- Splits new tokens between the user and the fees. -/
def DepositTokens.split (newPoolTokens totalFee referralFee : Nat) : Option DepositTokens := do
  let user ← checkedSub newPoolTokens totalFee
  let managerFee ← checkedSub totalFee referralFee
  return { newPoolTokens, user, managerFee, referralFee }

/-- The tokens for a SOL deposit. -/
def StakePool.solDepositTokens (p : StakePool Key) (depositLamports : Nat) : Option DepositTokens := do
  let newPoolTokens ← p.calcPoolTokensForDeposit depositLamports
  let totalFee ← p.calcPoolTokensSolDepositFee newPoolTokens
  let referralFee ← p.calcPoolTokensSolReferralFee totalFee
  DepositTokens.split newPoolTokens totalFee referralFee

/-- The tokens for a stake deposit, of which a part may be lamports that are not delegated. -/
def StakePool.stakeDepositTokens (p : StakePool Key) (totalDepositLamports stakeDepositLamports : Nat) :
    Option DepositTokens := do
  let newPoolTokens ← p.calcPoolTokensForDeposit totalDepositLamports
  let newPoolTokensFromStake ← p.calcPoolTokensForDeposit stakeDepositLamports
  let newPoolTokensFromSol ← checkedSub newPoolTokens newPoolTokensFromStake
  let stakeDepositFee ← p.calcPoolTokensStakeDepositFee newPoolTokensFromStake
  let solDepositFee ← p.calcPoolTokensSolDepositFee newPoolTokensFromSol
  let totalFee ← checkedAdd 64 stakeDepositFee solDepositFee
  let referralFee ← p.calcPoolTokensStakeReferralFee totalFee
  DepositTokens.split newPoolTokens totalFee referralFee

/-- Mints the tokens to the user, the manager and the referrer. -/
def mintDepositTokens (accounts : Accounts Key) (t : DepositTokens)
    (mint user manager referrer authority : AccountInfo Key) : Except ProgramError (Accounts Key) := do
  let accounts ← tokenMintTo rt accounts mint user authority t.user
  let accounts ← (
    if t.managerFee > 0 then tokenMintTo rt accounts mint manager authority t.managerFee
    else pure accounts)
  if t.referralFee > 0 then tokenMintTo rt accounts mint referrer authority t.referralFee
  else pure accounts

/-- Adds a deposit to the counters of the pool. -/
def StakePool.addDeposit (p : StakePool Key) (newPoolTokens depositLamports : Nat) :
    Option (StakePool Key) := do
  let poolTokenSupply ← checkedAdd 64 p.poolTokenSupply newPoolTokens
  let totalLamports ← checkedAdd 64 p.totalLamports depositLamports
  return { p with poolTokenSupply, totalLamports }

/-! ## `DepositStake` -/

variable (Key) in
structure DepositStakeAccounts where
  stakePoolInfo : AccountInfo Key
  validatorListInfo : AccountInfo Key
  stakeDepositAuthorityInfo : AccountInfo Key
  withdrawAuthorityInfo : AccountInfo Key
  stakeInfo : AccountInfo Key
  validatorStakeAccountInfo : AccountInfo Key
  reserveStakeAccountInfo : AccountInfo Key
  destUserPoolInfo : AccountInfo Key
  managerFeeInfo : AccountInfo Key
  referrerFeeInfo : AccountInfo Key
  poolMintInfo : AccountInfo Key
  tokenProgramInfo : AccountInfo Key
  stakeProgramInfo : AccountInfo Key

def DepositStakeAccounts.parse : AccountIter Key (DepositStakeAccounts Key) := do
  let stakePoolInfo ← nextAccountInfo
  let validatorListInfo ← nextAccountInfo
  let stakeDepositAuthorityInfo ← nextAccountInfo
  let withdrawAuthorityInfo ← nextAccountInfo
  let stakeInfo ← nextAccountInfo
  let validatorStakeAccountInfo ← nextAccountInfo
  let reserveStakeAccountInfo ← nextAccountInfo
  let destUserPoolInfo ← nextAccountInfo
  let managerFeeInfo ← nextAccountInfo
  let referrerFeeInfo ← nextAccountInfo
  let poolMintInfo ← nextAccountInfo
  let _clockInfo ← nextSysvar rt.clockId
  let _stakeHistoryInfo ← nextAccountInfo
  let tokenProgramInfo ← nextAccountInfo
  let stakeProgramInfo ← nextAccountInfo
  return {
    stakePoolInfo, validatorListInfo, stakeDepositAuthorityInfo, withdrawAuthorityInfo, stakeInfo,
    validatorStakeAccountInfo, reserveStakeAccountInfo, destUserPoolInfo, managerFeeInfo,
    referrerFeeInfo, poolMintInfo, tokenProgramInfo, stakeProgramInfo }

namespace DepositStakeAccounts
variable (w : World Key) (a : DepositStakeAccounts Key)

/-- Gives the deposited stake account to the pool. The derived deposit authority signs with seeds, any
other must have signed. -/
def authorizeDeposit : Except ProgramError (Accounts Key) :=
  if a.stakeDepositAuthorityInfo.key =
      (findDepositAuthorityProgramAddress rt rt.programId a.stakePoolInfo.key).1 then
    stakeAuthorizeSigned rt w.sysvars w.accounts a.stakeInfo a.stakeDepositAuthorityInfo
      a.withdrawAuthorityInfo.key
  else
    stakeAuthorize rt w.sysvars w.accounts a.stakeInfo a.stakeDepositAuthorityInfo
      a.withdrawAuthorityInfo.key

def process (minimumPoolTokensOut : Option Nat) : Except ProgramError (World Key) := do
  checkStakeProgram rt a.stakeProgramInfo.key
  let stakePool ← w.validStakePool rt a.stakePoolInfo
  stakePool.checkAuthorityWithdraw rt a.withdrawAuthorityInfo.key rt.programId a.stakePoolInfo.key
  stakePool.checkStakeDepositAuthority a.stakeDepositAuthorityInfo.key
  let _ ← stakePool.checkMint w.accounts a.poolMintInfo
  stakePool.checkValidatorList a.validatorListInfo
  stakePool.checkReserveStake a.reserveStakeAccountInfo
  ensure (stakePool.tokenProgramId = a.tokenProgramInfo.key) .incorrectProgramId
  ensure (stakePool.managerFeeAccount = a.managerFeeInfo.key) (.custom .invalidFeeAccount)
  ensure (w.sysvars.epoch ≤ stakePool.lastUpdateEpoch) (.custom .stakeListAndPoolOutOfDate)
  let validatorList ← w.validValidatorList rt a.validatorListInfo
  let (_, validatorStake) ← getStakeState (w.accounts a.validatorStakeAccountInfo.key)
  let preAllValidatorLamports := (w.accounts a.validatorStakeAccountInfo.key).lamports
  let voteAccountAddress := validatorStake.delegation.voterPubkey
  ensure (stakePool.preferredDepositValidatorVoteAddress.all fun v => v = voteAccountAddress)
    (.custom .incorrectDepositVoteAddress)
  let validatorStakeInfo ← orErr (validatorList.find voteAccountAddress) (.custom .validatorNotFound)
  checkValidatorStakeAddress rt rt.programId a.stakePoolInfo.key a.validatorStakeAccountInfo.key
    voteAccountAddress (nonZeroU32 validatorStakeInfo.validatorSeedSuffix)
  ensure (validatorStakeInfo.status = StakeStatus.active.pod) (.custom .validatorNotFound)
  let accounts ← authorizeDeposit rt w a
  let accounts ← stakeMerge rt w.sysvars accounts a.stakeInfo a.withdrawAuthorityInfo
    a.validatorStakeAccountInfo
  let (_, postValidatorStake) ← getStakeState (accounts a.validatorStakeAccountInfo.key)
  let postAllValidatorLamports := (accounts a.validatorStakeAccountInfo.key).lamports
  let totalDepositLamports ← orErr (checkedSub postAllValidatorLamports preAllValidatorLamports)
    (.custom .calculationFailure)
  let stakeDepositLamports ← orErr
    (checkedSub postValidatorStake.delegation.stake validatorStake.delegation.stake)
    (.custom .calculationFailure)
  let solDepositLamports ← orErr (checkedSub totalDepositLamports stakeDepositLamports)
    (.custom .calculationFailure)
  let tokens ← orErr (stakePool.stakeDepositTokens totalDepositLamports stakeDepositLamports)
    (.custom .calculationFailure)
  tokens.check minimumPoolTokensOut
  let accounts ← mintDepositTokens rt accounts tokens a.poolMintInfo a.destUserPoolInfo a.managerFeeInfo
    a.referrerFeeInfo a.withdrawAuthorityInfo
  -- additional lamports are moved to the reserve, as though they were transferred there directly
  let accounts ← (
    if solDepositLamports > 0 then
      stakeWithdraw rt w.sysvars accounts a.validatorStakeAccountInfo a.withdrawAuthorityInfo
        a.reserveStakeAccountInfo solDepositLamports
    else pure accounts)
  let stakePool ← orErr (stakePool.addDeposit tokens.newPoolTokens totalDepositLamports)
    (.custom .calculationFailure)
  return { w with
    stakePool
    validatorList := validatorList.set { validatorStakeInfo with
      activeStakeLamports := (accounts a.validatorStakeAccountInfo.key).lamports }
    accounts }

end DepositStakeAccounts

def processDepositStake (w : World Key) (accounts : List (AccountInfo Key))
    (minimumPoolTokensOut : Option Nat) : Except ProgramError (World Key) := do
  let (a, _) ← (DepositStakeAccounts.parse rt).run accounts
  a.process rt w minimumPoolTokensOut

/-! ## `DepositSol` -/

variable (Key) in
structure DepositSolAccounts where
  stakePoolInfo : AccountInfo Key
  withdrawAuthorityInfo : AccountInfo Key
  reserveStakeAccountInfo : AccountInfo Key
  fromUserLamportsInfo : AccountInfo Key
  destUserPoolInfo : AccountInfo Key
  managerFeeInfo : AccountInfo Key
  referrerFeeInfo : AccountInfo Key
  poolMintInfo : AccountInfo Key
  systemProgramInfo : AccountInfo Key
  tokenProgramInfo : AccountInfo Key
  solDepositAuthorityInfo : Option (AccountInfo Key)

def DepositSolAccounts.parse : AccountIter Key (DepositSolAccounts Key) := do
  let stakePoolInfo ← nextAccountInfo
  let withdrawAuthorityInfo ← nextAccountInfo
  let reserveStakeAccountInfo ← nextAccountInfo
  let fromUserLamportsInfo ← nextAccountInfo
  let destUserPoolInfo ← nextAccountInfo
  let managerFeeInfo ← nextAccountInfo
  let referrerFeeInfo ← nextAccountInfo
  let poolMintInfo ← nextAccountInfo
  let systemProgramInfo ← nextAccountInfo
  let tokenProgramInfo ← nextAccountInfo
  let solDepositAuthorityInfo ← nextAccountInfo?
  return {
    stakePoolInfo, withdrawAuthorityInfo, reserveStakeAccountInfo, fromUserLamportsInfo,
    destUserPoolInfo, managerFeeInfo, referrerFeeInfo, poolMintInfo, systemProgramInfo,
    tokenProgramInfo, solDepositAuthorityInfo }

def DepositSolAccounts.process (w : World Key) (a : DepositSolAccounts Key) (depositLamports : Nat)
    (minimumPoolTokensOut : Option Nat) : Except ProgramError (World Key) := do
  let stakePool ← w.validStakePool rt a.stakePoolInfo
  stakePool.checkAuthorityWithdraw rt a.withdrawAuthorityInfo.key rt.programId a.stakePoolInfo.key
  stakePool.checkSolDepositAuthority a.solDepositAuthorityInfo
  let _ ← stakePool.checkMint w.accounts a.poolMintInfo
  stakePool.checkReserveStake a.reserveStakeAccountInfo
  ensure (stakePool.tokenProgramId = a.tokenProgramInfo.key) .incorrectProgramId
  checkSystemProgram rt a.systemProgramInfo.key
  ensure (stakePool.managerFeeAccount = a.managerFeeInfo.key) (.custom .invalidFeeAccount)
  ensure (w.sysvars.epoch ≤ stakePool.lastUpdateEpoch) (.custom .stakeListAndPoolOutOfDate)
  let tokens ← orErr (stakePool.solDepositTokens depositLamports) (.custom .calculationFailure)
  tokens.check minimumPoolTokensOut
  let accounts ← solTransfer rt w.accounts a.fromUserLamportsInfo a.reserveStakeAccountInfo
    depositLamports
  let accounts ← mintDepositTokens rt accounts tokens a.poolMintInfo a.destUserPoolInfo a.managerFeeInfo
    a.referrerFeeInfo a.withdrawAuthorityInfo
  let stakePool ← orErr (stakePool.addDeposit tokens.newPoolTokens depositLamports)
    (.custom .calculationFailure)
  return { w with stakePool, accounts }

def processDepositSol (w : World Key) (accounts : List (AccountInfo Key)) (depositLamports : Nat)
    (minimumPoolTokensOut : Option Nat) : Except ProgramError (World Key) := do
  let (a, _) ← DepositSolAccounts.parse accounts
  a.process rt w depositLamports minimumPoolTokensOut

end SplStakePool
