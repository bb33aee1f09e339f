import SplStakePool.Processor.Check

/-!
# `Initialize`

The accounts of a new pool are checked one after the other, in the order of the source: the mint, the reserve, the
fee account and the fees. What the reserve holds beyond its minimum becomes the first stake of the pool, for
which the manager is minted as many tokens.
-/

namespace SplStakePool
open Exec Machine

variable {Key : Type} [DecidableEq Key] [Inhabited Key] (rt : Runtime Key)

variable (Key) in
structure InitializeAccounts where
  stakePoolInfo : AccountInfo Key
  managerInfo : AccountInfo Key
  stakerInfo : AccountInfo Key
  withdrawAuthorityInfo : AccountInfo Key
  validatorListInfo : AccountInfo Key
  reserveStakeInfo : AccountInfo Key
  poolMintInfo : AccountInfo Key
  managerFeeInfo : AccountInfo Key
  tokenProgramInfo : AccountInfo Key
  depositAuthorityInfo : Option (AccountInfo Key)

omit [DecidableEq Key] [Inhabited Key] in
def InitializeAccounts.parse : AccountIter Key (InitializeAccounts Key) := do
  let stakePoolInfo ← nextAccountInfo
  let managerInfo ← nextAccountInfo
  let stakerInfo ← nextAccountInfo
  let withdrawAuthorityInfo ← nextAccountInfo
  let validatorListInfo ← nextAccountInfo
  let reserveStakeInfo ← nextAccountInfo
  let poolMintInfo ← nextAccountInfo
  let managerFeeInfo ← nextAccountInfo
  let tokenProgramInfo ← nextAccountInfo
  let depositAuthorityInfo ← nextAccountInfo?
  return {
    stakePoolInfo, managerInfo, stakerInfo, withdrawAuthorityInfo, validatorListInfo, reserveStakeInfo,
    poolMintInfo, managerFeeInfo, tokenProgramInfo, depositAuthorityInfo }

/-- The deposit authorities of a new pool: the one given, or the derived one for stake. -/
def InitializeAccounts.depositAuthorities (a : InitializeAccounts Key) : Key × Option Key :=
  match a.depositAuthorityInfo with
  | some info => (info.key, some info.key)
  | none => ((findDepositAuthorityProgramAddress rt rt.programId a.stakePoolInfo.key).1, none)

/-- `Rent::is_exempt` -/
def rentIsExempt (lamports dataLen : Nat) : Bool := rt.rentMinimumBalance dataLen ≤ lamports

/-- The mint of a new pool: empty, with the decimals of the native mint, minted by the pool alone and
never frozen. -/
def checkNewPoolMint (mint : Mint Key) (withdrawAuthorityKey : Key) : Except ProgramError Unit := do
  ensure (mint.supply = 0) (.custom .nonZeroPoolTokenSupply)
  ensure (mint.decimals = 9) (.custom .incorrectMintDecimals)
  ensure (mint.mintAuthority = some withdrawAuthorityKey) (.custom .wrongMintingAuthority)
  ensure (mint.freezeAuthority = none) (.custom .invalidMintFreezeAuthority)
  ensure (mint.extensions.all isExtensionSupportedForMint) (.custom .unsupportedMintExtension)

/-- The lamports of the reserve of a new pool beyond its minimum. -/
def checkNewReserve (a : Account Key) (withdrawAuthorityKey : Key) : Except ProgramError Nat := do
  match ← readStakeState a with
  | .initialized m =>
    ensure (m.lockup = default) (.custom .wrongStakeStake)
    ensure (m.authorized.staker = withdrawAuthorityKey) (.custom .wrongStakeStake)
    ensure (m.authorized.withdrawer = withdrawAuthorityKey) (.custom .wrongStakeStake)
    orErr (checkedSub a.lamports (minimumReserveLamports m)) (.custom .calculationFailure)
  | _ => .error (.custom .wrongStakeStake)

/-- The fields that `Initialize` sets. -/
def StakePool.initialized (p : StakePool Key) (a : InitializeAccounts Key)
    (epochFee withdrawalFee depositFee : Fee) (referralFee : UInt8) (stakeDepositAuthority : Key)
    (solDepositAuthority : Option Key) (stakeWithdrawBumpSeed : UInt8) (totalLamports epoch : Nat) :
    StakePool Key :=
  { p with
    version := 1
    accountType := .stakePool
    manager := a.managerInfo.key
    staker := a.stakerInfo.key
    stakeDepositAuthority
    stakeWithdrawBumpSeed
    validatorList := a.validatorListInfo.key
    reserveStake := a.reserveStakeInfo.key
    poolMint := a.poolMintInfo.key
    managerFeeAccount := a.managerFeeInfo.key
    tokenProgramId := a.tokenProgramInfo.key
    totalLamports
    poolTokenSupply := totalLamports
    lastUpdateEpoch := epoch
    lockup := default
    epochFee
    nextEpochFee := .none
    preferredDepositValidatorVoteAddress := none
    preferredWithdrawValidatorVoteAddress := none
    stakeDepositFee := depositFee
    stakeWithdrawalFee := withdrawalFee
    nextStakeWithdrawalFee := .none
    stakeReferralFee := referralFee
    solDepositAuthority
    solDepositFee := depositFee
    solReferralFee := referralFee
    solWithdrawAuthority := none
    solWithdrawalFee := withdrawalFee
    nextSolWithdrawalFee := .none
    lastEpochPoolTokenSupply := 0
    lastEpochTotalLamports := 0 }

def InitializeAccounts.process (w : World Key) (a : InitializeAccounts Key)
    (epochFee withdrawalFee depositFee : Fee) (referralFee : UInt8) (maxValidators : Nat) :
    Except ProgramError (World Key) := do
  ensure a.managerInfo.isSigner (.custom .signatureMissing)
  ensure (a.stakePoolInfo.key ≠ a.validatorListInfo.key) (.custom .alreadyInUse)
  checkAccountOwner rt w.accounts a.stakePoolInfo rt.programId
  let stakePool ← w.readStakePool rt a.stakePoolInfo
  ensure stakePool.isUninitialized (.custom .alreadyInUse)
  checkAccountOwner rt w.accounts a.validatorListInfo rt.programId
  let validatorList ← w.readValidatorList rt a.validatorListInfo
  ensure validatorList.header.isUninitialized (.custom .alreadyInUse)
  let expectedMaxValidators := ValidatorList.calculateMaxValidators w.validatorListDataLen
  ensure (¬ (expectedMaxValidators ≠ maxValidators ∨ maxValidators = 0))
    (.custom .unexpectedValidatorListAccountSize)
  ensure (maxValidators ≤ maxValidatorsInPool) (.custom .tooManyValidatorsInPool)
  let validatorList : ValidatorList Key :=
    { header := { accountType := .validatorList, maxValidators }, validators := [] }
  ensure (rentIsExempt rt (w.accounts a.stakePoolInfo.key).lamports w.stakePoolDataLen)
    .accountNotRentExempt
  ensure (rentIsExempt rt (w.accounts a.validatorListInfo.key).lamports w.validatorListDataLen)
    .accountNotRentExempt
  ensure (epochFee.atMostOne ∧ withdrawalFee.atMostOne ∧ depositFee.atMostOne ∧ referralFee ≤ 100)
    (.custom .feeTooHigh)
  checkSplTokenProgramAccount rt a.tokenProgramInfo.key
  ensure (ownerOf rt w.accounts a.poolMintInfo.key = a.tokenProgramInfo.key) .incorrectProgramId
  let stakePool := { stakePool with
    tokenProgramId := a.tokenProgramInfo.key, poolMint := a.poolMintInfo.key }
  let (stakeDepositAuthority, solDepositAuthority) := a.depositAuthorities rt
  let (withdrawAuthorityKey, stakeWithdrawBumpSeed) :=
    findWithdrawAuthorityProgramAddress rt rt.programId a.stakePoolInfo.key
  ensure (withdrawAuthorityKey = a.withdrawAuthorityInfo.key) (.custom .invalidProgramAddress)
  let poolMint ← unpackMint (w.accounts a.poolMintInfo.key)
  checkNewPoolMint poolMint withdrawAuthorityKey
  stakePool.checkManagerFeeInfo rt w.accounts a.managerFeeInfo
  ensure (ownerOf rt w.accounts a.reserveStakeInfo.key = rt.stakeProgramId) .incorrectProgramId
  let totalLamports ← checkNewReserve (w.accounts a.reserveStakeInfo.key) withdrawAuthorityKey
  let accounts ← (
    if totalLamports > 0 then
      tokenMintTo rt w.accounts a.poolMintInfo a.managerFeeInfo a.withdrawAuthorityInfo totalLamports
    else pure w.accounts)
  return { w with
    stakePool := stakePool.initialized a epochFee withdrawalFee depositFee referralFee
      stakeDepositAuthority solDepositAuthority stakeWithdrawBumpSeed totalLamports w.sysvars.epoch
    validatorList
    accounts }

def processInitialize (w : World Key) (accounts : List (AccountInfo Key))
    (epochFee withdrawalFee depositFee : Fee) (referralFee : UInt8) (maxValidators : Nat) :
    Except ProgramError (World Key) := do
  let (a, _) ← InitializeAccounts.parse accounts
  a.process rt w epochFee withdrawalFee depositFee referralFee maxValidators

end SplStakePool
