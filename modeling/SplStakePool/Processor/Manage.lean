import SplStakePool.Processor.Check

/-!
# The instructions of the manager

`SetManager`, `SetFee`, `SetMaxValidatorStake`, `SetStaker`, `SetFundingAuthority`,
`CreateTokenMetadata` and `UpdateTokenMetadata`.

The setters read the same accounts and change one field each. A new staker can also be set by the old one.
-/

namespace SplStakePool
open Exec Machine

variable {Key : Type} [DecidableEq Key] (rt : Runtime Key)

variable (Key) in
structure SetManagerAccounts where
  stakePoolInfo : AccountInfo Key
  managerInfo : AccountInfo Key
  newManagerInfo : AccountInfo Key
  newManagerFeeInfo : AccountInfo Key

def SetManagerAccounts.parse : AccountIter Key (SetManagerAccounts Key) := do
  let stakePoolInfo ← nextAccountInfo
  let managerInfo ← nextAccountInfo
  let newManagerInfo ← nextAccountInfo
  let newManagerFeeInfo ← nextAccountInfo
  return { stakePoolInfo, managerInfo, newManagerInfo, newManagerFeeInfo }

def SetManagerAccounts.process (w : World Key) (a : SetManagerAccounts Key) :
    Except ProgramError (World Key) := do
  checkAccountOwner rt w.accounts a.stakePoolInfo rt.programId
  let stakePool ← w.readStakePool rt a.stakePoolInfo
  checkAccountOwner rt w.accounts a.newManagerFeeInfo stakePool.tokenProgramId
  ensure stakePool.isValid (.custom .invalidState)
  stakePool.checkManager a.managerInfo
  ensure a.newManagerInfo.isSigner (.custom .signatureMissing)
  stakePool.checkManagerFeeInfo rt w.accounts a.newManagerFeeInfo
  return { w with stakePool := { stakePool with
    manager := a.newManagerInfo.key
    managerFeeAccount := a.newManagerFeeInfo.key } }

def processSetManager (w : World Key) (accounts : List (AccountInfo Key)) :
    Except ProgramError (World Key) := do
  let (a, _) ← SetManagerAccounts.parse accounts
  a.process rt w

variable (Key) in
/-- The accounts of the setters that the manager signs. -/
structure ManagerAccounts where
  stakePoolInfo : AccountInfo Key
  managerInfo : AccountInfo Key

def ManagerAccounts.parse : AccountIter Key (ManagerAccounts Key) := do
  let stakePoolInfo ← nextAccountInfo
  let managerInfo ← nextAccountInfo
  return { stakePoolInfo, managerInfo }

/-- The pool of a setter that the manager has signed. -/
def ManagerAccounts.stakePool (w : World Key) (a : ManagerAccounts Key) :
    Except ProgramError (StakePool Key) := do
  let stakePool ← w.validStakePool rt a.stakePoolInfo
  stakePool.checkManager a.managerInfo
  return stakePool

def liftError {α : Type} : Except StakePoolError α → Except ProgramError α
  | .ok a => .ok a
  | .error e => .error (.custom e)

def processSetFee (w : World Key) (accounts : List (AccountInfo Key)) (fee : FeeType) :
    Except ProgramError (World Key) := do
  let (a, _) ← ManagerAccounts.parse accounts
  let stakePool ← a.stakePool rt w
  ensure (¬ (fee.canOnlyChangeNextEpoch ∧ stakePool.lastUpdateEpoch < w.sysvars.epoch))
    (.custom .stakeListAndPoolOutOfDate)
  liftError fee.checkTooHigh
  let stakePool ← liftError (stakePool.updateFee fee)
  return { w with stakePool }

def processSetMaxValidatorStake (w : World Key) (accounts : List (AccountInfo Key))
    (maxStake : Option Nat) : Except ProgramError (World Key) := do
  let (a, _) ← ManagerAccounts.parse accounts
  let stakePool ← a.stakePool rt w
  return { w with stakePool := { stakePool with maxValidatorStake := maxStake } }

variable (Key) in
structure SetStakerAccounts where
  stakePoolInfo : AccountInfo Key
  setStakerAuthorityInfo : AccountInfo Key
  newStakerInfo : AccountInfo Key

def SetStakerAccounts.parse : AccountIter Key (SetStakerAccounts Key) := do
  let stakePoolInfo ← nextAccountInfo
  let setStakerAuthorityInfo ← nextAccountInfo
  let newStakerInfo ← nextAccountInfo
  return { stakePoolInfo, setStakerAuthorityInfo, newStakerInfo }

def SetStakerAccounts.process (w : World Key) (a : SetStakerAccounts Key) :
    Except ProgramError (World Key) := do
  let stakePool ← w.validStakePool rt a.stakePoolInfo
  let stakerSigned := stakePool.checkStaker a.setStakerAuthorityInfo
  let managerSigned := stakePool.checkManager a.setStakerAuthorityInfo
  ensure (stakerSigned.isOk ∨ managerSigned.isOk) (.custom .signatureMissing)
  return { w with stakePool := { stakePool with staker := a.newStakerInfo.key } }

def processSetStaker (w : World Key) (accounts : List (AccountInfo Key)) :
    Except ProgramError (World Key) := do
  let (a, _) ← SetStakerAccounts.parse accounts
  a.process rt w

inductive FundingType
  | stakeDeposit | solDeposit | solWithdraw
deriving DecidableEq, Repr

/-- Sets an authority of the pool, or resets it to its default. -/
def StakePool.setFundingAuthority (p : StakePool Key) (stakePoolAddress : Key)
    (newAuthority : Option Key) (fundingType : FundingType) : StakePool Key :=
  match fundingType with
  | .stakeDeposit =>
    let derived := (findDepositAuthorityProgramAddress rt rt.programId stakePoolAddress).1
    { p with stakeDepositAuthority := newAuthority.getD derived }
  | .solDeposit => { p with solDepositAuthority := newAuthority }
  | .solWithdraw => { p with solWithdrawAuthority := newAuthority }

def processSetFundingAuthority (w : World Key) (accounts : List (AccountInfo Key))
    (fundingType : FundingType) : Except ProgramError (World Key) := do
  let (a, rest) ← ManagerAccounts.parse accounts
  let newAuthority := rest.head?.map AccountInfo.key
  let stakePool ← a.stakePool rt w
  return { w with
    stakePool := stakePool.setFundingAuthority rt a.stakePoolInfo.key newAuthority fundingType }

variable (Key) in
structure CreateTokenMetadataAccounts where
  stakePoolInfo : AccountInfo Key
  managerInfo : AccountInfo Key
  withdrawAuthorityInfo : AccountInfo Key
  poolMintInfo : AccountInfo Key
  payerInfo : AccountInfo Key
  metadataInfo : AccountInfo Key
  mplTokenMetadataProgramInfo : AccountInfo Key
  systemProgramInfo : AccountInfo Key

def CreateTokenMetadataAccounts.parse : AccountIter Key (CreateTokenMetadataAccounts Key) := do
  let stakePoolInfo ← nextAccountInfo
  let managerInfo ← nextAccountInfo
  let withdrawAuthorityInfo ← nextAccountInfo
  let poolMintInfo ← nextAccountInfo
  let payerInfo ← nextAccountInfo
  let metadataInfo ← nextAccountInfo
  let mplTokenMetadataProgramInfo ← nextAccountInfo
  let systemProgramInfo ← nextAccountInfo
  return {
    stakePoolInfo, managerInfo, withdrawAuthorityInfo, poolMintInfo, payerInfo, metadataInfo,
    mplTokenMetadataProgramInfo, systemProgramInfo }

def CreateTokenMetadataAccounts.process (w : World Key) (a : CreateTokenMetadataAccounts Key)
    (name symbol uri : String) : Except ProgramError (World Key) := do
  ensure a.payerInfo.isSigner (.custom .signatureMissing)
  checkSystemProgram rt a.systemProgramInfo.key
  checkAccountOwner rt w.accounts a.payerInfo rt.systemProgramId
  checkAccountOwner rt w.accounts a.stakePoolInfo rt.programId
  checkMplMetadataProgram rt a.mplTokenMetadataProgramInfo.key
  let stakePool ← w.validStakePool rt a.stakePoolInfo
  stakePool.checkManager a.managerInfo
  stakePool.checkAuthorityWithdraw rt a.withdrawAuthorityInfo.key rt.programId a.stakePoolInfo.key
  let _ ← stakePool.checkMint w.accounts a.poolMintInfo
  checkMplMetadataAccountAddress rt a.metadataInfo.key stakePool.poolMint
  let (metadata, payer) ← rt.createMetadataAccountsV3 a.poolMintInfo.key a.withdrawAuthorityInfo.key
    name symbol uri (w.accounts a.metadataInfo.key) (w.accounts a.payerInfo.key)
  return { w with accounts :=
    Function.update (Function.update w.accounts a.payerInfo.key payer) a.metadataInfo.key metadata }

def processCreatePoolTokenMetadata (w : World Key) (accounts : List (AccountInfo Key))
    (name symbol uri : String) : Except ProgramError (World Key) := do
  let (a, _) ← CreateTokenMetadataAccounts.parse accounts
  a.process rt w name symbol uri

variable (Key) in
structure UpdateTokenMetadataAccounts where
  stakePoolInfo : AccountInfo Key
  managerInfo : AccountInfo Key
  withdrawAuthorityInfo : AccountInfo Key
  metadataInfo : AccountInfo Key
  mplTokenMetadataProgramInfo : AccountInfo Key

def UpdateTokenMetadataAccounts.parse : AccountIter Key (UpdateTokenMetadataAccounts Key) := do
  let stakePoolInfo ← nextAccountInfo
  let managerInfo ← nextAccountInfo
  let withdrawAuthorityInfo ← nextAccountInfo
  let metadataInfo ← nextAccountInfo
  let mplTokenMetadataProgramInfo ← nextAccountInfo
  return {
    stakePoolInfo, managerInfo, withdrawAuthorityInfo, metadataInfo, mplTokenMetadataProgramInfo }

def UpdateTokenMetadataAccounts.process (w : World Key) (a : UpdateTokenMetadataAccounts Key)
    (name symbol uri : String) : Except ProgramError (World Key) := do
  checkAccountOwner rt w.accounts a.stakePoolInfo rt.programId
  checkMplMetadataProgram rt a.mplTokenMetadataProgramInfo.key
  let stakePool ← w.validStakePool rt a.stakePoolInfo
  stakePool.checkManager a.managerInfo
  stakePool.checkAuthorityWithdraw rt a.withdrawAuthorityInfo.key rt.programId a.stakePoolInfo.key
  checkMplMetadataAccountAddress rt a.metadataInfo.key stakePool.poolMint
  let metadata ← rt.updateMetadataAccountsV2 a.withdrawAuthorityInfo.key name symbol uri
    (w.accounts a.metadataInfo.key)
  return { w with accounts := Function.update w.accounts a.metadataInfo.key metadata }

def processUpdatePoolTokenMetadata (w : World Key) (accounts : List (AccountInfo Key))
    (name symbol uri : String) : Except ProgramError (World Key) := do
  let (a, _) ← UpdateTokenMetadataAccounts.parse accounts
  a.process rt w name symbol uri

end SplStakePool
