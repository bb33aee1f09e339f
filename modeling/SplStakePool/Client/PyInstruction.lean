import SplStakePool.Layout.Instruction

/-!
# The instructions of the Python client (`instructions.py`)

The builders of the Python client, each with its parameters: the data that a layout builds, and the accounts. An
exception is `none`. The numbers among the parameters are of the size of their field in the instruction, and the
addresses that the client has as constants are a parameter.

There is one layout with a case for each instruction, and one record of parameters for each builder with the names of
the source. The builders from a vote account derive the addresses and call another one.
-/

namespace SplStakePool.Python
open Borsh Buffer

structure AccountMeta where
  pubkey : Pubkey
  isSigner : Bool
  isWritable : Bool
deriving DecidableEq

structure Instruction where
  programId : Pubkey
  accounts : List AccountMeta
  data : List UInt8
deriving DecidableEq

/-- The addresses that the client has as constants. -/
structure Constants where
  stakePoolProgramId : Pubkey
  tokenProgramId : Pubkey
  systemProgramId : Pubkey
  stakeProgramId : Pubkey
  rent : Pubkey
  clock : Pubkey
  stakeHistory : Pubkey
  sysvarStakeConfigId : Pubkey

inductive InstructionType
  | initializePool | addValidatorToPool | removeValidatorFromPool | decreaseValidatorStake | increaseValidatorStake
  | setPreferredValidator | updateValidatorListBalance | updateStakePoolBalance | cleanupRemovedValidatorEntries
  | depositStake | withdrawStake | setManager | setFee | setStaker | depositSol | setFundingAuthority | withdrawSol
  | createTokenMetadata | updateTokenMetadata | increaseAdditionalValidatorStake
  | decreaseAdditionalValidatorStake | decreaseValidatorStakeWithReserve | redelegate
deriving DecidableEq

def InstructionType.value : InstructionType → Nat
  | .initializePool => 0
  | .addValidatorToPool => 1
  | .removeValidatorFromPool => 2
  | .decreaseValidatorStake => 3
  | .increaseValidatorStake => 4
  | .setPreferredValidator => 5
  | .updateValidatorListBalance => 6
  | .updateStakePoolBalance => 7
  | .cleanupRemovedValidatorEntries => 8
  | .depositStake => 9
  | .withdrawStake => 10
  | .setManager => 11
  | .setFee => 12
  | .setStaker => 13
  | .depositSol => 14
  | .setFundingAuthority => 15
  | .withdrawSol => 16
  | .createTokenMetadata => 17
  | .updateTokenMetadata => 18
  | .increaseAdditionalValidatorStake => 19
  | .decreaseAdditionalValidatorStake => 20
  | .decreaseValidatorStakeWithReserve => 21
  | .redelegate => 22

/-- The arguments that a layout is given. -/
inductive Args
  | none
  | initializePool (epochFee withdrawalFee depositFee : SplStakePool.Fee) (referralFee maxValidators : Nat)
  | seed (seed : Nat)
  | moveStake (lamports transientStakeSeed : Nat)
  | moveStakeWithEphemeralStake (lamports transientStakeSeed ephemeralStakeSeed : Nat)
  | updateValidatorListBalance (startIndex : Nat) (noMerge : Bool)
  | amount (amount : Nat)
  | tokenMetadata (name symbol uri : String)

/-- `Int8ul`, `Int32ul` and `Int64ul`: a number out of range raises. -/
def buildInt (count n : Nat) : Option (List UInt8) := if n < 256 ^ count then some (toLeBytes count n) else none

/-- `Prefixed(Int32ul, GreedyString("utf8"))` -/
def buildString (s : String) : Option (List UInt8) := do
  let length ← buildInt 4 (utf8 s).length
  return length ++ utf8 s

/-- The fields of a `Struct`, one behind the other. -/
def buildStruct : List (Option (List UInt8)) → Option (List UInt8)
  | [] => some []
  | field :: struct => do
    let bytes ← field
    let rest ← buildStruct struct
    return bytes ++ rest

/-- `FEE_LAYOUT` -/
def buildFee (fee : SplStakePool.Fee) : Option (List UInt8) :=
  buildStruct [buildInt 8 fee.denominator.toNat, buildInt 8 fee.numerator.toNat]

inductive Layout
  | pass | initializePool | moveStake | moveStakeWithEphemeralStake | updateValidatorListBalance | amount | seed
  | tokenMetadata

/-- Arguments of another shape do not have the keys of the layout. -/
@[simp]
def Layout.build : Layout → Args → Option (List UInt8)
  | .pass, _ => some []
  | .initializePool, .initializePool epochFee withdrawalFee depositFee referralFee maxValidators =>
    buildStruct [buildFee epochFee, buildFee withdrawalFee, buildFee depositFee, buildInt 1 referralFee,
      buildInt 4 maxValidators]
  | .moveStake, .moveStake lamports transientStakeSeed =>
    buildStruct [buildInt 8 lamports, buildInt 8 transientStakeSeed]
  | .moveStakeWithEphemeralStake, .moveStakeWithEphemeralStake lamports transientStakeSeed ephemeralStakeSeed =>
    buildStruct [buildInt 8 lamports, buildInt 8 transientStakeSeed, buildInt 8 ephemeralStakeSeed]
  | .updateValidatorListBalance, .updateValidatorListBalance startIndex noMerge =>
    buildStruct [buildInt 4 startIndex, buildInt 1 noMerge.toNat]
  | .amount, .amount n => buildStruct [buildInt 8 n]
  | .seed, .seed n => buildStruct [buildInt 4 n]
  | .tokenMetadata, .tokenMetadata name symbol uri =>
    buildStruct [buildString name, buildString symbol, buildString uri]
  | _, _ => none

/-- The cases of the `Switch`. -/
def InstructionType.layout : InstructionType → Layout
  | .initializePool => .initializePool
  | .addValidatorToPool => .seed
  | .removeValidatorFromPool => .pass
  | .decreaseValidatorStake => .moveStake
  | .increaseValidatorStake => .moveStake
  | .setPreferredValidator => .pass
  | .updateValidatorListBalance => .updateValidatorListBalance
  | .updateStakePoolBalance => .pass
  | .cleanupRemovedValidatorEntries => .pass
  | .depositStake => .pass
  | .withdrawStake => .amount
  | .setManager => .pass
  | .setFee => .pass
  | .setStaker => .pass
  | .depositSol => .amount
  | .setFundingAuthority => .pass
  | .withdrawSol => .amount
  | .createTokenMetadata => .tokenMetadata
  | .updateTokenMetadata => .tokenMetadata
  | .decreaseAdditionalValidatorStake => .moveStakeWithEphemeralStake
  | .increaseAdditionalValidatorStake => .moveStakeWithEphemeralStake
  | .decreaseValidatorStakeWithReserve => .moveStake
  | .redelegate => .pass

/-- `INSTRUCTIONS_LAYOUT.build` -/
def buildInstruction (instructionType : InstructionType) (args : Args) : Option (List UInt8) :=
  buildStruct [buildInt 1 instructionType.value, instructionType.layout.build args]

/-! ## The parameters -/

structure InitializeParams where
  (programId stakePool manager staker withdrawAuthority validatorList reserveStake poolMint : Pubkey)
  (managerFeeAccount tokenProgramId : Pubkey)
  (epochFee withdrawalFee depositFee : SplStakePool.Fee)
  referralFee : UInt8
  maxValidators : UInt32
  depositAuthority : Option Pubkey

structure AddValidatorToPoolParams where
  (programId stakePool staker reserveStake withdrawAuthority validatorList validatorStake : Pubkey)
  (validatorVote rentSysvar clockSysvar stakeHistorySysvar stakeConfigSysvar systemProgramId : Pubkey)
  stakeProgramId : Pubkey
  seed : Option UInt32

structure RemoveValidatorFromPoolParams where
  (programId stakePool staker withdrawAuthority validatorList validatorStake transientStake : Pubkey)
  (clockSysvar stakeProgramId : Pubkey)

structure DecreaseValidatorStakeParams where
  (programId stakePool staker withdrawAuthority validatorList validatorStake transientStake : Pubkey)
  (clockSysvar rentSysvar systemProgramId stakeProgramId : Pubkey)
  (lamports transientStakeSeed : UInt64)

structure DecreaseValidatorStakeWithReserveParams where
  (programId stakePool staker withdrawAuthority validatorList reserveStake validatorStake : Pubkey)
  (transientStake clockSysvar stakeHistorySysvar systemProgramId stakeProgramId : Pubkey)
  (lamports transientStakeSeed : UInt64)

structure IncreaseValidatorStakeParams where
  (programId stakePool staker withdrawAuthority validatorList reserveStake transientStake : Pubkey)
  (validatorStake validatorVote clockSysvar rentSysvar stakeHistorySysvar stakeConfigSysvar : Pubkey)
  (systemProgramId stakeProgramId : Pubkey)
  (lamports transientStakeSeed : UInt64)

structure UpdateValidatorListBalanceParams where
  (programId stakePool withdrawAuthority validatorList reserveStake clockSysvar stakeHistorySysvar : Pubkey)
  stakeProgramId : Pubkey
  validatorAndTransientStakePairs : List Pubkey
  startIndex : UInt32
  noMerge : Bool

structure UpdateStakePoolBalanceParams where
  (programId stakePool withdrawAuthority validatorList reserveStake managerFeeAccount poolMint : Pubkey)
  tokenProgramId : Pubkey

structure CleanupRemovedValidatorEntriesParams where
  (programId stakePool validatorList : Pubkey)

structure DepositStakeParams where
  (programId stakePool validatorList depositAuthority withdrawAuthority depositStake validatorStake : Pubkey)
  (reserveStake destinationPoolAccount managerFeeAccount referralPoolAccount poolMint clockSysvar : Pubkey)
  (stakeHistorySysvar tokenProgramId stakeProgramId : Pubkey)

structure WithdrawStakeParams where
  (programId stakePool validatorList withdrawAuthority validatorStake destinationStake : Pubkey)
  (destinationStakeAuthority sourceTransferAuthority sourcePoolAccount managerFeeAccount poolMint : Pubkey)
  (clockSysvar tokenProgramId stakeProgramId : Pubkey)
  amount : UInt64

structure DepositSolParams where
  (programId stakePool withdrawAuthority reserveStake fundingAccount destinationPoolAccount : Pubkey)
  (managerFeeAccount referralPoolAccount poolMint systemProgramId tokenProgramId : Pubkey)
  amount : UInt64
  depositAuthority : Option Pubkey

structure WithdrawSolParams where
  (programId stakePool withdrawAuthority sourceTransferAuthority sourcePoolAccount reserveStake : Pubkey)
  (destinationSystemAccount managerFeeAccount poolMint clockSysvar stakeHistorySysvar stakeProgramId : Pubkey)
  tokenProgramId : Pubkey
  amount : UInt64
  solWithdrawAuthority : Option Pubkey

structure CreateTokenMetadataParams where
  (programId stakePool manager withdrawAuthority poolMint payer tokenMetadata metadataProgramId : Pubkey)
  systemProgramId : Pubkey
  (name symbol uri : String)

structure UpdateTokenMetadataParams where
  (programId stakePool manager withdrawAuthority tokenMetadata metadataProgramId : Pubkey)
  (name symbol uri : String)

structure IncreaseAdditionalValidatorStakeParams where
  (programId stakePool staker withdrawAuthority validatorList reserveStake ephemeralStake : Pubkey)
  (transientStake validatorStake validatorVote clockSysvar stakeHistorySysvar stakeConfigSysvar : Pubkey)
  (systemProgramId stakeProgramId : Pubkey)
  (lamports transientStakeSeed ephemeralStakeSeed : UInt64)

structure DecreaseAdditionalValidatorStakeParams where
  (programId stakePool staker withdrawAuthority validatorList reserveStake validatorStake : Pubkey)
  (ephemeralStake transientStake clockSysvar stakeHistorySysvar systemProgramId stakeProgramId : Pubkey)
  (lamports transientStakeSeed ephemeralStakeSeed : UInt64)

/-! ## The builders -/

/-- `initialize`, which takes the token program that the client has as a constant. -/
def initializePool (c : Constants) (params : InitializeParams) : Option Instruction := do
  let accounts := [
    { pubkey := params.stakePool, isSigner := false, isWritable := true },
    { pubkey := params.manager, isSigner := true, isWritable := false },
    { pubkey := params.staker, isSigner := false, isWritable := false },
    { pubkey := params.withdrawAuthority, isSigner := false, isWritable := false },
    { pubkey := params.validatorList, isSigner := false, isWritable := true },
    { pubkey := params.reserveStake, isSigner := false, isWritable := false },
    { pubkey := params.poolMint, isSigner := false, isWritable := true },
    { pubkey := params.managerFeeAccount, isSigner := false, isWritable := true },
    { pubkey := c.tokenProgramId, isSigner := false, isWritable := false } ]
  let accounts :=
    match params.depositAuthority with
    | some depositAuthority => accounts ++ [{ pubkey := depositAuthority, isSigner := true, isWritable := false }]
    | none => accounts
  let data ← buildInstruction .initializePool (.initializePool params.epochFee params.withdrawalFee
    params.depositFee params.referralFee.toNat params.maxValidators.toNat)
  return { programId := params.programId, accounts, data }

def addValidatorToPool (params : AddValidatorToPoolParams) : Option Instruction := do
  let accounts := [
    { pubkey := params.stakePool, isSigner := false, isWritable := true },
    { pubkey := params.staker, isSigner := true, isWritable := false },
    { pubkey := params.reserveStake, isSigner := false, isWritable := true },
    { pubkey := params.withdrawAuthority, isSigner := false, isWritable := false },
    { pubkey := params.validatorList, isSigner := false, isWritable := true },
    { pubkey := params.validatorStake, isSigner := false, isWritable := true },
    { pubkey := params.validatorVote, isSigner := false, isWritable := false },
    { pubkey := params.rentSysvar, isSigner := false, isWritable := false },
    { pubkey := params.clockSysvar, isSigner := false, isWritable := false },
    { pubkey := params.stakeHistorySysvar, isSigner := false, isWritable := false },
    { pubkey := params.stakeConfigSysvar, isSigner := false, isWritable := false },
    { pubkey := params.systemProgramId, isSigner := false, isWritable := false },
    { pubkey := params.stakeProgramId, isSigner := false, isWritable := false } ]
  let data ← buildInstruction .addValidatorToPool (.seed ((params.seed.map UInt32.toNat).getD 0))
  return { programId := params.programId, accounts, data }

def removeValidatorFromPool (params : RemoveValidatorFromPoolParams) : Option Instruction := do
  let accounts := [
    { pubkey := params.stakePool, isSigner := false, isWritable := true },
    { pubkey := params.staker, isSigner := true, isWritable := false },
    { pubkey := params.withdrawAuthority, isSigner := false, isWritable := false },
    { pubkey := params.validatorList, isSigner := false, isWritable := true },
    { pubkey := params.validatorStake, isSigner := false, isWritable := true },
    { pubkey := params.transientStake, isSigner := false, isWritable := true },
    { pubkey := params.clockSysvar, isSigner := false, isWritable := false },
    { pubkey := params.stakeProgramId, isSigner := false, isWritable := false } ]
  let data ← buildInstruction .removeValidatorFromPool .none
  return { programId := params.programId, accounts, data }

def depositStake (params : DepositStakeParams) : Option Instruction := do
  let accounts := [
    { pubkey := params.stakePool, isSigner := false, isWritable := true },
    { pubkey := params.validatorList, isSigner := false, isWritable := true },
    { pubkey := params.depositAuthority, isSigner := false, isWritable := false },
    { pubkey := params.withdrawAuthority, isSigner := false, isWritable := false },
    { pubkey := params.depositStake, isSigner := false, isWritable := true },
    { pubkey := params.validatorStake, isSigner := false, isWritable := true },
    { pubkey := params.reserveStake, isSigner := false, isWritable := true },
    { pubkey := params.destinationPoolAccount, isSigner := false, isWritable := true },
    { pubkey := params.managerFeeAccount, isSigner := false, isWritable := true },
    { pubkey := params.referralPoolAccount, isSigner := false, isWritable := true },
    { pubkey := params.poolMint, isSigner := false, isWritable := true },
    { pubkey := params.clockSysvar, isSigner := false, isWritable := false },
    { pubkey := params.stakeHistorySysvar, isSigner := false, isWritable := false },
    { pubkey := params.tokenProgramId, isSigner := false, isWritable := false },
    { pubkey := params.stakeProgramId, isSigner := false, isWritable := false } ]
  let data ← buildInstruction .depositStake .none
  return { programId := params.programId, accounts, data }

def withdrawStake (params : WithdrawStakeParams) : Option Instruction := do
  let accounts := [
    { pubkey := params.stakePool, isSigner := false, isWritable := true },
    { pubkey := params.validatorList, isSigner := false, isWritable := true },
    { pubkey := params.withdrawAuthority, isSigner := false, isWritable := false },
    { pubkey := params.validatorStake, isSigner := false, isWritable := true },
    { pubkey := params.destinationStake, isSigner := false, isWritable := true },
    { pubkey := params.destinationStakeAuthority, isSigner := false, isWritable := false },
    { pubkey := params.sourceTransferAuthority, isSigner := true, isWritable := false },
    { pubkey := params.sourcePoolAccount, isSigner := false, isWritable := true },
    { pubkey := params.managerFeeAccount, isSigner := false, isWritable := true },
    { pubkey := params.poolMint, isSigner := false, isWritable := true },
    { pubkey := params.clockSysvar, isSigner := false, isWritable := false },
    { pubkey := params.tokenProgramId, isSigner := false, isWritable := false },
    { pubkey := params.stakeProgramId, isSigner := false, isWritable := false } ]
  let data ← buildInstruction .withdrawStake (.amount params.amount.toNat)
  return { programId := params.programId, accounts, data }

def depositSol (params : DepositSolParams) : Option Instruction := do
  let accounts := [
    { pubkey := params.stakePool, isSigner := false, isWritable := true },
    { pubkey := params.withdrawAuthority, isSigner := false, isWritable := false },
    { pubkey := params.reserveStake, isSigner := false, isWritable := true },
    { pubkey := params.fundingAccount, isSigner := true, isWritable := true },
    { pubkey := params.destinationPoolAccount, isSigner := false, isWritable := true },
    { pubkey := params.managerFeeAccount, isSigner := false, isWritable := true },
    { pubkey := params.referralPoolAccount, isSigner := false, isWritable := true },
    { pubkey := params.poolMint, isSigner := false, isWritable := true },
    { pubkey := params.systemProgramId, isSigner := false, isWritable := false },
    { pubkey := params.tokenProgramId, isSigner := false, isWritable := false } ]
  let accounts :=
    match params.depositAuthority with
    | some depositAuthority => accounts ++ [{ pubkey := depositAuthority, isSigner := true, isWritable := false }]
    | none => accounts
  let data ← buildInstruction .depositSol (.amount params.amount.toNat)
  return { programId := params.programId, accounts, data }

def withdrawSol (params : WithdrawSolParams) : Option Instruction := do
  let accounts := [
    { pubkey := params.stakePool, isSigner := false, isWritable := true },
    { pubkey := params.withdrawAuthority, isSigner := false, isWritable := false },
    { pubkey := params.sourceTransferAuthority, isSigner := true, isWritable := false },
    { pubkey := params.sourcePoolAccount, isSigner := false, isWritable := true },
    { pubkey := params.reserveStake, isSigner := false, isWritable := true },
    { pubkey := params.destinationSystemAccount, isSigner := false, isWritable := true },
    { pubkey := params.managerFeeAccount, isSigner := false, isWritable := true },
    { pubkey := params.poolMint, isSigner := false, isWritable := true },
    { pubkey := params.clockSysvar, isSigner := false, isWritable := false },
    { pubkey := params.stakeHistorySysvar, isSigner := false, isWritable := false },
    { pubkey := params.stakeProgramId, isSigner := false, isWritable := false },
    { pubkey := params.tokenProgramId, isSigner := false, isWritable := false } ]
  -- the authority is made an account, which is not appended
  let _ := params.solWithdrawAuthority.map fun solWithdrawAuthority =>
    ({ pubkey := solWithdrawAuthority, isSigner := true, isWritable := false } : AccountMeta)
  let data ← buildInstruction .withdrawSol (.amount params.amount.toNat)
  return { programId := params.programId, accounts, data }

def updateValidatorListBalance (params : UpdateValidatorListBalanceParams) : Option Instruction := do
  let accounts := [
    { pubkey := params.stakePool, isSigner := false, isWritable := false },
    { pubkey := params.withdrawAuthority, isSigner := false, isWritable := false },
    { pubkey := params.validatorList, isSigner := false, isWritable := true },
    { pubkey := params.reserveStake, isSigner := false, isWritable := true },
    { pubkey := params.clockSysvar, isSigner := false, isWritable := false },
    { pubkey := params.stakeHistorySysvar, isSigner := false, isWritable := false },
    { pubkey := params.stakeProgramId, isSigner := false, isWritable := false } ]
  let accounts := accounts ++ params.validatorAndTransientStakePairs.map fun pubkey =>
    { pubkey, isSigner := false, isWritable := true }
  let data ← buildInstruction .updateValidatorListBalance (.updateValidatorListBalance params.startIndex.toNat
    params.noMerge)
  return { programId := params.programId, accounts, data }

def updateStakePoolBalance (params : UpdateStakePoolBalanceParams) : Option Instruction := do
  let accounts := [
    { pubkey := params.stakePool, isSigner := false, isWritable := true },
    { pubkey := params.withdrawAuthority, isSigner := false, isWritable := false },
    { pubkey := params.validatorList, isSigner := false, isWritable := true },
    { pubkey := params.reserveStake, isSigner := false, isWritable := false },
    { pubkey := params.managerFeeAccount, isSigner := false, isWritable := true },
    { pubkey := params.poolMint, isSigner := false, isWritable := true },
    { pubkey := params.tokenProgramId, isSigner := false, isWritable := false } ]
  let data ← buildInstruction .updateStakePoolBalance .none
  return { programId := params.programId, accounts, data }

def cleanupRemovedValidatorEntries (params : CleanupRemovedValidatorEntriesParams) : Option Instruction := do
  let accounts := [
    { pubkey := params.stakePool, isSigner := false, isWritable := false },
    { pubkey := params.validatorList, isSigner := false, isWritable := true } ]
  let data ← buildInstruction .cleanupRemovedValidatorEntries .none
  return { programId := params.programId, accounts, data }

def increaseValidatorStake (params : IncreaseValidatorStakeParams) : Option Instruction := do
  let accounts := [
    { pubkey := params.stakePool, isSigner := false, isWritable := false },
    { pubkey := params.staker, isSigner := true, isWritable := false },
    { pubkey := params.withdrawAuthority, isSigner := false, isWritable := false },
    { pubkey := params.validatorList, isSigner := false, isWritable := true },
    { pubkey := params.reserveStake, isSigner := false, isWritable := true },
    { pubkey := params.transientStake, isSigner := false, isWritable := true },
    { pubkey := params.validatorStake, isSigner := false, isWritable := false },
    { pubkey := params.validatorVote, isSigner := false, isWritable := false },
    { pubkey := params.clockSysvar, isSigner := false, isWritable := false },
    { pubkey := params.rentSysvar, isSigner := false, isWritable := false },
    { pubkey := params.stakeHistorySysvar, isSigner := false, isWritable := false },
    { pubkey := params.stakeConfigSysvar, isSigner := false, isWritable := false },
    { pubkey := params.systemProgramId, isSigner := false, isWritable := false },
    { pubkey := params.stakeProgramId, isSigner := false, isWritable := false } ]
  let data ← buildInstruction .increaseValidatorStake (.moveStake params.lamports.toNat
    params.transientStakeSeed.toNat)
  return { programId := params.programId, accounts, data }

def increaseAdditionalValidatorStake (params : IncreaseAdditionalValidatorStakeParams) : Option Instruction := do
  let accounts := [
    { pubkey := params.stakePool, isSigner := false, isWritable := false },
    { pubkey := params.staker, isSigner := true, isWritable := false },
    { pubkey := params.withdrawAuthority, isSigner := false, isWritable := false },
    { pubkey := params.validatorList, isSigner := false, isWritable := true },
    { pubkey := params.reserveStake, isSigner := false, isWritable := true },
    { pubkey := params.ephemeralStake, isSigner := false, isWritable := true },
    { pubkey := params.transientStake, isSigner := false, isWritable := true },
    { pubkey := params.validatorStake, isSigner := false, isWritable := false },
    { pubkey := params.validatorVote, isSigner := false, isWritable := false },
    { pubkey := params.clockSysvar, isSigner := false, isWritable := false },
    { pubkey := params.stakeHistorySysvar, isSigner := false, isWritable := false },
    { pubkey := params.stakeConfigSysvar, isSigner := false, isWritable := false },
    { pubkey := params.systemProgramId, isSigner := false, isWritable := false },
    { pubkey := params.stakeProgramId, isSigner := false, isWritable := false } ]
  let data ← buildInstruction .increaseAdditionalValidatorStake (.moveStakeWithEphemeralStake
    params.lamports.toNat params.transientStakeSeed.toNat params.ephemeralStakeSeed.toNat)
  return { programId := params.programId, accounts, data }

def decreaseValidatorStake (params : DecreaseValidatorStakeParams) : Option Instruction := do
  let accounts := [
    { pubkey := params.stakePool, isSigner := false, isWritable := false },
    { pubkey := params.staker, isSigner := true, isWritable := false },
    { pubkey := params.withdrawAuthority, isSigner := false, isWritable := false },
    { pubkey := params.validatorList, isSigner := false, isWritable := true },
    { pubkey := params.validatorStake, isSigner := false, isWritable := true },
    { pubkey := params.transientStake, isSigner := false, isWritable := true },
    { pubkey := params.clockSysvar, isSigner := false, isWritable := false },
    { pubkey := params.rentSysvar, isSigner := false, isWritable := false },
    { pubkey := params.systemProgramId, isSigner := false, isWritable := false },
    { pubkey := params.stakeProgramId, isSigner := false, isWritable := false } ]
  let data ← buildInstruction .decreaseValidatorStake (.moveStake params.lamports.toNat
    params.transientStakeSeed.toNat)
  return { programId := params.programId, accounts, data }

def decreaseAdditionalValidatorStake (params : DecreaseAdditionalValidatorStakeParams) : Option Instruction := do
  let accounts := [
    { pubkey := params.stakePool, isSigner := false, isWritable := false },
    { pubkey := params.staker, isSigner := true, isWritable := false },
    { pubkey := params.withdrawAuthority, isSigner := false, isWritable := false },
    { pubkey := params.validatorList, isSigner := false, isWritable := true },
    { pubkey := params.reserveStake, isSigner := false, isWritable := true },
    { pubkey := params.validatorStake, isSigner := false, isWritable := true },
    { pubkey := params.ephemeralStake, isSigner := false, isWritable := true },
    { pubkey := params.transientStake, isSigner := false, isWritable := true },
    { pubkey := params.clockSysvar, isSigner := false, isWritable := false },
    { pubkey := params.stakeHistorySysvar, isSigner := false, isWritable := false },
    { pubkey := params.systemProgramId, isSigner := false, isWritable := false },
    { pubkey := params.stakeProgramId, isSigner := false, isWritable := false } ]
  let data ← buildInstruction .decreaseAdditionalValidatorStake (.moveStakeWithEphemeralStake
    params.lamports.toNat params.transientStakeSeed.toNat params.ephemeralStakeSeed.toNat)
  return { programId := params.programId, accounts, data }

def decreaseValidatorStakeWithReserve (params : DecreaseValidatorStakeWithReserveParams) : Option Instruction := do
  let accounts := [
    { pubkey := params.stakePool, isSigner := false, isWritable := false },
    { pubkey := params.staker, isSigner := true, isWritable := false },
    { pubkey := params.withdrawAuthority, isSigner := false, isWritable := false },
    { pubkey := params.validatorList, isSigner := false, isWritable := true },
    { pubkey := params.reserveStake, isSigner := false, isWritable := true },
    { pubkey := params.validatorStake, isSigner := false, isWritable := true },
    { pubkey := params.transientStake, isSigner := false, isWritable := true },
    { pubkey := params.clockSysvar, isSigner := false, isWritable := false },
    { pubkey := params.stakeHistorySysvar, isSigner := false, isWritable := false },
    { pubkey := params.systemProgramId, isSigner := false, isWritable := false },
    { pubkey := params.stakeProgramId, isSigner := false, isWritable := false } ]
  let data ← buildInstruction .decreaseValidatorStakeWithReserve (.moveStake params.lamports.toNat
    params.transientStakeSeed.toNat)
  return { programId := params.programId, accounts, data }

def createTokenMetadata (params : CreateTokenMetadataParams) : Option Instruction := do
  let accounts := [
    { pubkey := params.stakePool, isSigner := false, isWritable := false },
    { pubkey := params.manager, isSigner := true, isWritable := false },
    { pubkey := params.withdrawAuthority, isSigner := false, isWritable := false },
    { pubkey := params.poolMint, isSigner := false, isWritable := false },
    { pubkey := params.payer, isSigner := true, isWritable := true },
    { pubkey := params.tokenMetadata, isSigner := false, isWritable := true },
    { pubkey := params.metadataProgramId, isSigner := false, isWritable := false },
    { pubkey := params.systemProgramId, isSigner := false, isWritable := false } ]
  let data ← buildInstruction .createTokenMetadata (.tokenMetadata params.name params.symbol params.uri)
  return { programId := params.programId, accounts, data }

def updateTokenMetadata (params : UpdateTokenMetadataParams) : Option Instruction := do
  let accounts := [
    { pubkey := params.stakePool, isSigner := false, isWritable := false },
    { pubkey := params.manager, isSigner := true, isWritable := false },
    { pubkey := params.withdrawAuthority, isSigner := false, isWritable := false },
    { pubkey := params.tokenMetadata, isSigner := false, isWritable := true },
    { pubkey := params.metadataProgramId, isSigner := false, isWritable := false } ]
  let data ← buildInstruction .updateTokenMetadata (.tokenMetadata params.name params.symbol params.uri)
  return { programId := params.programId, accounts, data }

section
variable (rt : Runtime Pubkey) (c : Constants)

/-- `seed.to_bytes(4, 'little') if seed else bytes()` -/
def findStakeProgramAddress (programId voteAccountAddress stakePoolAddress : Pubkey) (seed : Option UInt32) :
    Pubkey × UInt8 :=
  let seed :=
    match seed with
    | some seed => if seed ≠ 0 then toLeBytes 4 seed.toNat else []
    | none => []
  rt.findProgramAddress [.pubkey voteAccountAddress, .pubkey stakePoolAddress, .bytes seed] programId

structure AddValidatorToPoolWithVoteParams where
  (programId stakePool staker validatorList reserveStake validator : Pubkey)
  validatorStakeSeed : Option UInt32

/-- The addresses are derived from the program that is given, the instruction is for the program of the client. -/
def addValidatorToPoolWithVote (params : AddValidatorToPoolWithVoteParams) : Option Instruction :=
  let (withdrawAuthority, _) := findWithdrawAuthorityProgramAddress rt params.programId params.stakePool
  let (validatorStake, _) :=
    findStakeProgramAddress rt params.programId params.validator params.stakePool params.validatorStakeSeed
  addValidatorToPool {
    programId := c.stakePoolProgramId
    stakePool := params.stakePool
    staker := params.staker
    reserveStake := params.reserveStake
    withdrawAuthority
    validatorList := params.validatorList
    validatorStake
    validatorVote := params.validator
    rentSysvar := c.rent
    clockSysvar := c.clock
    stakeHistorySysvar := c.stakeHistory
    stakeConfigSysvar := c.sysvarStakeConfigId
    systemProgramId := c.systemProgramId
    stakeProgramId := c.stakeProgramId
    seed := params.validatorStakeSeed }

structure RemoveValidatorFromPoolWithVoteParams where
  (programId stakePool staker validatorList validator : Pubkey)
  validatorStakeSeed : Option UInt32
  transientStakeSeed : UInt64

def removeValidatorFromPoolWithVote (params : RemoveValidatorFromPoolWithVoteParams) : Option Instruction :=
  let (withdrawAuthority, _) := findWithdrawAuthorityProgramAddress rt params.programId params.stakePool
  let (validatorStake, _) :=
    findStakeProgramAddress rt params.programId params.validator params.stakePool params.validatorStakeSeed
  let (transientStake, _) := findTransientStakeProgramAddress rt params.programId params.validator
    params.stakePool params.transientStakeSeed
  removeValidatorFromPool {
    programId := c.stakePoolProgramId
    stakePool := params.stakePool
    staker := params.staker
    withdrawAuthority
    validatorList := params.validatorList
    validatorStake
    transientStake
    clockSysvar := c.clock
    stakeProgramId := c.stakeProgramId }

end

end SplStakePool.Python
