import SplStakePool.Client.JsInstruction

/-!
# Deposits in the JavaScript client (`instructions.ts`)

The builders of the two deposits and the decoders that are to take their parameters back out of an
instruction. An exception is `none`, and so is a property that is `undefined`.
-/

namespace SplStakePool.Js
open Borsh

variable {Key : Type} [DecidableEq Key]

variable (Key) in
structure AccountMeta where
  pubkey : Key
  isSigner : Bool
  isWritable : Bool
deriving DecidableEq

variable (Key) in
/-- `TransactionInstruction` -/
structure BuiltInstruction where
  programId : Key
  keys : List (AccountMeta Key)
  data : List UInt8
deriving DecidableEq

variable (Key) in
/-- The addresses that the client has as constants. -/
structure Constants where
  stakePoolProgramId : Key
  devnetStakePoolProgramId : Key
  tokenProgramId : Key
  systemProgramId : Key
  stakeProgramId : Key
  sysvarClockPubkey : Key
  sysvarStakeHistoryPubkey : Key

/-- A value that a layout decodes. -/
inductive Decoded
  | num (n : Int)
  | buffer (bytes : List UInt8)
deriving DecidableEq

/-- The name of a property. -/
def Property.key : Property → String
  | .instruction => "instruction"
  | .seed => "seed"
  | .lamports => "lamports"
  | .transientStakeSeed => "transientStakeSeed"
  | .ephemeralStakeSeed => "ephemeralStakeSeed"
  | .startIndex => "startIndex"
  | .noMerge => "noMerge"
  | .poolTokens => "poolTokens"
  | .maxStakeOption => "maxStakeOption"
  | .maxStake => "maxStake"
  | .nameLen => "nameLen"
  | .name => "name"
  | .symbolLen => "symbolLen"
  | .symbol => "symbol"
  | .uriLen => "uriLen"
  | .uri => "uri"

/-- The sum of the two halves of a 64-bit number, of which the upper one is signed, as a double. -/
def roundedInt64 (hi32 : Int) (lo32 : Nat) : Int :=
  let n := hi32 * 2 ^ 32 + lo32
  if 0 ≤ n then toDouble n.natAbs else -toDouble n.natAbs

def Layout.decode : Layout → Decoder Decoded
  | .u8 => (fun n : Nat => .num n) <$> uint 1
  | .u32 => (fun n : Nat => .num n) <$> uint 4
  | .ns64 => do
    let lo32 ← uint 4
    let hi32 ← int 4
    return .num (roundedInt64 hi32 lo32)
  | .blob length => .buffer <$> takeBytes length

def decodeStruct : List (Property × Layout) → Decoder (List (Property × Decoded))
  | [] => return []
  | (property, layout) :: struct => do
    let value ← layout.decode
    let rest ← decodeStruct struct
    return (property, value) :: rest

def decodeData (type : InstructionType) (buffer : List UInt8) : Option (List (Property × Decoded)) := do
  let data ← tryFromSliceUnchecked (decodeStruct type.layout) buffer
  if data.lookup .instruction = some (.num type.index) then return data else none

/-- A property of a decoded object by its name. -/
def getProperty (data : List (Property × Decoded)) (name : String) : Option Decoded :=
  (data.find? fun field => field.1.key = name).map Prod.snd

variable (Key) in
structure DepositStakeParams where
  programId : Option Key
  stakePool : Key
  validatorList : Key
  depositAuthority : Key
  withdrawAuthority : Key
  depositStake : Key
  validatorStake : Key
  reserveStake : Key
  destinationPoolAccount : Key
  managerFeeAccount : Key
  referralPoolAccount : Key
  poolMint : Key
deriving DecidableEq

variable (Key) in
structure DepositSolParams where
  programId : Option Key
  stakePool : Key
  depositAuthority : Option Key
  withdrawAuthority : Key
  reserveStake : Key
  fundingAccount : Key
  destinationPoolAccount : Key
  managerFeeAccount : Key
  referralPoolAccount : Key
  poolMint : Key
  lamports : Number
deriving DecidableEq

variable (Key) in
/-- The object that `decodeDepositSol` returns, where the lamports may be `undefined`. -/
structure DecodedDepositSol where
  programId : Option Key
  stakePool : Key
  depositAuthority : Option Key
  withdrawAuthority : Key
  reserveStake : Key
  fundingAccount : Key
  destinationPoolAccount : Key
  managerFeeAccount : Key
  referralPoolAccount : Key
  poolMint : Key
  lamports : Option Decoded
deriving DecidableEq

/-- The parameters as the object that they are. -/
def DepositSolParams.object (p : DepositSolParams Key) : DecodedDepositSol Key where
  programId := p.programId
  stakePool := p.stakePool
  depositAuthority := p.depositAuthority
  withdrawAuthority := p.withdrawAuthority
  reserveStake := p.reserveStake
  fundingAccount := p.fundingAccount
  destinationPoolAccount := p.destinationPoolAccount
  managerFeeAccount := p.managerFeeAccount
  referralPoolAccount := p.referralPoolAccount
  poolMint := p.poolMint
  lamports := some (.num p.lamports.val)

/-! ## The builders -/

variable (c : Constants Key)

def depositStake (params : DepositStakeParams Key) : Option (BuiltInstruction Key) := do
  let data ← Call.depositStake.data
  let keys := [
    { pubkey := params.stakePool, isSigner := false, isWritable := true },
    { pubkey := params.validatorList, isSigner := false, isWritable := true },
    { pubkey := params.depositAuthority, isSigner := false, isWritable := false },
    { pubkey := params.withdrawAuthority, isSigner := false, isWritable := false },
    { pubkey := params.depositStake, isSigner := false, isWritable := true },
    { pubkey := params.validatorStake, isSigner := false, isWritable := true },
    { pubkey := params.reserveStake, isSigner := false, isWritable := true },
    { pubkey := params.destinationPoolAccount, isSigner := false, isWritable := true },
    { pubkey := params.managerFeeAccount, isSigner := false, isWritable := true },
    { pubkey := params.referralPoolAccount, isSigner := false, isWritable := true },
    { pubkey := params.poolMint, isSigner := false, isWritable := true },
    { pubkey := c.sysvarClockPubkey, isSigner := false, isWritable := false },
    { pubkey := c.sysvarStakeHistoryPubkey, isSigner := false, isWritable := false },
    { pubkey := c.tokenProgramId, isSigner := false, isWritable := false },
    { pubkey := c.stakeProgramId, isSigner := false, isWritable := false } ]
  return { programId := params.programId.getD c.stakePoolProgramId, keys, data }

def depositSol (params : DepositSolParams Key) : Option (BuiltInstruction Key) := do
  let data ← (Call.depositSol params.lamports).data
  let keys := [
    { pubkey := params.stakePool, isSigner := false, isWritable := true },
    { pubkey := params.withdrawAuthority, isSigner := false, isWritable := false },
    { pubkey := params.reserveStake, isSigner := false, isWritable := true },
    { pubkey := params.fundingAccount, isSigner := true, isWritable := true },
    { pubkey := params.destinationPoolAccount, isSigner := false, isWritable := true },
    { pubkey := params.managerFeeAccount, isSigner := false, isWritable := true },
    { pubkey := params.referralPoolAccount, isSigner := false, isWritable := true },
    { pubkey := params.poolMint, isSigner := false, isWritable := true },
    { pubkey := c.systemProgramId, isSigner := false, isWritable := false },
    { pubkey := c.tokenProgramId, isSigner := false, isWritable := false } ]
  let keys :=
    match params.depositAuthority with
    | some depositAuthority => keys ++ [{ pubkey := depositAuthority, isSigner := true, isWritable := false }]
    | none => keys
  return { programId := params.programId.getD c.stakePoolProgramId, keys, data }

/-! ## The decoders -/

def checkProgramId (programId : Key) : Option Unit :=
  if programId ≠ c.stakePoolProgramId ∧ programId ≠ c.devnetStakePoolProgramId then none else some ()

omit [DecidableEq Key] in
def checkKeyLength (keys : List (AccountMeta Key)) (expectedLength : Nat) : Option Unit :=
  if keys.length < expectedLength then none else some ()

/-- The key at an index of the accounts of an instruction. -/
def BuiltInstruction.key (instruction : BuiltInstruction Key) (i : Nat) : Option Key :=
  instruction.keys[i]?.map AccountMeta.pubkey

def decodeDepositStake (instruction : BuiltInstruction Key) : Option (DepositStakeParams Key) := do
  checkProgramId c instruction.programId
  checkKeyLength instruction.keys 11
  let _ ← decodeData .depositStake instruction.data
  return {
    programId := instruction.programId
    stakePool := ← instruction.key 0
    validatorList := ← instruction.key 1
    depositAuthority := ← instruction.key 2
    withdrawAuthority := ← instruction.key 3
    depositStake := ← instruction.key 4
    validatorStake := ← instruction.key 5
    reserveStake := ← instruction.key 6
    destinationPoolAccount := ← instruction.key 7
    managerFeeAccount := ← instruction.key 8
    referralPoolAccount := ← instruction.key 9
    poolMint := ← instruction.key 10 }

/-- The data is decoded into an object without a property `amount`. -/
def decodeDepositSol (instruction : BuiltInstruction Key) : Option (DecodedDepositSol Key) := do
  checkProgramId c instruction.programId
  checkKeyLength instruction.keys 9
  let data ← decodeData .depositSol instruction.data
  let amount := getProperty data "amount"
  return {
    programId := instruction.programId
    stakePool := ← instruction.key 0
    depositAuthority := ← instruction.key 1
    withdrawAuthority := ← instruction.key 2
    reserveStake := ← instruction.key 3
    fundingAccount := ← instruction.key 4
    destinationPoolAccount := ← instruction.key 5
    managerFeeAccount := ← instruction.key 6
    referralPoolAccount := ← instruction.key 7
    poolMint := ← instruction.key 8
    lamports := amount }

end SplStakePool.Js
