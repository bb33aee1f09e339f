import SplStakePool.Client.Update
import SplStakePool.Layout.Pool

/-!
# The update of a pool as the JavaScript client builds it (`index.ts`, `layouts.ts`)

The client decodes the validator list with a layout of its own. It has one 64-bit field where the program
has the two words behind the transient seed, and derives the address of a validator stake account without
a seed.
-/

namespace SplStakePool.Js
open Borsh

variable {Key : Type}

variable (Key) in
structure ValidatorStakeInfo where
  activeStakeLamports : Nat
  transientStakeLamports : Nat
  lastUpdateEpoch : Nat
  transientSeedSuffixStart : Nat
  transientSeedSuffixEnd : Nat
  status : Nat
  voteAccountAddress : Key

variable (Key) in
structure ValidatorList where
  accountType : Nat
  maxValidators : Nat
  validators : List (ValidatorStakeInfo Key)

/-- `new PublicKey(bytes)` is a parameter. -/
def publicKey (newPublicKey : List UInt8 → Key) : Decoder Key := newPublicKey <$> takeBytes 32

def validatorStakeInfoLayout (newPublicKey : List UInt8 → Key) : Decoder (ValidatorStakeInfo Key) := do
  let activeStakeLamports ← uint 8
  let transientStakeLamports ← uint 8
  let lastUpdateEpoch ← uint 8
  let transientSeedSuffixStart ← uint 8
  let transientSeedSuffixEnd ← uint 8
  let status ← uint 1
  let voteAccountAddress ← publicKey newPublicKey
  return { activeStakeLamports, transientStakeLamports, lastUpdateEpoch, transientSeedSuffixStart
           transientSeedSuffixEnd, status, voteAccountAddress }

def vec {α : Type} (elementLayout : Decoder α) : Decoder (List α) := do
  let length ← uint 4
  repeated elementLayout length

def validatorListLayout (newPublicKey : List UInt8 → Key) : Decoder (ValidatorList Key) := do
  let accountType ← uint 1
  let maxValidators ← uint 4
  let validators ← vec (validatorStakeInfoLayout newPublicKey)
  return { accountType, maxValidators, validators }

section
variable (rt : Runtime Key)

/-- A seed of 0 is none, as any other falsy value is. -/
def findStakeProgramAddress (programId voteAccountAddress stakePoolAddress : Key) (seed : Option Nat) : Key :=
  (rt.findProgramAddress [.pubkey voteAccountAddress, .pubkey stakePoolAddress,
    .bytes (match seed with
      | none => []
      | some n => if n = 0 then [] else Buffer.toLeBytes 4 n)] programId).1

def findTransientStakeProgramAddress (programId voteAccountAddress stakePoolAddress : Key) (seed : Nat) : Key :=
  (rt.findProgramAddress [.bytes transientStakeSeedPrefix, .pubkey voteAccountAddress, .pubkey stakePoolAddress,
    .bytes (Buffer.toLeBytes 8 seed)] programId).1

/-- The loop of `arrayChunk`, from an index on. Every turn moves the index, so that there are no more turns
than elements. -/
def arrayChunkLoop {α : Type} (array : List α) (size : Nat) : Nat → Nat → List (List α)
  | 0, _ => []
  | turns + 1, i =>
    if i < array.length then (array.drop i).take size :: arrayChunkLoop array size turns (i + size) else []

def arrayChunk {α : Type} (array : List α) (size : Nat) : List (List α) := arrayChunkLoop array size array.length 0

/-- The addresses that are pushed for a validator. -/
def validatorAndTransientStakePair (programId stakePoolAddress : Key) (validator : ValidatorStakeInfo Key) :
    List Key :=
  [findStakeProgramAddress rt programId validator.voteAccountAddress stakePoolAddress none,
    findTransientStakeProgramAddress rt programId validator.voteAccountAddress stakePoolAddress
      validator.transientSeedSuffixStart]

def updateValidatorListBalance (stakeHistoryId programId stakePool withdrawAuthority validatorList
    reserveStake : Key) (validatorAndTransientStakePairs : List Key) (startIndex : Nat) (noMerge : Bool) :
    Instruction Key where
  programId
  accounts := [.readonly stakePool, .readonly withdrawAuthority, .writable validatorList, .writable reserveStake,
    .readonly rt.clockId, .readonly stakeHistoryId, .readonly rt.stakeProgramId] ++
    validatorAndTransientStakePairs.map .writable
  data := .updateValidatorListBalance startIndex noMerge

/-- The loop over the chunks. -/
def updateListInstructions (stakeHistoryId programId : Key) (stakePool : StakePool Key) (stakePoolAddress : Key)
    (noMerge : Bool) : Nat → List (List (ValidatorStakeInfo Key)) → List (Instruction Key)
  | _, [] => []
  | startIndex, validatorChunk :: validatorChunks =>
    updateValidatorListBalance rt stakeHistoryId programId stakePoolAddress
        (findWithdrawAuthorityProgramAddress rt programId stakePoolAddress).1 stakePool.validatorList
        stakePool.reserveStake
        (validatorChunk.flatMap (validatorAndTransientStakePair rt programId stakePoolAddress)) startIndex noMerge ::
      updateListInstructions stakeHistoryId programId stakePool stakePoolAddress noMerge
        (startIndex + maxValidatorsToUpdate) validatorChunks

/-- `updateStakePool` up to the final instructions, from the data of the validator list. -/
def updateStakePool (newPublicKey : List UInt8 → Key) (stakeHistoryId programId : Key) (stakePool : StakePool Key)
    (validatorListData : List UInt8) (stakePoolAddress : Key) (noMerge : Bool) : Option (List (Instruction Key)) := do
  let validatorList ← tryFromSliceUnchecked (validatorListLayout newPublicKey) validatorListData
  let validatorChunks := arrayChunk validatorList.validators maxValidatorsToUpdate
  return updateListInstructions rt stakeHistoryId programId stakePool stakePoolAddress noMerge 0 validatorChunks

end
end SplStakePool.Js
