import SplStakePool.BigVec.Refinement
import SplStakePool.Layout.Pool
import SplStakePool.Lib.ReprC

/-!
# Views of the validator list (`state.rs`)

An entry of the list is read in three ways: by Borsh, by `Pack`, and as the memory of a struct. The raw view
tests bytes at fixed places. Here an entry has all of its fields, in their machine types.
-/

namespace SplStakePool
open Borsh BigVec

/-- `ValidatorStakeInfo` with all of its fields. -/
structure PodValidatorStakeInfo where
  activeStakeLamports : UInt64
  transientStakeLamports : UInt64
  lastUpdateEpoch : UInt64
  transientSeedSuffix : UInt64
  unused : UInt32
  validatorSeedSuffix : UInt32
  status : PodStakeStatus
  voteAccountAddress : Pubkey
deriving DecidableEq

namespace PodValidatorStakeInfo

/-- The entry as the program works with it. -/
def info (v : PodValidatorStakeInfo) : ValidatorStakeInfo Pubkey where
  activeStakeLamports := v.activeStakeLamports.toNat
  transientStakeLamports := v.transientStakeLamports.toNat
  lastUpdateEpoch := v.lastUpdateEpoch.toNat
  transientSeedSuffix := v.transientSeedSuffix
  validatorSeedSuffix := v.validatorSeedSuffix
  status := v.status
  voteAccountAddress := v.voteAccountAddress

/-! ## Borsh -/

def deserialize : Decoder PodValidatorStakeInfo := do
  let activeStakeLamports ← u64
  let transientStakeLamports ← u64
  let lastUpdateEpoch ← u64
  let transientSeedSuffix ← u64
  let unused ← u32
  let validatorSeedSuffix ← u32
  let status ← PodStakeStatus.mk <$> u8
  let voteAccountAddress ← pubkey
  return { activeStakeLamports, transientStakeLamports, lastUpdateEpoch, transientSeedSuffix, unused,
           validatorSeedSuffix, status, voteAccountAddress }

def serialize (v : PodValidatorStakeInfo) : List UInt8 :=
  List.flatten [
    uintBytes 8 v.activeStakeLamports.toNat,
    uintBytes 8 v.transientStakeLamports.toNat,
    uintBytes 8 v.lastUpdateEpoch.toNat,
    uintBytes 8 v.transientSeedSuffix.toNat,
    uintBytes 4 v.unused.toNat,
    uintBytes 4 v.validatorSeedSuffix.toNat,
    [v.status.byte],
    v.voteAccountAddress.bytes ]

/-! ## `Pack` -/

/-- `LEN` -/
def packLen : Nat := 73

/-- `pack` -/
def pack (v : PodValidatorStakeInfo) (dst : List UInt8) : Option (List UInt8) :=
  if dst.length ≠ packLen then none else toWriter dst v.serialize

/-- `unpack_unchecked` -/
def unpackUnchecked (input : List UInt8) : Option PodValidatorStakeInfo :=
  if input.length ≠ packLen then none else tryFromSlice deserialize input

/-! ## The memory of the struct -/

/-- The pod types are arrays of bytes, which need no alignment. -/
def fieldTypes : List ReprC.FieldType :=
  [⟨1, 8⟩, ⟨1, 8⟩, ⟨1, 8⟩, ⟨1, 8⟩, ⟨1, 4⟩, ⟨1, 4⟩, ⟨1, 1⟩, ⟨1, 32⟩]

/-- The memory of each field: `PodU64` and `PodU32` hold the bytes of a number with the low one first. -/
def fieldBytes (v : PodValidatorStakeInfo) : List (List UInt8) :=
  [ Buffer.toLeBytes 8 v.activeStakeLamports.toNat,
    Buffer.toLeBytes 8 v.transientStakeLamports.toNat,
    Buffer.toLeBytes 8 v.lastUpdateEpoch.toNat,
    Buffer.toLeBytes 8 v.transientSeedSuffix.toNat,
    Buffer.toLeBytes 4 v.unused.toNat,
    Buffer.toLeBytes 4 v.validatorSeedSuffix.toNat,
    [v.status.byte],
    v.voteAccountAddress.bytes ]

/-- `bytes_of` -/
def bytesOf (v : PodValidatorStakeInfo) : Option (List UInt8) := ReprC.bytesOf fieldTypes v.fieldBytes

/-- `from_bytes`; `none` is for a slice of another size. -/
def fromBytes (data : List UInt8) : Option PodValidatorStakeInfo :=
  match ReprC.fromBytes fieldTypes data with
  | some [active, transient, epoch, transientSeed, unused, validatorSeed, [status], vote] =>
    if h : vote.length = 32 then
      some {
        activeStakeLamports := .ofNat (Buffer.fromLeBytes active)
        transientStakeLamports := .ofNat (Buffer.fromLeBytes transient)
        lastUpdateEpoch := .ofNat (Buffer.fromLeBytes epoch)
        transientSeedSuffix := .ofNat (Buffer.fromLeBytes transientSeed)
        unused := .ofNat (Buffer.fromLeBytes unused)
        validatorSeedSuffix := .ofNat (Buffer.fromLeBytes validatorSeed)
        status := ⟨status⟩
        voteAccountAddress := ⟨vote, h⟩ }
    else none
  | _ => none

end PodValidatorStakeInfo

namespace ValidatorStakeInfo

/-- `active_lamports_greater_than` -/
def activeLamportsGreaterThanBytes (data : List UInt8) (lamports : UInt64) : Bool :=
  (tryFromSlice u64 (data.take 8)).any (· > lamports)

/-- `transient_lamports_greater_than` -/
def transientLamportsGreaterThanBytes (data : List UInt8) (lamports : UInt64) : Bool :=
  (tryFromSlice u64 ((data.drop 8).take 8)).any (· > lamports)

/-- `is_removed` -/
def isRemovedBytes (data : List UInt8) : Bool :=
  data[40]?.bind StakeStatus.fromU8 = some .readyForRemoval ∧ data.take 16 = List.replicate 16 0

/-- `is_active` -/
def isActiveBytes (data : List UInt8) : Bool := data[40]?.bind StakeStatus.fromU8 = some .active

end ValidatorStakeInfo

/-- A list of entries that can be stored. -/
structure PodValidatorList where
  header : ValidatorListHeader
  validators : List PodValidatorStakeInfo
  maxValidators_lt : header.maxValidators < 2 ^ 32
  length_lt : validators.length < 2 ^ 32

namespace ValidatorListHeader

def deserialize : Decoder ValidatorListHeader := do
  let accountType ← AccountType.deserialize
  let maxValidators ← uint 4
  return { accountType, maxValidators }

/-- `deserialize_vec`: the header, and the vector behind it. -/
def deserializeVec (data : List UInt8) : Option (ValidatorListHeader × List UInt8) := do
  let header ← tryFromSliceUnchecked deserialize data
  let length := header.bytes.length
  return (header, data.drop length)

end ValidatorListHeader

namespace PodValidatorList

/-- The Borsh decoder of the whole list: its header and its entries. -/
def deserialize : Decoder (ValidatorListHeader × List PodValidatorStakeInfo) := do
  let header ← ValidatorListHeader.deserialize
  let length ← uint 4
  let validators ← repeated PodValidatorStakeInfo.deserialize length
  return (header, validators)

def serialize (l : PodValidatorList) : List UInt8 :=
  List.flatten [
    l.header.accountType.serialize,
    uintBytes 4 l.header.maxValidators,
    uintBytes 4 l.validators.length,
    (l.validators.map (·.serialize)).flatten ]

/-- `find` by vote account -/
def find (l : PodValidatorList) (voteAccountAddress : Pubkey) : Option PodValidatorStakeInfo :=
  l.validators.find? (·.voteAccountAddress = voteAccountAddress)

end PodValidatorList

end SplStakePool
