import Mathlib.Data.Nat.Log
import SplStakePool.Layout.Instruction

/-!
# The instruction data of the JavaScript client (`instructions.ts`)

The client fills a buffer of the size of a layout, field by field. An exception is `none`. Numbers are
doubles: the ones that stand for amounts are integers that a double holds, and a `BN` is rounded to one where
a layout computes with it.

A double holds an integer when at most 53 bits of it are significant. What does not fit into its field makes the layout
throw, except where it writes the low bytes only.
-/

namespace SplStakePool.Js
open Borsh Buffer

/-- The double that is nearest to an integer; of two, the one with the even significand. -/
def toDouble (n : Nat) : Nat :=
  if n < 2 ^ 53 then n
  else
    let ulp := 2 ^ (Nat.log 2 n - 52)
    let q := n / ulp
    if 2 * (n % ulp) < ulp ∨ (2 * (n % ulp) = ulp ∧ q % 2 = 0) then q * ulp else (q + 1) * ulp

/-- An integer that a double holds. -/
structure Number where
  val : Nat
  isDouble : toDouble val = val
deriving DecidableEq

/-- `length` of a string: its UTF-16 code units. -/
def utf16Length (s : String) : Nat := (s.toList.map fun c => if c.toNat ≤ 0xffff then 1 else 2).sum

inductive Value
  | num (n : Nat)
  | bn (n : Nat)
  | buffer (bytes : List UInt8)

/-- What arithmetic makes of a value; of a `BN` it reads the digits. -/
def Value.toNumber : Value → Option Nat
  | .num n => some n
  | .bn n => some (toDouble n)
  | .buffer _ => none

/-- The names of the fields. -/
inductive Property
  | instruction | seed | lamports | transientStakeSeed | ephemeralStakeSeed | startIndex | noMerge | poolTokens
  | maxStakeOption | maxStake | nameLen | name | symbolLen | symbol | uriLen | uri
deriving DecidableEq

inductive Layout
  | u8
  | u32
  | ns64
  | blob (length : Nat)

namespace Layout

def span : Layout → Nat
  | .u8 => 1
  | .u32 => 4
  | .ns64 => 8
  | .blob length => length

/-- The bytes that a layout writes. Writing a number out of range throws, and the upper half of a 64-bit
number is written as a signed one. -/
def encode : Layout → Value → Option (List UInt8)
  | .u8, v => do
    let n ← v.toNumber
    if n < 2 ^ 8 then return toLeBytes 1 n else none
  | .u32, v => do
    let n ← v.toNumber
    if n < 2 ^ 32 then return toLeBytes 4 n else none
  | .ns64, v => do
    let n ← v.toNumber
    let hi32 := n / 2 ^ 32
    let lo32 := n - hi32 * 2 ^ 32
    if hi32 < 2 ^ 31 then return toLeBytes 4 lo32 ++ toLeBytes 4 hi32 else none
  | .blob length, .buffer bytes => if bytes.length = length then some bytes else none
  | .blob _, _ => none

/-- A field without a value stays 0. -/
def encodeField (layout : Layout) : Option Value → Option (List UInt8)
  | some v => layout.encode v
  | none => some (List.replicate layout.span 0)

end Layout

/-- `BufferLayout.struct`, with the values that its fields are encoded with. -/
def encodeStruct : List (Property × Layout) → List (Property × Value) → Option (List UInt8)
  | [], _ => some []
  | (property, layout) :: struct, fields => do
    let bytes ← layout.encodeField (fields.lookup property)
    let rest ← encodeStruct struct fields
    return bytes ++ rest

structure InstructionType where
  index : Nat
  layout : List (Property × Layout)

def encodeData (type : InstructionType) (fields : List (Property × Value)) : Option (List UInt8) :=
  encodeStruct type.layout ((.instruction, .num type.index) :: fields)

def moveStakeLayout : List (Property × Layout) :=
  [(.instruction, .u8), (.lamports, .ns64), (.transientStakeSeed, .ns64)]

def updateValidatorListBalanceLayout : List (Property × Layout) :=
  [(.instruction, .u8), (.startIndex, .u32), (.noMerge, .u8)]

def moveAdditionalStakeLayout : List (Property × Layout) :=
  [(.instruction, .u8), (.lamports, .ns64), (.transientStakeSeed, .ns64), (.ephemeralStakeSeed, .ns64)]

def metadataMaxNameLength : Nat := 32

def metadataMaxSymbolLength : Nat := 10

def metadataMaxUriLength : Nat := 200

def tokenMetadataLayout (instruction nameLength symbolLength uriLength : Nat) : Option InstructionType :=
  if nameLength > metadataMaxNameLength then none
  else if symbolLength > metadataMaxSymbolLength then none
  else if uriLength > metadataMaxUriLength then none
  else
    some
      { index := instruction
        layout := [(.instruction, .u8), (.nameLen, .u32), (.name, .blob nameLength), (.symbolLen, .u32),
          (.symbol, .blob symbolLength), (.uriLen, .u32), (.uri, .blob uriLength)] }

namespace InstructionType

/-- A variant without fields. -/
def bare (index : Nat) : InstructionType := ⟨index, [(.instruction, .u8)]⟩

def addValidatorToPool : InstructionType := ⟨1, [(.instruction, .u8), (.seed, .u32)]⟩
def removeValidatorFromPool : InstructionType := .bare 2
def decreaseValidatorStake : InstructionType := ⟨3, moveStakeLayout⟩
def increaseValidatorStake : InstructionType := ⟨4, moveStakeLayout⟩
def updateValidatorListBalance : InstructionType := ⟨6, updateValidatorListBalanceLayout⟩
def updateStakePoolBalance : InstructionType := .bare 7
def cleanupRemovedValidatorEntries : InstructionType := .bare 8
def depositStake : InstructionType := .bare 9
def withdrawStake : InstructionType := ⟨10, [(.instruction, .u8), (.poolTokens, .ns64)]⟩
def depositSol : InstructionType := ⟨14, [(.instruction, .u8), (.lamports, .ns64)]⟩
def withdrawSol : InstructionType := ⟨16, [(.instruction, .u8), (.poolTokens, .ns64)]⟩
def increaseAdditionalValidatorStake : InstructionType := ⟨19, moveAdditionalStakeLayout⟩
def decreaseAdditionalValidatorStake : InstructionType := ⟨20, moveAdditionalStakeLayout⟩
def decreaseValidatorStakeWithReserve : InstructionType := ⟨21, moveStakeLayout⟩
def setMaxValidatorStake : InstructionType :=
  ⟨27, [(.instruction, .u8), (.maxStakeOption, .u8), (.maxStake, .ns64)]⟩

end InstructionType

/-! ## The builders -/

/-- A call of one of the builders with what goes into the data. A `BN` is a natural number. -/
inductive Call
  | addValidatorToPool (seed : Option Number)
  | removeValidatorFromPool
  | setMaxValidatorStake (maxStake : Option Nat)
  | updateValidatorListBalance (startIndex : Number) (noMerge : Bool)
  | updateStakePoolBalance
  | cleanupRemovedValidatorEntries
  | increaseValidatorStake (lamports transientStakeSeed : Number)
  | increaseAdditionalValidatorStake (lamports transientStakeSeed ephemeralStakeSeed : Number)
  | decreaseValidatorStake (lamports transientStakeSeed : Number)
  | decreaseValidatorStakeWithReserve (lamports transientStakeSeed : Number)
  | decreaseAdditionalValidatorStake (lamports transientStakeSeed ephemeralStakeSeed : Number)
  | depositStake
  | depositSol (lamports : Number)
  | withdrawStake (poolTokens : Number)
  | withdrawSol (poolTokens : Number)
  | createTokenMetadata (name symbol uri : String)
  | updateTokenMetadata (name symbol uri : String)

/-- The lengths are those of the strings, the buffers their UTF-8 bytes. -/
def tokenMetadata (instruction : Nat) (name symbol uri : String) : Option (List UInt8) := do
  let type ← tokenMetadataLayout instruction (utf16Length name) (utf16Length symbol) (utf16Length uri)
  encodeData type
    [(.nameLen, .num (utf16Length name)), (.name, .buffer (utf8 name)), (.symbolLen, .num (utf16Length symbol)),
      (.symbol, .buffer (utf8 symbol)), (.uriLen, .num (utf16Length uri)), (.uri, .buffer (utf8 uri))]

/-- The data of the instruction that is built. -/
def Call.data : Call → Option (List UInt8)
  | .addValidatorToPool seed =>
    encodeData .addValidatorToPool [(.seed, .num ((seed.map Number.val).getD 0))]
  | .removeValidatorFromPool => encodeData .removeValidatorFromPool []
  | .setMaxValidatorStake maxStake =>
    encodeData .setMaxValidatorStake
      [(.maxStakeOption, .num (if maxStake.isNone then 0 else 1)), (.maxStake, .bn (maxStake.getD 0))]
  | .updateValidatorListBalance startIndex noMerge =>
    encodeData .updateValidatorListBalance
      [(.startIndex, .num startIndex.val), (.noMerge, .num (if noMerge then 1 else 0))]
  | .updateStakePoolBalance => encodeData .updateStakePoolBalance []
  | .cleanupRemovedValidatorEntries => encodeData .cleanupRemovedValidatorEntries []
  | .increaseValidatorStake lamports transientStakeSeed =>
    encodeData .increaseValidatorStake
      [(.lamports, .num lamports.val), (.transientStakeSeed, .num transientStakeSeed.val)]
  | .increaseAdditionalValidatorStake lamports transientStakeSeed ephemeralStakeSeed =>
    encodeData .increaseAdditionalValidatorStake
      [(.lamports, .num lamports.val), (.transientStakeSeed, .num transientStakeSeed.val),
        (.ephemeralStakeSeed, .num ephemeralStakeSeed.val)]
  | .decreaseValidatorStake lamports transientStakeSeed =>
    encodeData .decreaseValidatorStake
      [(.lamports, .num lamports.val), (.transientStakeSeed, .num transientStakeSeed.val)]
  | .decreaseValidatorStakeWithReserve lamports transientStakeSeed =>
    encodeData .decreaseValidatorStakeWithReserve
      [(.lamports, .num lamports.val), (.transientStakeSeed, .num transientStakeSeed.val)]
  | .decreaseAdditionalValidatorStake lamports transientStakeSeed ephemeralStakeSeed =>
    encodeData .decreaseAdditionalValidatorStake
      [(.lamports, .num lamports.val), (.transientStakeSeed, .num transientStakeSeed.val),
        (.ephemeralStakeSeed, .num ephemeralStakeSeed.val)]
  | .depositStake => encodeData .depositStake []
  | .depositSol lamports => encodeData .depositSol [(.lamports, .num lamports.val)]
  | .withdrawStake poolTokens => encodeData .withdrawStake [(.poolTokens, .num poolTokens.val)]
  | .withdrawSol poolTokens => encodeData .withdrawSol [(.poolTokens, .num poolTokens.val)]
  | .createTokenMetadata name symbol uri => tokenMetadata 17 name symbol uri
  | .updateTokenMetadata name symbol uri => tokenMetadata 18 name symbol uri

end SplStakePool.Js
