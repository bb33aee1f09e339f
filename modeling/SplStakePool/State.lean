import SplStakePool.BigVec
import SplStakePool.Lib.Checked
import SplStakePool.Lib.Exec
import SplStakePool.Runtime.Programs

/-!
# State of the pool (`state.rs` and the constants of `lib.rs`)

The stake pool account, the validator list and the arithmetic on them. Lamports, tokens and epochs are
naturals, with the checked operations of the source; fees and seeds are machine words.

Where the source converts from 128 to 64 bits, so does the model, and where a product of the source is not
unwrapped, the model keeps the `Option`. A status is a byte, as in the zero-copy entry, and need not be one of
the five that there are. The layout of the accounts is modelled elsewhere, on bytes.
-/

namespace SplStakePool
open Machine Exec

inductive AccountType
  | uninitialized | stakePool | validatorList
deriving DecidableEq, Repr

/-- Fee rate as a ratio; no fee if either number is 0. -/
structure Fee where
  denominator : UInt64
  numerator : UInt64
deriving DecidableEq, Repr

def minimumActiveStake : Nat := 1000000

/-- `MINIMUM_RESERVE_LAMPORTS` -/
def minimumReserve : Nat := 0

/-- Maximum factor by which a withdrawal fee can be increased per epoch. -/
def maxWithdrawalFeeIncrease : Fee := { numerator := 3, denominator := 2 }

/-- Stands in for a withdrawal fee of 0 when an increase is evaluated. -/
def withdrawalBaselineFee : Fee := { numerator := 1, denominator := 1000 }

def maxValidatorsInPool : Nat := 20000

variable {Key : Type}

def minimumDelegation (stakeProgramMinimumDelegation : Nat) : Nat :=
  max stakeProgramMinimumDelegation minimumActiveStake

def minimumStakeLamports (m : Meta Key) (stakeProgramMinimumDelegation : Nat) : Nat :=
  saturatingAdd 64 m.rentExemptReserve (minimumDelegation stakeProgramMinimumDelegation)

def minimumReserveLamports (m : Meta Key) : Nat := saturatingAdd 64 m.rentExemptReserve minimumReserve

/-! ## Fees -/

namespace Fee

/-- The fee on an amount, rounded up; `none` on overflow. -/
def apply (fee : Fee) (amt : Nat) : Option Nat := do
  if fee.denominator = 0 then
    return 0
  let numerator ← checkedMul 128 amt fee.numerator.toNat
  let sum ← checkedAdd 128 numerator fee.denominator.toNat
  checkedDiv (← checkedSub sum 1) fee.denominator.toNat

/-- The ratio that an increase is measured against. -/
def baseline (oldWithdrawalFee : Fee) : Fee :=
  if oldWithdrawalFee.denominator = 0 ∨ oldWithdrawalFee.numerator = 0 then withdrawalBaselineFee
  else oldWithdrawalFee

/-- The order on `Option`, in which `none` is below every value. -/
def optionLt : Option Nat → Option Nat → Bool
  | none, some _ => true
  | some a, some b => a < b
  | _, none => false

/-- Checks the additional restrictions on withdrawal fees. The second multiplication on each side is
not unwrapped, so that the comparison is one of `Option` values. -/
def checkWithdrawal (fee oldWithdrawalFee : Fee) : Except StakePoolError Unit := do
  let old := oldWithdrawalFee.baseline
  let lhs ← orErr ((checkedMul 128 old.numerator.toNat fee.denominator.toNat).map
    fun x => checkedMul 128 x maxWithdrawalFeeIncrease.numerator.toNat) .calculationFailure
  let rhs ← orErr ((checkedMul 128 fee.numerator.toNat old.denominator.toNat).map
    fun x => checkedMul 128 x maxWithdrawalFeeIncrease.denominator.toNat) .calculationFailure
  if optionLt lhs rhs then .error .feeIncreaseTooHigh else .ok ()

/-- A ratio of at most one. -/
def atMostOne (fee : Fee) : Bool := fee.numerator ≤ fee.denominator

end Fee

/-- Counts down epochs until a value is due. -/
inductive FutureEpoch (T : Type)
  | none
  | one (v : T)
  | two (v : T)
deriving DecidableEq, Repr

namespace FutureEpoch
variable {T : Type}

def new (v : T) : FutureEpoch T := .two v

def updateEpoch : FutureEpoch T → FutureEpoch T
  | .none => .none
  | .one _ => .none
  | .two v => .one v

/-- The value if it is due. -/
def get : FutureEpoch T → Option T
  | .none | .two _ => Option.none
  | .one v => some v

/-- The value, due or not. -/
def toOption : FutureEpoch T → Option T
  | .none => Option.none
  | .one v | .two v => some v

end FutureEpoch

inductive FeeType
  | solReferral (pct : UInt8)
  | stakeReferral (pct : UInt8)
  | epoch (fee : Fee)
  | stakeWithdrawal (fee : Fee)
  | solDeposit (fee : Fee)
  | stakeDeposit (fee : Fee)
  | solWithdrawal (fee : Fee)
deriving DecidableEq, Repr

namespace FeeType

def checkTooHigh (fee : FeeType) : Except StakePoolError Unit :=
  let tooHigh : Bool :=
    match fee with
    | .solReferral pct | .stakeReferral pct => pct > 100
    | .epoch fee | .stakeWithdrawal fee | .solWithdrawal fee | .solDeposit fee | .stakeDeposit fee =>
      fee.numerator > fee.denominator
  if tooHigh then .error .feeTooHigh else .ok ()

def canOnlyChangeNextEpoch : FeeType → Bool
  | .stakeWithdrawal _ | .solWithdrawal _ | .epoch _ => true
  | _ => false

end FeeType

/-! ## Validators -/

inductive StakeStatus
  | active | deactivatingTransient | readyForRemoval | deactivatingValidator | deactivatingAll
deriving DecidableEq, Repr

/-- A byte that should be a valid `StakeStatus`. -/
structure PodStakeStatus where
  byte : UInt8
deriving DecidableEq, Repr

def StakeStatus.toU8 : StakeStatus → UInt8
  | .active => 0
  | .deactivatingTransient => 1
  | .readyForRemoval => 2
  | .deactivatingValidator => 3
  | .deactivatingAll => 4

def StakeStatus.fromU8 (b : UInt8) : Option StakeStatus :=
  if b = 0 then some .active
  else if b = 1 then some .deactivatingTransient
  else if b = 2 then some .readyForRemoval
  else if b = 3 then some .deactivatingValidator
  else if b = 4 then some .deactivatingAll
  else none

def StakeStatus.pod (s : StakeStatus) : PodStakeStatus := ⟨s.toU8⟩

namespace PodStakeStatus

/-- `StakeStatus::try_from` -/
def status (p : PodStakeStatus) : Except ProgramError StakeStatus :=
  orErr (StakeStatus.fromU8 p.byte) .invalidAccountData

def removeValidatorStake (p : PodStakeStatus) : Except ProgramError PodStakeStatus := do
  let status ← p.status
  return match status with
    | .active | .deactivatingTransient | .readyForRemoval => status.pod
    | .deactivatingAll => StakeStatus.deactivatingTransient.pod
    | .deactivatingValidator => StakeStatus.readyForRemoval.pod

def removeTransientStake (p : PodStakeStatus) : Except ProgramError PodStakeStatus := do
  let status ← p.status
  return match status with
    | .active | .deactivatingValidator | .readyForRemoval => status.pod
    | .deactivatingAll => StakeStatus.deactivatingValidator.pod
    | .deactivatingTransient => StakeStatus.readyForRemoval.pod

end PodStakeStatus

/-- Withdrawal type, figured out while stake is withdrawn. -/
inductive StakeWithdrawSource
  | active | transient | validatorRemoval
deriving DecidableEq, Repr

variable (Key) in
/-- Information about a validator in the pool. A validator seed of 0 stands for no seed. -/
structure ValidatorStakeInfo where
  activeStakeLamports : Nat
  transientStakeLamports : Nat
  lastUpdateEpoch : Nat
  transientSeedSuffix : UInt64
  validatorSeedSuffix : UInt32
  status : PodStakeStatus
  voteAccountAddress : Key
deriving DecidableEq, Repr

namespace ValidatorStakeInfo

/-- Bytes of a stored entry. -/
def size : Nat := 73

/-- The total of active and transient lamports. -/
def stakeLamports (v : ValidatorStakeInfo Key) : Except ProgramError Nat :=
  orErr (checkedAdd 64 v.activeStakeLamports v.transientStakeLamports)
    (.custom .calculationFailure)

def memcmpPubkey [DecidableEq Key] (v : ValidatorStakeInfo Key) (voteAddress : Key) : Bool :=
  v.voteAccountAddress = voteAddress

def activeLamportsGreaterThan (v : ValidatorStakeInfo Key) (lamports : Nat) : Bool :=
  v.activeStakeLamports > lamports

def transientLamportsGreaterThan (v : ValidatorStakeInfo Key) (lamports : Nat) : Bool :=
  v.transientStakeLamports > lamports

/-- Totally removed: ready for removal and without lamports. -/
def isRemoved (v : ValidatorStakeInfo Key) : Bool :=
  StakeStatus.fromU8 v.status.byte = some .readyForRemoval ∧
    v.activeStakeLamports = 0 ∧ v.transientStakeLamports = 0

def isActive (v : ValidatorStakeInfo Key) : Bool := StakeStatus.fromU8 v.status.byte = some .active

end ValidatorStakeInfo

structure ValidatorListHeader where
  accountType : AccountType
  maxValidators : Nat
deriving DecidableEq, Repr

namespace ValidatorListHeader

/-- `LEN`, the bytes of the header. -/
def len : Nat := 1 + 4

def isValid (h : ValidatorListHeader) : Bool := h.accountType = .validatorList

def isUninitialized (h : ValidatorListHeader) : Bool := h.accountType = .uninitialized

end ValidatorListHeader

variable (Key) in
structure ValidatorList where
  header : ValidatorListHeader
  validators : List (ValidatorStakeInfo Key)
deriving DecidableEq, Repr

/-- The number of entries that fit in a buffer. -/
def ValidatorList.calculateMaxValidators (bufferLength : Nat) : Nat :=
  (bufferLength - (ValidatorListHeader.len + 4)) / ValidatorStakeInfo.size

/-- The list with the first entry matching a vote account replaced. -/
def ValidatorList.set [DecidableEq Key] (l : ValidatorList Key) (v : ValidatorStakeInfo Key) :
    ValidatorList Key :=
  { l with validators := BigVec.setFirst (·.memcmpPubkey v.voteAccountAddress) v l.validators }

/-- `find` by vote account -/
def ValidatorList.find [DecidableEq Key] (l : ValidatorList Key) (vote : Key) :
    Option (ValidatorStakeInfo Key) :=
  l.validators.find? (·.memcmpPubkey vote)

/-! ## The pool -/

variable (Key) in
structure StakePool where
  version : UInt8
  accountType : AccountType
  manager : Key
  staker : Key
  stakeDepositAuthority : Key
  stakeWithdrawBumpSeed : UInt8
  validatorList : Key
  reserveStake : Key
  poolMint : Key
  managerFeeAccount : Key
  tokenProgramId : Key
  totalLamports : Nat
  poolTokenSupply : Nat
  lastUpdateEpoch : Nat
  lockup : Lockup Key
  epochFee : Fee
  nextEpochFee : FutureEpoch Fee
  preferredDepositValidatorVoteAddress : Option Key
  preferredWithdrawValidatorVoteAddress : Option Key
  stakeDepositFee : Fee
  stakeWithdrawalFee : Fee
  nextStakeWithdrawalFee : FutureEpoch Fee
  stakeReferralFee : UInt8
  solDepositAuthority : Option Key
  solDepositFee : Fee
  solReferralFee : UInt8
  solWithdrawAuthority : Option Key
  solWithdrawalFee : Fee
  nextSolWithdrawalFee : FutureEpoch Fee
  lastEpochPoolTokenSupply : Nat
  lastEpochTotalLamports : Nat
  maxValidatorStake : Option Nat
deriving DecidableEq, Repr

namespace StakePool

/-- The pool tokens that should be minted for a deposit. -/
def calcPoolTokensForDeposit (p : StakePool Key) (stakeLamports : Nat) : Option Nat := do
  if p.totalLamports = 0 ∨ p.poolTokenSupply = 0 then
    return stakeLamports
  let product ← checkedMul 128 stakeLamports p.poolTokenSupply
  tryFrom 64 (← checkedDiv product p.totalLamports)

/-- The lamports paid on a withdrawal. -/
def calcLamportsWithdrawAmount (p : StakePool Key) (poolTokens : Nat) : Option Nat := do
  let numerator ← checkedMul 128 poolTokens p.totalLamports
  let denominator := p.poolTokenSupply
  if numerator < denominator ∨ denominator = 0 then
    return 0
  tryFrom 64 (← checkedDiv numerator denominator)

/-- The fee on an amount of pool tokens, as a 64-bit amount. -/
def calcPoolTokensFee (fee : Fee) (poolTokens : Nat) : Option Nat := do
  tryFrom 64 (← fee.apply poolTokens)

def calcPoolTokensStakeWithdrawalFee (p : StakePool Key) : Nat → Option Nat :=
  calcPoolTokensFee p.stakeWithdrawalFee

def calcPoolTokensSolWithdrawalFee (p : StakePool Key) : Nat → Option Nat :=
  calcPoolTokensFee p.solWithdrawalFee

def calcPoolTokensStakeDepositFee (p : StakePool Key) : Nat → Option Nat :=
  calcPoolTokensFee p.stakeDepositFee

def calcPoolTokensSolDepositFee (p : StakePool Key) : Nat → Option Nat :=
  calcPoolTokensFee p.solDepositFee

/-- The part of a deposit fee that is paid to the referrer. -/
def calcReferralFee (pct : UInt8) (depositFee : Nat) : Option Nat := do
  tryFrom 64 (← checkedDiv (← checkedMul 128 depositFee pct.toNat) 100)

def calcPoolTokensStakeReferralFee (p : StakePool Key) : Nat → Option Nat :=
  calcReferralFee p.stakeReferralFee

def calcPoolTokensSolReferralFee (p : StakePool Key) : Nat → Option Nat :=
  calcReferralFee p.solReferralFee

/-- The fee in pool tokens that goes to the manager; `rewardLamports` is not yet in the total. -/
def calcEpochFeeAmount (p : StakePool Key) (rewardLamports : Nat) : Option Nat := do
  if rewardLamports = 0 then
    return 0
  let totalLamports ← checkedAdd 128 p.totalLamports rewardLamports
  let feeLamports ← p.epochFee.apply rewardLamports
  if totalLamports = feeLamports ∨ p.poolTokenSupply = 0 then
    return rewardLamports
  let product ← checkedMul 128 p.poolTokenSupply feeLamports
  tryFrom 64 (← checkedDiv product (← checkedSub totalLamports feeLamports))

/-- The value of a pool token, rounded up. -/
def getLamportsPerPoolToken (p : StakePool Key) : Option Nat := do
  let sum ← checkedAdd 64 p.totalLamports p.poolTokenSupply
  checkedDiv (← checkedSub sum 1) p.poolTokenSupply

def isValid (p : StakePool Key) : Bool := p.accountType = .stakePool

def isUninitialized (p : StakePool Key) : Bool := p.accountType = .uninitialized

/-- Updates one of the pool's fees. -/
def updateFee (p : StakePool Key) (fee : FeeType) : Except StakePoolError (StakePool Key) := do
  match fee with
  | .solReferral newFee => return { p with solReferralFee := newFee }
  | .stakeReferral newFee => return { p with stakeReferralFee := newFee }
  | .epoch newFee => return { p with nextEpochFee := .new newFee }
  | .stakeWithdrawal newFee =>
    newFee.checkWithdrawal p.stakeWithdrawalFee
    return { p with nextStakeWithdrawalFee := .new newFee }
  | .solWithdrawal newFee =>
    newFee.checkWithdrawal p.solWithdrawalFee
    return { p with nextSolWithdrawalFee := .new newFee }
  | .solDeposit newFee => return { p with solDepositFee := newFee }
  | .stakeDeposit newFee => return { p with stakeDepositFee := newFee }

end StakePool

/-- The extensions that the pool mint may have. -/
def isExtensionSupportedForMint (e : ExtensionType) : Bool :=
  e ∈ [.uninitialized, .transferFeeConfig, .confidentialTransferMint, .confidentialTransferFeeConfig,
    .defaultAccountState, .interestBearingConfig, .metadataPointer, .tokenMetadata]

/-- The extensions that the manager's fee account may have. -/
def isExtensionSupportedForFeeAccount (e : ExtensionType) : Bool :=
  e ∈ [.uninitialized, .transferFeeAmount, .immutableOwner, .cpiGuard]

end SplStakePool
