import SplStakePool.Layout
import SplStakePool.Lib.Borsh

/-!
# The stake pool in its account

The Borsh format of the pool: its fields in their order, integers in as many bytes as their type has. The
optional fields are shorter when they are not set, so that what is behind them has no fixed place.
-/

namespace SplStakePool
open Borsh

abbrev Pubkey := FixedBytes 32

def AccountType.deserialize : Decoder AccountType := do
  let tag ← u8
  if tag = 0 then return .uninitialized
  else if tag = 1 then return .stakePool
  else if tag = 2 then return .validatorList
  else failure

def AccountType.serialize (t : AccountType) : List UInt8 := [t.toU8]

namespace Fee

def deserialize : Decoder Fee := do
  let denominator ← u64
  let numerator ← u64
  return { denominator, numerator }

def serialize (fee : Fee) : List UInt8 :=
  List.flatten [uintBytes 8 fee.denominator.toNat, uintBytes 8 fee.numerator.toNat]

theorem reads (fee : Fee) : Reads deserialize fee.serialize fee :=
  .cons (reads_u64 _) <| .cons (reads_u64 _) <| .done _

@[simp] theorem length_serialize (fee : Fee) : fee.serialize.length = 16 := by
  simp [serialize]

end Fee

namespace FutureEpoch
variable {T : Type}

def deserialize (d : Decoder T) : Decoder (FutureEpoch T) := do
  let tag ← u8
  if tag = 0 then return .none
  else if tag = 1 then FutureEpoch.one <$> d
  else if tag = 2 then FutureEpoch.two <$> d
  else failure

def serialize (f : T → List UInt8) : FutureEpoch T → List UInt8
  | .none => [0]
  | .one v => 1 :: f v
  | .two v => 2 :: f v

theorem reads {d : Decoder T} {f : T → List UInt8} (h : ∀ v, Reads d (f v) v) (e : FutureEpoch T) :
    Reads (deserialize d) (serialize f e) e := by
  cases e with
  | none => exact .tag (.nil _)
  | one v => exact .tag ((h v).map FutureEpoch.one)
  | two v => exact .tag ((h v).map FutureEpoch.two)

theorem length_serialize_le {f : T → List UInt8} {n : Nat} (h : ∀ v, (f v).length = n) {e : FutureEpoch T} :
    (serialize f e).length ≤ 1 + n := by
  cases e with
  | none => simp [serialize]
  | one v => rw [serialize, List.length_cons, h]; omega
  | two v => rw [serialize, List.length_cons, h]; omega

end FutureEpoch

theorem AccountType.reads (t : AccountType) : Reads deserialize t.serialize t := by
  cases t <;> exact .tag (.nil _)

def pubkey : Decoder Pubkey := fixedBytes 32

namespace Lockup

/-- The timestamp is signed. -/
def deserialize : Decoder (Lockup Pubkey) := do
  let unixTimestamp ← int 8
  let epoch ← uint 8
  let custodian ← pubkey
  return { unixTimestamp, epoch, custodian }

def serialize (l : Lockup Pubkey) : List UInt8 :=
  List.flatten [intBytes 8 l.unixTimestamp, uintBytes 8 l.epoch, l.custodian.bytes]

/-- The numbers fit into 64 bits. -/
structure InRange (l : Lockup Pubkey) : Prop where
  timestamp_ge : -2 ^ 63 ≤ l.unixTimestamp
  timestamp_lt : l.unixTimestamp < 2 ^ 63
  epoch_lt : l.epoch < 2 ^ 64

theorem InRange.reads {l : Lockup Pubkey} (h : l.InRange) : Reads deserialize l.serialize l :=
  .cons (reads_int (by have := h.timestamp_ge; omega) (by have := h.timestamp_lt; omega)) <|
    .cons (reads_uint h.epoch_lt) <| .cons (reads_fixedBytes _) <| .done _

theorem yields_inRange (data : List UInt8) : Yields deserialize data InRange :=
  .next (yields_int 8 data) fun timestamp ht data => .next (yields_uint 8 data) fun epoch he _ => .bind fun _ _ =>
    .pure ⟨by have := ht.1; dsimp only; omega, by have := ht.2; dsimp only; omega, he⟩

@[simp] theorem length_serialize (l : Lockup Pubkey) : l.serialize.length = 48 := by
  simp [serialize]

end Lockup

/-! ## The pool -/

namespace StakePool

/-- The lamports, tokens and epochs fit into 64 bits. -/
structure InRange (p : StakePool Pubkey) : Prop where
  totalLamports_lt : p.totalLamports < 2 ^ 64
  poolTokenSupply_lt : p.poolTokenSupply < 2 ^ 64
  lastUpdateEpoch_lt : p.lastUpdateEpoch < 2 ^ 64
  lockup : p.lockup.InRange
  lastEpochPoolTokenSupply_lt : p.lastEpochPoolTokenSupply < 2 ^ 64
  lastEpochTotalLamports_lt : p.lastEpochTotalLamports < 2 ^ 64
  maxValidatorStake_lt : ∀ m ∈ p.maxValidatorStake, m < 2 ^ 64

end StakePool

/-- A pool with the space that is reserved behind it. -/
structure StoredStakePool where
  pool : StakePool Pubkey
  reserved : FixedBytes 256
  inRange : pool.InRange

namespace StoredStakePool

/-- The pool and the reserved space. -/
def deserialize : Decoder (StakePool Pubkey × FixedBytes 256) := do
  let version ← u8
  let accountType ← AccountType.deserialize
  let manager ← pubkey
  let staker ← pubkey
  let stakeDepositAuthority ← pubkey
  let stakeWithdrawBumpSeed ← u8
  let validatorList ← pubkey
  let reserveStake ← pubkey
  let poolMint ← pubkey
  let managerFeeAccount ← pubkey
  let tokenProgramId ← pubkey
  let totalLamports ← uint 8
  let poolTokenSupply ← uint 8
  let lastUpdateEpoch ← uint 8
  let lockup ← Lockup.deserialize
  let epochFee ← Fee.deserialize
  let nextEpochFee ← FutureEpoch.deserialize Fee.deserialize
  let preferredDepositValidatorVoteAddress ← option pubkey
  let preferredWithdrawValidatorVoteAddress ← option pubkey
  let stakeDepositFee ← Fee.deserialize
  let stakeWithdrawalFee ← Fee.deserialize
  let nextStakeWithdrawalFee ← FutureEpoch.deserialize Fee.deserialize
  let stakeReferralFee ← u8
  let solDepositAuthority ← option pubkey
  let solDepositFee ← Fee.deserialize
  let solReferralFee ← u8
  let solWithdrawAuthority ← option pubkey
  let solWithdrawalFee ← Fee.deserialize
  let nextSolWithdrawalFee ← FutureEpoch.deserialize Fee.deserialize
  let lastEpochPoolTokenSupply ← uint 8
  let lastEpochTotalLamports ← uint 8
  let maxValidatorStake ← option (uint 8)
  let reserved ← fixedBytes 256
  return ({
    version, accountType, manager, staker, stakeDepositAuthority, stakeWithdrawBumpSeed, validatorList
    reserveStake, poolMint, managerFeeAccount, tokenProgramId, totalLamports, poolTokenSupply
    lastUpdateEpoch, lockup, epochFee, nextEpochFee, preferredDepositValidatorVoteAddress
    preferredWithdrawValidatorVoteAddress, stakeDepositFee, stakeWithdrawalFee, nextStakeWithdrawalFee
    stakeReferralFee, solDepositAuthority, solDepositFee, solReferralFee, solWithdrawAuthority
    solWithdrawalFee, nextSolWithdrawalFee, lastEpochPoolTokenSupply, lastEpochTotalLamports
    maxValidatorStake }, reserved)

/-- The fields as they are stored. -/
def fields (s : StoredStakePool) : List (List UInt8) :=
  let p := s.pool
  [ [p.version],
    p.accountType.serialize,
    p.manager.bytes,
    p.staker.bytes,
    p.stakeDepositAuthority.bytes,
    [p.stakeWithdrawBumpSeed],
    p.validatorList.bytes,
    p.reserveStake.bytes,
    p.poolMint.bytes,
    p.managerFeeAccount.bytes,
    p.tokenProgramId.bytes,
    uintBytes 8 p.totalLamports,
    uintBytes 8 p.poolTokenSupply,
    uintBytes 8 p.lastUpdateEpoch,
    p.lockup.serialize,
    p.epochFee.serialize,
    p.nextEpochFee.serialize Fee.serialize,
    optionBytes FixedBytes.bytes p.preferredDepositValidatorVoteAddress,
    optionBytes FixedBytes.bytes p.preferredWithdrawValidatorVoteAddress,
    p.stakeDepositFee.serialize,
    p.stakeWithdrawalFee.serialize,
    p.nextStakeWithdrawalFee.serialize Fee.serialize,
    [p.stakeReferralFee],
    optionBytes FixedBytes.bytes p.solDepositAuthority,
    p.solDepositFee.serialize,
    [p.solReferralFee],
    optionBytes FixedBytes.bytes p.solWithdrawAuthority,
    p.solWithdrawalFee.serialize,
    p.nextSolWithdrawalFee.serialize Fee.serialize,
    uintBytes 8 p.lastEpochPoolTokenSupply,
    uintBytes 8 p.lastEpochTotalLamports,
    optionBytes (uintBytes 8) p.maxValidatorStake,
    s.reserved.bytes ]

def serialize (s : StoredStakePool) : List UInt8 := s.fields.flatten

/-- The longest that each field can be: where it is optional, it is set. -/
def packedLens : List Nat :=
  [1, 1, 32, 32, 32, 1, 32, 32, 32, 32, 32, 8, 8, 8, 48, 16, 1 + 16, 1 + 32, 1 + 32, 16, 16, 1 + 16, 1, 1 + 32,
    16, 1, 1 + 32, 16, 1 + 16, 8, 8, 1 + 8, 256]

/-- `get_packed_len` -/
def packedLen : Nat := packedLens.sum

theorem reads_key (k : Pubkey) : Reads pubkey k.bytes k := reads_fixedBytes k

theorem reads_optionKey (o : Option Pubkey) : Reads (option pubkey) (optionBytes FixedBytes.bytes o) o :=
  reads_option fun k _ => reads_key k

/-- Decoding takes what was stored for a pool, and nothing behind it. -/
theorem reads (s : StoredStakePool) : Reads deserialize s.serialize (s.pool, s.reserved) :=
  .cons (reads_u8 _) <| .cons (AccountType.reads _) <| .cons (reads_key _) <| .cons (reads_key _) <|
  .cons (reads_key _) <| .cons (reads_u8 _) <| .cons (reads_key _) <| .cons (reads_key _) <|
  .cons (reads_key _) <| .cons (reads_key _) <| .cons (reads_key _) <|
  .cons (reads_uint s.inRange.totalLamports_lt) <| .cons (reads_uint s.inRange.poolTokenSupply_lt) <|
  .cons (reads_uint s.inRange.lastUpdateEpoch_lt) <| .cons s.inRange.lockup.reads <|
  .cons (Fee.reads _) <| .cons (FutureEpoch.reads Fee.reads _) <| .cons (reads_optionKey _) <|
  .cons (reads_optionKey _) <| .cons (Fee.reads _) <| .cons (Fee.reads _) <|
  .cons (FutureEpoch.reads Fee.reads _) <| .cons (reads_u8 _) <| .cons (reads_optionKey _) <|
  .cons (Fee.reads _) <| .cons (reads_u8 _) <| .cons (reads_optionKey _) <| .cons (Fee.reads _) <|
  .cons (FutureEpoch.reads Fee.reads _) <| .cons (reads_uint s.inRange.lastEpochPoolTokenSupply_lt) <|
  .cons (reads_uint s.inRange.lastEpochTotalLamports_lt) <|
  .cons (reads_option fun m hm => reads_uint (s.inRange.maxValidatorStake_lt m hm)) <|
  .cons (reads_fixedBytes _) <| .done _

theorem yields_inRange (data : List UInt8) : Yields deserialize data fun s => s.1.InRange :=
  .bind fun _ _ => .bind fun _ _ => .bind fun _ _ => .bind fun _ _ => .bind fun _ _ => .bind fun _ _ =>
  .bind fun _ _ => .bind fun _ _ => .bind fun _ _ => .bind fun _ _ => .bind fun _ data =>
  .next (yields_uint 8 data) fun _ htotal data => .next (yields_uint 8 data) fun _ hsupply data =>
  .next (yields_uint 8 data) fun _ hepoch data => .next (Lockup.yields_inRange data) fun _ hlockup _ =>
  .bind fun _ _ => .bind fun _ _ => .bind fun _ _ => .bind fun _ _ => .bind fun _ _ => .bind fun _ _ =>
  .bind fun _ _ => .bind fun _ _ => .bind fun _ _ => .bind fun _ _ => .bind fun _ _ => .bind fun _ _ =>
  .bind fun _ _ => .bind fun _ data =>
  .next (yields_uint 8 data) fun _ hlastSupply data => .next (yields_uint 8 data) fun _ hlastTotal data =>
  .next (yields_option (yields_uint 8) data) fun _ hmax _ => .bind fun _ _ =>
  .pure ⟨htotal, hsupply, hepoch, hlockup, hlastSupply, hlastTotal, hmax⟩

/-- `try_from_slice_unchecked` -/
def read (data : List UInt8) : Option StoredStakePool :=
  (tryFromSliceUnchecked deserialize data).pmap (fun s hs => ⟨s.1, s.2, hs⟩) (yields_inRange data)

theorem read_serialize (s : StoredStakePool) (rest : List UInt8) : read (s.serialize ++ rest) = some s := by
  have h := s.reads.tryFromSliceUnchecked rest
  exact Option.pmap_eq_some_iff.2 ⟨_, yields_inRange _ _ h, h, rfl⟩

end StoredStakePool

/-- The lamports and the epoch fit into 64 bits, and the status is one. -/
structure ValidatorStakeInfo.InRange (v : ValidatorStakeInfo Pubkey) : Prop where
  activeStakeLamports_lt : v.activeStakeLamports < 2 ^ 64
  transientStakeLamports_lt : v.transientStakeLamports < 2 ^ 64
  lastUpdateEpoch_lt : v.lastUpdateEpoch < 2 ^ 64
  status : ∃ s : StakeStatus, v.status = s.pod

/-- A list as the program stores it. -/
structure StoredValidatorList where
  list : ValidatorList Pubkey
  maxValidators_lt : list.header.maxValidators < 2 ^ 32
  length_lt : list.validators.length < 2 ^ 32
  entries : ∀ v ∈ list.validators, v.InRange

def StoredValidatorList.serialize (l : StoredValidatorList) : List UInt8 := l.list.serialize FixedBytes.bytes

end SplStakePool
