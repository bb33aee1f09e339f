import SplStakePool.Client.Python
import SplStakePool.Properties.Persistence

/-!
# When the Python client reads what the program stores

The layouts of the Python client agree with the Borsh format on every field of fixed length. They miss the
form of a pending fee that still waits for two epochs: its discriminator falls through to a case that parses
nothing, and all that is behind it is read at a wrong offset. An optional key that is set is parsed, but not
decoded. In the list, the largest status has the number of the one before it.

That a pool is read correctly where none of this happens is the format, field by field. For the other direction it has
to be shown that a wrong offset is never made good by what is read behind it: the fee that waits is parsed as none, and
a decoder that returned the pool would have returned the fee.
-/

namespace SplStakePool.Python
open Borsh

def Fee.of (fee : SplStakePool.Fee) : Fee := ⟨fee.numerator.toNat, fee.denominator.toNat⟩

def Lockup.of (l : SplStakePool.Lockup Pubkey) : Lockup := ⟨l.unixTimestamp, l.epoch, l.custodian⟩

/-- The fields of the pool, a pending fee without its epochs. -/
def StakePool.of (p : SplStakePool.StakePool Pubkey) : StakePool where
  manager := p.manager
  staker := p.staker
  stakeDepositAuthority := p.stakeDepositAuthority
  stakeWithdrawBumpSeed := p.stakeWithdrawBumpSeed.toNat
  validatorList := p.validatorList
  reserveStake := p.reserveStake
  poolMint := p.poolMint
  managerFeeAccount := p.managerFeeAccount
  tokenProgramId := p.tokenProgramId
  totalLamports := p.totalLamports
  poolTokenSupply := p.poolTokenSupply
  lastUpdateEpoch := p.lastUpdateEpoch
  lockup := .of p.lockup
  epochFee := .of p.epochFee
  nextEpochFee := p.nextEpochFee.toOption.map .of
  preferredDepositValidator := p.preferredDepositValidatorVoteAddress
  preferredWithdrawValidator := p.preferredWithdrawValidatorVoteAddress
  stakeDepositFee := .of p.stakeDepositFee
  stakeWithdrawalFee := .of p.stakeWithdrawalFee
  nextStakeWithdrawalFee := p.nextStakeWithdrawalFee.toOption.map .of
  stakeReferralFee := p.stakeReferralFee.toNat
  solDepositAuthority := p.solDepositAuthority
  solDepositFee := .of p.solDepositFee
  solReferralFee := p.solReferralFee.toNat
  solWithdrawAuthority := p.solWithdrawAuthority
  solWithdrawalFee := .of p.solWithdrawalFee
  nextSolWithdrawalFee := p.nextSolWithdrawalFee.toOption.map .of
  lastEpochPoolTokenSupply := p.lastEpochPoolTokenSupply
  lastEpochTotalLamports := p.lastEpochTotalLamports

/-- The fields of an entry, its status as the client numbers it. -/
def ValidatorStakeInfo.of (v : SplStakePool.ValidatorStakeInfo Pubkey) : ValidatorStakeInfo where
  activeStakeLamports := v.activeStakeLamports
  transientStakeLamports := v.transientStakeLamports
  lastUpdateEpoch := v.lastUpdateEpoch
  transientSeedSuffix := v.transientSeedSuffix.toNat
  unused := 0
  validatorSeedSuffix := v.validatorSeedSuffix.toNat
  status := (StakeStatus.fromU8 v.status.byte).elim v.status.byte.toNat stakeStatus
  voteAccountAddress := v.voteAccountAddress

def ValidatorList.of (l : SplStakePool.ValidatorList Pubkey) : ValidatorList where
  maxValidators := l.header.maxValidators
  validators := l.validators.map .of

/-- A pending fee that is due after the next epoch, or none. -/
def ReadableFee (e : FutureEpoch SplStakePool.Fee) : Prop := ∀ fee, e ≠ .two fee

/-- The pools that are read as they are. -/
structure Readable (p : SplStakePool.StakePool Pubkey) : Prop where
  unixTimestamp : 0 ≤ p.lockup.unixTimestamp
  nextEpochFee : ReadableFee p.nextEpochFee
  preferredDepositValidator : p.preferredDepositValidatorVoteAddress = none
  preferredWithdrawValidator : p.preferredWithdrawValidatorVoteAddress = none
  nextStakeWithdrawalFee : ReadableFee p.nextStakeWithdrawalFee
  solDepositAuthority : p.solDepositAuthority = none
  solWithdrawAuthority : p.solWithdrawAuthority = none
  nextSolWithdrawalFee : ReadableFee p.nextSolWithdrawalFee

variable {α β : Type} {f : α → Decoder β}

theorem reads_int8ul (b : UInt8) : Reads int8ul [b] b.toNat := (reads_u8 b).map UInt8.toNat

theorem reads_int64ul {n : Nat} (h : n < 2 ^ 64) : Reads int64ul (uintBytes 8 n) n := reads_uint h

theorem reads_accountType (t : AccountType) : Reads int8ul t.serialize t.toU8.toNat := reads_int8ul _

theorem reads_key (k : Pubkey) : Reads publicKeyLayout k.bytes k := reads_fixedBytes k

theorem reads_fee (fee : SplStakePool.Fee) : Reads feeLayout fee.serialize (.of fee) :=
  .cons (reads_uint fee.denominator.toNat_lt) <| .cons (reads_uint fee.numerator.toNat_lt) <| .done _

theorem reads_lockup {l : SplStakePool.Lockup Pubkey} (h : l.InRange) :
    Reads lockupLayout l.serialize ⟨l.unixTimestamp % 2 ^ 64, l.epoch, l.custodian⟩ := by
  have hval : ((l.unixTimestamp % (256 ^ 8 : Nat)).toNat : Int) = l.unixTimestamp % 2 ^ 64 := by omega
  have hlt : (l.unixTimestamp % (256 ^ 8 : Nat)).toNat < 256 ^ 8 := by omega
  rw [← hval, Lockup.serialize, intBytes]
  generalize (l.unixTimestamp % (256 ^ 8 : Nat)).toNat = n at hlt
  exact .cons (reads_uint hlt) <| .cons (reads_uint h.epoch_lt) <| .cons (reads_key _) <| .done _

theorem reads_maxValidatorStake {o : Option Nat} (h : ∀ m ∈ o, m < 2 ^ 64) :
    Reads (int8ul >>= fun t => switch t int64ul) (optionBytes (uintBytes 8) o) o := by
  cases o with
  | none => exact fun _ => rfl
  | some m =>
    have hsome : Reads (switch (1 : UInt8).toNat int64ul) (uintBytes 8 m) (some m) :=
      (reads_int64ul (h m rfl)).map some
    exact .bind (reads_int8ul 1) hsome

theorem reads_noKey : Reads (int8ul >>= fun t => switch t publicKeyLayout) [0] none := fun _ => rfl

theorem reads_pendingFee {e : FutureEpoch SplStakePool.Fee} (h : ReadableFee e) :
    Reads (int8ul >>= fun t => switch t feeLayout) (e.serialize SplStakePool.Fee.serialize)
      (e.toOption.map .of) := by
  cases e with
  | none => exact fun _ => rfl
  | one fee =>
    have hsome : Reads (switch (1 : UInt8).toNat feeLayout) fee.serialize (some (.of fee)) :=
      (reads_fee fee).map some
    exact .bind (reads_int8ul 1) hsome
  | two fee => exact absurd rfl (h fee)

/-- A fee that waits for two epochs is read as none, and its bytes as what comes next. -/
theorem yields_pendingFee {e : FutureEpoch SplStakePool.Fee} (h : ¬ ReadableFee e) {f : Option Fee → Decoder β}
    {fields : List (List UInt8)} {rest : List UInt8} {P : β → Prop} (hf : ∀ data, Yields (f none) data P) :
    Yields (int8ul >>= fun t => switch t feeLayout >>= f)
      ((e.serialize SplStakePool.Fee.serialize :: fields).flatten ++ rest) P := by
  cases e with
  | none => exact absurd (fun _ => nofun) h
  | one fee => exact absurd (fun _ => nofun) h
  | two fee => exact hf _

theorem pendingFee_ne_none {e : FutureEpoch SplStakePool.Fee} (h : ¬ ReadableFee e) :
    e.toOption.map Fee.of ≠ none := by
  cases e with
  | none => exact absurd (fun _ => nofun) h
  | one fee => exact absurd (fun _ => nofun) h
  | two fee => exact nofun

/-! ## The pool -/

/-- The layout reads a pool without optional keys as it is exactly when no pending fee waits for two epochs. -/
theorem decodeStakePoolLayout_eq_iff (s : StoredStakePool) (rest : List UInt8)
    (h₁ : s.pool.preferredDepositValidatorVoteAddress = none)
    (h₂ : s.pool.preferredWithdrawValidatorVoteAddress = none) (h₃ : s.pool.solDepositAuthority = none)
    (h₄ : s.pool.solWithdrawAuthority = none) :
    tryFromSliceUnchecked decodeStakePoolLayout (s.serialize ++ rest) = some (.of s.pool) ↔ Readable s.pool := by
  have hr := s.inRange
  rw [StoredStakePool.serialize, StoredStakePool.fields, decodeStakePoolLayout, h₁, h₂, h₃, h₄]
  dsimp only
  simp only [optionBytes_none]
  rw [tryFromSliceUnchecked_cons (reads_int8ul _), tryFromSliceUnchecked_cons (reads_accountType _)]
  iterate 3 rw [tryFromSliceUnchecked_cons (reads_key _)]
  rw [tryFromSliceUnchecked_cons (reads_int8ul _)]
  iterate 5 rw [tryFromSliceUnchecked_cons (reads_key _)]
  rw [tryFromSliceUnchecked_cons (reads_int64ul hr.totalLamports_lt),
    tryFromSliceUnchecked_cons (reads_int64ul hr.poolTokenSupply_lt),
    tryFromSliceUnchecked_cons (reads_int64ul hr.lastUpdateEpoch_lt),
    tryFromSliceUnchecked_cons (reads_lockup hr.lockup), tryFromSliceUnchecked_cons (reads_fee _)]
  -- a field that is not read makes everything behind it unknown, but not what was read before
  by_cases hfee₁ : ReadableFee s.pool.nextEpochFee
  · rw [tryFromSliceUnchecked_cons₂ (reads_pendingFee hfee₁), tryFromSliceUnchecked_cons₂ reads_noKey,
      tryFromSliceUnchecked_cons₂ reads_noKey, tryFromSliceUnchecked_cons (reads_fee _),
      tryFromSliceUnchecked_cons (reads_fee _)]
    by_cases hfee₂ : ReadableFee s.pool.nextStakeWithdrawalFee
    · rw [tryFromSliceUnchecked_cons₂ (reads_pendingFee hfee₂), tryFromSliceUnchecked_cons (reads_int8ul _),
        tryFromSliceUnchecked_cons₂ reads_noKey, tryFromSliceUnchecked_cons (reads_fee _),
        tryFromSliceUnchecked_cons (reads_int8ul _), tryFromSliceUnchecked_cons₂ reads_noKey,
        tryFromSliceUnchecked_cons (reads_fee _)]
      by_cases hfee₃ : ReadableFee s.pool.nextSolWithdrawalFee
      · rw [tryFromSliceUnchecked_cons₂ (reads_pendingFee hfee₃),
          tryFromSliceUnchecked_cons (reads_int64ul hr.lastEpochPoolTokenSupply_lt),
          tryFromSliceUnchecked_cons (reads_int64ul hr.lastEpochTotalLamports_lt),
          tryFromSliceUnchecked_cons₂ (reads_maxValidatorStake hr.maxValidatorStake_lt)]
        constructor
        · intro h
          have hts : s.pool.lockup.unixTimestamp % 2 ^ 64 = s.pool.lockup.unixTimestamp :=
            congrArg (fun p : StakePool => p.lockup.unixTimestamp) (Option.some.inj h)
          exact ⟨hts ▸ Int.emod_nonneg _ (by decide), hfee₁, h₁, h₂, hfee₂, h₃, h₄, hfee₃⟩
        · intro h
          have hts : s.pool.lockup.unixTimestamp % 2 ^ 64 = s.pool.lockup.unixTimestamp :=
            Int.emod_eq_of_lt h.unixTimestamp (by have := hr.lockup.timestamp_lt; omega)
          simp only [hts, StakePool.of, h₁, h₂, h₃, h₄]
          rfl
      · refine ⟨fun h => absurd ?_ (pendingFee_ne_none hfee₃), fun h => absurd h.nextSolWithdrawalFee hfee₃⟩
        refine yields_pendingFee (P := fun p => p.nextSolWithdrawalFee = none) hfee₃ (fun _ => ?_) _ h
        iterate 4 refine .bind fun _ _ => ?_
        exact .pure rfl
    · refine ⟨fun h => absurd ?_ (pendingFee_ne_none hfee₂), fun h => absurd h.nextStakeWithdrawalFee hfee₂⟩
      refine yields_pendingFee (P := fun p => p.nextStakeWithdrawalFee = none) hfee₂ (fun _ => ?_) _ h
      iterate 14 refine .bind fun _ _ => ?_
      exact .pure rfl
  · refine ⟨fun h => absurd ?_ (pendingFee_ne_none hfee₁), fun h => absurd h.nextEpochFee hfee₁⟩
    refine yields_pendingFee (P := fun p => p.nextEpochFee = none) hfee₁ (fun _ => ?_) _ h
    iterate 22 refine .bind fun _ _ => ?_
    exact .pure rfl

theorem decodeOptionalPublickey_eq_some {o o' : Option Pubkey} :
    decodeOptionalPublickey o = some o' ↔ o = none ∧ o' = none := by
  cases o with
  | none => simp [decodeOptionalPublickey, eq_comm]
  | some k => simp [decodeOptionalPublickey]

/-- Decoding returns what was parsed, when no key was. -/
theorem StakePool.decode_eq_some {data : List UInt8} {p : StakePool} :
    StakePool.decode data = some p ↔ tryFromSliceUnchecked decodeStakePoolLayout data = some p ∧
      p.preferredDepositValidator = none ∧ p.preferredWithdrawValidator = none ∧ p.solDepositAuthority = none ∧
      p.solWithdrawAuthority = none := by
  constructor
  · intro h
    obtain ⟨⟨parsed, rest⟩, hparsed, h⟩ := Option.bind_eq_some_iff.1 h
    obtain ⟨_, hk₁, h⟩ := Option.bind_eq_some_iff.1 h
    obtain ⟨_, hk₂, h⟩ := Option.bind_eq_some_iff.1 h
    obtain ⟨_, hk₃, h⟩ := Option.bind_eq_some_iff.1 h
    obtain ⟨_, hk₄, h⟩ := Option.bind_eq_some_iff.1 h
    obtain ⟨hp₁, rfl⟩ := decodeOptionalPublickey_eq_some.1 hk₁
    obtain ⟨hp₂, rfl⟩ := decodeOptionalPublickey_eq_some.1 hk₂
    obtain ⟨hp₃, rfl⟩ := decodeOptionalPublickey_eq_some.1 hk₃
    obtain ⟨hp₄, rfl⟩ := decodeOptionalPublickey_eq_some.1 hk₄
    cases Option.some.inj h
    refine ⟨Option.map_eq_some_iff.2 ⟨_, hparsed, ?_⟩, rfl, rfl, rfl, rfl⟩
    cases parsed
    dsimp only at hp₁ hp₂ hp₃ hp₄
    subst hp₁ hp₂ hp₃ hp₄
    rfl
  · rintro ⟨h, h₁, h₂, h₃, h₄⟩
    obtain ⟨⟨parsed, rest⟩, hparsed, rfl⟩ := Option.map_eq_some_iff.1 h
    cases parsed
    dsimp only at h₁ h₂ h₃ h₄
    subst h₁ h₂ h₃ h₄
    rw [StakePool.decode, hparsed]
    rfl

theorem StakePool.decode_eq_iff (s : StoredStakePool) (rest : List UInt8) :
    StakePool.decode (s.serialize ++ rest) = some (.of s.pool) ↔ Readable s.pool := by
  rw [StakePool.decode_eq_some]
  constructor
  · rintro ⟨h, h₁, h₂, h₃, h₄⟩
    exact (decodeStakePoolLayout_eq_iff s rest h₁ h₂ h₃ h₄).1 h
  · intro h
    exact ⟨(decodeStakePoolLayout_eq_iff s rest h.preferredDepositValidator h.preferredWithdrawValidator
      h.solDepositAuthority h.solWithdrawAuthority).2 h, h.preferredDepositValidator, h.preferredWithdrawValidator,
      h.solDepositAuthority, h.solWithdrawAuthority⟩

/-! ## The list -/

/-- What the layout makes of an entry: the status is its byte. -/
def ValidatorStakeInfo.read (v : SplStakePool.ValidatorStakeInfo Pubkey) : ValidatorStakeInfo :=
  { ValidatorStakeInfo.of v with status := v.status.byte.toNat }

theorem reads_entry {v : SplStakePool.ValidatorStakeInfo Pubkey} (h : v.InRange) :
    Reads validatorInfoLayout (v.bytes FixedBytes.bytes) (.read v) := by
  have hfields : v.bytes FixedBytes.bytes = List.flatten [uintBytes 8 v.activeStakeLamports,
      uintBytes 8 v.transientStakeLamports, uintBytes 8 v.lastUpdateEpoch, uintBytes 8 v.transientSeedSuffix.toNat,
      uintBytes 4 0, uintBytes 4 v.validatorSeedSuffix.toNat, [v.status.byte], v.voteAccountAddress.bytes] := by
    simp only [ValidatorStakeInfo.bytes, uintBytes, List.flatten_cons, List.flatten_nil, List.append_nil,
      List.append_assoc]
  rw [hfields]
  exact .cons (reads_int64ul h.activeStakeLamports_lt) <| .cons (reads_int64ul h.transientStakeLamports_lt) <|
    .cons (reads_int64ul h.lastUpdateEpoch_lt) <| .cons (reads_int64ul v.transientSeedSuffix.toNat_lt) <|
    .cons (reads_uint (by decide)) <| .cons (reads_uint v.validatorSeedSuffix.toNat_lt) <|
    .cons (reads_int8ul _) <| .cons (reads_key _) <| .done _

theorem reads_list (l : StoredValidatorList) :
    Reads decodeValidatorListLayout l.serialize ⟨l.list.header.maxValidators, l.list.validators.map .read⟩ := by
  have hfields : l.serialize = List.flatten [[l.list.header.accountType.toU8],
      uintBytes 4 l.list.header.maxValidators, uintBytes 4 l.list.validators.length,
      (l.list.validators.map fun v => v.bytes FixedBytes.bytes).flatten] := by
    simp only [StoredValidatorList.serialize, ValidatorList.serialize, ValidatorList.elements,
      ValidatorListHeader.bytes, BigVec.vecSizeBytes, uintBytes, List.flatten_cons, List.flatten_nil,
      List.append_nil, List.cons_append, List.nil_append]
  rw [hfields]
  exact .cons (reads_int8ul _) <| .cons (reads_uint l.maxValidators_lt) <| .cons (reads_uint l.length_lt) <|
    .cons (reads_repeated fun v hv => reads_entry (l.entries v hv)) <| .done _

theorem ValidatorStakeInfo.read_eq_iff {v : SplStakePool.ValidatorStakeInfo Pubkey} (h : v.InRange) :
    ValidatorStakeInfo.read v = .of v ↔ v.status ≠ StakeStatus.deactivatingAll.pod := by
  obtain ⟨s, hs⟩ := h.status
  simp only [ValidatorStakeInfo.read, ValidatorStakeInfo.of, hs, ValidatorStakeInfo.mk.injEq, true_and, and_true]
  cases s <;> decide

theorem ValidatorList.decode_eq_iff (l : StoredValidatorList) (rest : List UInt8) :
    ValidatorList.decode (l.serialize ++ rest) = some (.of l.list) ↔
      ∀ v ∈ l.list.validators, v.status ≠ StakeStatus.deactivatingAll.pod := by
  rw [ValidatorList.decode, (reads_list l).tryFromSliceUnchecked, ValidatorList.of, Option.some.injEq,
    ValidatorList.mk.injEq, List.map_inj_left]
  simp only [true_and]
  exact forall₂_congr fun v hv => ValidatorStakeInfo.read_eq_iff (l.entries v hv)

/-- The client reads a stored pool as it is exactly when no optional key is set, no pending fee waits for two
epochs and the lockup is not before the epoch; a stored list, when no entry has both of its accounts
deactivating. What is behind them in the accounts does not matter. -/
theorem decoding_iff (s : StoredStakePool) (l : StoredValidatorList) (rest : List UInt8) :
    (StakePool.decode (s.serialize ++ rest) = some (.of s.pool) ↔ Readable s.pool) ∧
      (ValidatorList.decode (l.serialize ++ rest) = some (.of l.list) ↔
        ∀ v ∈ l.list.validators, v.status ≠ StakeStatus.deactivatingAll.pod) :=
  ⟨StakePool.decode_eq_iff s rest, ValidatorList.decode_eq_iff l rest⟩

/-- A pool whose epoch fee was just set. -/
def pending : StoredStakePool where
  pool := { StoredStakePool.shortestPool with nextEpochFee := .two ⟨100, 2⟩ }
  reserved := StoredStakePool.noReserved
  inRange := ⟨by decide, by decide, by decide, ⟨by decide, by decide, by decide⟩, by decide, by decide, by decide⟩

/-- A list with a validator that was removed while stake was on its way. -/
def removed : StoredValidatorList where
  list := { header := ⟨.validatorList, 10⟩
            validators := [⟨1000, 2000, 5, 1, 0, StakeStatus.deactivatingAll.pod, StoredStakePool.sampleKey⟩] }
  maxValidators_lt := by decide
  length_lt := by decide
  entries := by
    intro v hv
    cases List.mem_singleton.1 hv
    exact ⟨by decide, by decide, by decide, _, rfl⟩

/-- Neither of them is read as it is. -/
theorem decoding_differs :
    StakePool.decode pending.serialize ≠ some (.of pending.pool) ∧
      ValidatorList.decode removed.serialize ≠ some (.of removed.list) := by
  constructor
  · intro h
    rw [← List.append_nil pending.serialize] at h
    exact ((StakePool.decode_eq_iff pending []).1 h).nextEpochFee _ rfl
  · intro h
    rw [← List.append_nil removed.serialize] at h
    exact (ValidatorList.decode_eq_iff removed []).1 h _ (List.mem_singleton.2 rfl) rfl

end SplStakePool.Python
