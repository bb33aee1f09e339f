import SplStakePool.Layout.Format
import SplStakePool.Layout.Instruction
import SplStakePool.Properties.ListViews

/-!
# What is stored and sent has one encoding

The program decodes instruction data strictly, and accounts from the front of their data. The instructions that
it accepts are exactly the encodings of instructions, and an account is read as a pool or as a list exactly
when it begins with the encoding of that.

One half is that the decoder reads what the encoder writes, the other that it takes nothing else; both go through the
fields in their order, for every variant. `Redelegate` is decoded with fields that are dropped, so that its encodings
are as many as these. A pool and a list have their type at different places, which does not quite tell them apart.
-/

namespace SplStakePool
open Borsh

/-! ## Instruction data -/

theorem PreferredValidatorType.format : Format deserialize serialize fun _ => True where
  reads t _ := by
    cases t <;> exact .tag (.nil _)
  takes := .tag fun _ => .ite (fun h => .pure ⟨trivial, by rw [h]; rfl⟩) fun _ =>
    .ite (fun h => .pure ⟨trivial, by rw [h]; rfl⟩) fun _ => .failure

theorem FundingType.format : Format deserialize serialize fun _ => True where
  reads t _ := by
    cases t <;> exact .tag (.nil _)
  takes := .tag fun _ => .ite (fun h => .pure ⟨trivial, by rw [h]; rfl⟩) fun _ =>
    .ite (fun h => .pure ⟨trivial, by rw [h]; rfl⟩) fun _ =>
    .ite (fun h => .pure ⟨trivial, by rw [h]; rfl⟩) fun _ => .failure

namespace FeeType

theorem reads (fee : FeeType) : Reads deserialize fee.serialize fee := by
  cases fee with
  | solReferral pct => exact .tag ((reads_u8 pct).map FeeType.solReferral)
  | stakeReferral pct => exact .tag ((reads_u8 pct).map FeeType.stakeReferral)
  | epoch fee => exact .tag (fee.reads.map FeeType.epoch)
  | stakeWithdrawal fee => exact .tag (fee.reads.map FeeType.stakeWithdrawal)
  | solDeposit fee => exact .tag (fee.reads.map FeeType.solDeposit)
  | stakeDeposit fee => exact .tag (fee.reads.map FeeType.stakeDeposit)
  | solWithdrawal fee => exact .tag (fee.reads.map FeeType.solWithdrawal)

/-- A case of the enumeration with one field. -/
theorem takes_case {α : Type} {d : Decoder α} {f : α → List UInt8} (h : Format d f fun _ => True) (t k : UInt8)
    (c : α → FeeType) (hc : ∀ a, (c a).serialize = k :: f a) (ht : t = k) :
    Takes (c <$> d) fun fee bytes => True ∧ t :: bytes = fee.serialize :=
  h.takes.map fun a _ ⟨_, hbytes⟩ => ⟨trivial, by rw [hc, ht, hbytes]⟩

theorem format : Format deserialize serialize fun _ => True where
  reads fee _ := fee.reads
  takes := .tag fun t =>
    .ite (takes_case .u8 t 0 solReferral fun _ => rfl) fun _ =>
    .ite (takes_case .u8 t 1 stakeReferral fun _ => rfl) fun _ =>
    .ite (takes_case Fee.format t 2 epoch fun _ => rfl) fun _ =>
    .ite (takes_case Fee.format t 3 stakeWithdrawal fun _ => rfl) fun _ =>
    .ite (takes_case Fee.format t 4 solDeposit fun _ => rfl) fun _ =>
    .ite (takes_case Fee.format t 5 stakeDeposit fun _ => rfl) fun _ =>
    .ite (takes_case Fee.format t 6 solWithdrawal fun _ => rfl) fun _ => .failure

end FeeType

namespace StakePoolInstruction

theorem reads {i : StakePoolInstruction Pubkey} (h : i.InRange) (fields : RedelegateFields) :
    Reads deserialize (i.serialize fields) i := by
  have key (o : Option Pubkey) : Reads (option pubkey) (optionBytes FixedBytes.bytes o) o :=
    reads_option fun k _ => reads_fixedBytes k
  cases i with
  | initializePool fee withdrawalFee depositFee referralFee maxValidators =>
    exact .tag <| .cons fee.reads <| .cons withdrawalFee.reads <| .cons depositFee.reads <|
      .cons (reads_u8 _) <| .cons (reads_uint h) <| .done _
  | addValidatorToPool seed => exact .tag <| .cons (reads_u32 _) <| .done _
  | removeValidatorFromPool => exact .tag (.nil _)
  | decreaseValidatorStake lamports seed => exact .tag <| .cons (reads_uint h) <| .cons (reads_u64 _) <| .done _
  | increaseValidatorStake lamports seed => exact .tag <| .cons (reads_uint h) <| .cons (reads_u64 _) <| .done _
  | setPreferredValidator validatorType vote =>
    exact .tag <| .cons (PreferredValidatorType.format.reads _ trivial) <| .cons (key vote) <| .done _
  | updateValidatorListBalance startIndex noMerge =>
    exact .tag <| .cons (reads_uint h) <| .cons (reads_bool _) <| .done _
  | updateStakePoolBalance => exact .tag (.nil _)
  | cleanupRemovedValidatorEntries => exact .tag (.nil _)
  | depositStake => exact .tag (.nil _)
  | withdrawStake poolTokens => exact .tag <| .cons (reads_uint h) <| .done _
  | setManager => exact .tag (.nil _)
  | setFee fee => exact .tag <| .cons fee.reads <| .done _
  | setStaker => exact .tag (.nil _)
  | depositSol lamports => exact .tag <| .cons (reads_uint h) <| .done _
  | setFundingAuthority fundingType =>
    exact .tag <| .cons (FundingType.format.reads _ trivial) <| .done _
  | withdrawSol poolTokens => exact .tag <| .cons (reads_uint h) <| .done _
  | createTokenMetadata name symbol uri =>
    exact .tag <| .cons (reads_string h.1) <| .cons (reads_string h.2.1) <| .cons (reads_string h.2.2) <| .done _
  | updateTokenMetadata name symbol uri =>
    exact .tag <| .cons (reads_string h.1) <| .cons (reads_string h.2.1) <| .cons (reads_string h.2.2) <| .done _
  | increaseAdditionalValidatorStake lamports seed ephemeralSeed =>
    exact .tag <| .cons (reads_uint h) <| .cons (reads_u64 _) <| .cons (reads_u64 _) <| .done _
  | decreaseAdditionalValidatorStake lamports seed ephemeralSeed =>
    exact .tag <| .cons (reads_uint h) <| .cons (reads_u64 _) <| .cons (reads_u64 _) <| .done _
  | decreaseValidatorStakeWithReserve lamports seed =>
    exact .tag <| .cons (reads_uint h) <| .cons (reads_u64 _) <| .done _
  | redelegate =>
    have hfields := (Format.u64.repeated 4).reads [fields.lamports, fields.sourceTransientStakeSeed,
      fields.ephemeralStakeSeed, fields.destinationTransientStakeSeed] ⟨rfl, fun _ _ => trivial⟩
    rw [← List.append_nil (List.flatten _)] at hfields
    exact .tag <| hfields.bind <| .nil _
  | depositStakeWithSlippage minimum => exact .tag <| .cons (reads_uint h) <| .done _
  | withdrawStakeWithSlippage poolTokens minimum =>
    exact .tag <| .cons (reads_uint h.1) <| .cons (reads_uint h.2) <| .done _
  | depositSolWithSlippage lamports minimum =>
    exact .tag <| .cons (reads_uint h.1) <| .cons (reads_uint h.2) <| .done _
  | withdrawSolWithSlippage poolTokens minimum =>
    exact .tag <| .cons (reads_uint h.1) <| .cons (reads_uint h.2) <| .done _
  | setMaxValidatorStake maxStake =>
    exact .tag <| .cons (reads_option fun m hm => reads_uint (h m hm)) <| .done _

/-- The bytes that are taken for an instruction are an encoding of it. -/
def Encoded (i : StakePoolInstruction Pubkey) (bytes : List UInt8) : Prop :=
  i.InRange ∧ ∃ fields, bytes = i.serialize fields

theorem takes : Takes deserialize Encoded := .tag fun tag => by
  -- the fields of any other instruction than `Redelegate`
  have r : RedelegateFields := ⟨0, 0, 0, 0⟩
  unfold deserializeVariant
  split
  all_goals rename_i htag
  · obtain rfl : tag = 0 := UInt8.toNat_inj.1 htag
    exact .field Fee.format fun _ _ => .field Fee.format fun _ _ => .field Fee.format fun _ _ =>
      .field .u8 fun _ _ => .field (.uint 4) fun _ h => .pure ⟨h, r, rfl⟩
  · obtain rfl : tag = 1 := UInt8.toNat_inj.1 htag
    exact .field .u32 fun _ _ => .pure ⟨trivial, r, rfl⟩
  · obtain rfl : tag = 2 := UInt8.toNat_inj.1 htag
    exact .pure ⟨trivial, r, rfl⟩
  · obtain rfl : tag = 3 := UInt8.toNat_inj.1 htag
    exact .field (.uint 8) fun _ h => .field .u64 fun _ _ => .pure ⟨h, r, rfl⟩
  · obtain rfl : tag = 4 := UInt8.toNat_inj.1 htag
    exact .field (.uint 8) fun _ h => .field .u64 fun _ _ => .pure ⟨h, r, rfl⟩
  · obtain rfl : tag = 5 := UInt8.toNat_inj.1 htag
    exact .field PreferredValidatorType.format fun _ _ => .field (.option pubkey_format) fun _ _ =>
      .pure ⟨trivial, r, rfl⟩
  · obtain rfl : tag = 6 := UInt8.toNat_inj.1 htag
    exact .field (.uint 4) fun _ h => .field .bool fun _ _ => .pure ⟨h, r, rfl⟩
  · obtain rfl : tag = 7 := UInt8.toNat_inj.1 htag
    exact .pure ⟨trivial, r, rfl⟩
  · obtain rfl : tag = 8 := UInt8.toNat_inj.1 htag
    exact .pure ⟨trivial, r, rfl⟩
  · obtain rfl : tag = 9 := UInt8.toNat_inj.1 htag
    exact .pure ⟨trivial, r, rfl⟩
  · obtain rfl : tag = 10 := UInt8.toNat_inj.1 htag
    exact .field (.uint 8) fun _ h => .pure ⟨h, r, rfl⟩
  · obtain rfl : tag = 11 := UInt8.toNat_inj.1 htag
    exact .pure ⟨trivial, r, rfl⟩
  · obtain rfl : tag = 12 := UInt8.toNat_inj.1 htag
    exact .field FeeType.format fun _ _ => .pure ⟨trivial, r, rfl⟩
  · obtain rfl : tag = 13 := UInt8.toNat_inj.1 htag
    exact .pure ⟨trivial, r, rfl⟩
  · obtain rfl : tag = 14 := UInt8.toNat_inj.1 htag
    exact .field (.uint 8) fun _ h => .pure ⟨h, r, rfl⟩
  · obtain rfl : tag = 15 := UInt8.toNat_inj.1 htag
    exact .field FundingType.format fun _ _ => .pure ⟨trivial, r, rfl⟩
  · obtain rfl : tag = 16 := UInt8.toNat_inj.1 htag
    exact .field (.uint 8) fun _ h => .pure ⟨h, r, rfl⟩
  · obtain rfl : tag = 17 := UInt8.toNat_inj.1 htag
    exact .field .string fun _ hname => .field .string fun _ hsymbol => .field .string fun _ huri =>
      .pure ⟨⟨hname, hsymbol, huri⟩, r, rfl⟩
  · obtain rfl : tag = 18 := UInt8.toNat_inj.1 htag
    exact .field .string fun _ hname => .field .string fun _ hsymbol => .field .string fun _ huri =>
      .pure ⟨⟨hname, hsymbol, huri⟩, r, rfl⟩
  · obtain rfl : tag = 19 := UInt8.toNat_inj.1 htag
    exact .field (.uint 8) fun _ h => .field .u64 fun _ _ => .field .u64 fun _ _ => .pure ⟨h, r, rfl⟩
  · obtain rfl : tag = 20 := UInt8.toNat_inj.1 htag
    exact .field (.uint 8) fun _ h => .field .u64 fun _ _ => .field .u64 fun _ _ => .pure ⟨h, r, rfl⟩
  · obtain rfl : tag = 21 := UInt8.toNat_inj.1 htag
    exact .field (.uint 8) fun _ h => .field .u64 fun _ _ => .pure ⟨h, r, rfl⟩
  · obtain rfl : tag = 22 := UInt8.toNat_inj.1 htag
    refine .field (Format.u64.repeated 4) fun fields ⟨hlen, _⟩ => ?_
    obtain ⟨a, b, c, d, rfl⟩ := List.length_eq_four.1 hlen
    exact .pure ⟨trivial, ⟨a, b, c, d⟩, by rw [List.append_nil]; rfl⟩
  · obtain rfl : tag = 23 := UInt8.toNat_inj.1 htag
    exact .field (.uint 8) fun _ h => .pure ⟨h, r, rfl⟩
  · obtain rfl : tag = 24 := UInt8.toNat_inj.1 htag
    exact .field (.uint 8) fun _ h => .field (.uint 8) fun _ h' => .pure ⟨⟨h, h'⟩, r, rfl⟩
  · obtain rfl : tag = 25 := UInt8.toNat_inj.1 htag
    exact .field (.uint 8) fun _ h => .field (.uint 8) fun _ h' => .pure ⟨⟨h, h'⟩, r, rfl⟩
  · obtain rfl : tag = 26 := UInt8.toNat_inj.1 htag
    exact .field (.uint 8) fun _ h => .field (.uint 8) fun _ h' => .pure ⟨⟨h, h'⟩, r, rfl⟩
  · obtain rfl : tag = 27 := UInt8.toNat_inj.1 htag
    exact .field (.option (.uint 8)) fun _ h => .pure ⟨h, r, rfl⟩
  · exact .failure

theorem serialize_eq {i : StakePoolInstruction Pubkey} (hi : i ≠ .redelegate) (fields fields' : RedelegateFields) :
    i.serialize fields = i.serialize fields' := by
  cases i <;> first | rfl | exact absurd rfl hi

/-- The program accepts exactly the encodings of instructions; every instruction but `Redelegate` has a single
one, and no encoding goes on behind another one. -/
theorem accepts_encodings :
    (∀ data i, tryFromSlice deserialize data = some i ↔ i.InRange ∧ ∃ fields, data = i.serialize fields) ∧
    (∀ i data data', i ≠ .redelegate → tryFromSlice deserialize data = some i →
      tryFromSlice deserialize data' = some i → data = data') ∧
    ∀ i j data rest, tryFromSlice deserialize data = some i → tryFromSlice deserialize (data ++ rest) = some j →
      rest = [] := by
  refine ⟨fun data i => ⟨takes.of_tryFromSlice, ?_⟩, ?_, ?_⟩
  · rintro ⟨h, fields, rfl⟩
    exact (reads h fields).tryFromSlice
  · intro i data data' hi h h'
    obtain ⟨-, fields, rfl⟩ := takes.of_tryFromSlice h
    obtain ⟨-, fields', rfl⟩ := takes.of_tryFromSlice h'
    exact serialize_eq hi fields fields'
  · intro i j data rest h h'
    obtain ⟨hi, fields, rfl⟩ := takes.of_tryFromSlice h
    by_contra hrest
    rw [(reads hi fields).tryFromSlice_append hrest] at h'
    cases h'

end StakePoolInstruction

/-! ## Accounts -/

theorem PodValidatorStakeInfo.format : Format deserialize serialize fun _ => True where
  reads v _ := v.reads
  takes := .field .u64 fun _ _ => .field .u64 fun _ _ => .field .u64 fun _ _ => .field .u64 fun _ _ =>
    .field .u32 fun _ _ => .field .u32 fun _ _ =>
    .field (f := fun s : PodStakeStatus => [s.byte]) (P := fun _ => True)
      (Format.u8.map (fun _ _ => ⟨trivial, rfl, rfl⟩) fun _ _ => ⟨trivial, rfl⟩) fun _ _ =>
    .field pubkey_format fun _ _ => .pure ⟨trivial, rfl⟩

theorem ValidatorListHeader.format : Format deserialize bytes fun h => h.maxValidators < 2 ^ 32 where
  reads _ h := reads h
  takes := .field AccountType.format fun _ _ => .field (.uint 4) fun _ hmax => .pure ⟨hmax, rfl⟩

namespace PodValidatorList

theorem takes : Takes deserialize fun r bytes =>
    ∃ l : PodValidatorList, (l.header, l.validators) = r ∧ bytes = l.serialize :=
  .field ValidatorListHeader.format fun _ hmax => .field (.uint 4) fun _ hlen =>
  .field (PodValidatorStakeInfo.format.repeated _) fun validators hv => by
    obtain ⟨rfl, -⟩ := hv
    exact .pure ⟨⟨_, validators, hmax, hlen⟩, rfl, rfl⟩

/-- An account is read as a list when the encoding of the list is in front of it. -/
theorem deserialize_eq_some {data : List UInt8} {r : ValidatorListHeader × List PodValidatorStakeInfo} :
    tryFromSliceUnchecked deserialize data = some r ↔
      ∃ (l : PodValidatorList) (rest : List UInt8), (l.header, l.validators) = r ∧ data = l.serialize ++ rest := by
  constructor
  · intro h
    obtain ⟨bytes, rest, rfl, l, hl, rfl⟩ := takes.of_tryFromSliceUnchecked h
    exact ⟨l, rest, hl, rfl⟩
  · rintro ⟨l, rest, rfl, rfl⟩
    exact l.deserialize_eq rest

end PodValidatorList

/-- The bytes that say what an account is are not at the same place in a pool and in a list: what is the version
in the one is the type in the other. -/
theorem StoredStakePool.version_eq {s : StoredStakePool} {l : PodValidatorList} {rest rest' : List UInt8}
    (h : s.serialize ++ rest = l.serialize ++ rest') :
    s.pool.version = l.header.accountType.toU8 ∧
      s.pool.accountType.toU8 = UInt8.ofNat l.header.maxValidators := by
  obtain ⟨hversion, h⟩ := List.cons.inj h
  exact ⟨hversion, (List.cons.inj h).1⟩

/-- An account is read as a pool, or as a list, exactly when it begins with the encoding of that, and writing back
the pool that was read changes nothing. A valid pool is also a valid list only if its version is 2 and the list is for
a number of validators that is 1 modulo 256. -/
theorem accounts_have_one_encoding (data : List UInt8) :
    (∀ s, StoredStakePool.read data = some s ↔ ∃ rest, data = s.serialize ++ rest) ∧
    (∀ r, tryFromSliceUnchecked PodValidatorList.deserialize data = some r ↔
      ∃ (l : PodValidatorList) (rest : List UInt8), (l.header, l.validators) = r ∧ data = l.serialize ++ rest) ∧
    (∀ s, StoredStakePool.read data = some s → toWriter data s.serialize = some data) ∧
    ∀ s r, StoredStakePool.read data = some s → s.pool.isValid →
      tryFromSliceUnchecked PodValidatorList.deserialize data = some r → r.1.isValid →
      s.pool.version = 2 ∧ r.1.maxValidators % 256 = 1 := by
  refine ⟨fun s => StoredStakePool.read_eq_some, fun r => PodValidatorList.deserialize_eq_some, ?_, ?_⟩
  · intro s h
    obtain ⟨rest, rfl⟩ := StoredStakePool.read_eq_some.1 h
    exact Buffer.write_front rfl
  · intro s r hs hpool hr hlist
    obtain ⟨rest, rfl⟩ := StoredStakePool.read_eq_some.1 hs
    obtain ⟨l, rest', rfl, hdata⟩ := PodValidatorList.deserialize_eq_some.1 hr
    obtain ⟨hversion, htype⟩ := StoredStakePool.version_eq hdata
    rw [of_decide_eq_true hlist] at hversion
    rw [of_decide_eq_true hpool] at htype
    refine ⟨hversion, ?_⟩
    have := congrArg UInt8.toNat htype
    rw [UInt8.toNat_ofNat'] at this
    exact this.symm

set_option maxRecDepth 4000 in
/-- The empty list for 257 validators is read as a pool as well. -/
example : ((StoredStakePool.read (PodValidatorList.serialize
      ⟨⟨.validatorList, 257⟩, [], by decide, by decide⟩ ++ List.replicate 700 0)).map fun s => s.pool.isValid) =
    some true := by
  decide

end SplStakePool
