import SplStakePool.Layout.Pool

/-!
# What is read of a pool is what was written last

Handlers write the pool over the front of its account and never clear the rest, so that bytes of longer
states stay behind shorter ones. A state never takes more than `packedLen` bytes, and decoding stops where
the last write ended.

It is an induction over the states written. The length of the account stays, which is all that the next write needs,
and what is in front is the state that was written last.
-/

namespace SplStakePool
open Borsh

namespace StoredStakePool

theorem length_serialize_le (s : StoredStakePool) : s.serialize.length ≤ packedLen := by
  have hkey : ∀ k : Pubkey, k.bytes.length ≤ 32 := fun k => k.length_bytes.le
  have hnum : ∀ n, (uintBytes 8 n).length ≤ 8 := fun n => (length_uintBytes 8 n).le
  have hfee : ∀ fee : Fee, fee.serialize.length ≤ 16 := fun fee => fee.length_serialize.le
  have hnext : ∀ e : FutureEpoch Fee, (e.serialize Fee.serialize).length ≤ 1 + 16 := fun _ =>
    FutureEpoch.length_serialize_le Fee.length_serialize
  have hopt : ∀ o : Option Pubkey, (optionBytes FixedBytes.bytes o).length ≤ 1 + 32 := fun _ =>
    length_optionBytes_le length_fixedBytes
  refine length_flatten_le ?_
  exact .cons le_rfl <| .cons le_rfl <| .cons (hkey _) <| .cons (hkey _) <| .cons (hkey _) <| .cons le_rfl <|
    .cons (hkey _) <| .cons (hkey _) <| .cons (hkey _) <| .cons (hkey _) <| .cons (hkey _) <|
    .cons (hnum _) <| .cons (hnum _) <| .cons (hnum _) <| .cons (Lockup.length_serialize _).le <|
    .cons (hfee _) <| .cons (hnext _) <| .cons (hopt _) <| .cons (hopt _) <| .cons (hfee _) <|
    .cons (hfee _) <| .cons (hnext _) <| .cons le_rfl <| .cons (hopt _) <| .cons (hfee _) <| .cons le_rfl <|
    .cons (hopt _) <| .cons (hfee _) <| .cons (hnext _) <| .cons (hnum _) <| .cons (hnum _) <|
    .cons (length_optionBytes_le (length_uintBytes 8)) <| .cons s.reserved.length_bytes.le .nil

/-- A key for examples. -/
def sampleKey : Pubkey := ⟨List.replicate 32 7, List.length_replicate⟩

/-- A pool in which nothing optional is set. -/
def shortestPool : StakePool Pubkey where
  version := 1
  accountType := .stakePool
  manager := sampleKey
  staker := sampleKey
  stakeDepositAuthority := sampleKey
  stakeWithdrawBumpSeed := 255
  validatorList := sampleKey
  reserveStake := sampleKey
  poolMint := sampleKey
  managerFeeAccount := sampleKey
  tokenProgramId := sampleKey
  totalLamports := 1000
  poolTokenSupply := 900
  lastUpdateEpoch := 5
  lockup := ⟨0, 0, sampleKey⟩
  epochFee := ⟨100, 3⟩
  nextEpochFee := .none
  preferredDepositValidatorVoteAddress := none
  preferredWithdrawValidatorVoteAddress := none
  stakeDepositFee := ⟨1, 0⟩
  stakeWithdrawalFee := ⟨1, 0⟩
  nextStakeWithdrawalFee := .none
  stakeReferralFee := 0
  solDepositAuthority := none
  solDepositFee := ⟨1, 0⟩
  solReferralFee := 0
  solWithdrawAuthority := none
  solWithdrawalFee := ⟨1, 0⟩
  nextSolWithdrawalFee := .none
  lastEpochPoolTokenSupply := 0
  lastEpochTotalLamports := 0
  maxValidatorStake := none

/-- A pool in which everything is set. -/
def longestPool : StakePool Pubkey where
  __ := shortestPool
  nextEpochFee := .two ⟨100, 2⟩
  preferredDepositValidatorVoteAddress := some sampleKey
  preferredWithdrawValidatorVoteAddress := some sampleKey
  nextStakeWithdrawalFee := .one ⟨1000, 1⟩
  solDepositAuthority := some sampleKey
  solWithdrawAuthority := some sampleKey
  nextSolWithdrawalFee := .two ⟨1000, 1⟩
  maxValidatorStake := some 5

def noReserved : FixedBytes 256 := ⟨List.replicate 256 0, List.length_replicate⟩

def shortest : StoredStakePool :=
  ⟨shortestPool, noReserved, by decide, by decide, by decide, ⟨by decide, by decide, by decide⟩, by decide,
    by decide, by decide⟩

def longest : StoredStakePool :=
  ⟨longestPool, noReserved, by decide, by decide, by decide, ⟨by decide, by decide, by decide⟩, by decide,
    by decide, by decide⟩

/-- No shorter account has room for every pool. -/
theorem length_serialize_longest : longest.serialize.length = packedLen := by
  simp [serialize, fields, longest, longestPool, packedLen, packedLens, AccountType.serialize, FutureEpoch.serialize, optionBytes]

end StoredStakePool

/-- States written one after the other into an account that has room for the longest of them: every write
succeeds, and what is decoded is the last state. -/
theorem stored_pool_round_trip (data : List UInt8) (hlen : StoredStakePool.packedLen ≤ data.length)
    (history : List StoredStakePool) (s : StoredStakePool) :
    ∃ data', (history ++ [s]).foldlM (fun data s => toWriter data s.serialize) data = some data' ∧
      tryFromSliceUnchecked StoredStakePool.deserialize data' = some (s.pool, s.reserved) := by
  have hroom : ∀ s : StoredStakePool, s.serialize.length ≤ data.length := fun s =>
    (StoredStakePool.length_serialize_le s).trans hlen
  obtain ⟨rest, hrest⟩ := foldlM_toWriter (l := history) (a := s) hroom
  exact ⟨_, hrest, s.reads.tryFromSliceUnchecked rest⟩

/-- A pool whose optional fields are cleared after all of them were set. -/
theorem stored_pool_round_trip_shrunk :
    ∃ data', [StoredStakePool.longest, StoredStakePool.shortest].foldlM
        (fun data s => toWriter data s.serialize) (List.replicate 900 0) = some data' ∧
      tryFromSliceUnchecked StoredStakePool.deserialize data' =
        some (StoredStakePool.shortest.pool, StoredStakePool.shortest.reserved) :=
  stored_pool_round_trip (List.replicate 900 0) (by rw [List.length_replicate]; decide)
    [StoredStakePool.longest] StoredStakePool.shortest

end SplStakePool
