import SplStakePool.Lib.Buffer
import SplStakePool.State

/-!
# Derived addresses (`lib.rs`)

The addresses that the program derives, and that no two of them are the same account: their preimages
differ, and the hash has no collisions.

A preimage is a sequence of keys and bytes, the seeds of the source in their order. The stake account of a validator
begins with its vote account and the other stake accounts with a prefix, so that the first symbol tells them apart
and the rest is read off position by position. Later modules use the results only: accounts of different entries
differ, and none of them is an authority.
-/

namespace SplStakePool
open Buffer

def authorityDeposit : List UInt8 := ['d', 'e', 'p', 'o', 's', 'i', 't'].map Char.toUInt8

def authorityWithdraw : List UInt8 := ['w', 'i', 't', 'h', 'd', 'r', 'a', 'w'].map Char.toUInt8

def transientStakeSeedPrefix : List UInt8 :=
  ['t', 'r', 'a', 'n', 's', 'i', 'e', 'n', 't'].map Char.toUInt8

def ephemeralStakeSeedPrefix : List UInt8 :=
  ['e', 'p', 'h', 'e', 'm', 'e', 'r', 'a', 'l'].map Char.toUInt8

def metadataSeedPrefix : List UInt8 := ['m', 'e', 't', 'a', 'd', 'a', 't', 'a'].map Char.toUInt8

/-- `NonZeroU32::new` -/
def nonZeroU32 (raw : UInt32) : Option UInt32 := if raw = 0 then none else some raw

variable {Key : Type} (rt : Runtime Key)

def findDepositAuthorityProgramAddress (programId stakePoolAddress : Key) : Key × UInt8 :=
  rt.findProgramAddress [.pubkey stakePoolAddress, .bytes authorityDeposit] programId

def findWithdrawAuthorityProgramAddress (programId stakePoolAddress : Key) : Key × UInt8 :=
  rt.findProgramAddress [.pubkey stakePoolAddress, .bytes authorityWithdraw] programId

def findStakeProgramAddress (programId voteAccountAddress stakePoolAddress : Key)
    (seed : Option UInt32) : Key × UInt8 :=
  rt.findProgramAddress [.pubkey voteAccountAddress, .pubkey stakePoolAddress,
    .bytes ((seed.map fun s => toLeBytes 4 s.toNat).getD [])] programId

def findTransientStakeProgramAddress (programId voteAccountAddress stakePoolAddress : Key)
    (seed : UInt64) : Key × UInt8 :=
  rt.findProgramAddress [.bytes transientStakeSeedPrefix, .pubkey voteAccountAddress,
    .pubkey stakePoolAddress, .bytes (toLeBytes 8 seed.toNat)] programId

def findEphemeralStakeProgramAddress (programId stakePoolAddress : Key) (seed : UInt64) : Key × UInt8 :=
  rt.findProgramAddress [.bytes ephemeralStakeSeedPrefix, .pubkey stakePoolAddress,
    .bytes (toLeBytes 8 seed.toNat)] programId

/-- `find_metadata_account`, of the metadata program -/
def findMetadataAccount (mint : Key) : Key × UInt8 :=
  rt.findProgramAddress [.bytes metadataSeedPrefix, .pubkey rt.mplTokenMetadataId, .pubkey mint]
    rt.mplTokenMetadataId

namespace Runtime

/-- The withdraw authority of the pool, which owns its stake. -/
def withdrawAuthority : Key :=
  (findWithdrawAuthorityProgramAddress rt rt.programId rt.stakePoolAddress).1

def depositAuthority : Key :=
  (findDepositAuthorityProgramAddress rt rt.programId rt.stakePoolAddress).1

/-- The validator stake account of an entry. -/
def validatorStake (v : ValidatorStakeInfo Key) : Key :=
  (findStakeProgramAddress rt rt.programId v.voteAccountAddress rt.stakePoolAddress
    (nonZeroU32 v.validatorSeedSuffix)).1

/-- The transient stake account of an entry under its current seed. -/
def transientStake (v : ValidatorStakeInfo Key) : Key :=
  (findTransientStakeProgramAddress rt rt.programId v.voteAccountAddress rt.stakePoolAddress
    v.transientSeedSuffix).1

def ephemeralStake (seed : UInt64) : Key :=
  (findEphemeralStakeProgramAddress rt rt.programId rt.stakePoolAddress seed).1

/-- A stake account that only this program can create for the pool. -/
inductive StakePda : Key → Prop
  | validator (v : ValidatorStakeInfo Key) : StakePda (rt.validatorStake v)
  | transient (v : ValidatorStakeInfo Key) : StakePda (rt.transientStake v)
  | ephemeral (seed : UInt64) : StakePda (rt.ephemeralStake seed)

/-- An address derived from the program, which has no private key. -/
def IsPda (k : Key) : Prop := ∃ seeds, rt.createProgramAddress seeds rt.programId = some k

end Runtime

variable {rt}

theorem preimage_append (s t : List (Seed Key)) : preimage (s ++ t) = preimage s ++ preimage t := by
  simp [preimage]

/-- Found addresses are equal only when the preimages are, up to the bump. -/
theorem Runtime.Lawful.find_inj (hl : rt.Lawful) {s s' : List (Seed Key)} {p p' : Key}
    (h : (rt.findProgramAddress s p).1 = (rt.findProgramAddress s' p').1) :
    (∃ b b', preimage s ++ [.inr b] = preimage s' ++ [.inr b']) ∧ p = p' := by
  have h₁ := hl.create_find s p
  have h₂ := hl.create_find s' p'
  rw [← h] at h₂
  obtain ⟨hp, hpp⟩ := hl.create_inj _ _ _ _ _ h₁ h₂
  simp only [preimage_append] at hp
  exact ⟨⟨_, _, hp⟩, hpp⟩

theorem Runtime.Lawful.find_isPda (hl : rt.Lawful) (s : List (Seed Key)) :
    rt.IsPda (rt.findProgramAddress s rt.programId).1 := ⟨_, hl.create_find s rt.programId⟩

theorem Runtime.Lawful.isPda_withdrawAuthority (hl : rt.Lawful) : rt.IsPda rt.withdrawAuthority :=
  hl.find_isPda _

theorem Runtime.StakePda.isPda (hl : rt.Lawful) {k : Key} (h : rt.StakePda k) : rt.IsPda k := by
  cases h <;> exact hl.find_isPda _

theorem depositAuthority_ne_withdrawAuthority (hl : rt.Lawful) :
    rt.depositAuthority ≠ rt.withdrawAuthority := by
  intro h
  obtain ⟨⟨b, b', h⟩, -⟩ := hl.find_inj h
  simp [preimage, Seed.symbols, authorityDeposit, authorityWithdraw] at h

theorem validatorStake_inj (hl : rt.Lawful) {v w : ValidatorStakeInfo Key}
    (h : rt.validatorStake v = rt.validatorStake w) : v.voteAccountAddress = w.voteAccountAddress := by
  obtain ⟨⟨b, b', h⟩, -⟩ := hl.find_inj h
  simp only [preimage, Seed.symbols, List.flatMap_cons, List.cons_append, List.cons.injEq,
    Sum.inl.injEq] at h
  exact h.1

theorem transientStake_inj (hl : rt.Lawful) {v w : ValidatorStakeInfo Key}
    (h : rt.transientStake v = rt.transientStake w) : v.voteAccountAddress = w.voteAccountAddress := by
  obtain ⟨⟨b, b', h⟩, -⟩ := hl.find_inj h
  simp only [preimage, Seed.symbols, List.flatMap_cons, List.append_assoc,
    List.append_cancel_left_eq, List.cons_append, List.cons.injEq, Sum.inl.injEq] at h
  exact h.1

theorem validatorStake_ne_transientStake (hl : rt.Lawful) (v w : ValidatorStakeInfo Key) :
    rt.validatorStake v ≠ rt.transientStake w := by
  intro h
  obtain ⟨⟨b, b', h⟩, -⟩ := hl.find_inj h
  simp [preimage, Seed.symbols, transientStakeSeedPrefix] at h

theorem validatorStake_ne_ephemeralStake (hl : rt.Lawful) (v : ValidatorStakeInfo Key) (s : UInt64) :
    rt.validatorStake v ≠ rt.ephemeralStake s := by
  intro h
  obtain ⟨⟨b, b', h⟩, -⟩ := hl.find_inj h
  simp [preimage, Seed.symbols, ephemeralStakeSeedPrefix] at h

theorem transientStake_ne_ephemeralStake (hl : rt.Lawful) (v : ValidatorStakeInfo Key) (s : UInt64) :
    rt.transientStake v ≠ rt.ephemeralStake s := by
  intro h
  obtain ⟨⟨b, b', h⟩, -⟩ := hl.find_inj h
  simp only [preimage, Seed.symbols, ephemeralStakeSeedPrefix, transientStakeSeedPrefix,
    List.flatMap_cons, List.map_cons, List.cons_append, List.cons.injEq, Sum.inr.injEq] at h
  exact absurd h.1 (by decide)

end SplStakePool
