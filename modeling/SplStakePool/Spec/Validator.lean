import SplStakePool.Invariant.Cpi

/-!
# What `AddValidatorToPool` and `RemoveValidatorFromPool` have done

A new entry was not in the list, its validator account was created and funded from the reserve, and it records exactly
what it was funded with. A removal leaves each of the two stakes of an entry as it is or deactivated.
-/

namespace SplStakePool
open Exec Machine

variable {Key : Type} [DecidableEq Key] {rt : Runtime Key} {w w' : World Key}
  {accounts : List (AccountInfo Key)}

/-- A new entry. -/
def newEntry (rt : Runtime Key) (w : World Key) (vote : Key) (seed : UInt32) : ValidatorStakeInfo Key :=
  { status := StakeStatus.active.pod
    voteAccountAddress := vote
    activeStakeLamports := addValidatorLamports rt w
    transientStakeLamports := 0
    lastUpdateEpoch := w.sysvars.epoch
    transientSeedSuffix := 0
    validatorSeedSuffix := seed }

/-- A successful `AddValidatorToPool`: the accounts after the stake account was created and after it
was funded from the reserve. -/
structure AddValidatorToPoolAccounts.Ok (rt : Runtime Key) (w w' : World Key)
    (a : AddValidatorToPoolAccounts Key) (seed : UInt32) (m : Meta Key) (acc₁ acc₂ : Accounts Key) :
    Prop where
  poolKey : a.stakePoolInfo.key = rt.stakePoolAddress
  authority : w.stakePool.checkAuthorityWithdraw rt a.withdrawAuthorityInfo.key rt.programId
    a.stakePoolInfo.key = .ok ()
  reserveKey : a.reserveStakeInfo.key = w.stakePool.reserveStake
  fresh : w.sysvars.epoch ≤ w.stakePool.lastUpdateEpoch
  room : w.validatorList.header.maxValidators ≠ w.validatorList.validators.length
  notFound : w.validatorList.find a.validatorVoteInfo.key = none
  stakeKey : (findStakeProgramAddress rt rt.programId a.validatorVoteInfo.key a.stakePoolInfo.key
    (nonZeroU32 seed)).1 = a.stakeInfo.key
  reserve : ∃ s, (w.accounts a.reserveStakeInfo.key).data = .stakeState s ∧ s.meta? = some m
  reserve_le : minimumReserveLamports m ≤
    (w.accounts a.reserveStakeInfo.key).lamports - addValidatorLamports rt w
  create : createStakeAccount rt w.accounts a.stakeInfo = .ok acc₁
  split : stakeSplit rt w.sysvars acc₁ a.reserveStakeInfo a.withdrawAuthorityInfo
    (addValidatorLamports rt w) a.stakeInfo = .ok acc₂
  delegate : stakeDelegate rt w.sysvars acc₂ a.stakeInfo a.validatorVoteInfo a.withdrawAuthorityInfo =
    .ok w'.accounts
  result : w' = { w with
    validatorList := { w.validatorList with
      validators := w.validatorList.validators ++ [newEntry rt w a.validatorVoteInfo.key seed] }
    accounts := w'.accounts }

theorem AddValidatorToPoolAccounts.process_ok {a : AddValidatorToPoolAccounts Key} {seed : UInt32}
    (h : a.process rt w seed = .ok w') : ∃ m acc₁ acc₂, a.Ok rt w w' seed m acc₁ acc₂ := by
  simp only [process, bind_eq_ok, ensure_eq_ok, orErr_eq_ok, exists_unit, pure_eq_ok,
    World.validStakePool_eq_ok, World.validValidatorList_eq_ok, StakePool.checkReserveStake,
    readStakeState_eq_ok, BigVec.push_eq_ok] at h
  obtain ⟨-, -, p, ⟨hk, -, rfl⟩, hauth, -, hrk, -, hf, l, ⟨-, -, rfl⟩, hroom, -, hnf, hsk, s, hs, m, hm, hle,
    acc₁, h₁, acc₂, h₂, acc₃, h₃, vs, ⟨-, rfl⟩, rfl⟩ := h
  exact ⟨m, acc₁, acc₂, hk, hauth, hrk, hf, hroom, hnf, hsk, ⟨s, hs, hm⟩, hle, h₁, h₂, h₃, rfl⟩

theorem processAddValidatorToPool_ok {seed : UInt32}
    (h : processAddValidatorToPool rt w accounts seed = .ok w') :
    ∃ a m acc₁ acc₂, AddValidatorToPoolAccounts.Ok rt w w' a seed m acc₁ acc₂ := by
  simp only [processAddValidatorToPool, bind_eq_ok] at h
  obtain ⟨⟨a, rest⟩, -, h⟩ := h
  exact ⟨a, a.process_ok h⟩

/-- The accounts after a stake may have been deactivated. -/
theorem deactivateIfActive_eq_ok {sys : Sysvars} {acc acc' : Accounts Key} {s : Stake Key}
    {stakeInfo auth : AccountInfo Key} (h : deactivateIfActive rt sys acc s stakeInfo auth = .ok acc') :
    stakeDeactivate rt sys acc stakeInfo auth = .ok acc' ∨ acc = acc' := by
  rcases ite_pure_eq_ok.1 h with ⟨-, h⟩ | ⟨-, h⟩
  · exact .inl h
  · exact .inr h

/-- A successful `RemoveValidatorFromPool` of the entry `v`: the accounts after the transient stake may
have been deactivated. -/
structure RemoveValidatorFromPoolAccounts.Ok (rt : Runtime Key) (w w' : World Key)
    (a : RemoveValidatorFromPoolAccounts Key) (s : Stake Key) (v : ValidatorStakeInfo Key)
    (acc₁ : Accounts Key) : Prop where
  poolKey : a.stakePoolInfo.key = rt.stakePoolAddress
  fresh : w.sysvars.epoch ≤ w.stakePool.lastUpdateEpoch
  find : w.validatorList.find s.delegation.voterPubkey = some v
  stakeKey : (findStakeProgramAddress rt rt.programId s.delegation.voterPubkey a.stakePoolInfo.key
    (nonZeroU32 v.validatorSeedSuffix)).1 = a.stakeAccountInfo.key
  status : v.status = StakeStatus.active.pod
  transient : v.transientStakeLamports > 0 ∧ (findTransientStakeProgramAddress rt rt.programId
        s.delegation.voterPubkey a.stakePoolInfo.key v.transientSeedSuffix).1 =
      a.transientStakeAccountInfo.key ∧
      (stakeDeactivate rt w.sysvars w.accounts a.transientStakeAccountInfo a.withdrawAuthorityInfo =
        .ok acc₁ ∨ w.accounts = acc₁) ∨
    v.transientStakeLamports = 0 ∧ w.accounts = acc₁
  deactivate : stakeDeactivate rt w.sysvars acc₁ a.stakeAccountInfo a.withdrawAuthorityInfo =
    .ok w'.accounts ∨ acc₁ = w'.accounts
  result : w' = { w with
    stakePool := w.stakePool.resetPreferred s.delegation.voterPubkey
    validatorList := w.validatorList.set { v with
      status := (if v.transientStakeLamports > 0 then StakeStatus.deactivatingAll
        else StakeStatus.deactivatingValidator).pod }
    accounts := w'.accounts }

theorem RemoveValidatorFromPoolAccounts.removeTransient_eq_ok
    {a : RemoveValidatorFromPoolAccounts Key} {lockup : Lockup Key} {acc : Accounts Key}
    (h : a.removeTransient rt w lockup = .ok acc) :
    stakeDeactivate rt w.sysvars w.accounts a.transientStakeAccountInfo a.withdrawAuthorityInfo =
      .ok acc ∨ w.accounts = acc := by
  simp only [removeTransient] at h
  split at h
  · rcases ite_pure_eq_ok.1 h with ⟨-, h⟩ | ⟨-, h⟩
    · exact deactivateIfActive_eq_ok h
    · exact .inr h
  · exact .inr (pure_eq_ok.1 h)

theorem RemoveValidatorFromPoolAccounts.process_ok {a : RemoveValidatorFromPoolAccounts Key}
    (h : a.process rt w = .ok w') : ∃ s v acc₁, a.Ok rt w w' s v acc₁ := by
  simp only [process, bind_eq_ok, ensure_eq_ok, orErr_eq_ok, exists_unit, pure_eq_ok,
    World.validStakePool_eq_ok, World.validValidatorList_eq_ok, checkValidatorStakeAddress] at h
  obtain ⟨-, p, ⟨hk, -, rfl⟩, -, -, hf, -, l, ⟨-, -, rfl⟩, ⟨m, s⟩, -, v, hv, hsk, hst, ⟨status, acc₁⟩, ht,
    acc₂, hd, rfl⟩ := h
  have hd := deactivateIfActive_eq_ok hd
  split at ht <;> rename_i htr
  · simp only [bind_eq_ok, pure_eq_ok, checkTransientStakeAddress, ensure_eq_ok, exists_unit,
      Prod.mk.injEq] at ht
    obtain ⟨-, ⟨htk, -⟩, acc, hacc, rfl, rfl⟩ := ht
    exact ⟨s, v, acc, hk, hf, hv, hsk, hst, .inl ⟨htr, htk, removeTransient_eq_ok hacc⟩, hd,
      by rw [if_pos htr]⟩
  · simp only [pure_eq_ok, Prod.mk.injEq] at ht
    obtain ⟨rfl, rfl⟩ := ht
    exact ⟨s, v, w.accounts, hk, hf, hv, hsk, hst, .inr ⟨by omega, rfl⟩, hd, by rw [if_neg htr]⟩

theorem processRemoveValidatorFromPool_ok
    (h : processRemoveValidatorFromPool rt w accounts = .ok w') :
    ∃ a s v acc₁, RemoveValidatorFromPoolAccounts.Ok rt w w' a s v acc₁ := by
  simp only [processRemoveValidatorFromPool, bind_eq_ok] at h
  obtain ⟨⟨a, rest⟩, -, h⟩ := h
  exact ⟨a, a.process_ok h⟩

end SplStakePool
