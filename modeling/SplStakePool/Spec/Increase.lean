import SplStakePool.Invariant.Cpi

/-!
# What an `IncreaseValidatorStake` has done

The source of the transient stake is the reserve itself or an ephemeral account that was split off it and
delegated; the transient account is a new one or has more merged into it. Each of the two is an inductive type, and a
successful increase has one of each, beside the checks that held on the entry.
-/

namespace SplStakePool
open Exec Machine

variable {Key : Type} [DecidableEq Key] {rt : Runtime Key} {w w' : World Key}
  {accounts : List (AccountInfo Key)}

/-- The lamports that an increase takes from the reserve, with the rent of the transient account. -/
def increaseLamports (rt : Runtime Key) (lamports : Nat) : Nat :=
  saturatingAdd 64 lamports (rt.rentMinimumBalance stakeSpace)

namespace IncreaseValidatorStakeAccounts
variable {a : IncreaseValidatorStakeAccounts Key} {lamports total : Nat} {seed : UInt64}
  {src : AccountInfo Key} {acc₁ acc₂ : Accounts Key}

/-- The source of the transient stake: the reserve, or an ephemeral account that was split off it. -/
inductive Source (rt : Runtime Key) (w : World Key) (a : IncreaseValidatorStakeAccounts Key)
    (total : Nat) : Accounts Key → AccountInfo Key → Prop
  | reserve (he : a.maybeEphemeral = none) : Source rt w a total w.accounts a.reserveStakeAccountInfo
  | ephemeral {ephemeralSeed : UInt64} {info : AccountInfo Key} {acc acc' acc'' : Accounts Key}
      (he : a.maybeEphemeral = some (ephemeralSeed, info))
      (hk : (findEphemeralStakeProgramAddress rt rt.programId a.stakePoolInfo.key ephemeralSeed).1 =
        info.key)
      (create : createStakeAccount rt w.accounts info = .ok acc)
      (split : stakeSplit rt w.sysvars acc a.reserveStakeAccountInfo a.withdrawAuthorityInfo total info =
        .ok acc')
      (delegate : stakeDelegate rt w.sysvars acc' info a.validatorVoteAccountInfo
        a.withdrawAuthorityInfo = .ok acc'') : Source rt w a total acc'' info

theorem splitEphemeral_eq_ok (h : a.splitEphemeral rt w total = .ok (acc₁, src)) :
    Source rt w a total acc₁ src := by
  simp only [splitEphemeral] at h
  split at h
  · rename_i he
    simp only [bind_eq_ok, pure_eq_ok, checkEphemeralStakeAddress, ensure_eq_ok, exists_unit,
      Prod.mk.injEq] at h
    obtain ⟨-, ⟨hk, -⟩, acc, hc, acc', hs, acc'', hd, rfl, rfl⟩ := h
    exact .ephemeral he hk hc hs hd
  · rename_i he
    cases h
    exact .reserve he

/-- The transient stake: created and split off the source, and delegated if it is not yet. -/
inductive NewTransient (rt : Runtime Key) (w : World Key) (a : IncreaseValidatorStakeAccounts Key)
    (total : Nat) (acc : Accounts Key) (src : AccountInfo Key) (acc' : Accounts Key) : Prop
  | mk {acc₁ acc₂ : Accounts Key} {s : StakeStateV2 Key}
      (create : createStakeAccount rt acc a.transientStakeAccountInfo = .ok acc₁)
      (split : stakeSplit rt w.sysvars acc₁ src a.withdrawAuthorityInfo total
        a.transientStakeAccountInfo = .ok acc₂)
      (state : (acc₂ a.transientStakeAccountInfo.key).data = .stakeState s)
      (delegate : (s.delegation?.any fun d => d.activationEpoch ≤ w.sysvars.epoch) ∧ acc₂ = acc' ∨
        ¬ (s.delegation?.any fun d => d.activationEpoch ≤ w.sysvars.epoch) ∧
          stakeDelegate rt w.sysvars acc₂ a.transientStakeAccountInfo a.validatorVoteAccountInfo
            a.withdrawAuthorityInfo = .ok acc')

theorem splitTransient_eq_ok (h : a.splitTransient rt w acc₁ src total = .ok acc₂) :
    NewTransient rt w a total acc₁ src acc₂ := by
  simp only [splitTransient, bind_eq_ok, readStakeState_eq_ok] at h
  obtain ⟨acc, hc, acc', hs, s, hst, h⟩ := h
  split at h
  · cases h
    exact .mk hc hs hst (.inl ⟨‹_›, rfl⟩)
  · exact .mk hc hs hst (.inr ⟨‹_›, h⟩)

/-- A successful increase of the entry `v`. -/
structure Ok (rt : Runtime Key) (w w' : World Key) (a : IncreaseValidatorStakeAccounts Key)
    (lamports : Nat) (seed : UInt64) (v : ValidatorStakeInfo Key) (acc₁ : Accounts Key)
    (src : AccountInfo Key) : Prop where
  poolKey : a.stakePoolInfo.key = rt.stakePoolAddress
  authority : w.stakePool.checkAuthorityWithdraw rt a.withdrawAuthorityInfo.key rt.programId
    a.stakePoolInfo.key = .ok ()
  reserveKey : a.reserveStakeAccountInfo.key = w.stakePool.reserveStake
  fresh : w.sysvars.epoch ≤ w.stakePool.lastUpdateEpoch
  find : w.validatorList.find a.validatorVoteAccountInfo.key = some v
  status : v.status = StakeStatus.active.pod
  max : ∀ M, w.stakePool.maxValidatorStake = some M → v.activeStakeLamports +
    v.transientStakeLamports + lamports ≤ M
  minimum : minimumDelegation w.sysvars.minimumDelegation ≤ lamports
  reserve_le : rt.rentMinimumBalance stakeSpace ≤
    (w.accounts a.reserveStakeAccountInfo.key).lamports - increaseLamports rt lamports
  source : Source rt w a (increaseLamports rt lamports) acc₁ src
  transientKey : (findTransientStakeProgramAddress rt rt.programId a.validatorVoteAccountInfo.key
    a.stakePoolInfo.key seed).1 = a.transientStakeAccountInfo.key
  -- an existing transient account is activating and keeps its seed
  transient : v.transientStakeLamports > 0 ∧ seed = v.transientSeedSuffix ∧ a.maybeEphemeral.isSome ∧
      stakeMerge rt w.sysvars acc₁ src a.withdrawAuthorityInfo a.transientStakeAccountInfo =
        .ok w'.accounts ∨
    v.transientStakeLamports = 0 ∧
      NewTransient rt w a (increaseLamports rt lamports) acc₁ src w'.accounts
  result : w' = { w with
    validatorList := w.validatorList.set { v with
      transientStakeLamports := v.transientStakeLamports + increaseLamports rt lamports
      transientSeedSuffix := seed }
    accounts := w'.accounts }

omit [DecidableEq Key] in
theorem checkMaxValidatorStake_eq_ok {maxStake : Option Nat} {v : ValidatorStakeInfo Key}
    (h : checkMaxValidatorStake maxStake v lamports = .ok ()) (M : Nat) (hM : maxStake = some M) :
    v.activeStakeLamports + v.transientStakeLamports + lamports ≤ M := by
  subst hM
  simp only [checkMaxValidatorStake, bind_eq_ok, ValidatorStakeInfo.stakeLamports, orErr_eq_ok,
    checkedAdd_eq_some, ensure_eq_ok] at h
  obtain ⟨_, ⟨-, rfl⟩, _, ⟨-, rfl⟩, h⟩ := h
  exact h

theorem process_ok (h : a.process rt w lamports seed = .ok w') :
    ∃ v acc₁ src, a.Ok rt w w' lamports seed v acc₁ src := by
  simp only [process, bind_eq_ok, ensure_eq_ok, orErr_eq_ok, exists_unit, pure_eq_ok,
    World.validStakePool_eq_ok, World.validValidatorList_eq_ok, StakePool.checkReserveStake,
    checkTransientStakeAddress, checkedAdd_eq_some] at h
  obtain ⟨-, -, p, ⟨hk, -, rfl⟩, hauth, -, hf, -, hrk, l, ⟨-, -, rfl⟩, v, hv, hct, -, hst, hmax, hmin,
    hle, ⟨acc₁, src⟩, hsrc, -, ⟨htk, -⟩, acc₂, ht, _, ⟨-, rfl⟩, rfl⟩ := h
  refine ⟨v, acc₁, src, hk, hauth, hrk, hf, hv, hst, checkMaxValidatorStake_eq_ok hmax, hmin, hle,
    splitEphemeral_eq_ok hsrc, htk, ?_, rfl⟩
  simp only [checkTransient] at hct
  split at ht <;> rename_i htr
  · rw [if_pos htr] at hct
    simp only [bind_eq_ok, ensure_eq_ok, exists_unit] at hct
    exact .inl ⟨htr, hct.2.1, hct.1, ht⟩
  · exact .inr ⟨by omega, splitTransient_eq_ok ht⟩

end IncreaseValidatorStakeAccounts

theorem processIncreaseValidatorStake_ok {lamports : Nat} {seed : UInt64}
    {maybeEphemeralStakeSeed : Option UInt64}
    (h : processIncreaseValidatorStake rt w accounts lamports seed maybeEphemeralStakeSeed = .ok w') :
    ∃ a rest, (IncreaseValidatorStakeAccounts.parse rt maybeEphemeralStakeSeed).run accounts =
      .ok (a, rest) ∧ ∃ v acc₁ src, a.Ok rt w w' lamports seed v acc₁ src := by
  simp only [processIncreaseValidatorStake, bind_eq_ok] at h
  obtain ⟨⟨a, rest⟩, hp, h⟩ := h
  exact ⟨a, rest, hp, a.process_ok h⟩

end SplStakePool
