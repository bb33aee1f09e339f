import SplStakePool.Invariant.Cpi

/-!
# What a `DecreaseValidatorStake` has done

Three steps of the handler may or may not take place: the rent of an ephemeral account, the split into it, and the
creation of the transient account. Each gets an inductive type with one constructor for each way that it can
succeed, with the calls and the accounts between them; a successful decrease has one of each.

Nothing is said yet of what the calls did. That the lamports have gone from the validator to the transient
account is read off these types later, from the laws of the runtime.
-/

namespace SplStakePool
open Exec Machine

variable {Key : Type} [DecidableEq Key] {rt : Runtime Key} {w w' : World Key}
  {accounts : List (AccountInfo Key)}

namespace DecreaseValidatorStakeAccounts
variable {a : DecreaseValidatorStakeAccounts Key} {lamports n : Nat} {seed : UInt64}
  {src : AccountInfo Key} {acc acc' acc₁ acc₂ : Accounts Key}

theorem checkRemaining_eq_ok {validatorLamports remaining required : Nat} :
    checkRemaining validatorLamports remaining required = .ok () ↔ required ≤ remaining := by
  unfold checkRemaining
  split
  · rename_i hlt
    simp only [bind_eq_ok, reduceCtorEq, and_false, exists_false, false_iff]
    omega
  · exact ⟨fun _ => by omega, fun _ => rfl⟩

/-- Rent that is missing on an account is withdrawn from the reserve, or nothing happens. -/
def Funded (rt : Runtime Key) (w : World Key) (a : DecreaseValidatorStakeAccounts Key)
    (acc : Accounts Key) (info : AccountInfo Key) (acc' : Accounts Key) : Prop :=
  acc = acc' ∨ ∃ reserve n, reserve.key = w.stakePool.reserveStake ∧ n < (acc reserve.key).lamports ∧
    stakeWithdraw rt w.sysvars acc reserve a.withdrawAuthorityInfo info n = .ok acc'

theorem fundEphemeralRent_eq_ok {info : AccountInfo Key}
    (hr : a.checkMaybeReserveStake w.stakePool = .ok ())
    (h : a.fundEphemeralRent rt w acc info = .ok acc') : Funded rt w a acc info acc' := by
  simp only [fundEphemeralRent, checkMaybeReserveStake] at h hr
  split at h
  · rename_i reserve he
    rw [he] at hr
    rcases ite_pure_eq_ok.1 h with ⟨-, h⟩ | ⟨-, h⟩
    · simp only [bind_eq_ok, ensure_eq_ok, exists_unit] at h
      exact .inr ⟨reserve, _, ensure_eq_ok.1 hr, h.1, h.2.2⟩
    · exact .inl h
  · exact .inl (pure_eq_ok.1 h)

theorem fundTransientRent_eq_ok (hr : a.checkMaybeReserveStake w.stakePool = .ok ())
    (h : a.fundTransientRent rt w acc src n = .ok acc') :
    Funded rt w a acc a.transientStakeAccountInfo acc' := by
  simp only [fundTransientRent, checkMaybeReserveStake] at h hr
  split at h
  · rename_i reserve he
    rw [he] at hr
    rcases ite_pure_eq_ok.1 h with ⟨-, h⟩ | ⟨-, h⟩
    · simp only [bind_eq_ok, ensure_eq_ok, exists_unit] at h
      obtain ⟨-, hlt, h⟩ := h
      rcases ite_pure_eq_ok.1 h with ⟨-, h⟩ | ⟨-, h⟩
      · exact .inr ⟨reserve, _, ensure_eq_ok.1 hr, hlt, h⟩
      · exact .inl h
    · exact .inl h
  · exact .inl (pure_eq_ok.1 h)

/-- The source of the transient stake with the amount to take: the validator stake, or all of an
ephemeral account that was split off it and deactivated. -/
inductive Source (rt : Runtime Key) (w : World Key) (a : DecreaseValidatorStakeAccounts Key)
    (lamports : Nat) : Accounts Key → AccountInfo Key → Nat → Prop
  | validator (he : a.maybeEphemeral = none) :
      Source rt w a lamports w.accounts a.validatorStakeAccountInfo lamports
  | ephemeral {ephemeralSeed : UInt64} {info : AccountInfo Key} {acc acc' acc'' acc₃ : Accounts Key}
      (he : a.maybeEphemeral = some (ephemeralSeed, info))
      (hk : (findEphemeralStakeProgramAddress rt rt.programId a.stakePoolInfo.key ephemeralSeed).1 =
        info.key)
      (create : createStakeAccount rt w.accounts info = .ok acc)
      (fund : Funded rt w a acc info acc')
      (split : stakeSplit rt w.sysvars acc' a.validatorStakeAccountInfo a.withdrawAuthorityInfo lamports
        info = .ok acc'')
      (deactivate : stakeDeactivate rt w.sysvars acc'' info a.withdrawAuthorityInfo = .ok acc₃) :
      Source rt w a lamports acc₃ info (acc₃ info.key).lamports

theorem splitEphemeral_eq_ok (hr : a.checkMaybeReserveStake w.stakePool = .ok ())
    (h : a.splitEphemeral rt w lamports = .ok (acc₁, src, n)) : Source rt w a lamports acc₁ src n := by
  simp only [splitEphemeral] at h
  split at h
  · rename_i he
    simp only [bind_eq_ok, pure_eq_ok, checkEphemeralStakeAddress, ensure_eq_ok, exists_unit,
      Prod.mk.injEq] at h
    obtain ⟨-, ⟨hk, -⟩, acc, hc, acc', hf, acc'', hs, acc₃, hd, rfl, rfl, rfl⟩ := h
    exact .ephemeral he hk hc (fundEphemeralRent_eq_ok hr hf) hs hd
  · rename_i he
    cases h
    exact .validator he

/-- The transient stake: created, funded with rent, split off the source, and deactivated if it is
not yet. -/
inductive NewTransient (rt : Runtime Key) (w : World Key) (a : DecreaseValidatorStakeAccounts Key)
    (acc : Accounts Key) (src : AccountInfo Key) (n : Nat) (acc' : Accounts Key) : Prop
  | mk {acc₁ acc₂ acc₃ : Accounts Key} {m : Meta Key} {s : Stake Key}
      (create : createStakeAccount rt acc a.transientStakeAccountInfo = .ok acc₁)
      (fund : Funded rt w a acc₁ a.transientStakeAccountInfo acc₂)
      (split : stakeSplit rt w.sysvars acc₂ src a.withdrawAuthorityInfo n a.transientStakeAccountInfo =
        .ok acc₃)
      (state : (acc₃ a.transientStakeAccountInfo.key).data = .stakeState (.stake m s))
      (deactivate : s.delegation.deactivationEpoch = epochMax ∧ stakeDeactivate rt w.sysvars acc₃
          a.transientStakeAccountInfo a.withdrawAuthorityInfo = .ok acc' ∨ acc₃ = acc')

theorem splitTransient_eq_ok (hr : a.checkMaybeReserveStake w.stakePool = .ok ())
    (h : a.splitTransient rt w acc₁ src n = .ok acc₂) : NewTransient rt w a acc₁ src n acc₂ := by
  simp only [splitTransient, bind_eq_ok] at h
  obtain ⟨acc, hc, acc', hf, acc'', hs, ⟨m, s⟩, hst, h⟩ := h
  refine .mk hc (fundTransientRent_eq_ok hr hf) hs (getStakeState_eq_ok.1 hst) ?_
  rcases ite_pure_eq_ok.1 h with ⟨hd, h⟩ | ⟨-, h⟩
  · exact .inl ⟨hd, h⟩
  · exact .inr h

/-- A successful decrease of the entry `v`, whose stake account has the meta `m` and the stake `s`. -/
structure Ok (rt : Runtime Key) (w w' : World Key) (a : DecreaseValidatorStakeAccounts Key)
    (lamports : Nat) (seed : UInt64) (m : Meta Key) (s : Stake Key) (v : ValidatorStakeInfo Key)
    (acc₁ : Accounts Key) (src : AccountInfo Key) (n : Nat) : Prop where
  poolKey : a.stakePoolInfo.key = rt.stakePoolAddress
  authority : w.stakePool.checkAuthorityWithdraw rt a.withdrawAuthorityInfo.key rt.programId
    a.stakePoolInfo.key = .ok ()
  fresh : w.sysvars.epoch ≤ w.stakePool.lastUpdateEpoch
  stakeState : (w.accounts a.validatorStakeAccountInfo.key).data = .stakeState (.stake m s)
  find : w.validatorList.find s.delegation.voterPubkey = some v
  validatorKey : (findStakeProgramAddress rt rt.programId s.delegation.voterPubkey a.stakePoolInfo.key
    (nonZeroU32 v.validatorSeedSuffix)).1 = a.validatorStakeAccountInfo.key
  status : v.status = StakeStatus.active.pod
  minimum : minimumDelegation w.sysvars.minimumDelegation ≤ lamports
  le : lamports ≤ (w.accounts a.validatorStakeAccountInfo.key).lamports
  remaining : minimumStakeLamports m w.sysvars.minimumDelegation ≤
    (w.accounts a.validatorStakeAccountInfo.key).lamports - lamports
  source : Source rt w a lamports acc₁ src n
  transientKey : (findTransientStakeProgramAddress rt rt.programId s.delegation.voterPubkey
    a.stakePoolInfo.key seed).1 = a.transientStakeAccountInfo.key
  -- an existing transient account is deactivating and keeps its seed
  transient : v.transientStakeLamports > 0 ∧ seed = v.transientSeedSuffix ∧ a.maybeEphemeral.isSome ∧
      stakeMerge rt w.sysvars acc₁ src a.withdrawAuthorityInfo a.transientStakeAccountInfo =
        .ok w'.accounts ∨
    v.transientStakeLamports = 0 ∧ NewTransient rt w a acc₁ src n w'.accounts
  active_le : lamports ≤ v.activeStakeLamports
  result : w' = { w with
    validatorList := w.validatorList.set { v with
      activeStakeLamports := v.activeStakeLamports - lamports
      transientStakeLamports := (w'.accounts a.transientStakeAccountInfo.key).lamports
      transientSeedSuffix := seed }
    accounts := w'.accounts }

theorem process_calls (h : a.process rt w lamports seed = .ok w') :
    ∃ m s v acc₁ src n, a.Ok rt w w' lamports seed m s v acc₁ src n ∧
      a.checkMaybeReserveStake w.stakePool = .ok () ∧
      a.splitEphemeral rt w lamports = .ok (acc₁, src, n) ∧
      (v.transientStakeLamports = 0 → a.splitTransient rt w acc₁ src n = .ok w'.accounts) := by
  simp only [process, bind_eq_ok, ensure_eq_ok, orErr_eq_ok, exists_unit, pure_eq_ok,
    World.validStakePool_eq_ok, World.validValidatorList_eq_ok, checkValidatorStakeAddress,
    checkTransientStakeAddress, checkRemaining_eq_ok, checkedSub_eq_some] at h
  obtain ⟨-, -, p, ⟨hk, -, rfl⟩, hauth, -, hf, -, l, ⟨-, -, rfl⟩, hr, ⟨m, s⟩, hs, v, hv, hvk, hct, hst,
    hmin, _, ⟨hle, rfl⟩, hrem, ⟨acc₁, src, n⟩, hsrc, -, ⟨htk, -⟩, acc₂, ht, _, ⟨hale, rfl⟩, rfl⟩ := h
  have hnew : v.transientStakeLamports = 0 → a.splitTransient rt w acc₁ src n = .ok acc₂ := fun h0 => by
    rwa [if_neg (by omega)] at ht
  refine ⟨m, s, v, acc₁, src, n, ⟨hk, hauth, hf, getStakeState_eq_ok.1 hs, hv, hvk, hst, hmin, hle, hrem,
    splitEphemeral_eq_ok hr hsrc, htk, ?_, hale, rfl⟩, hr, hsrc, hnew⟩
  simp only [checkTransient] at hct
  split at ht <;> rename_i htr
  · rw [if_pos htr] at hct
    simp only [bind_eq_ok, ensure_eq_ok, exists_unit] at hct
    exact .inl ⟨htr, hct.2.1, hct.1, ht⟩
  · exact .inr ⟨by omega, splitTransient_eq_ok hr ht⟩

theorem process_ok (h : a.process rt w lamports seed = .ok w') :
    ∃ m s v acc₁ src n, a.Ok rt w w' lamports seed m s v acc₁ src n := by
  obtain ⟨m, s, v, acc₁, src, n, h, -⟩ := process_calls h
  exact ⟨m, s, v, acc₁, src, n, h⟩

end DecreaseValidatorStakeAccounts

theorem processDecreaseValidatorStake_ok {lamports : Nat} {seed : UInt64}
    {maybeEphemeralStakeSeed : Option UInt64} {fundRentExemptReserve : Bool}
    (h : processDecreaseValidatorStake rt w accounts lamports seed maybeEphemeralStakeSeed
      fundRentExemptReserve = .ok w') :
    ∃ a rest, (DecreaseValidatorStakeAccounts.parse rt maybeEphemeralStakeSeed
      fundRentExemptReserve).run accounts = .ok (a, rest) ∧
      ∃ m s v acc₁ src n, a.Ok rt w w' lamports seed m s v acc₁ src n := by
  simp only [processDecreaseValidatorStake, bind_eq_ok] at h
  obtain ⟨⟨a, rest⟩, hp, h⟩ := h
  exact ⟨a, rest, hp, a.process_ok h⟩

end SplStakePool
