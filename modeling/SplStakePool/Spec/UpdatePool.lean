import Mathlib.Algebra.BigOperators.Group.List.Basic
import SplStakePool.Invariant.Cpi

/-!
# What `UpdateStakePoolBalance`, `CleanupRemovedValidatorEntries` and `SetPreferredValidator` have done

The sum over the list is exact, as an entry that was not updated in the epoch makes it fail. The epoch fee is stated as
an inequality in the reward, the total and the supply, cross-multiplied, so that the argument about the price does not
depend on how the fee is rounded.
-/

namespace SplStakePool
open Exec Machine

variable {Key : Type}

/-- The lamports that an entry records. -/
def ValidatorStakeInfo.recorded (v : ValidatorStakeInfo Key) : Nat :=
  v.activeStakeLamports + v.transientStakeLamports

/-- The lamports that a list of entries records. -/
def recordedLamports (vs : List (ValidatorStakeInfo Key)) : Nat := (vs.map (·.recorded)).sum

@[simp] theorem recordedLamports_nil : recordedLamports ([] : List (ValidatorStakeInfo Key)) = 0 := rfl

@[simp] theorem recordedLamports_cons (v : ValidatorStakeInfo Key) (vs : List (ValidatorStakeInfo Key)) :
    recordedLamports (v :: vs) = v.recorded + recordedLamports vs := by simp [recordedLamports]

@[simp] theorem recordedLamports_append (vs vs' : List (ValidatorStakeInfo Key)) :
    recordedLamports (vs ++ vs') = recordedLamports vs + recordedLamports vs' := by
  simp [recordedLamports]

/-- The sum over the list is exact, and all entries are up to date. -/
theorem sumStakeLamports_eq_ok {epoch total n : Nat} {vs : List (ValidatorStakeInfo Key)} :
    sumStakeLamports epoch n vs = .ok total ↔
      (∀ v ∈ vs, epoch ≤ v.lastUpdateEpoch) ∧ total = n + recordedLamports vs ∧
        (vs = [] ∨ total < 2 ^ 64) := by
  induction vs generalizing n with
  | nil => simp [sumStakeLamports, eq_comm]
  | cons v vs ih =>
    simp only [sumStakeLamports, bind_eq_ok, ensure_eq_ok, exists_unit, orErr_eq_ok,
      ValidatorStakeInfo.stakeLamports, checkedAdd_eq_some, ih, recordedLamports_cons,
      ValidatorStakeInfo.recorded, List.mem_cons, forall_eq_or_imp]
    constructor
    · rintro ⟨hv, _, ⟨-, rfl⟩, _, ⟨hlt, rfl⟩, hvs, rfl, hd⟩
      refine ⟨⟨hv, hvs⟩, by omega, .inr ?_⟩
      rcases hd with rfl | hd
      · simpa using hlt
      · exact hd
    · rintro ⟨⟨hv, hvs⟩, rfl, hlt⟩
      have hlt := hlt.resolve_left (by simp)
      exact ⟨hv, _, ⟨by omega, rfl⟩, _, ⟨by omega, rfl⟩, hvs, by omega, .inr hlt⟩

/-- The epoch fee is the part of the reward that the fee lamports buy at the price net of the fee. -/
theorem StakePool.calcEpochFeeAmount_le {p : StakePool Key} {reward t : Nat}
    (h : p.calcEpochFeeAmount reward = some t) :
    reward = 0 ∧ t = 0 ∨ ∃ fee, p.epochFee.apply reward = some fee ∧
      ((p.totalLamports + reward = fee ∨ p.poolTokenSupply = 0) ∧ t = reward ∨
        p.poolTokenSupply ≠ 0 ∧ fee < p.totalLamports + reward ∧
          t = p.poolTokenSupply * fee / (p.totalLamports + reward - fee)) := by
  simp only [calcEpochFeeAmount] at h
  split at h
  · rename_i h0
    cases h
    exact .inl ⟨h0, rfl⟩
  simp only [Option.bind_eq_bind, Option.bind_eq_some_iff, checkedAdd_eq_some] at h
  obtain ⟨_, ⟨-, rfl⟩, fee, hf, h⟩ := h
  refine .inr ⟨fee, hf, ?_⟩
  split at h
  · cases h
    exact .inl ⟨‹_›, rfl⟩
  · rename_i h0
    rw [not_or] at h0
    simp only [Option.bind_eq_some_iff, checkedMul_eq_some, checkedSub_eq_some, checkedDiv_eq_some,
      tryFrom_eq_some] at h
    obtain ⟨_, ⟨-, rfl⟩, _, ⟨hle, rfl⟩, _, ⟨-, rfl⟩, -, rfl⟩ := h
    exact .inr ⟨h0.2, by omega, rfl⟩

theorem Fee.apply_le {fee : Fee} {n t : Nat} (hfee : fee.atMostOne) (h : fee.apply n = some t) :
    t ≤ n := by
  simp only [apply] at h
  split at h
  · cases h; exact Nat.zero_le _
  rename_i hd
  simp only [Option.bind_eq_bind, Option.bind_eq_some_iff, checkedMul_eq_some, checkedAdd_eq_some,
    checkedSub_eq_some, checkedDiv_eq_some] at h
  obtain ⟨_, ⟨-, rfl⟩, _, ⟨-, rfl⟩, _, ⟨-, rfl⟩, hd0, rfl⟩ := h
  simp only [atMostOne, decide_eq_true_eq, UInt64.le_iff_toNat_le] at hfee
  have hmul : n * fee.numerator.toNat ≤ n * fee.denominator.toNat := Nat.mul_le_mul_left _ hfee
  have hc : fee.denominator.toNat * n = n * fee.denominator.toNat := Nat.mul_comm _ _
  refine Nat.le_of_lt_succ (Nat.div_lt_of_lt_mul ?_)
  rw [Nat.mul_succ, hc]
  omega

variable [DecidableEq Key] {rt : Runtime Key} {w w' : World Key} {accounts : List (AccountInfo Key)}

omit [DecidableEq Key] in
theorem reserveLamportsAvailable_eq_ok {a : Account Key} {n : Nat}
    (h : reserveLamportsAvailable a = .ok n) : ∃ m, a.data = .stakeState (.initialized m) ∧
      minimumReserveLamports m ≤ a.lamports ∧ a.lamports - minimumReserveLamports m = n := by
  simp only [reserveLamportsAvailable, bind_eq_ok, readStakeState_eq_ok] at h
  obtain ⟨s, hs, h⟩ := h
  cases s with
  | initialized m => exact ⟨m, hs, checkedSub_eq_some.1 (orErr_eq_ok.1 h)⟩
  | _ => cases h

/-- The pool at an update: with the fees of a new epoch if this is the first. -/
def StakePool.updateEpoch (p : StakePool Key) (epoch : Nat) : StakePool Key :=
  if p.lastUpdateEpoch < epoch then p.startEpoch epoch else p

/-- A successful `UpdateStakePoolBalance`, with the reserve's meta and the fee that was minted. -/
structure UpdateStakePoolBalanceAccounts.Ok (rt : Runtime Key) (w w' : World Key)
    (a : UpdateStakePoolBalanceAccounts Key) (m : Meta Key) (fee : Nat) (mint : Mint Key) : Prop where
  poolKey : a.stakePoolInfo.key = rt.stakePoolAddress
  authority : w.stakePool.checkAuthorityWithdraw rt a.withdrawInfo.key rt.programId
    a.stakePoolInfo.key = .ok ()
  mintKey : a.poolMintInfo.key = w.stakePool.poolMint
  reserveKey : a.reserveStakeInfo.key = w.stakePool.reserveStake
  reserve : (w.accounts a.reserveStakeInfo.key).data = .stakeState (.initialized m)
  reserve_le : minimumReserveLamports m ≤ (w.accounts a.reserveStakeInfo.key).lamports
  updated : ∀ v ∈ w.validatorList.validators, w.sysvars.epoch ≤ v.lastUpdateEpoch
  total : w'.stakePool.totalLamports = (w.accounts a.reserveStakeInfo.key).lamports -
    minimumReserveLamports m + recordedLamports w.validatorList.validators
  fee_eq : w.stakePool.epochFeeToMint rt w.accounts a.managerFeeInfo
    (w'.stakePool.totalLamports - w.stakePool.totalLamports) = .ok fee
  mintTo : 0 < fee ∧ tokenMintTo rt w.accounts a.poolMintInfo a.managerFeeInfo a.withdrawInfo fee =
      .ok w'.accounts ∨ fee = 0 ∧ w.accounts = w'.accounts
  mint_eq : (w'.accounts a.poolMintInfo.key).data = .mint mint
  result : w' = { w with
    stakePool := { w.stakePool.updateEpoch w.sysvars.epoch with
      totalLamports := w'.stakePool.totalLamports
      poolTokenSupply := mint.supply }
    accounts := w'.accounts }

theorem UpdateStakePoolBalanceAccounts.process_ok {a : UpdateStakePoolBalanceAccounts Key}
    (h : a.process rt w = .ok w') : ∃ m fee mint, a.Ok rt w w' m fee mint := by
  simp only [process, bind_eq_ok, ensure_eq_ok, exists_unit, pure_eq_ok, World.validStakePool_eq_ok,
    World.validValidatorList_eq_ok, StakePool.checkReserveStake, StakePool.checkMint,
    BigVec.deserializeSlice_all, Except.ok.injEq, exists_eq_left', unpackMint_eq_ok] at h
  obtain ⟨p, ⟨hk, -, rfl⟩, _, ⟨hmk, -⟩, hauth, hrk, -, -, -, l, ⟨-, -, rfl⟩, n, hn, total, ht, fee, hf,
    acc, hm, mint, hmint, rfl⟩ := h
  obtain ⟨m, hr, hle, rfl⟩ := reserveLamportsAvailable_eq_ok hn
  obtain ⟨hu, hs, -⟩ := sumStakeLamports_eq_ok.1 ht
  refine ⟨m, fee, mint, hk, hauth, hmk, hrk, hr, hle, hu, hs, hf, ?_, hmint, rfl⟩
  rcases ite_pure_eq_ok.1 hm with h | ⟨h0, he⟩
  · exact .inl h
  · exact .inr ⟨by omega, he⟩

theorem processUpdateStakePoolBalance_ok (h : processUpdateStakePoolBalance rt w accounts = .ok w') :
    ∃ a rest, UpdateStakePoolBalanceAccounts.parse accounts = .ok (a, rest) ∧
      ∃ m fee mint, a.Ok rt w w' m fee mint := by
  simp only [processUpdateStakePoolBalance, bind_eq_ok] at h
  obtain ⟨⟨a, rest⟩, hp, h⟩ := h
  exact ⟨a, rest, hp, a.process_ok h⟩

theorem processCleanupRemovedValidatorEntries_ok
    (h : processCleanupRemovedValidatorEntries rt w accounts = .ok w') :
    ∃ a rest l, CleanupRemovedValidatorEntriesAccounts.parse accounts = .ok (a, rest) ∧
      l = { w.validatorList with validators := w.validatorList.validators.filter fun v => ¬ v.isRemoved } ∧
      w' = { w with
        stakePool := if a.stakePoolInfo.isWritable then { w.stakePool with
            preferredDepositValidatorVoteAddress :=
              l.keepPreferred w.stakePool.preferredDepositValidatorVoteAddress
            preferredWithdrawValidatorVoteAddress :=
              l.keepPreferred w.stakePool.preferredWithdrawValidatorVoteAddress }
          else w.stakePool
        validatorList := l } := by
  simp only [processCleanupRemovedValidatorEntries, CleanupRemovedValidatorEntriesAccounts.process,
    bind_eq_ok, exists_unit, World.validStakePool_eq_ok, World.validValidatorList_eq_ok] at h
  obtain ⟨⟨a, rest⟩, hp, p, ⟨-, -, rfl⟩, -, l, ⟨-, -, rfl⟩, h⟩ := h
  refine ⟨a, rest, _, hp, rfl, ?_⟩
  by_cases hw : a.stakePoolInfo.isWritable
  · rw [if_pos hw] at h ⊢
    cases h
    rfl
  · rw [if_neg hw] at h ⊢
    cases h
    rfl

theorem processSetPreferredValidator_ok {validatorType : PreferredValidatorType} {vote : Option Key}
    (h : processSetPreferredValidator rt w accounts validatorType vote = .ok w') :
    (∀ k, vote = some k → ∃ v, w.validatorList.find k = some v ∧ v.status = StakeStatus.active.pod) ∧
      w' = { w with stakePool := w.stakePool.setPreferred validatorType vote } := by
  simp only [processSetPreferredValidator, SetPreferredValidatorAccounts.process, bind_eq_ok,
    exists_unit, pure_eq_ok, World.validStakePool_eq_ok, World.validValidatorList_eq_ok] at h
  obtain ⟨⟨a, rest⟩, -, -, -, p, ⟨-, -, rfl⟩, -, -, l, ⟨-, -, rfl⟩, hv, rfl⟩ := h
  refine ⟨fun k hk => ?_, rfl⟩
  subst hk
  simp only [ValidatorList.checkPreferred, bind_eq_ok, orErr_eq_ok, ensure_eq_ok] at hv
  exact hv

end SplStakePool
