import SplStakePool.Effect.Fees
import SplStakePool.Effect.Payments
import SplStakePool.Invariant.Run
import SplStakePool.Runtime.Session

/-!
# Access control

What the manager, the staker and the funding authorities must have signed, whatever the state, the
instruction and its accounts, and what nobody can change after `Initialize`.

There is nothing to induct over: the statement is about one instruction in any state. The handlers that check a
signature are few (`Spec/Signers`), and for all others it has to be shown that they leave the fields alone, which
`Executed.permitted` does case by case. Stake in a transient account is about lamports: an instruction that the
staker has not signed pays into other accounts, or to whom a withdrawal is to pay (`Effect/Payments`).
-/

namespace SplStakePool
open Exec Machine

variable {Key : Type} [DecidableEq Key] [Inhabited Key] {rt : Runtime Key} {w w' : World Key}
  {accounts : List (AccountInfo Key)} {i : StakePoolInstruction Key} {out : Option Key}

/-- What only the manager sets. -/
structure ManagerKept (p p' : StakePool Key) : Prop where
  manager : p'.manager = p.manager
  managerFeeAccount : p'.managerFeeAccount = p.managerFeeAccount
  solDepositFee : p'.solDepositFee = p.solDepositFee
  stakeDepositFee : p'.stakeDepositFee = p.stakeDepositFee
  solReferralFee : p'.solReferralFee = p.solReferralFee
  stakeReferralFee : p'.stakeReferralFee = p.stakeReferralFee
  maxValidatorStake : p'.maxValidatorStake = p.maxValidatorStake
  stakeDepositAuthority : p'.stakeDepositAuthority = p.stakeDepositAuthority
  solDepositAuthority : p'.solDepositAuthority = p.solDepositAuthority
  solWithdrawAuthority : p'.solWithdrawAuthority = p.solWithdrawAuthority
  /-- What is pending stays, or is one epoch nearer. -/
  nextEpochFee : p'.nextEpochFee = p.nextEpochFee ∨ p'.nextEpochFee = p.nextEpochFee.updateEpoch
  nextStakeWithdrawalFee : p'.nextStakeWithdrawalFee = p.nextStakeWithdrawalFee ∨
    p'.nextStakeWithdrawalFee = p.nextStakeWithdrawalFee.updateEpoch
  nextSolWithdrawalFee : p'.nextSolWithdrawalFee = p.nextSolWithdrawalFee ∨
    p'.nextSolWithdrawalFee = p.nextSolWithdrawalFee.updateEpoch

/-- A preferred validator was the preferred one before. -/
structure PreferredKept (p p' : StakePool Key) : Prop where
  deposit : ∀ v, p'.preferredDepositValidatorVoteAddress = some v →
    p.preferredDepositValidatorVoteAddress = some v
  withdraw : ∀ v, p'.preferredWithdrawValidatorVoteAddress = some v →
    p.preferredWithdrawValidatorVoteAddress = some v

/-- What a successful instruction on an initialized pool has changed, and who has signed for it. -/
structure Permitted (accounts : List (AccountInfo Key)) (w w' : World Key) : Prop where
  manager : Signed accounts w.stakePool.manager ∨ ManagerKept w.stakePool w'.stakePool
  staker : Signed accounts w.stakePool.manager ∨ Signed accounts w.stakePool.staker ∨
    w'.stakePool.staker = w.stakePool.staker
  entries : Signed accounts w.stakePool.staker ∨ w'.votes ⊆ w.votes
  preferred : Signed accounts w.stakePool.staker ∨ PreferredKept w.stakePool w'.stakePool
  statics : Statics w w'

omit [DecidableEq Key] [Inhabited Key] in
theorem ManagerKept.refl (p : StakePool Key) : ManagerKept p p := by
  constructor <;> first | rfl | exact .inl rfl

omit [DecidableEq Key] [Inhabited Key] in
theorem PreferredKept.refl (p : StakePool Key) : PreferredKept p p := ⟨fun _ => id, fun _ => id⟩

omit [DecidableEq Key] [Inhabited Key] in
theorem StakePool.updateEpoch_managerKept (p : StakePool Key) (epoch : Nat) :
    ManagerKept p (p.updateEpoch epoch) := by
  simp only [updateEpoch]
  split
  · constructor <;> first | rfl | exact .inr rfl
  · exact .refl p

omit [Inhabited Key] in
theorem StakePool.resetPreferred_kept (p : StakePool Key) (vote : Key) :
    PreferredKept p (p.resetPreferred vote) := by
  refine ⟨fun v h => ?_, fun v h => ?_⟩
  all_goals
    simp only [resetPreferred] at h
    split at h
    · cases h
    · exact h

omit [Inhabited Key] in
theorem ValidatorList.keepPreferred_eq_some {l : ValidatorList Key} {preferred : Option Key} {v : Key}
    (h : l.keepPreferred preferred = some v) : preferred = some v :=
  (Option.filter_eq_some_iff.1 h).1

omit [Inhabited Key] in
theorem WithdrawPlan.stakePool_kept (plan : WithdrawPlan Key) (p : StakePool Key) :
    PreferredKept p (plan.stakePool p) := by
  unfold stakePool
  split
  · exact p.resetPreferred_kept _
  · exact .refl p

omit [Inhabited Key] in
/-- What each handler may have changed. -/
theorem Executed.permitted (h : Executed rt w w' accounts i out) : Permitted accounts w w' := by
  have hstat := h.statics
  have hvotes : Signed accounts w.stakePool.staker ∨ w'.votes ⊆ w.votes := by
    cases h.votes with
    | kept h => exact .inr h.subset
    | pushed hs => exact .inl hs
  -- a handler that keeps the manager's and the staker's fields
  have kept : ManagerKept w.stakePool w'.stakePool → w'.stakePool.staker = w.stakePool.staker →
      PreferredKept w.stakePool w'.stakePool → Permitted accounts w w' :=
    fun hm hs hp => ⟨.inr hm, .inr (.inr hs), hvotes, .inr hp, hstat⟩
  cases h with
  | add _ _ h | decrease _ h | increase _ h | updateList _ _ h | depositStake _ h | depositSol _ h
  | withdrawSol h =>
    have hp := congrArg World.stakePool h.result
    refine kept ?_ ?_ ?_
    · rw [hp]; constructor <;> first | rfl | exact .inl rfl
    · rw [hp]
    · rw [hp]; exact ⟨fun _ => id, fun _ => id⟩
  | remove _ h =>
    have hp := congrArg World.stakePool h.result
    refine kept ?_ ?_ ?_
    · rw [hp]; constructor <;> first | rfl | exact .inl rfl
    · rw [hp]; rfl
    · rw [hp]; exact StakePool.resetPreferred_kept _ _
  | updatePool _ h =>
    have hp := congrArg World.stakePool h.result
    have hk := w.stakePool.updateEpoch_managerKept w.sysvars.epoch
    refine kept ?_ ?_ ?_
    · rw [hp]
      exact ⟨hk.1, hk.2, hk.3, hk.4, hk.5, hk.6, hk.7, hk.8, hk.9, hk.10, hk.11, hk.12, hk.13⟩
    · rw [hp]
      simp only [StakePool.updateEpoch]
      split <;> rfl
    · rw [hp]
      simp only [StakePool.updateEpoch]
      split <;> exact ⟨fun _ => id, fun _ => id⟩
  | @withdrawStake a tokens minimum fee decimals n plan acc₁ acc₂ acc₃ h =>
    have hp := congrArg World.stakePool h.result
    have hk := plan.stakePool_kept w.stakePool
    obtain ⟨d, x, he⟩ := WithdrawStakeAccounts.stakePool_eq plan w.stakePool
    rw [he] at hp hk
    refine kept ?_ ?_ ?_
    · rw [hp]; constructor <;> first | rfl | exact .inl rfl
    · rw [hp]
    · rw [hp]; exact ⟨hk.deposit, hk.withdraw⟩
  | cleanup hl h =>
    have hp := congrArg World.stakePool h
    refine kept ?_ ?_ ?_
    · rw [hp]
      dsimp only
      split
      · constructor <;> first | rfl | exact .inl rfl
      · exact .refl _
    · rw [hp]; dsimp only; split <;> rfl
    · rw [hp]
      dsimp only
      split
      · exact ⟨fun _ => ValidatorList.keepPreferred_eq_some, fun _ => ValidatorList.keepPreferred_eq_some⟩
      · exact .refl _
  | @setPreferred validatorType _ hs _ h =>
    refine ⟨.inr ?_, .inr (.inr ?_), .inl hs, .inl hs, hstat⟩
    · subst h
      cases validatorType <;> constructor <;> first | rfl | exact .inl rfl
    · subst h
      cases validatorType <;> rfl
  | @setFee fee _ _ hs _ _ hp h =>
    have hst : w'.stakePool.staker = w.stakePool.staker ∧ PreferredKept w.stakePool w'.stakePool := by
      subst h
      cases fee with
      | stakeWithdrawal | solWithdrawal =>
        simp only [StakePool.updateFee, bind_eq_ok, exists_unit, pure_eq_ok] at hp
        obtain ⟨-, rfl⟩ := hp
        exact ⟨rfl, fun _ => id, fun _ => id⟩
      | _ => cases hp; exact ⟨rfl, fun _ => id, fun _ => id⟩
    exact ⟨.inl hs, .inr (.inr hst.1), hvotes, .inr hst.2, hstat⟩
  | manage hm hs h =>
    have hp := congrArg World.stakePool h
    refine ⟨hm.imp_right ?_, ?_, hvotes, .inr ?_, hstat⟩
    · rintro ⟨h₁, h₂, h₃, h₄, h₅, h₆⟩
      rw [hp]
      constructor <;> first | assumption | rfl | exact .inl rfl
    · rcases hs with hs | hs | hs
      · exact .inr (.inr (by rw [hp]; exact hs))
      · exact .inl hs
      · exact .inr (.inl hs)
    · rw [hp]; exact ⟨fun _ => id, fun _ => id⟩
  | createMetadata _ _ _ _ h | updateMetadata _ h =>
    subst h
    exact kept (.refl _) rfl (.refl _)

/-- The instructions that move stake of the pool into a transient account. -/
def StakePoolInstruction.movesStake : StakePoolInstruction Key → Bool
  | .increaseValidatorStake _ _ | .increaseAdditionalValidatorStake _ _ _ | .decreaseValidatorStake _ _
  | .decreaseValidatorStakeWithReserve _ _ | .decreaseAdditionalValidatorStake _ _ _ => true
  | _ => false

/-- Who has signed a successful instruction on an initialized pool. -/
structure AccessControlled (accounts : List (AccountInfo Key)) (i : StakePoolInstruction Key)
    (w w' : World Key) : Prop extends Permitted accounts w w' where
  removal : i = .removeValidatorFromPool → Signed accounts w.stakePool.staker
  transfer : i.movesStake → Signed accounts w.stakePool.staker
  depositSol : (∃ n, i = .depositSol n) ∨ (∃ n m, i = .depositSolWithSlippage n m) →
    ∀ k, w.stakePool.solDepositAuthority = some k → Signed accounts k
  withdrawSol : (∃ n, i = .withdrawSol n) ∨ (∃ n m, i = .withdrawSolWithSlippage n m) →
    ∀ k, w.stakePool.solWithdrawAuthority = some k → Signed accounts k

/-- For every state, instruction and list of accounts: the instruction initializes the pool, or nothing
has changed that its owner has not signed for. Without the staker, a transient account receives lamports only
from a withdrawal that pays out to it. -/
theorem access_control (hl : rt.Lawful) (h : process rt w accounts i = .ok w') :
    (i.isInitialize ∧ w.stakePool.isUninitialized ∨ AccessControlled accounts i w w') ∧
    ((poolSystem rt).Reachable w → ∀ v, rt.transientStake v ≠ w.stakePool.reserveStake) ∧
    ∀ v, rt.transientStake v ≠ w.stakePool.reserveStake →
      (w.accounts (rt.transientStake v)).lamports < (w'.accounts (rt.transientStake v)).lamports →
      Signed accounts w.stakePool.staker ∨ i.recipient rt accounts = some (rt.transientStake v) := by
  refine ⟨?_, fun hr v he => (Inv.of_reach hl hr).core.reserve_pda (he ▸ .transient v), fun v hv hlt => ?_⟩
  · by_cases hi : i.isInitialize
    · refine .inl ⟨hi, ?_⟩
      cases i with
      | initializePool =>
        obtain ⟨_, _, _, _, h⟩ := processInitialize_ok hl h
        exact h.uninitialized
      | _ => cases hi
    · refine .inr ⟨(process_executed hi h).permitted, ?_, ?_, ?_, ?_⟩
      · rintro rfl
        exact processRemoveValidatorFromPool_signed h
      · intro hm
        cases i with
        | increaseValidatorStake | increaseAdditionalValidatorStake =>
          exact processIncreaseValidatorStake_signed h
        | decreaseValidatorStake | decreaseValidatorStakeWithReserve | decreaseAdditionalValidatorStake =>
          exact processDecreaseValidatorStake_signed h
        | _ => cases hm
      · rintro (⟨n, rfl⟩ | ⟨n, m, rfl⟩)
        · exact processDepositSol_signed h
        · exact processDepositSol_signed h
      · rintro (⟨n, rfl⟩ | ⟨n, m, rfl⟩)
        · exact processWithdrawSol_signed h
        · exact processWithdrawSol_signed h
  · by_cases hi : i.isInitialize
    · -- tokens are minted at most
      cases i with
      | initializePool =>
        obtain ⟨_, _, _, _, h⟩ := processInitialize_ok hl h
        refine absurd ?_ (Nat.not_le_of_lt hlt)
        rcases h.mintTo with ⟨-, h⟩ | ⟨-, h⟩
        · exact tokenMintTo_pays (P := fun _ => False) hl h _ id
        · rw [h]
      | _ => cases hi
    · refine ((process_executed hi h).pays hl).imp_right fun hpays => ?_
      have hpayee : Payee rt w (i.recipient rt accounts) (rt.transientStake v) :=
        not_not.1 fun hk => absurd (hpays _ hk) (Nat.not_le_of_lt hlt)
      exact (hpayee.transientStake hl).resolve_left hv

section
open Reference

theorem access_control_retired : ∃ accounts,
    removeValidator vote = .instruction accounts .removeValidatorFromPool ∧
      Signed accounts joined.stakePool.staker ∧ Statics joined retired := by
  refine ⟨_, rfl, ?_⟩
  obtain ⟨h | h, -⟩ := access_control lawful (next_process (by decide +kernel) :
    process runtime joined _ .removeValidatorFromPool = .ok retired)
  · exact absurd h.1 (by decide)
  · exact ⟨h.removal rfl, h.statics⟩

/-- A withdrawal that the staker has not signed pays lamports of the reserve into a transient account. -/
theorem access_control_paid_out : ∃ accounts w', (poolSystem runtime).Reachable staked ∧
    process runtime staked accounts (.withdrawSol 400000) = .ok w' ∧
    ¬ Signed accounts staked.stakePool.staker ∧
    ∃ v ∈ staked.validatorList.validators, 0 < v.transientStakeLamports ∧
      (w'.accounts staked.stakePool.reserveStake).lamports + 400000 =
        (staked.accounts staked.stakePool.reserveStake).lamports ∧
      (w'.accounts (runtime.transientStake v)).lamports =
        (staked.accounts (runtime.transientStake v)).lamports + 400000 := by
  let accounts := [poolInfo, authorityInfo, signer user, tokensInfo, reserveInfo, writable (transientStake vote 7),
    feeInfo, mintInfo, clock, unused, stakeInfo, tokenInfo]
  have hunsigned : ¬ ∃ info ∈ accounts, info.key = staked.stakePool.staker ∧ info.isSigner := by decide +kernel
  exact ⟨accounts, next staked (.instruction accounts (.withdrawSol 400000)),
    reachable_after (initialized_opened (by decide +kernel)) (by decide +kernel), next_process (by decide +kernel),
    hunsigned, staked.validatorList.validators.head (by decide +kernel), List.head_mem _, by decide +kernel,
    by decide +kernel, by decide +kernel⟩

end

end SplStakePool
