import SplStakePool.Invariant.Cpi

/-!
# What the instructions of the manager have done

One statement for each instruction: the field that is new, and that the rest of the world is as before. Metadata are
paid for by an account that has signed.
-/

namespace SplStakePool
open Exec Machine

variable {Key : Type} [DecidableEq Key] {rt : Runtime Key} {w w' : World Key}
  {accounts : List (AccountInfo Key)}

theorem liftError_eq_ok {α : Type} {x : Except StakePoolError α} {a : α} :
    liftError x = .ok a ↔ x = .ok a := by
  cases x <;> simp [liftError]

theorem processSetManager_ok (h : processSetManager rt w accounts = .ok w') :
    ∃ manager feeAccount, w' = { w with
      stakePool := { w.stakePool with manager := manager, managerFeeAccount := feeAccount } } := by
  simp only [processSetManager, SetManagerAccounts.process, bind_eq_ok, exists_unit, pure_eq_ok,
    World.readStakePool_eq_ok] at h
  obtain ⟨⟨a, rest⟩, -, -, p, ⟨-, rfl⟩, -, -, -, -, -, rfl⟩ := h
  exact ⟨_, _, rfl⟩

theorem ManagerAccounts.stakePool_eq_ok {a : ManagerAccounts Key} {p : StakePool Key}
    (h : a.stakePool rt w = .ok p) : p = w.stakePool := by
  simp only [stakePool, bind_eq_ok, exists_unit, pure_eq_ok, World.validStakePool_eq_ok] at h
  obtain ⟨_, ⟨-, -, rfl⟩, -, rfl⟩ := h
  rfl

/-- A successful `SetFee`: withdrawal and epoch fees are set on an up-to-date pool. -/
theorem processSetFee_ok {fee : FeeType} (h : processSetFee rt w accounts fee = .ok w') :
    (fee.canOnlyChangeNextEpoch → w.sysvars.epoch ≤ w.stakePool.lastUpdateEpoch) ∧
      fee.checkTooHigh = .ok () ∧
      ∃ p, w.stakePool.updateFee fee = .ok p ∧ w' = { w with stakePool := p } := by
  simp only [processSetFee, bind_eq_ok, exists_unit, pure_eq_ok, liftError_eq_ok, ensure_eq_ok] at h
  obtain ⟨⟨a, rest⟩, -, p, hp, hfresh, hc, p', hp', rfl⟩ := h
  obtain rfl := ManagerAccounts.stakePool_eq_ok hp
  exact ⟨fun h => Nat.le_of_not_lt fun hlt => hfresh ⟨h, hlt⟩, hc, p', hp', rfl⟩

theorem processSetMaxValidatorStake_ok {maxStake : Option Nat}
    (h : processSetMaxValidatorStake rt w accounts maxStake = .ok w') :
    w' = { w with stakePool := { w.stakePool with maxValidatorStake := maxStake } } := by
  simp only [processSetMaxValidatorStake, bind_eq_ok, pure_eq_ok] at h
  obtain ⟨⟨a, rest⟩, -, p, hp, rfl⟩ := h
  rw [ManagerAccounts.stakePool_eq_ok hp]

theorem processSetStaker_ok (h : processSetStaker rt w accounts = .ok w') :
    ∃ staker, w' = { w with stakePool := { w.stakePool with staker := staker } } := by
  simp only [processSetStaker, SetStakerAccounts.process, bind_eq_ok, exists_unit, pure_eq_ok,
    World.validStakePool_eq_ok] at h
  obtain ⟨⟨a, rest⟩, -, p, ⟨-, -, rfl⟩, -, rfl⟩ := h
  exact ⟨_, rfl⟩

theorem processSetFundingAuthority_ok {fundingType : FundingType}
    (h : processSetFundingAuthority rt w accounts fundingType = .ok w') :
    ∃ stakeDeposit solDeposit solWithdraw, w' = { w with stakePool := { w.stakePool with
      stakeDepositAuthority := stakeDeposit
      solDepositAuthority := solDeposit
      solWithdrawAuthority := solWithdraw } } := by
  simp only [processSetFundingAuthority, bind_eq_ok, pure_eq_ok] at h
  obtain ⟨⟨a, rest⟩, -, p, hp, rfl⟩ := h
  rw [ManagerAccounts.stakePool_eq_ok hp]
  cases fundingType <;> exact ⟨_, _, _, rfl⟩

/-- A successful `CreateTokenMetadata`: the payer, who has signed, pays for the metadata account. -/
theorem processCreatePoolTokenMetadata_ok {name symbol uri : String}
    (h : processCreatePoolTokenMetadata rt w accounts name symbol uri = .ok w') :
    ∃ mint auth payer metadata, ∃ a b : Account Key, payer ∈ accounts ∧ payer.isSigner ∧
      rt.systemProgramId = ownerOf rt w.accounts payer.key ∧
      metadata = (findMetadataAccount rt w.stakePool.poolMint).1 ∧
      rt.createMetadataAccountsV3 mint auth name symbol uri (w.accounts metadata)
        (w.accounts payer.key) = .ok (a, b) ∧
      w' = { w with accounts :=
        Function.update (Function.update w.accounts payer.key b) metadata a } := by
  simp only [processCreatePoolTokenMetadata, CreateTokenMetadataAccounts.process, bind_eq_ok,
    ensure_eq_ok, exists_unit, pure_eq_ok, World.validStakePool_eq_ok, checkMplMetadataAccountAddress,
    checkAccountOwner] at h
  obtain ⟨⟨a, rest⟩, hp, hs, -, ho, -, -, p, ⟨-, -, rfl⟩, -, -, -, -, hmd, ⟨b, c⟩, hc, rfl⟩ := h
  refine ⟨_, _, a.payerInfo, _, b, c, ?_, hs, ho, rfl, hmd ▸ hc, by rw [hmd]⟩
  simp only [CreateTokenMetadataAccounts.parse, nextAccountInfo_bind] at hp
  obtain ⟨_, _, rfl, _, _, rfl, _, _, rfl, _, _, rfl, _, _, rfl, _, _, rfl, _, _, rfl, _, _, rfl, hp⟩ := hp
  cases hp
  simp

theorem processUpdatePoolTokenMetadata_ok {name symbol uri : String}
    (h : processUpdatePoolTokenMetadata rt w accounts name symbol uri = .ok w') :
    ∃ auth metadata, ∃ a : Account Key,
      rt.updateMetadataAccountsV2 auth name symbol uri (w.accounts metadata) = .ok a ∧
      w' = { w with accounts := Function.update w.accounts metadata a } := by
  simp only [processUpdatePoolTokenMetadata, UpdateTokenMetadataAccounts.process, bind_eq_ok,
    exists_unit, pure_eq_ok, World.validStakePool_eq_ok] at h
  obtain ⟨⟨a, rest⟩, -, -, -, p, ⟨-, -, rfl⟩, -, -, -, b, hb, rfl⟩ := h
  exact ⟨_, _, b, hb, rfl⟩

end SplStakePool
