import SplStakePool.Instruction
import SplStakePool.Lib.ShareVault
import SplStakePool.Runtime.Session
import SplStakePool.Spec.Deposit
import SplStakePool.Spec.UpdatePool
import SplStakePool.Spec.Withdraw

/-!
# The price of a pool token

The pool is a vault of lamports against pool tokens: every deposit, withdrawal and fee is one of the
moves of a vault, none of which lowers the price of a share.

Each handler is a move because of the inequality that its specification has for the numbers, so that no rounding is
looked at here. An update is a move when it does not find a loss: its gain is the reward, and the tokens that
holders have burnt since are gone before the fee is minted.
-/

namespace SplStakePool
open Exec Machine ShareVault

variable {Key : Type} {minimum : Option Nat}

/-- The lamports of the pool against its tokens. -/
def StakePool.vault (p : StakePool Key) : Vault := ⟨p.totalLamports, p.poolTokenSupply⟩

/-- The fees that the setters and `Initialize` admit. -/
structure StakePool.FeesAdmitted (p : StakePool Key) : Prop where
  epochFee : p.epochFee.atMostOne
  stakeDepositFee : p.stakeDepositFee.atMostOne
  solDepositFee : p.solDepositFee.atMostOne
  stakeWithdrawalFee : p.stakeWithdrawalFee.atMostOne
  solWithdrawalFee : p.solWithdrawalFee.atMostOne
  stakeReferralFee : p.stakeReferralFee ≤ 100
  solReferralFee : p.solReferralFee ≤ 100

/-- Deposits and withdrawals. -/
def StakePoolInstruction.isExchange : StakePoolInstruction Key → Bool
  | .depositSol _ | .depositSolWithSlippage _ _ | .depositStake | .depositStakeWithSlippage _
  | .withdrawSol _ | .withdrawSolWithSlippage _ _ | .withdrawStake _ | .withdrawStakeWithSlippage _ _ =>
    true
  | _ => false

theorem StakePool.vault_enter {p : StakePool Key} {n t : Nat} (h : p.calcPoolTokensForDeposit n = some t)
    (hT : 0 < p.totalLamports) (hS : 0 < p.poolTokenSupply) :
    Move p.vault ⟨p.totalLamports + n, p.poolTokenSupply + t⟩ :=
  .enter ((calcPoolTokensForDeposit_le h).2 (by omega) (by omega))

variable [DecidableEq Key] {rt : Runtime Key} {w w' : World Key} {accounts : List (AccountInfo Key)}

theorem DepositSolAccounts.Ok.move {a : DepositSolAccounts Key} {n : Nat} {t : DepositTokens}
    {acc₁ : Accounts Key} (h : a.Ok rt w w' n minimum t acc₁) (hT : 0 < w.stakePool.totalLamports)
    (hS : 0 < w.stakePool.poolTokenSupply) : Move w.stakePool.vault w'.stakePool.vault := by
  rw [h.result]
  exact StakePool.vault_enter (StakePool.solDepositTokens_eq_some h.tokens).1 hT hS

theorem DepositStakeAccounts.Ok.move {a : DepositStakeAccounts Key} {s : Stake Key}
    {v : ValidatorStakeInfo Key} {t : DepositTokens} {acc₁ acc₂ acc₃ : Accounts Key} {total stake : Nat}
    (h : a.Ok rt w w' minimum s v t acc₁ acc₂ acc₃ total stake) (hT : 0 < w.stakePool.totalLamports)
    (hS : 0 < w.stakePool.poolTokenSupply) : Move w.stakePool.vault w'.stakePool.vault := by
  rw [h.result]
  exact StakePool.vault_enter (StakePool.stakeDepositTokens_eq_some h.tokens).1 hT hS

theorem WithdrawSolAccounts.Ok.move {a : WithdrawSolAccounts Key} {tokens fee decimals n : Nat}
    {acc₁ acc₂ : Accounts Key} (h : a.Ok rt w w' tokens minimum fee decimals n acc₁ acc₂) :
    Move w.stakePool.vault w'.stakePool.vault := by
  rw [h.result]
  exact .leave h.lamports.share h.lamports_le h.burnt_le

theorem WithdrawStakeAccounts.Ok.move {a : WithdrawStakeAccounts Key} {tokens fee decimals n : Nat}
    {plan : WithdrawPlan Key} {acc₁ acc₂ acc₃ : Accounts Key}
    (h : a.Ok rt w w' tokens minimum fee decimals n plan acc₁ acc₂ acc₃) :
    Move w.stakePool.vault w'.stakePool.vault := by
  rw [h.result]
  refine .leave ?_ h.lamports_le h.burnt_le
  calc plan.withdrawLamports * w.stakePool.poolTokenSupply
      ≤ n * w.stakePool.poolTokenSupply := Nat.mul_le_mul_right _ h.planned.le
    _ ≤ (tokens - fee) * w.stakePool.totalLamports := h.lamports.share

/-- The fee on a reward converts part of it to tokens, at the price net of the fee. -/
theorem StakePool.epochFeeToMint_le {p : StakePool Key} {acc : Accounts Key} {info : AccountInfo Key}
    {reward t : Nat} (hfee : p.epochFee.atMostOne) (hT : 0 < p.totalLamports)
    (hS : 0 < p.poolTokenSupply) (h : p.epochFeeToMint rt acc info reward = .ok t) :
    ∃ fee, fee ≤ reward ∧ t * (p.totalLamports + reward - fee) ≤ p.poolTokenSupply * fee := by
  simp only [epochFeeToMint] at h
  split at h
  · rcases calcEpochFeeAmount_le (orErr_eq_ok.1 h) with ⟨-, rfl⟩ | ⟨fee, hf, h⟩
    · exact ⟨0, Nat.zero_le _, by simp⟩
    have hle := Fee.apply_le hfee hf
    rcases h with ⟨h, -⟩ | ⟨-, -, rfl⟩
    · omega
    · exact ⟨fee, hle, Nat.div_mul_le_self _ _⟩
  · cases h
    exact ⟨0, Nat.zero_le _, by simp⟩

theorem UpdateStakePoolBalanceAccounts.Ok.supply {a : UpdateStakePoolBalanceAccounts Key} {m : Meta Key}
    {fee : Nat} {mint : Mint Key} (h : a.Ok rt w w' m fee mint) (hl : rt.Lawful) :
    ∃ mint₀, (w.accounts w.stakePool.poolMint).data = .mint mint₀ ∧ mint.supply = mint₀.supply + fee := by
  have hm := h.mint_eq
  rw [h.mintKey] at hm
  rcases h.mintTo with ⟨-, hmint⟩ | ⟨rfl, he⟩
  · obtain ⟨hne, mint₀, t, hd, -, -, -, -, he⟩ := tokenMintTo_ok hl hmint
    rw [h.mintKey] at hne hd he
    rw [he, Function.update_of_ne hne, Function.update_self, AccountData.mint.injEq] at hm
    exact ⟨mint₀, hd, by rw [← hm]⟩
  · rw [← he] at hm
    exact ⟨mint, hm, rfl⟩

theorem UpdateStakePoolBalanceAccounts.Ok.move {a : UpdateStakePoolBalanceAccounts Key} {m : Meta Key}
    {fee : Nat} {mint : Mint Key} (h : a.Ok rt w w' m fee mint) (hl : rt.Lawful)
    (hfee : w.stakePool.epochFee.atMostOne) (hT : 0 < w.stakePool.totalLamports)
    (hS : 0 < w.stakePool.poolTokenSupply)
    (hle : w.stakePool.totalLamports ≤ w'.stakePool.totalLamports)
    (hm : ∀ m, (w.accounts w.stakePool.poolMint).data = .mint m →
      m.supply ≤ w.stakePool.poolTokenSupply) :
    Move w.stakePool.vault w'.stakePool.vault := by
  obtain ⟨mint₀, hd, hs⟩ := h.supply hl
  obtain ⟨feeLamports, hf, hshares⟩ := StakePool.epochFeeToMint_le hfee hT hS h.fee_eq
  have hv : w'.stakePool.vault = ⟨w.stakePool.totalLamports +
      (w'.stakePool.totalLamports - w.stakePool.totalLamports), mint₀.supply + fee⟩ := by
    have hS' : w'.stakePool.poolTokenSupply = mint.supply := by rw [h.result]
    rw [StakePool.vault, hS', hs, Nat.add_sub_cancel' hle]
  rw [hv]
  exact .gain hf (hm _ hd) hshares

variable [Inhabited Key]

theorem exchange_move {i : StakePoolInstruction Key} (hi : i.isExchange)
    (h : process rt w accounts i = .ok w') (hT : 0 < w.stakePool.totalLamports)
    (hS : 0 < w.stakePool.poolTokenSupply) : Move w.stakePool.vault w'.stakePool.vault := by
  cases i with
  | depositSol | depositSolWithSlippage =>
    obtain ⟨a, -, -, t, acc₁, h⟩ := processDepositSol_ok h
    exact h.move hT hS
  | depositStake | depositStakeWithSlippage =>
    obtain ⟨a, -, -, s, v, t, acc₁, acc₂, acc₃, total, stake, h⟩ := processDepositStake_ok h
    exact h.move hT hS
  | withdrawSol | withdrawSolWithSlippage =>
    obtain ⟨a, -, -, fee, decimals, n, acc₁, acc₂, h⟩ := processWithdrawSol_ok h
    exact h.move
  | withdrawStake | withdrawStakeWithSlippage =>
    obtain ⟨a, -, -, fee, decimals, n, plan, acc₁, acc₂, acc₃, h⟩ := processWithdrawStake_ok h
    exact h.move
  | _ => cases hi

/-- No deposit, no withdrawal and no update that does not find a loss lowers the price of a token. -/
theorem share_price_never_decreases (hl : rt.Lawful) {i : StakePoolInstruction Key}
    (h : process rt w accounts i = .ok w') (hT : 0 < w.stakePool.totalLamports)
    (hS : 0 < w.stakePool.poolTokenSupply) (hf : w.stakePool.FeesAdmitted)
    (hi : i.isExchange ∨ i = .updateStakePoolBalance ∧
      w.stakePool.totalLamports ≤ w'.stakePool.totalLamports ∧
      ∀ m, (w.accounts w.stakePool.poolMint).data = .mint m → m.supply ≤ w.stakePool.poolTokenSupply) :
    w.stakePool.totalLamports * w'.stakePool.poolTokenSupply ≤
      w'.stakePool.totalLamports * w.stakePool.poolTokenSupply := by
  rcases hi with hi | ⟨rfl, hle, hm⟩
  · exact (exchange_move hi h hT hS).priceLe hT
  · obtain ⟨a, -, -, m, fee, mint, h⟩ := processUpdateStakePoolBalance_ok h
    exact (h.move hl hf.epochFee hT hS hle hm).priceLe hT

open Reference in
theorem share_price_never_decreases_endowed :
    endowed.stakePool.totalLamports < gainedPool.stakePool.totalLamports ∧
      endowed.stakePool.totalLamports * gainedPool.stakePool.poolTokenSupply ≤
        gainedPool.stakePool.totalLamports * endowed.stakePool.poolTokenSupply :=
  ⟨by decide +kernel, share_price_never_decreases lawful (next_process (by decide +kernel))
    (by decide +kernel) (by decide +kernel)
    ⟨by decide +kernel, by decide +kernel, by decide +kernel, by decide +kernel, by decide +kernel,
      by decide +kernel, by decide +kernel⟩
    (.inr ⟨rfl, by decide +kernel, fun m hm => by
      have hd : (endowed.accounts endowed.stakePool.poolMint).mint? =
        some ⟨some withdrawAuthority, 997717120, 9, none, []⟩ := by decide +kernel
      rw [Account.mint?_eq_some.2 hm] at hd
      cases hd
      decide +kernel⟩)⟩

end SplStakePool
