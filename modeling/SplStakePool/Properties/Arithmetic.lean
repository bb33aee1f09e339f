import SplStakePool.Properties.TokenSupply

/-!
# Arithmetic of backed pools

While a token is backed by at least a lamport, and there are fewer than 2^63 lamports, no product of the
pool's formulas leaves 128 bits, no quotient leaves 64, and no fee exceeds what it is taken of. A product
has two 64-bit factors, so what carries the proofs is that a quotient by the total (or by the supply) is no
more than the other factor: tokens for lamports are at most as many, lamports for tokens at most the total.
`Deposits` and `Withdraws` say what the handlers need of the formulas, one after the other.
-/

namespace SplStakePool
open Exec Machine ShareVault

variable {Key : Type} {p : StakePool Key} {n d : Nat}

/-- Two 64-bit factors and a 64-bit summand fit into 128 bits. -/
theorem mul_add_lt {a b c : Nat} (ha : a < 2 ^ 64) (hb : b < 2 ^ 64) (hc : c < 2 ^ 64) :
    a * b + c < 2 ^ 128 := by
  have : a * b ≤ (2 ^ 64 - 1) * (2 ^ 64 - 1) := Nat.mul_le_mul (by omega) (by omega)
  omega

theorem Fee.apply_eq_some (fee : Fee) (hn : n < 2 ^ 64) : ∃ t, fee.apply n = some t := by
  simp only [apply]
  split
  · exact ⟨0, rfl⟩
  · rename_i hd
    have hd : fee.denominator.toNat ≠ 0 := fun h => hd (UInt64.toNat_inj.1 h)
    have hlt := mul_add_lt hn fee.numerator.toNat_lt fee.denominator.toNat_lt
    refine ⟨(n * fee.numerator.toNat + fee.denominator.toNat - 1) / fee.denominator.toNat, ?_⟩
    simp only [Option.bind_eq_bind, checkedMul_of_lt (Nat.lt_of_le_of_lt (Nat.le_add_right _ _) hlt),
      Option.bind_some, checkedAdd_of_lt hlt,
      checkedSub_of_le (show 1 ≤ n * fee.numerator.toNat + fee.denominator.toNat by omega)]
    exact checkedDiv_eq_some.2 ⟨hd, rfl⟩

/-- A fee of at most one is there, and at most the amount. -/
theorem calcPoolTokensFee_eq_some {fee : Fee} (hfee : fee.atMostOne) (hn : n < 2 ^ 64) :
    ∃ t, StakePool.calcPoolTokensFee fee n = some t ∧ t ≤ n := by
  obtain ⟨t, ht⟩ := fee.apply_eq_some hn
  have hle := Fee.apply_le hfee ht
  refine ⟨t, ?_, hle⟩
  simp only [StakePool.calcPoolTokensFee, Option.bind_eq_bind, ht, Option.bind_some]
  exact tryFrom_of_lt (by omega)

theorem calcReferralFee_eq_some {pct : UInt8} (hp : pct ≤ 100) (hn : n < 2 ^ 64) :
    ∃ t, StakePool.calcReferralFee pct n = some t ∧ t ≤ n := by
  have hp : pct.toNat ≤ 100 := hp
  have hmul : n * pct.toNat ≤ n * 100 := Nat.mul_le_mul_left _ hp
  have hle : n * pct.toNat / 100 ≤ n := Nat.div_le_of_le_mul (by omega)
  refine ⟨_, ?_, hle⟩
  simp only [StakePool.calcReferralFee, Option.bind_eq_bind,
    checkedMul_of_lt (show n * pct.toNat < 2 ^ 128 by omega), Option.bind_some,
    checkedDiv_eq_some.2 ⟨show 100 ≠ 0 by decide, rfl⟩]
  exact tryFrom_of_lt (by omega)

/-- Tokens for lamports: at most as many, and more for more lamports. -/
theorem StakePool.calcPoolTokensForDeposit_eq_some (hb : Backed p.vault)
    (hd : p.totalLamports + d < 2 ^ 63) : ∃ t, p.calcPoolTokensForDeposit d = some t ∧ t ≤ d ∧
      ∀ d' ≤ d, ∃ t', p.calcPoolTokensForDeposit d' = some t' ∧ t' ≤ t := by
  have hS : p.poolTokenSupply ≤ p.totalLamports := hb
  by_cases h0 : p.totalLamports = 0 ∨ p.poolTokenSupply = 0
  · simp only [calcPoolTokensForDeposit, if_pos h0]
    exact ⟨d, rfl, le_rfl, fun d' hd' => ⟨d', rfl, hd'⟩⟩
  · have hT : p.totalLamports ≠ 0 := fun h => h0 (.inl h)
    -- all of it is the same division
    have value : ∀ x ≤ d, p.calcPoolTokensForDeposit x = some (x * p.poolTokenSupply / p.totalLamports) ∧
        x * p.poolTokenSupply / p.totalLamports ≤ x := by
      intro x hx
      have hlt := mul_add_lt (show x < 2 ^ 64 by omega) (show p.poolTokenSupply < 2 ^ 64 by omega)
        (show 0 < 2 ^ 64 by decide)
      have hle : x * p.poolTokenSupply / p.totalLamports ≤ x :=
        Nat.div_le_of_le_mul (by rw [Nat.mul_comm p.totalLamports]; exact Nat.mul_le_mul_left _ hS)
      refine ⟨?_, hle⟩
      simp only [calcPoolTokensForDeposit, if_neg h0, Option.bind_eq_bind, checkedMul_of_lt hlt,
        Option.bind_some, checkedDiv_eq_some.2 ⟨hT, rfl⟩]
      exact tryFrom_of_lt (by omega)
    obtain ⟨ht, hle⟩ := value d le_rfl
    exact ⟨_, ht, hle, fun d' hd' => ⟨_, (value d' hd').1,
      Nat.div_le_div_right (Nat.mul_le_mul_right _ hd')⟩⟩

theorem StakePool.calcLamportsWithdrawAmount_eq_some (hb : Backed p.vault)
    (hT : p.totalLamports < 2 ^ 63) (hn : n ≤ p.poolTokenSupply) :
    ∃ l, p.calcLamportsWithdrawAmount n = some l ∧ l ≤ p.totalLamports := by
  have hS : p.poolTokenSupply ≤ p.totalLamports := hb
  have hlt := mul_add_lt (show n < 2 ^ 64 by omega) (show p.totalLamports < 2 ^ 64 by omega)
    (show 0 < 2 ^ 64 by decide)
  simp only [calcLamportsWithdrawAmount, Option.bind_eq_bind, checkedMul_of_lt hlt, Option.bind_some]
  split
  · exact ⟨0, rfl, Nat.zero_le _⟩
  · rename_i h0
    have hne : p.poolTokenSupply ≠ 0 := fun h => h0 (.inr h)
    have hle : n * p.totalLamports / p.poolTokenSupply ≤ p.totalLamports :=
      Nat.div_le_of_le_mul (Nat.mul_le_mul_right _ hn)
    refine ⟨_, ?_, hle⟩
    simp only [checkedDiv_eq_some.2 ⟨hne, rfl⟩, Option.bind_some]
    exact tryFrom_of_lt (by omega)

theorem StakePool.calcEpochFeeAmount_eq_some (hb : Backed p.vault) (hfee : p.epochFee.atMostOne)
    (hd : p.totalLamports + d < 2 ^ 63) : ∃ t, p.calcEpochFeeAmount d = some t := by
  have hS : p.poolTokenSupply ≤ p.totalLamports := hb
  simp only [calcEpochFeeAmount]
  split
  · exact ⟨0, rfl⟩
  obtain ⟨fee, hf⟩ := p.epochFee.apply_eq_some (show d < 2 ^ 64 by omega)
  have hle := Fee.apply_le hfee hf
  simp only [Option.bind_eq_bind, checkedAdd_of_lt (show p.totalLamports + d < 2 ^ 128 by omega),
    Option.bind_some, hf]
  split
  · exact ⟨d, rfl⟩
  · rename_i h0
    rw [not_or] at h0
    have hlt := mul_add_lt (show p.poolTokenSupply < 2 ^ 64 by omega) (show fee < 2 ^ 64 by omega)
      (show 0 < 2 ^ 64 by decide)
    -- the price net of the fee is still at least a lamport
    have hq : p.poolTokenSupply * fee / (p.totalLamports + d - fee) ≤ fee :=
      Nat.div_le_of_le_mul (Nat.mul_le_mul_right _ (by omega))
    refine ⟨p.poolTokenSupply * fee / (p.totalLamports + d - fee), ?_⟩
    simp only [checkedMul_of_lt hlt, Option.bind_some, checkedSub_of_le (show fee ≤ p.totalLamports + d by omega),
      checkedDiv_eq_some.2 ⟨show p.totalLamports + d - fee ≠ 0 by omega, rfl⟩]
    exact tryFrom_of_lt (by omega)

theorem StakePool.getLamportsPerPoolToken_eq_none (hb : Backed p.vault) (hT : p.totalLamports < 2 ^ 63)
    (h : p.getLamportsPerPoolToken = none) : p.poolTokenSupply = 0 := by
  by_contra h0
  have hS : p.poolTokenSupply ≤ p.totalLamports := hb
  simp only [getLamportsPerPoolToken, Option.bind_eq_bind,
    checkedAdd_of_lt (show p.totalLamports + p.poolTokenSupply < 2 ^ 64 by omega), Option.bind_some,
    checkedSub_of_le (show 1 ≤ p.totalLamports + p.poolTokenSupply by omega),
    checkedDiv_eq_some.2 ⟨h0, rfl⟩] at h
  cases h

/-! ## Handlers -/

/-- The parts of the tokens add up, so the checks before minting do not fail. -/
theorem DepositTokens.split_isSome {totalFee referralFee : Nat} (hn : n < 2 ^ 64) (ht : totalFee ≤ n)
    (hr : referralFee ≤ totalFee) : ∃ t, split n totalFee referralFee = some t ∧ t.newPoolTokens = n ∧
      saturatingAdd 64 (saturatingAdd 64 t.user t.managerFee) t.referralFee = t.newPoolTokens := by
  refine ⟨⟨n, n - totalFee, totalFee - referralFee, referralFee⟩, ?_, rfl, ?_⟩
  · simp only [split, checkedSub_of_le ht, checkedSub_of_le hr, Option.bind_eq_bind, Option.bind_some]
    rfl
  · simp only [saturatingAdd, maxValue]
    omega

theorem StakePool.addDeposit_isSome (hb : Backed p.vault) (hd : p.totalLamports + d < 2 ^ 63)
    (hn : n ≤ d) : (p.addDeposit n d).isSome := by
  have hS : p.poolTokenSupply ≤ p.totalLamports := hb
  simp only [addDeposit, checkedAdd_of_lt (show p.poolTokenSupply + n < 2 ^ 64 by omega),
    checkedAdd_of_lt (show p.totalLamports + d < 2 ^ 64 by omega), Option.bind_eq_bind, Option.bind_some,
    Option.pure_def, Option.isSome_some]

/-- What a handler needs of the tokens of a deposit of `d` lamports. -/
structure Deposits (p : StakePool Key) (d : Nat) (t : DepositTokens) : Prop where
  issued : p.calcPoolTokensForDeposit d = some t.newPoolTokens
  parts : saturatingAdd 64 (saturatingAdd 64 t.user t.managerFee) t.referralFee = t.newPoolTokens
  counted : (p.addDeposit t.newPoolTokens d).isSome

theorem StakePool.solDepositTokens_isSome (hb : Backed p.vault) (hf : FeesOk p)
    (hd : p.totalLamports + d < 2 ^ 63) : ∃ t, p.solDepositTokens d = some t ∧ Deposits p d t := by
  obtain ⟨n, hn, hle, -⟩ := calcPoolTokensForDeposit_eq_some hb hd
  obtain ⟨fee, hfee, hfle⟩ := calcPoolTokensFee_eq_some hf.solDepositFee (show n < 2 ^ 64 by omega)
  obtain ⟨ref, href, hrle⟩ := calcReferralFee_eq_some hf.solReferralFee (show fee < 2 ^ 64 by omega)
  obtain ⟨t, ht, rfl, hparts⟩ := DepositTokens.split_isSome (show n < 2 ^ 64 by omega) hfle hrle
  refine ⟨t, ?_, hn, hparts, addDeposit_isSome hb hd hle⟩
  simp only [solDepositTokens, calcPoolTokensSolDepositFee, calcPoolTokensSolReferralFee,
    Option.bind_eq_bind, hn, hfee, href, Option.bind_some, ht]

theorem StakePool.stakeDepositTokens_isSome (hb : Backed p.vault) (hf : FeesOk p)
    (hd : p.totalLamports + d < 2 ^ 63) {stake : Nat} (hs : stake ≤ d) :
    ∃ t, p.stakeDepositTokens d stake = some t ∧ Deposits p d t := by
  obtain ⟨n, hn, hle, hmono⟩ := calcPoolTokensForDeposit_eq_some hb hd
  obtain ⟨m, hm, hmle⟩ := hmono stake hs
  obtain ⟨fee, hfee, hfle⟩ := calcPoolTokensFee_eq_some hf.stakeDepositFee (show m < 2 ^ 64 by omega)
  obtain ⟨fee', hfee', hfle'⟩ := calcPoolTokensFee_eq_some hf.solDepositFee (show n - m < 2 ^ 64 by omega)
  obtain ⟨ref, href, hrle⟩ := calcReferralFee_eq_some hf.stakeReferralFee (show fee + fee' < 2 ^ 64 by omega)
  obtain ⟨t, ht, rfl, hparts⟩ := DepositTokens.split_isSome (show n < 2 ^ 64 by omega)
    (show fee + fee' ≤ n by omega) hrle
  refine ⟨t, ?_, hn, hparts, addDeposit_isSome hb hd hle⟩
  simp only [stakeDepositTokens, calcPoolTokensStakeDepositFee, calcPoolTokensSolDepositFee,
    calcPoolTokensStakeReferralFee, Option.bind_eq_bind, hn, hm, checkedSub_of_le hmle, hfee, hfee',
    checkedAdd_of_lt (show fee + fee' < 2 ^ 64 by omega), href, Option.bind_some, ht]

/-- What a handler needs of the withdrawal of `n` tokens with a fee. -/
def Withdraws (p : StakePool Key) (calcFee : Nat → Option Nat) (n : Nat) : Prop :=
  ∃ fee l, calcFee n = some fee ∧ fee ≤ n ∧ p.calcLamportsWithdrawAmount (n - fee) = some l ∧
    (p.subWithdrawal (n - fee) l).isSome

theorem StakePool.withdraws (hb : Backed p.vault) (hT : p.totalLamports < 2 ^ 63) {fee : Fee}
    (hf : fee.atMostOne) (hn : n ≤ p.poolTokenSupply) : Withdraws p (calcPoolTokensFee fee) n := by
  have hS : p.poolTokenSupply ≤ p.totalLamports := hb
  obtain ⟨t, ht, hle⟩ := calcPoolTokensFee_eq_some hf (show n < 2 ^ 64 by omega)
  obtain ⟨l, hl, hlT⟩ := calcLamportsWithdrawAmount_eq_some hb hT (show n - t ≤ p.poolTokenSupply by omega)
  refine ⟨t, l, ht, hle, hl, ?_⟩
  simp only [subWithdrawal, checkedSub_of_le (show n - t ≤ p.poolTokenSupply by omega),
    checkedSub_of_le hlT, Option.bind_eq_bind, Option.bind_some, Option.pure_def, Option.isSome_some]

theorem StakePool.withdraws_free (hb : Backed p.vault) (hT : p.totalLamports < 2 ^ 63)
    (hn : n ≤ p.poolTokenSupply) : Withdraws p (fun _ => some 0) n := by
  obtain ⟨fee, l, h₁, h⟩ := withdraws hb hT (show (⟨0, 0⟩ : Fee).atMostOne from rfl) hn
  have h₁ : some 0 = some fee := h₁
  cases h₁
  exact ⟨0, l, rfl, h⟩

end SplStakePool
