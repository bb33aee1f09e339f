import SplStakePool.Invariant.Cpi
import SplStakePool.Spec.AccountIter

/-!
# What a deposit that succeeds has done

For each handler of `Processor/Deposit.lean`: the checks that held, the calls that were made and the
world that is left.

The numbers are stated as the inequalities that the price needs: tokens for lamports are rounded down to the part of
the pool that comes in, and the parts that are minted add up to the tokens. What came in as stake is what the merge
has added to the delegation, which only a law of the stake program says.
-/

namespace SplStakePool
open Exec Machine

variable {Key : Type} {minimum : Option Nat}

/-- What the checks on a deposit's tokens establish. -/
structure DepositTokens.Checked (t : DepositTokens) (minimum : Option Nat) : Prop where
  user : t.user ≠ 0
  minimum : ∀ m, minimum = some m → m ≤ t.user

theorem DepositTokens.check_eq_ok {t : DepositTokens} (h : t.check minimum = .ok ()) :
    t.Checked minimum := by
  simp only [check, bind_eq_ok, ensure_eq_ok, exists_unit] at h
  obtain ⟨-, hu, hm⟩ := h
  refine ⟨hu, fun m he => ?_⟩
  subst he
  simpa using hm

theorem DepositTokens.split_eq_some {n totalFee referralFee : Nat} {t : DepositTokens}
    (h : split n totalFee referralFee = some t) :
    t.newPoolTokens = n ∧ t.user + t.managerFee + t.referralFee = n := by
  simp only [split, Option.bind_eq_bind, Option.bind_eq_some_iff, checkedSub_eq_some, Option.pure_def,
    Option.some.injEq] at h
  obtain ⟨u, ⟨hu, rfl⟩, f, ⟨hf, rfl⟩, rfl⟩ := h
  exact ⟨rfl, by dsimp only; omega⟩

theorem StakePool.calcPoolTokensForDeposit_floor {p : StakePool Key} {n t : Nat} (hT : p.totalLamports ≠ 0)
    (hS : p.poolTokenSupply ≠ 0) (h : p.calcPoolTokensForDeposit n = some t) :
    t = n * p.poolTokenSupply / p.totalLamports := by
  simp only [calcPoolTokensForDeposit, hT, hS, or_self, if_false, Option.bind_eq_bind,
    Option.bind_eq_some_iff, checkedMul_eq_some, checkedDiv_eq_some, tryFrom_eq_some] at h
  obtain ⟨_, ⟨-, rfl⟩, _, ⟨-, rfl⟩, -, rfl⟩ := h
  rfl

/-- The tokens issued for lamports are no more than their part of the pool. -/
theorem StakePool.calcPoolTokensForDeposit_le {p : StakePool Key} {n t : Nat}
    (h : p.calcPoolTokensForDeposit n = some t) :
    (p.totalLamports = 0 ∨ p.poolTokenSupply = 0 → t = n) ∧
      (p.totalLamports ≠ 0 → p.poolTokenSupply ≠ 0 → t * p.totalLamports ≤ n * p.poolTokenSupply) := by
  simp only [calcPoolTokensForDeposit] at h
  split at h
  · rename_i h0
    cases h
    exact ⟨fun _ => rfl, fun hT hS => by rcases h0 with h0 | h0 <;> contradiction⟩
  · rename_i h0
    simp only [Option.bind_eq_bind, Option.bind_eq_some_iff, checkedMul_eq_some, checkedDiv_eq_some,
      tryFrom_eq_some] at h
    obtain ⟨_, ⟨-, rfl⟩, _, ⟨-, rfl⟩, -, rfl⟩ := h
    exact ⟨fun h => absurd h h0, fun _ _ => Nat.div_mul_le_self _ _⟩

theorem StakePool.solDepositTokens_eq_some {p : StakePool Key} {n : Nat} {t : DepositTokens}
    (h : p.solDepositTokens n = some t) :
    p.calcPoolTokensForDeposit n = some t.newPoolTokens ∧
      t.user + t.managerFee + t.referralFee = t.newPoolTokens := by
  simp only [solDepositTokens, Option.bind_eq_bind, Option.bind_eq_some_iff] at h
  obtain ⟨new, hn, fee, -, ref, -, hs⟩ := h
  obtain ⟨rfl, he⟩ := DepositTokens.split_eq_some hs
  exact ⟨hn, he⟩

theorem StakePool.stakeDepositTokens_eq_some {p : StakePool Key} {n s : Nat} {t : DepositTokens}
    (h : p.stakeDepositTokens n s = some t) :
    p.calcPoolTokensForDeposit n = some t.newPoolTokens ∧
      t.user + t.managerFee + t.referralFee = t.newPoolTokens := by
  simp only [stakeDepositTokens, Option.bind_eq_bind, Option.bind_eq_some_iff] at h
  obtain ⟨new, hn, -, -, -, -, -, -, -, -, fee, -, ref, -, hs⟩ := h
  obtain ⟨rfl, he⟩ := DepositTokens.split_eq_some hs
  exact ⟨hn, he⟩

theorem StakePool.addDeposit_eq_some {p p' : StakePool Key} {tokens lamports : Nat}
    (h : p.addDeposit tokens lamports = some p') :
    p' = { p with
      poolTokenSupply := p.poolTokenSupply + tokens
      totalLamports := p.totalLamports + lamports } := by
  simp only [addDeposit, Option.bind_eq_bind, Option.bind_eq_some_iff, checkedAdd_eq_some,
    Option.pure_def, Option.some.injEq] at h
  obtain ⟨_, ⟨-, rfl⟩, _, ⟨-, rfl⟩, rfl⟩ := h
  rfl

variable [DecidableEq Key] {rt : Runtime Key} {w w' : World Key} {accounts : List (AccountInfo Key)}

/-- A successful `DepositSol`, with the tokens and the accounts after the transfer. -/
structure DepositSolAccounts.Ok (rt : Runtime Key) (w w' : World Key) (a : DepositSolAccounts Key)
    (n : Nat) (minimum : Option Nat) (t : DepositTokens) (acc₁ : Accounts Key) : Prop where
  poolKey : a.stakePoolInfo.key = rt.stakePoolAddress
  authority : w.stakePool.checkAuthorityWithdraw rt a.withdrawAuthorityInfo.key rt.programId
    a.stakePoolInfo.key = .ok ()
  mintKey : a.poolMintInfo.key = w.stakePool.poolMint
  reserveKey : a.reserveStakeAccountInfo.key = w.stakePool.reserveStake
  feeKey : a.managerFeeInfo.key = w.stakePool.managerFeeAccount
  fresh : w.sysvars.epoch ≤ w.stakePool.lastUpdateEpoch
  tokens : w.stakePool.solDepositTokens n = some t
  checked : t.Checked minimum
  transfer : solTransfer rt w.accounts a.fromUserLamportsInfo a.reserveStakeAccountInfo n = .ok acc₁
  mint : mintDepositTokens rt acc₁ t a.poolMintInfo a.destUserPoolInfo a.managerFeeInfo
    a.referrerFeeInfo a.withdrawAuthorityInfo = .ok w'.accounts
  result : w' = { w with
    stakePool := { w.stakePool with
      poolTokenSupply := w.stakePool.poolTokenSupply + t.newPoolTokens
      totalLamports := w.stakePool.totalLamports + n }
    accounts := w'.accounts }

theorem DepositSolAccounts.process_ok {a : DepositSolAccounts Key} {n : Nat}
    (h : a.process rt w n minimum = .ok w') : ∃ t acc₁, a.Ok rt w w' n minimum t acc₁ := by
  simp only [process, bind_eq_ok, ensure_eq_ok, orErr_eq_ok, exists_unit, pure_eq_ok,
    World.validStakePool_eq_ok, StakePool.checkReserveStake, StakePool.checkMint] at h
  obtain ⟨p, ⟨hk, -, rfl⟩, hauth, -, -, ⟨hmk, -⟩, hrk, -, -, hf, hfr, t, ht, hc, acc₁, hst, acc₂, hm, p',
    hp, rfl⟩ := h
  obtain rfl := StakePool.addDeposit_eq_some hp
  exact ⟨t, acc₁, hk, hauth, hmk, hrk, hf.symm, hfr, ht, DepositTokens.check_eq_ok hc, hst, hm, rfl⟩

omit [DecidableEq Key] in
theorem DepositSolAccounts.parse_mem {a : DepositSolAccounts Key} {rest : List (AccountInfo Key)}
    (h : parse accounts = .ok (a, rest)) : a.fromUserLamportsInfo ∈ accounts := by
  have hparse : Draws parse fun a : DepositSolAccounts Key => some a.fromUserLamportsInfo := by
    refine .next fun _ => .next fun _ => .next fun _ => .first fun _ => ?_
    repeat refine .bind fun _ => ?_
    exact .pure rfl
  exact hparse _ _ _ _ h rfl

theorem processDepositSol_ok {n : Nat} (h : processDepositSol rt w accounts n minimum = .ok w') :
    ∃ a rest, DepositSolAccounts.parse accounts = .ok (a, rest) ∧
      ∃ t acc₁, a.Ok rt w w' n minimum t acc₁ := by
  simp only [processDepositSol, bind_eq_ok] at h
  obtain ⟨⟨a, rest⟩, hp, h⟩ := h
  exact ⟨a, rest, hp, a.process_ok h⟩

/-- A successful `DepositStake` into the stake `s` of the validator `v`: the accounts after the stake
account was handed over, merged, and the tokens were minted, with the lamports deposited in all and
as stake. -/
structure DepositStakeAccounts.Ok (rt : Runtime Key) (w w' : World Key) (a : DepositStakeAccounts Key)
    (minimum : Option Nat) (s : Stake Key) (v : ValidatorStakeInfo Key) (t : DepositTokens)
    (acc₁ acc₂ acc₃ : Accounts Key) (total stake : Nat) : Prop where
  poolKey : a.stakePoolInfo.key = rt.stakePoolAddress
  authority : w.stakePool.checkAuthorityWithdraw rt a.withdrawAuthorityInfo.key rt.programId
    a.stakePoolInfo.key = .ok ()
  mintKey : a.poolMintInfo.key = w.stakePool.poolMint
  reserveKey : a.reserveStakeAccountInfo.key = w.stakePool.reserveStake
  feeKey : a.managerFeeInfo.key = w.stakePool.managerFeeAccount
  fresh : w.sysvars.epoch ≤ w.stakePool.lastUpdateEpoch
  stakeState : ∃ m, (w.accounts a.validatorStakeAccountInfo.key).data = .stakeState (.stake m s)
  find : w.validatorList.find s.delegation.voterPubkey = some v
  validatorKey : (findStakeProgramAddress rt rt.programId s.delegation.voterPubkey a.stakePoolInfo.key
    (nonZeroU32 v.validatorSeedSuffix)).1 = a.validatorStakeAccountInfo.key
  status : v.status = StakeStatus.active.pod
  authorize : a.authorizeDeposit rt w = .ok acc₁
  merge : stakeMerge rt w.sysvars acc₁ a.stakeInfo a.withdrawAuthorityInfo
    a.validatorStakeAccountInfo = .ok acc₂
  total_eq : (w.accounts a.validatorStakeAccountInfo.key).lamports + total =
    (acc₂ a.validatorStakeAccountInfo.key).lamports
  stake_le : stake ≤ total
  tokens : w.stakePool.stakeDepositTokens total stake = some t
  checked : t.Checked minimum
  mint : mintDepositTokens rt acc₂ t a.poolMintInfo a.destUserPoolInfo a.managerFeeInfo
    a.referrerFeeInfo a.withdrawAuthorityInfo = .ok acc₃
  withdraw : 0 < total - stake ∧ stakeWithdraw rt w.sysvars acc₃ a.validatorStakeAccountInfo
      a.withdrawAuthorityInfo a.reserveStakeAccountInfo (total - stake) = .ok w'.accounts ∨
    total = stake ∧ acc₃ = w'.accounts
  result : w' = { w with
    stakePool := { w.stakePool with
      poolTokenSupply := w.stakePool.poolTokenSupply + t.newPoolTokens
      totalLamports := w.stakePool.totalLamports + total }
    validatorList := w.validatorList.set { v with
      activeStakeLamports := (w'.accounts a.validatorStakeAccountInfo.key).lamports }
    accounts := w'.accounts }

/-- The deposit authority has signed, or its address is derived. -/
theorem DepositStakeAccounts.authorizeDeposit_eq_ok {a : DepositStakeAccounts Key} {acc : Accounts Key}
    (h : a.authorizeDeposit rt w = .ok acc) :
    (a.stakeDepositAuthorityInfo.isSigner ∨ a.stakeDepositAuthorityInfo.key =
      (findDepositAuthorityProgramAddress rt rt.programId a.stakePoolInfo.key).1) ∧
    stakeAuthorizeSigned rt w.sysvars w.accounts a.stakeInfo a.stakeDepositAuthorityInfo
      a.withdrawAuthorityInfo.key = .ok acc := by
  simp only [authorizeDeposit] at h
  split at h
  · exact ⟨.inr ‹_›, h⟩
  · simp only [stakeAuthorize, bind_eq_ok, ensure_eq_ok, exists_unit] at h
    exact ⟨.inl h.1, h.2⟩

/-- What is deposited as stake is what the merge adds to the delegation. -/
theorem DepositStakeAccounts.process_gained {a : DepositStakeAccounts Key}
    (h : a.process rt w minimum = .ok w') :
    ∃ s v t acc₁ acc₂ acc₃ total stake, a.Ok rt w w' minimum s v t acc₁ acc₂ acc₃ total stake ∧
      ∃ m s', (acc₂ a.validatorStakeAccountInfo.key).data = .stakeState (.stake m s') ∧
        stake = s'.delegation.stake - s.delegation.stake := by
  simp only [process, bind_eq_ok, ensure_eq_ok, orErr_eq_ok, exists_unit, pure_eq_ok,
    World.validStakePool_eq_ok, World.validValidatorList_eq_ok, StakePool.checkReserveStake,
    StakePool.checkMint, checkValidatorStakeAddress, checkedSub_eq_some] at h
  obtain ⟨-, p, ⟨hk, -, rfl⟩, hauth, -, -, ⟨hmk, -⟩, -, hrk, -, hf, hfr, l, ⟨-, -, rfl⟩, ⟨m, s⟩, hs, -,
    v, hv, hvk, hst, acc₁, ha, acc₂, hm, ⟨m', s'⟩, hs', total, ⟨hle, rfl⟩, stake, ⟨-, rfl⟩, sol,
    ⟨hsle, rfl⟩, t, ht, hc, acc₃, hmint, acc₄, hw, p', hp, rfl⟩ := h
  obtain rfl := StakePool.addDeposit_eq_some hp
  refine ⟨s, v, t, acc₁, acc₂, acc₃, _, _, ⟨hk, hauth, hmk, hrk, hf.symm, hfr, ⟨m, getStakeState_eq_ok.1 hs⟩,
    hv, hvk, hst, ha, hm, Nat.add_sub_cancel' hle, hsle, ht, DepositTokens.check_eq_ok hc, hmint, ?_, rfl⟩,
    m', s', getStakeState_eq_ok.1 hs', rfl⟩
  rcases ite_pure_eq_ok.1 hw with ⟨hpos, hw⟩ | ⟨hpos, rfl⟩
  · exact .inl ⟨hpos, hw⟩
  · exact .inr ⟨by omega, rfl⟩

theorem DepositStakeAccounts.process_ok {a : DepositStakeAccounts Key}
    (h : a.process rt w minimum = .ok w') :
    ∃ s v t acc₁ acc₂ acc₃ total stake, a.Ok rt w w' minimum s v t acc₁ acc₂ acc₃ total stake := by
  obtain ⟨s, v, t, acc₁, acc₂, acc₃, total, stake, h, -⟩ := a.process_gained h
  exact ⟨s, v, t, acc₁, acc₂, acc₃, total, stake, h⟩

theorem DepositStakeAccounts.parse_mem {a : DepositStakeAccounts Key} {rest : List (AccountInfo Key)}
    (h : (parse rt).run accounts = .ok (a, rest)) : a.stakeDepositAuthorityInfo ∈ accounts := by
  have hparse : Draws (parse rt) fun a : DepositStakeAccounts Key => some a.stakeDepositAuthorityInfo := by
    refine .next fun _ => .next fun _ => .first fun _ => ?_
    repeat refine .bind fun _ => ?_
    exact .pure rfl
  exact hparse _ _ _ _ h rfl

theorem processDepositStake_ok (h : processDepositStake rt w accounts minimum = .ok w') :
    ∃ a rest, (DepositStakeAccounts.parse rt).run accounts = .ok (a, rest) ∧
      ∃ s v t acc₁ acc₂ acc₃ total stake,
        a.Ok rt w w' minimum s v t acc₁ acc₂ acc₃ total stake := by
  simp only [processDepositStake, bind_eq_ok] at h
  obtain ⟨⟨a, rest⟩, hp, h⟩ := h
  exact ⟨a, rest, hp, a.process_ok h⟩

end SplStakePool
