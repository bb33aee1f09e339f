import SplStakePool.Properties.Arithmetic
import SplStakePool.Properties.MaxStake
import SplStakePool.Properties.Solvency
import SplStakePool.Spec.Errors

/-!
# `CalculationFailure`

The formulas of a backed pool do not fail (`Arithmetic`), so that the handlers do not return
`CalculationFailure` from them. A handler is gone through step by step: the shared checks and the calls
return other errors (`Spec/Errors`), and at each computation the operands that the handler has by then are
put in the range of the formula. Two computations are about other accounts' lamports: a deposited stake
must not be credited with more than it holds, and a withdrawal from an entry is taken from its record.
-/

namespace SplStakePool
open Exec Machine ShareVault Function

variable {Key : Type} [DecidableEq Key] [Inhabited Key] {rt : Runtime Key} {w : World Key} {n d : Nat}
  {minimum : Option Nat} {accounts : List (AccountInfo Key)}

omit [DecidableEq Key] [Inhabited Key] in
theorem Deposits.check_avoids {p : StakePool Key} {t : DepositTokens} (h : Deposits p d t) :
    Avoids (.custom .calculationFailure) (t.check minimum) := by
  rw [DepositTokens.check, ensure_of h.parts, ok_bind]
  exact .bind (.ensure (by decide)) fun _ _ => .ensure (by decide)

omit [Inhabited Key] in
theorem DepositSolAccounts.process_avoids (hc : rt.CallsAvoid (.custom .calculationFailure))
    (ht : ∃ t, w.stakePool.solDepositTokens d = some t ∧ Deposits w.stakePool d t)
    (a : DepositSolAccounts Key) : Avoids (.custom .calculationFailure) (a.process rt w d minimum) := by
  have he : ProgramError.custom .calculationFailure ∉ checkErrors := by decide
  obtain ⟨t, ht, hd⟩ := ht
  refine .bind (World.validStakePool_avoids he) fun p hp => ?_
  obtain ⟨-, -, rfl⟩ := World.validStakePool_eq_ok.1 hp
  refine .bind (StakePool.checkAuthorityWithdraw_avoids he) fun _ _ =>
    .bind (StakePool.checkFundingAuthority_avoids he (by decide)) fun _ _ =>
    .bind (StakePool.checkMint_avoids he) fun _ _ => .bind (ensure_avoids he (by decide)) fun _ _ =>
    .bind (ensure_avoids he (by decide)) fun _ _ => .bind (ensure_avoids he (by decide)) fun _ _ =>
    .bind (ensure_avoids he (by decide)) fun _ _ => .bind (ensure_avoids he (by decide)) fun _ _ => ?_
  rw [ht]
  refine .bind .ok fun t' ht' => ?_
  cases ht'
  refine .bind hd.check_avoids fun _ _ => .bind (hc.solTransfer he) fun _ _ =>
    .bind hc.mintDepositTokens fun _ _ => ?_
  obtain ⟨q, hq⟩ := Option.isSome_iff_exists.1 hd.counted
  rw [hq]
  exact .bind .ok fun _ _ => .pure

/-- What a deposited stake account brings: its lamports fit, and the merge delegates no more than these. -/
structure DepositStakeAccounts.WithinBounds (rt : Runtime Key) (w : World Key) (a : DepositStakeAccounts Key) : Prop where
  total_lt : w.stakePool.totalLamports + (w.accounts a.stakeInfo.key).lamports < 2 ^ 63
  gained_le : rt.gained w.sysvars a.withdrawAuthorityInfo.key
    (a.validatorStakeAccountInfo.key, w.accounts a.validatorStakeAccountInfo.key)
    (a.stakeInfo.key, (w.accounts a.stakeInfo.key).handOver a.withdrawAuthorityInfo.key) ≤
      (w.accounts a.stakeInfo.key).lamports

theorem DepositStakeAccounts.process_avoids (hl : rt.Lawful) (hc : rt.CallsAvoid (.custom .calculationFailure))
    (hb : Backed w.stakePool.vault) (hf : FeesOk w.stakePool) {a : DepositStakeAccounts Key} (ha : a.WithinBounds rt w) :
    Avoids (.custom .calculationFailure) (a.process rt w minimum) := by
  have he : ProgramError.custom .calculationFailure ∉ checkErrors := by decide
  refine .bind (ensure_avoids he (by decide)) fun _ _ => .bind (World.validStakePool_avoids he) fun p hp => ?_
  obtain ⟨-, -, rfl⟩ := World.validStakePool_eq_ok.1 hp
  refine .bind (StakePool.checkAuthorityWithdraw_avoids he) fun _ _ =>
    .bind (ensure_avoids he (by decide)) fun _ _ => .bind (StakePool.checkMint_avoids he) fun _ _ =>
    .bind (ensure_avoids he (by decide)) fun _ _ => .bind (ensure_avoids he (by decide)) fun _ _ =>
    .bind (ensure_avoids he (by decide)) fun _ _ => .bind (ensure_avoids he (by decide)) fun _ _ =>
    .bind (ensure_avoids he (by decide)) fun _ _ => .bind (World.validValidatorList_avoids he) fun l hl' => ?_
  refine .bind (getStakeState_avoids he) fun ⟨m, s⟩ hs => .bind (.ensure (by decide)) fun _ _ =>
    .bind (orErr_avoids he (by decide)) fun v _ => .bind (ensure_avoids he (by decide)) fun _ _ =>
    .bind (ensure_avoids he (by decide)) fun _ _ => .bind (hc.authorizeDeposit he) fun acc₁ hauth =>
    .bind hc.stakeMerge fun acc₂ hmerge => .bind (getStakeState_avoids he) fun ⟨m', s'⟩ hs' => ?_
  -- the lamports and the stake that were deposited
  obtain ⟨-, htotal, hstake⟩ := a.merge_gained hl (getStakeState_eq_ok.1 hs) hauth hmerge (getStakeState_eq_ok.1 hs')
  have hgained := ha.gained_le
  obtain ⟨t, ht, hd⟩ := StakePool.stakeDepositTokens_isSome hb hf ha.total_lt ha.gained_le
  dsimp only
  rw [htotal, hstake, checkedSub_of_le (Nat.le_add_right _ _), checkedSub_of_le (Nat.le_add_right _ _),
    Nat.add_sub_cancel_left, Nat.add_sub_cancel_left]
  refine .bind .ok fun _ h => ?_
  cases h
  refine .bind .ok fun _ h => ?_
  cases h
  rw [checkedSub_of_le hgained, ht]
  refine .bind .ok fun sol _ => .bind .ok fun _ h => ?_
  cases h
  refine .bind hd.check_avoids fun _ _ => .bind hc.mintDepositTokens fun acc₃ _ => .bind ?_ fun _ _ => ?_
  · split
    · exact hc.stakeWithdraw
    · exact .pure
  · obtain ⟨q, hq⟩ := Option.isSome_iff_exists.1 hd.counted
    rw [hq]
    exact .bind .ok fun _ _ => .pure

/-! ## Withdrawals -/

section
variable {p : StakePool Key} {calcFee : Nat → Option Nat} {src manager : AccountInfo Key} {acc : Accounts Key}
  {fee l : Nat}

omit [Inhabited Key] in
theorem StakePool.withdrawalFee_avoids (h : Withdraws p calcFee n) :
    Avoids (.custom .calculationFailure) (p.withdrawalFee rt acc calcFee src manager n) := by
  obtain ⟨fee, _, hfee, -⟩ := h
  unfold withdrawalFee
  split
  · exact .ok
  · split
    · exact .ok
    · rw [hfee]
      exact .ok

omit [Inhabited Key] in
/-- The fee that is taken is the computed one, or there is none. -/
theorem StakePool.withdrawalFee_withdraws (h : Withdraws p calcFee n) (h₀ : Withdraws p (fun _ => some 0) n)
    (hf : p.withdrawalFee rt acc calcFee src manager n = .ok fee) :
    fee ≤ n ∧ ∃ l, p.calcLamportsWithdrawAmount (n - fee) = some l ∧ (p.subWithdrawal (n - fee) l).isSome := by
  have free : fee = 0 → fee ≤ n ∧ ∃ l, p.calcLamportsWithdrawAmount (n - fee) = some l ∧
      (p.subWithdrawal (n - fee) l).isSome := by
    rintro rfl
    obtain ⟨_, l, h₁, h⟩ := h₀
    cases h₁
    exact ⟨h.1, l, h.2⟩
  obtain ⟨fee', l, hfee, hle, hl, hs⟩ := h
  unfold withdrawalFee at hf
  split at hf
  · cases hf
    exact free rfl
  · split at hf
    · cases hf
      exact free rfl
    · rw [hfee] at hf
      cases hf
      exact ⟨hle, l, hl, hs⟩

omit [DecidableEq Key] [Inhabited Key] in
theorem StakePool.withdrawLamports_avoids (h : p.calcLamportsWithdrawAmount n = some l) :
    Avoids (.custom .calculationFailure) (p.withdrawLamports n minimum) := by
  rw [StakePool.withdrawLamports, h]
  exact .bind .ok fun _ _ => .bind (.ensure (by decide)) fun _ _ => .bind (.ensure (by decide)) fun _ _ => .pure

end

omit [Inhabited Key] in
theorem WithdrawSolAccounts.process_avoids (hc : rt.CallsAvoid (.custom .calculationFailure))
    (h : Withdraws w.stakePool w.stakePool.calcPoolTokensSolWithdrawalFee n)
    (h₀ : Withdraws w.stakePool (fun _ => some 0) n) (a : WithdrawSolAccounts Key) :
    Avoids (.custom .calculationFailure) (a.process rt w n minimum) := by
  have he : ProgramError.custom .calculationFailure ∉ checkErrors := by decide
  refine .bind (World.validStakePool_avoids he) fun p hp => ?_
  obtain ⟨-, -, rfl⟩ := World.validStakePool_eq_ok.1 hp
  refine .bind (StakePool.checkAuthorityWithdraw_avoids he) fun _ _ =>
    .bind (StakePool.checkFundingAuthority_avoids he (by decide)) fun _ _ =>
    .bind (StakePool.checkMint_avoids he) fun _ _ => .bind (ensure_avoids he (by decide)) fun _ _ =>
    .bind (ensure_avoids he (by decide)) fun _ _ => .bind (ensure_avoids he (by decide)) fun _ _ =>
    .bind (ensure_avoids he (by decide)) fun _ _ => .bind (ensure_avoids he (by decide)) fun _ _ =>
    .bind (StakePool.withdrawalFee_avoids h) fun fee hfee => ?_
  obtain ⟨hle, l, hlam, hs⟩ := StakePool.withdrawalFee_withdraws h h₀ hfee
  rw [checkedSub_of_le hle]
  refine .bind .ok fun _ hx => ?_
  cases hx
  refine .bind (StakePool.withdrawLamports_avoids hlam) fun l' hl' => ?_
  obtain rfl : l = l' := Option.some.inj (hlam.symm.trans (StakePool.withdrawLamports_priced hl').2)
  refine .bind (.bind (orErr_avoids he (by decide)) fun s _ => ?_) fun _ _ => .bind (hc.tokenBurn he) fun _ _ =>
    .bind (hc.transferFee he) fun _ _ => .bind hc.stakeWithdraw fun _ _ => ?_
  · cases s with
    | initialized m => exact .ensure (by decide)
    | _ => exact error_avoids he (by decide)
  · obtain ⟨q, hq⟩ := Option.isSome_iff_exists.1 hs
    rw [hq]
    exact .bind .ok fun _ _ => .pure

variable (rt w) in
/-- What an account of an entry holds is recorded of the entry, so that nothing came in since. -/
structure HoldsRecorded (k : Key) : Prop where
  active : ∀ v ∈ w.validatorList.validators, k = rt.validatorStake v →
    (w.accounts k).lamports ≤ v.activeStakeLamports
  transient : ∀ v ∈ w.validatorList.validators, k = rt.transientStake v →
    (w.accounts k).lamports ≤ v.transientStakeLamports

namespace WithdrawStakeAccounts
variable {a : WithdrawStakeAccounts Key} {plan : WithdrawPlan Key}

omit [Inhabited Key] in
theorem plan_avoids {l : Nat} (hprice : w.stakePool.getLamportsPerPoolToken = some l) :
    Avoids (.custom .calculationFailure) (a.plan rt w w.stakePool w.validatorList n) := by
  have he : ProgramError.custom .calculationFailure ∉ checkErrors := by decide
  refine .bind (orErr_avoids he (by decide)) fun s _ => .bind (orErr_avoids he (by decide)) fun m _ => ?_
  rw [hprice]
  refine .bind .ok fun _ _ => ?_
  dsimp only
  split
  · exact .bind (.ensure (by decide)) fun _ _ => .bind (.ensure (by decide)) fun _ _ => .pure
  · refine .bind (orErr_avoids he (by decide)) fun d _ => .bind ?_ fun _ _ =>
      .bind (orErr_avoids he (by decide)) fun v _ => .bind ?_ fun source _ =>
      .bind (ensure_avoids he (by decide)) fun _ _ => .bind ?_ fun _ _ => .pure
    · unfold checkPreferredWithdraw
      split
      · split
        · exact .ensure (by decide)
        · exact .ok
      · exact .ok
    · unfold withdrawSource
      split
      · exact .bind (ensure_avoids he (by decide)) fun _ _ => .pure
      · split
        · exact .bind (.bind (ensure_avoids he (by decide)) fun _ _ => .pure) fun _ _ => .pure
        · exact .bind (ensure_avoids he (by decide)) fun _ _ => .pure
    · unfold withdrawAmount
      split <;> exact .bind (.ensure (by decide)) fun _ _ => .pure

omit [Inhabited Key] in
/-- The entry can be lowered by what its account is planned to pay, when that is recorded of it. -/
theorem Planned.withdraw_avoids (h : Planned rt w a n plan) (hk : a.stakePoolInfo.key = rt.stakePoolAddress)
    (hr : HoldsRecorded rt w a.stakeSplitFrom.key) :
    Avoids (.custom .calculationFailure) (w.validatorList.withdraw plan) := by
  have hmin : ∀ m : Meta Key, 0 < minimumStakeLamports m w.sysvars.minimumDelegation := fun m => by
    simp only [minimumStakeLamports, minimumDelegation, minimumActiveStake, saturatingAdd, maxValue]
    omega
  -- the entry found for the delegation is the one whose account pays
  have entry : ∀ {v m d}, FromEntry w a v m d → v ∈ w.validatorList.validators ∧ v.voteAccountAddress = d.voterPubkey :=
    fun he => by
      obtain ⟨hv, pre, post, hlist, -⟩ := ValidatorList.find_split he.find
      exact ⟨by rw [hlist]; simp, hv⟩
  cases h with
  | reserve => exact .ok
  | active v m d he hkey hle ha =>
    obtain ⟨hv, hvote⟩ := entry he
    rw [hk, ← hvote] at hkey
    have hrec := hr.active v hv hkey.symm
    have := hmin m
    simp only [ValidatorList.withdraw, ValidatorStakeInfo.withdraw,
      checkedSub_of_le (show n ≤ v.activeStakeLamports by omega)]
    exact .bind (.bind .ok fun _ _ => .pure) fun _ _ => .pure
  | transient v m d he hkey hle ht =>
    obtain ⟨hv, hvote⟩ := entry he
    rw [hk, ← hvote] at hkey
    have hrec := hr.transient v hv hkey.symm
    have := hmin m
    simp only [ValidatorList.withdraw, ValidatorStakeInfo.withdraw,
      checkedSub_of_le (show n ≤ v.transientStakeLamports by omega)]
    exact .bind (.bind .ok fun _ _ => .pure) fun _ _ => .pure
  | removal v m d he hkey hle ha ht h0 =>
    obtain ⟨hv, hvote⟩ := entry he
    rw [hk, ← hvote] at hkey
    simp only [ValidatorList.withdraw, ValidatorStakeInfo.withdraw, checkedSub_of_le (hr.active v hv hkey.symm)]
    exact .bind (.bind .ok fun _ _ => .bind (.ensure (by decide)) fun _ _ => .pure) fun _ _ => .pure

omit [Inhabited Key] in
theorem process_avoids (hc : rt.CallsAvoid (.custom .calculationFailure)) (hb : Backed w.stakePool.vault)
    (hT : w.stakePool.totalLamports < 2 ^ 63)
    (h : Withdraws w.stakePool w.stakePool.calcPoolTokensStakeWithdrawalFee n)
    (h₀ : Withdraws w.stakePool (fun _ => some 0) n) (hr : HoldsRecorded rt w a.stakeSplitFrom.key) :
    Avoids (.custom .calculationFailure) (a.process rt w n minimum) := by
  have he : ProgramError.custom .calculationFailure ∉ checkErrors := by decide
  refine .bind (ensure_avoids he (by decide)) fun _ _ => .bind (World.validStakePool_avoids he) fun p hp => ?_
  obtain ⟨hkey, -, rfl⟩ := World.validStakePool_eq_ok.1 hp
  refine .bind (StakePool.checkMint_avoids he) fun _ _ => .bind (ensure_avoids he (by decide)) fun _ _ =>
    .bind (StakePool.checkAuthorityWithdraw_avoids he) fun _ _ =>
    .bind (ensure_avoids he (by decide)) fun _ _ => .bind (ensure_avoids he (by decide)) fun _ _ =>
    .bind (ensure_avoids he (by decide)) fun _ _ => .bind (World.validValidatorList_avoids he) fun l hl => ?_
  obtain ⟨-, -, rfl⟩ := World.validValidatorList_eq_ok.1 hl
  refine .bind (StakePool.withdrawalFee_avoids h) fun fee hfee => ?_
  obtain ⟨hle, l, hlam, hs⟩ := StakePool.withdrawalFee_withdraws h h₀ hfee
  rw [checkedSub_of_le hle]
  refine .bind .ok fun _ hx => ?_
  cases hx
  refine .bind (StakePool.withdrawLamports_avoids hlam) fun l' hl' => ?_
  obtain rfl : l = l' := Option.some.inj (hlam.symm.trans (StakePool.withdrawLamports_priced hl').2)
  -- lamports are paid, so there are tokens, and a token has a value
  obtain ⟨price, hprice⟩ : ∃ price, w.stakePool.getLamportsPerPoolToken = some price := by
    refine Option.ne_none_iff_exists'.1 fun hnone => ?_
    have h0 := StakePool.getLamportsPerPoolToken_eq_none hb hT hnone
    simp only [StakePool.calcLamportsWithdrawAmount, h0, or_true, if_true, Option.bind_eq_bind,
      Option.bind_eq_some_iff, Option.pure_def, Option.some.injEq] at hlam
    obtain ⟨_, -, rfl⟩ := hlam
    exact absurd (StakePool.withdrawLamports_eq_ok hl').pos (Nat.lt_irrefl 0)
  refine .bind (plan_avoids hprice) fun plan hplan => .bind (hc.tokenBurn he) fun _ _ =>
    .bind hc.stakeSplit fun _ _ => .bind hc.stakeAuthorizeSigned fun _ _ => .bind (hc.transferFee he) fun _ _ => ?_
  have hplanned := plan_eq_ok hplan
  obtain ⟨q, hq⟩ := Option.isSome_iff_exists.1 hs
  obtain ⟨hburnt, hpaid, -⟩ := StakePool.subWithdrawal_eq_some hq
  obtain ⟨d, x, hpool⟩ := stakePool_eq plan w.stakePool
  simp only [StakePool.subWithdrawal, hpool, checkedSub_of_le hburnt,
    checkedSub_of_le (hplanned.le.trans hpaid), Option.bind_eq_bind, Option.bind_some, Option.pure_def]
  exact .bind .ok fun _ _ => .bind (hplanned.withdraw_avoids hkey hr) fun _ _ => .pure

end WithdrawStakeAccounts

omit [DecidableEq Key] [Inhabited Key] in
theorem sumStakeLamports_calculates {epoch : Nat} {vs : List (ValidatorStakeInfo Key)}
    (h : n + recordedLamports vs < 2 ^ 64) : Avoids (.custom .calculationFailure) (sumStakeLamports epoch n vs) := by
  induction vs generalizing n with
  | nil => exact .ok
  | cons v vs ih =>
    rw [recordedLamports_cons, ValidatorStakeInfo.recorded] at h
    refine .bind (.ensure (by decide)) fun _ _ => ?_
    rw [ValidatorStakeInfo.stakeLamports,
      checkedAdd_of_lt (show v.activeStakeLamports + v.transientStakeLamports < 2 ^ 64 by omega)]
    refine .bind .ok fun stake hs => ?_
    cases hs
    rw [checkedAdd_of_lt (show n + (v.activeStakeLamports + v.transientStakeLamports) < 2 ^ 64 by omega)]
    refine .bind .ok fun total ht => ?_
    cases ht
    exact ih (by omega)

theorem UpdateStakePoolBalanceAccounts.process_calculates (hc : rt.CallsAvoid (.custom .calculationFailure))
    (hb : Backed w.stakePool.vault) (hf : FeesOk w.stakePool) (hT : w.stakePool.totalLamports < 2 ^ 63)
    (hr : Reserve rt (w.accounts w.stakePool.reserveStake))
    (hlt : (w.accounts w.stakePool.reserveStake).lamports + recordedLamports w.validatorList.validators < 2 ^ 63)
    (a : UpdateStakePoolBalanceAccounts Key) : Avoids (.custom .calculationFailure) (a.process rt w) := by
  obtain ⟨m, -, hle, havailable⟩ := hr.lamportsAvailable
  refine process_avoids (by decide) (by rw [havailable]; exact .ok) (fun n hn => ?_) fun _ _ _ _ => hc.tokenMintTo
  rw [havailable] at hn
  cases hn
  refine ⟨sumStakeLamports_calculates (by omega), fun total ht => ?_⟩
  obtain ⟨-, rfl, -⟩ := sumStakeLamports_eq_ok.1 ht
  obtain ⟨fee, hfee⟩ := StakePool.calcEpochFeeAmount_eq_some hb (hf.active .epoch)
    (d := (w.accounts w.stakePool.reserveStake).lamports - minimumReserveLamports m +
      recordedLamports w.validatorList.validators - w.stakePool.totalLamports) (by omega)
  unfold StakePool.epochFeeToMint
  split
  · rw [hfee]
    exact .ok
  · exact .ok

/-! ## Runs -/

variable (rt w) in
/-- The instructions that use the formulas, with amounts in range: a deposit keeps the total below 2^63, a
withdrawal is of no more tokens than the mint has, and an update counts less than 2^63. A withdrawal of stake is
from an account of which all is recorded. -/
def WithinBounds (accounts : List (AccountInfo Key)) : StakePoolInstruction Key → Prop
  | .depositSol d | .depositSolWithSlippage d _ => w.stakePool.totalLamports + d < 2 ^ 63
  | .depositStake | .depositStakeWithSlippage _ =>
    ∀ a rest, (DepositStakeAccounts.parse rt).run accounts = .ok (a, rest) → a.WithinBounds rt w
  | .withdrawSol n | .withdrawSolWithSlippage n _ => ∃ s, w.supply? = some s ∧ n ≤ s
  | .withdrawStake n | .withdrawStakeWithSlippage n _ => (∃ s, w.supply? = some s ∧ n ≤ s) ∧
    ∀ a rest, (WithdrawStakeAccounts.parse rt).run accounts = .ok (a, rest) → HoldsRecorded rt w a.stakeSplitFrom.key
  | .updateStakePoolBalance =>
    (w.accounts w.stakePool.reserveStake).lamports + recordedLamports w.validatorList.validators < 2 ^ 63
  | _ => False

/-- No instruction that uses the formulas returns `CalculationFailure`. -/
theorem process_calculates (hl : rt.Lawful) (h : (poolSystem rt).Reachable w) (hT : w.stakePool.totalLamports < 2 ^ 63)
    (hc : rt.CallsAvoid (.custom .calculationFailure)) {i : StakePoolInstruction Key} (hi : WithinBounds rt w accounts i) :
    Avoids (.custom .calculationFailure) (process rt w accounts i) := by
  have hinv := Inv.of_reach hl h
  obtain ⟨⟨s, hs, hle⟩, hb, hf⟩ := Backing.of_reach hl h
  have he : ProgramError.custom .calculationFailure ∉ checkErrors := by decide
  have hk : ProgramError.notEnoughAccountKeys ≠ .custom .calculationFailure := by decide
  have withdraws : ∀ {n}, (∃ s, w.supply? = some s ∧ n ≤ s) →
      Withdraws w.stakePool w.stakePool.calcPoolTokensStakeWithdrawalFee n ∧
      Withdraws w.stakePool w.stakePool.calcPoolTokensSolWithdrawalFee n ∧
      Withdraws w.stakePool (fun _ => some 0) n := by
    rintro n ⟨s', hs', hn⟩
    obtain rfl : s = s' := Option.some.inj (hs.symm.trans hs')
    exact ⟨StakePool.withdraws hb hT (hf.active .stakeWithdrawal) (hn.trans hle),
      StakePool.withdraws hb hT (hf.active .solWithdrawal) (hn.trans hle),
      StakePool.withdraws_free hb hT (hn.trans hle)⟩
  cases i with
  | depositSol | depositSolWithSlippage =>
    refine .bind ?_ fun ⟨a, _⟩ _ => a.process_avoids hc (StakePool.solDepositTokens_isSome hb hf hi)
    repeat refine nextAccountInfo_avoids hk fun _ _ => ?_
    exact .ok
  | depositStake | depositStakeWithSlippage =>
    refine .bind ?_ fun ⟨a, rest⟩ hp => a.process_avoids hl hc hb hf (hi a rest hp)
    iterate 11 refine nextAccountInfo_avoids hk fun _ _ => ?_
    refine nextSysvar_avoids he fun _ _ => ?_
    repeat refine nextAccountInfo_avoids hk fun _ _ => ?_
    exact .ok
  | withdrawSol | withdrawSolWithSlippage =>
    obtain ⟨-, hsol, hfree⟩ := withdraws hi
    refine .bind ?_ fun ⟨a, _⟩ _ => a.process_avoids hc hsol hfree
    repeat refine nextAccountInfo_avoids hk fun _ _ => ?_
    exact .ok
  | withdrawStake | withdrawStakeWithSlippage =>
    obtain ⟨hstake, -, hfree⟩ := withdraws hi.1
    refine .bind ?_ fun ⟨a, rest⟩ hp => a.process_avoids hc hb hT hstake hfree (hi.2 a rest hp)
    iterate 10 refine nextAccountInfo_avoids hk fun _ _ => ?_
    refine nextSysvar_avoids he fun _ _ => ?_
    repeat refine nextAccountInfo_avoids hk fun _ _ => ?_
    exact .ok
  | updateStakePoolBalance =>
    refine .bind ?_ fun ⟨a, _⟩ _ => a.process_calculates hc hb hf hT hinv.core.reserve_ok hi
    repeat refine nextAccountInfo_avoids hk fun _ _ => ?_
    exact .ok
  | _ => cases hi

/-- In every state of every run a token is backed by a lamport, and the arithmetic of deposits,
withdrawals and updates does not fail while there are fewer than 2^63 lamports. -/
theorem arithmetic_never_fails (hl : rt.Lawful) (h : (poolSystem rt).Reachable w) :
    w.stakePool.poolTokenSupply ≤ w.stakePool.totalLamports ∧
    (w.stakePool.totalLamports < 2 ^ 63 →
      (∀ d, w.stakePool.totalLamports + d < 2 ^ 63 →
        (w.stakePool.calcPoolTokensForDeposit d).isSome ∧ (w.stakePool.calcEpochFeeAmount d).isSome ∧
        (∃ t, w.stakePool.solDepositTokens d = some t ∧ Deposits w.stakePool d t) ∧
        ∀ stake ≤ d, ∃ t, w.stakePool.stakeDepositTokens d stake = some t ∧ Deposits w.stakePool d t) ∧
      (∀ s n, w.supply? = some s → n ≤ s → (w.stakePool.calcLamportsWithdrawAmount n).isSome ∧
        Withdraws w.stakePool w.stakePool.calcPoolTokensStakeWithdrawalFee n ∧
        Withdraws w.stakePool w.stakePool.calcPoolTokensSolWithdrawalFee n ∧
        Withdraws w.stakePool (fun _ => some 0) n) ∧
      (∀ n < 2 ^ 64, (w.stakePool.calcPoolTokensStakeDepositFee n).isSome ∧
        (w.stakePool.calcPoolTokensSolDepositFee n).isSome ∧
        (w.stakePool.calcPoolTokensStakeWithdrawalFee n).isSome ∧
        (w.stakePool.calcPoolTokensSolWithdrawalFee n).isSome ∧
        (w.stakePool.calcPoolTokensStakeReferralFee n).isSome ∧
        (w.stakePool.calcPoolTokensSolReferralFee n).isSome) ∧
      (w.stakePool.getLamportsPerPoolToken = none → w.stakePool.poolTokenSupply = 0) ∧
      (rt.CallsAvoid (.custom .calculationFailure) → ∀ accounts i, WithinBounds rt w accounts i →
        process rt w accounts i ≠ .error (.custom .calculationFailure))) := by
  obtain ⟨⟨s, hs, hle⟩, hb, hf⟩ := Backing.of_reach hl h
  refine ⟨hb, fun hT => ⟨fun d hd => ⟨?_, ?_, ?_, ?_⟩, fun s' n hs' hn => ?_, fun n hn => ?_, ?_,
    fun hc accounts i hi => process_calculates hl h hT hc hi⟩⟩
  · obtain ⟨t, ht, -⟩ := StakePool.calcPoolTokensForDeposit_eq_some hb hd
    exact Option.isSome_iff_exists.2 ⟨t, ht⟩
  · exact Option.isSome_iff_exists.2 (StakePool.calcEpochFeeAmount_eq_some hb (hf.active .epoch) hd)
  · exact StakePool.solDepositTokens_isSome hb hf hd
  · exact fun stake hst => StakePool.stakeDepositTokens_isSome hb hf hd hst
  · obtain rfl : s = s' := Option.some.inj (hs.symm.trans hs')
    have hnS := hn.trans hle
    obtain ⟨l, hl, -⟩ := StakePool.calcLamportsWithdrawAmount_eq_some hb hT hnS
    exact ⟨Option.isSome_iff_exists.2 ⟨l, hl⟩, StakePool.withdraws hb hT (hf.active .stakeWithdrawal) hnS,
      StakePool.withdraws hb hT (hf.active .solWithdrawal) hnS, StakePool.withdraws_free hb hT hnS⟩
  · have fees : ∀ {fee : Fee}, fee.atMostOne → (StakePool.calcPoolTokensFee fee n).isSome := by
      intro fee hfee
      obtain ⟨t, ht, -⟩ := calcPoolTokensFee_eq_some hfee hn
      exact Option.isSome_iff_exists.2 ⟨t, ht⟩
    have referral : ∀ {pct : UInt8}, pct ≤ 100 → (StakePool.calcReferralFee pct n).isSome := by
      intro pct hpct
      obtain ⟨t, ht, -⟩ := calcReferralFee_eq_some hpct hn
      exact Option.isSome_iff_exists.2 ⟨t, ht⟩
    exact ⟨fees hf.stakeDepositFee, fees hf.solDepositFee, fees (hf.active .stakeWithdrawal),
      fees (hf.active .solWithdrawal), referral hf.stakeReferralFee, referral hf.solReferralFee⟩
  · exact StakePool.getLamportsPerPoolToken_eq_none hb hT

section
open Reference

theorem Reference.callsAvoid (e : StakePoolError) : runtime.CallsAvoid (.custom e) where
  transfer _ _ := .bind (.ensure nofun) fun _ _ => .bind (.ensure nofun) fun _ _ => .pure
  split _ _ n src dst := by
    refine .bind (.ensure nofun) fun _ _ => .bind (.ensure nofun) fun _ _ => .bind (.orErr nofun) fun s _ =>
      .bind ?_ fun _ _ => .pure
    unfold splitState
    split
    · exact .bind (.ensure nofun) fun _ _ => .bind (.ensure nofun) fun _ _ => .bind (.ensure nofun) fun _ _ => .pure
    · exact .bind (.ensure nofun) fun _ _ => .bind (.ensure nofun) fun _ _ => .bind (.ensure nofun) fun _ _ => .pure
    · exact .error nofun
  merge _ _ _ src := by
    refine .bind (.ensure nofun) fun _ _ => .bind (.ensure nofun) fun _ _ => .bind (.orErr nofun) fun _ _ =>
      .bind (.orErr nofun) fun s _ => .bind (.orErr nofun) fun _ _ => .bind (.orErr nofun) fun _ _ =>
      .bind (.ensure nofun) fun _ _ => .bind (.ensure nofun) fun _ _ => .bind (.orErr nofun) fun pd _ =>
      .bind (.orErr nofun) fun ps _ => .bind (.ensure nofun) fun _ _ => .bind ?_ fun _ _ => .pure
    unfold gained
    split
    all_goals first
      | exact .ok
      | exact .error nofun
  withdraw _ _ _ _ := .bind (.ensure nofun) fun _ _ => .bind (.orErr nofun) fun _ _ =>
    .bind (.orErr nofun) fun _ _ => .bind (.ensure nofun) fun _ _ => .bind (.ensure nofun) fun _ _ =>
    .bind (.ensure nofun) fun _ _ => .pure
  authorize _ _ _ _ _ := .bind (.ensure nofun) fun _ _ => .bind (.orErr nofun) fun _ _ =>
    .bind (.orErr nofun) fun _ _ => .bind (.ensure nofun) fun _ _ => .pure
  mintTo _ _ _ _ _ := .bind (.orErr nofun) fun _ _ => .bind (.orErr nofun) fun _ _ =>
    .bind (.ensure nofun) fun _ _ => .bind (.ensure nofun) fun _ _ => .bind (.ensure nofun) fun _ _ => .pure
  burn _ _ _ _ _ := .bind (.orErr nofun) fun _ _ => .bind (.orErr nofun) fun _ _ =>
    .bind (.ensure nofun) fun _ _ => .bind (.ensure nofun) fun _ _ => .pure
  transferChecked _ _ _ _ _ _ _ := .bind (.orErr nofun) fun _ _ => .bind (.orErr nofun) fun _ _ =>
    .bind (.orErr nofun) fun _ _ => .bind (.ensure nofun) fun _ _ => .bind (.ensure nofun) fun _ _ =>
    .bind (.ensure nofun) fun _ _ => .pure

theorem arithmetic_never_fails_endowed :
    endowed.stakePool.poolTokenSupply ≤ endowed.stakePool.totalLamports ∧
      (endowed.stakePool.calcEpochFeeAmount 123456789).isSome ∧
      process runtime endowed [poolInfo, authorityInfo, signer user, tokensInfo, reserveInfo, writable user, feeInfo,
        mintInfo, clock, unused, stakeInfo, tokenInfo] (.withdrawSolWithSlippage 400000 0) ≠
          .error (.custom .calculationFailure) := by
  obtain ⟨hle, h⟩ := arithmetic_never_fails lawful reachable_endowed
  have h := h (by decide +kernel)
  exact ⟨hle, (h.1 123456789 (by decide +kernel)).2.1,
    h.2.2.2.2 (Reference.callsAvoid _) _ _ ⟨997717120, by decide +kernel, by decide⟩⟩

end

end SplStakePool
