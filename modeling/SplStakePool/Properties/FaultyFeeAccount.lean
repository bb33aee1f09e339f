import SplStakePool.Effect.Fees
import SplStakePool.Runtime.Session

/-!
# Exits with a faulty fee account

A withdrawal, or an update of the pool, with a manager fee account that cannot receive tokens runs in lockstep with
the same instruction on a state with a valid fee account and without the fee: the fee account is not touched, and
nothing else that is read differs. The instruction must not name the fee account in another place; an account to
burn pool tokens from, say, that is closed cannot be burnt from.

The two runs fail with the same error or both succeed, with worlds that differ as the ones before did (`Lockstep`). A
call that does not name the account is the same call in both, and the fee is not taken in either: in one because of the
account, in the other because it is nothing.
-/

namespace SplStakePool
open Exec Machine

variable {Key : Type} [DecidableEq Key] {rt : Runtime Key} {w w' : World Key}

/-! ## Calls that do not name an account -/

/-- Maps of accounts that differ in one account, which is `x` in the one and `y` in the other. -/
structure DifferAt (k : Key) (x y : Account Key) (acc acc' : Accounts Key) : Prop where
  left : acc k = x
  right : acc' k = y
  same : ∀ j, j ≠ k → acc' j = acc j

namespace DifferAt
variable {k : Key} {x y : Account Key} {acc acc' : Accounts Key} {sys : Sysvars}
  {src dst auth mint : AccountInfo Key} {n : Nat}

theorem update (h : DifferAt k x y acc acc') {j : Key} (hj : j ≠ k) (a : Account Key) :
    DifferAt k x y (Function.update acc j a) (Function.update acc' j a) where
  left := by rw [Function.update_of_ne hj.symm, h.left]
  right := by rw [Function.update_of_ne hj.symm, h.right]
  same i hi := by
    by_cases hij : i = j
    · rw [hij, Function.update_self, Function.update_self]
    · rw [Function.update_of_ne hij, Function.update_of_ne hij, h.same i hi]

variable (h : DifferAt k x y acc acc')
include h

theorem tokenBurn (hs : src.key ≠ k) (hm : mint.key ≠ k) :
    Lockstep (DifferAt k x y) (tokenBurn rt acc src mint auth n) (tokenBurn rt acc' src mint auth n) := by
  simp only [SplStakePool.tokenBurn, h.same _ hs, h.same _ hm]
  refine .step rfl fun _ _ => .step rfl fun r _ => .pure ?_
  exact (h.update hs r.1).update hm r.2

theorem stakeSplit (hs : src.key ≠ k) (hd : dst.key ≠ k) :
    Lockstep (DifferAt k x y) (stakeSplit rt sys acc src auth n dst)
      (stakeSplit rt sys acc' src auth n dst) := by
  simp only [SplStakePool.stakeSplit, h.same _ hs, h.same _ hd]
  refine .step rfl fun r _ => .pure ?_
  exact (h.update hs r.1).update hd r.2

theorem stakeAuthorizeSigned (hd : dst.key ≠ k) (new : Key) :
    Lockstep (DifferAt k x y) (stakeAuthorizeSigned rt sys acc dst auth new)
      (stakeAuthorizeSigned rt sys acc' dst auth new) := by
  simp only [SplStakePool.stakeAuthorizeSigned, h.same _ hd]
  exact .step rfl fun _ _ => .step rfl fun a _ => .pure (h.update hd a)

theorem stakeWithdraw (hs : src.key ≠ k) (hd : dst.key ≠ k) :
    Lockstep (DifferAt k x y) (stakeWithdraw rt sys acc src auth dst n)
      (stakeWithdraw rt sys acc' src auth dst n) := by
  simp only [SplStakePool.stakeWithdraw, h.same _ hs]
  refine .step rfl fun a _ => .pure ?_
  have h := h.update hs a
  rw [h.same _ hd]
  exact h.update hd _

end DifferAt

/-- The pool with another active fee. -/
def StakePool.setActiveFee (p : StakePool Key) (z : Fee) : ScheduledFee → StakePool Key
  | .epoch => { p with epochFee := z }
  | .stakeWithdrawal => { p with stakeWithdrawalFee := z }
  | .solWithdrawal => { p with solWithdrawalFee := z }

/-- The fee that an exit charges, or the update that exits wait for. -/
def StakePoolInstruction.charges : StakePoolInstruction Key → Option ScheduledFee
  | .withdrawSol _ | .withdrawSolWithSlippage _ _ => some .solWithdrawal
  | .withdrawStake _ | .withdrawStakeWithSlippage _ _ => some .stakeWithdrawal
  | .updateStakePoolBalance => some .epoch
  | _ => none

/-- The place of the manager fee account among the accounts of the instructions that charge the fee. -/
def ScheduledFee.place : ScheduledFee → Nat
  | .epoch => 4
  | .stakeWithdrawal => 8
  | .solWithdrawal => 6

namespace World

/-- The state with another manager fee account, and another fee. -/
def repair (w : World Key) (f : ScheduledFee) (z : Fee) (b : Account Key) : World Key :=
  { w with
    stakePool := w.stakePool.setActiveFee z f
    accounts := Function.update w.accounts w.stakePool.managerFeeAccount b }

variable (rt) in
/-- The manager fee account passes the check. -/
def FeeAccountValid (w : World Key) : Prop :=
  w.stakePool.checkManagerFeeInfo rt w.accounts ⟨w.stakePool.managerFeeAccount, false, false⟩ = .ok ()

instance (w : World Key) : Decidable (w.FeeAccountValid rt) :=
  match h : w.stakePool.checkManagerFeeInfo rt w.accounts ⟨w.stakePool.managerFeeAccount, false, false⟩ with
  | .ok _ => .isTrue h
  | .error _ => .isFalse fun hv => by rw [FeeAccountValid, h] at hv; cases hv

/-- The same states apart from the fee and the fee account, which are as before. -/
structure SameApart (f : ScheduledFee) (z : Fee) (k : Key) (x y : Account Key) (w w' : World Key) : Prop where
  sysvars : w'.sysvars = w.sysvars
  stakePoolDataLen : w'.stakePoolDataLen = w.stakePoolDataLen
  validatorListDataLen : w'.validatorListDataLen = w.validatorListDataLen
  validatorList : w'.validatorList = w.validatorList
  stakePool : w'.stakePool.setActiveFee z f = w.stakePool.setActiveFee z f
  accounts : DifferAt k x y w.accounts w'.accounts

end World

/-! ## The handlers in lockstep -/

section
variable {f : ScheduledFee} {z : Fee} {b : Account Key} {info : AccountInfo Key}

theorem ownerOf_update {acc : Accounts Key} {j k : Key} (h : j ≠ k) (b : Account Key) :
    ownerOf rt (Function.update acc k b) j = ownerOf rt acc j := by
  simp only [ownerOf, Function.update_of_ne h]

namespace World

theorem repair_accounts (w : World Key) (f : ScheduledFee) (z : Fee) (b : Account Key) :
    DifferAt w.stakePool.managerFeeAccount (w.accounts w.stakePool.managerFeeAccount) b w.accounts
      (w.repair f z b).accounts :=
  ⟨rfl, Function.update_self .., fun _ hj => Function.update_of_ne hj ..⟩

theorem validStakePool_repair (h : info.key ≠ w.stakePool.managerFeeAccount) :
    Lockstep (fun p p' => p = w.stakePool ∧ p' = (w.repair f z b).stakePool) (w.validStakePool rt info)
      ((w.repair f z b).validStakePool rt info) := by
  have hvalid : (w.repair f z b).stakePool.isValid = w.stakePool.isValid := by cases f <;> rfl
  simp only [validStakePool, checkAccountOwner, readStakePool]
  refine .step ?_ fun _ _ => ?_
  · rw [repair, ownerOf_update h]
  · split
    · simp only [ok_bind, hvalid]
      exact .step rfl fun _ _ => .pure ⟨rfl, rfl⟩
    · exact .error _

theorem validValidatorList_repair (h : info.key ≠ w.stakePool.managerFeeAccount) :
    (w.repair f z b).validValidatorList rt info = w.validValidatorList rt info := by
  simp only [validValidatorList, checkAccountOwner, repair, ownerOf_update h]
  rfl

end World

theorem StakePool.checkMint_of_eq {p p' : StakePool Key} {acc acc' : Accounts Key}
    (hp : p'.poolMint = p.poolMint) (h : acc' info.key = acc info.key) :
    p'.checkMint acc' info = p.checkMint acc info := by
  rw [StakePool.checkMint, StakePool.checkMint, hp, h]

/-- No fee is taken without a valid fee account. -/
theorem StakePool.withdrawalFee_of_invalid {calcFee : Nat → Option Nat} {src : AccountInfo Key} {n : Nat}
    (hf : ¬ w.FeeAccountValid rt) (hk : w.stakePool.managerFeeAccount = info.key) :
    w.stakePool.withdrawalFee rt w.accounts calcFee src info n = .ok 0 := by
  have hf : w.stakePool.checkManagerFeeInfo rt w.accounts info ≠ .ok () := fun h => hf <| by
    rw [World.FeeAccountValid, hk]
    exact h
  rw [StakePool.withdrawalFee]
  split
  · rfl
  · cases h : w.stakePool.checkManagerFeeInfo rt w.accounts info with
    | ok u => exact absurd h hf
    | error e => rfl

omit [DecidableEq Key] in
theorem StakePool.setActiveFee_setActiveFee (p : StakePool Key) (z : Fee) (f : ScheduledFee) :
    (p.setActiveFee z f).setActiveFee z f = p.setActiveFee z f := by
  cases f <;> rfl

omit [DecidableEq Key] in
theorem StakePool.subWithdrawal_setActiveFee (p : StakePool Key) (z : Fee) (f : ScheduledFee) (n m : Nat) :
    (p.setActiveFee z f).subWithdrawal n m = (p.subWithdrawal n m).map fun p => p.setActiveFee z f := by
  cases f <;> simp only [setActiveFee, subWithdrawal] <;> cases checkedSub p.poolTokenSupply n <;> try rfl
  all_goals cases checkedSub p.totalLamports m <;> rfl

theorem WithdrawSolAccounts.process_lockstep {a : WithdrawSolAccounts Key} (hz : z.numerator = 0)
    (hf : ¬ w.FeeAccountValid rt) (hpool : a.stakePoolInfo.key ≠ w.stakePool.managerFeeAccount)
    (hburn : a.burnFromPoolInfo.key ≠ w.stakePool.managerFeeAccount)
    (hreserve : a.reserveStakeInfo.key ≠ w.stakePool.managerFeeAccount)
    (hdestination : a.destinationLamportsInfo.key ≠ w.stakePool.managerFeeAccount)
    (hmint : a.poolMintInfo.key ≠ w.stakePool.managerFeeAccount) (n : Nat) (minimum : Option Nat) :
    Lockstep (World.SameApart .solWithdrawal z w.stakePool.managerFeeAccount
        (w.accounts w.stakePool.managerFeeAccount) b)
      (a.process rt w n minimum) (a.process rt (w.repair .solWithdrawal z b) n minimum) := by
  have hacc := w.repair_accounts .solWithdrawal z b
  simp only [WithdrawSolAccounts.process]
  refine (World.validStakePool_repair hpool).bind ?_
  rintro _ _ ⟨rfl, rfl⟩
  refine .step rfl fun _ _ => .step rfl fun _ _ => .step (StakePool.checkMint_of_eq rfl (hacc.same _ hmint)) fun _ _ =>
    .step rfl fun _ _ => .step rfl fun _ _ => .step rfl fun _ _ => .step rfl fun _ hk => .step rfl fun _ _ => ?_
  -- neither run charges a fee
  have hfree : (w.repair .solWithdrawal z b).stakePool.withdrawalFee rt (w.repair .solWithdrawal z b).accounts
      (w.repair .solWithdrawal z b).stakePool.calcPoolTokensSolWithdrawalFee a.burnFromPoolInfo a.managerFeeInfo n =
      .ok 0 := StakePool.withdrawalFee_of_zero (StakePool.calcPoolTokensFee_zero (.inl hz) n)
  rw [StakePool.withdrawalFee_of_invalid hf (ensure_eq_ok.1 hk), hfree]
  simp only [ok_bind, hacc.same _ hreserve]
  refine .step rfl fun burnt _ => .step rfl fun lamports _ => .step rfl fun _ _ => ?_
  refine (hacc.tokenBurn hburn hmint).bind fun acc acc' hacc => ?_
  refine Lockstep.bind (.pure hacc) fun acc acc' hacc => ?_
  refine (hacc.stakeWithdraw hreserve hdestination).bind fun acc acc' hacc => ?_
  rw [World.repair, StakePool.subWithdrawal_setActiveFee]
  refine (Lockstep.orErr_map _ _ _).bind fun p p' hp => .pure ⟨rfl, rfl, rfl, rfl, ?_, hacc⟩
  rw [hp, StakePool.setActiveFee_setActiveFee]

theorem WithdrawPlan.stakePool_setActiveFee (plan : WithdrawPlan Key) (p : StakePool Key) (z : Fee)
    (f : ScheduledFee) : plan.stakePool (p.setActiveFee z f) = (plan.stakePool p).setActiveFee z f := by
  simp only [WithdrawPlan.stakePool]
  split
  · cases f <;> rfl
  · rfl

theorem WithdrawStakeAccounts.plan_repair {a : WithdrawStakeAccounts Key}
    (hfrom : a.stakeSplitFrom.key ≠ w.stakePool.managerFeeAccount) (l : ValidatorList Key) (n : Nat) :
    a.plan rt (w.repair .stakeWithdrawal z b) (w.repair .stakeWithdrawal z b).stakePool l n =
      a.plan rt w w.stakePool l n := by
  have hacc := w.repair_accounts .stakeWithdrawal z b
  simp only [plan, planReserve, planValidator, hacc.same _ hfrom]
  rfl

theorem WithdrawStakeAccounts.process_lockstep {a : WithdrawStakeAccounts Key} (hz : z.numerator = 0)
    (hf : ¬ w.FeeAccountValid rt) (hpool : a.stakePoolInfo.key ≠ w.stakePool.managerFeeAccount)
    (hlist : a.validatorListInfo.key ≠ w.stakePool.managerFeeAccount)
    (hfrom : a.stakeSplitFrom.key ≠ w.stakePool.managerFeeAccount)
    (hto : a.stakeSplitTo.key ≠ w.stakePool.managerFeeAccount)
    (hburn : a.burnFromPoolInfo.key ≠ w.stakePool.managerFeeAccount)
    (hmint : a.poolMintInfo.key ≠ w.stakePool.managerFeeAccount) (n : Nat) (minimum : Option Nat) :
    Lockstep (World.SameApart .stakeWithdrawal z w.stakePool.managerFeeAccount
        (w.accounts w.stakePool.managerFeeAccount) b)
      (a.process rt w n minimum) (a.process rt (w.repair .stakeWithdrawal z b) n minimum) := by
  have hacc := w.repair_accounts .stakeWithdrawal z b
  simp only [WithdrawStakeAccounts.process]
  refine .step rfl fun _ _ => (World.validStakePool_repair hpool).bind ?_
  rintro _ _ ⟨rfl, rfl⟩
  refine .step (StakePool.checkMint_of_eq rfl (hacc.same _ hmint)) fun _ _ => .step rfl fun _ _ => .step rfl fun _ _ =>
    .step rfl fun _ hk => .step rfl fun _ _ => .step rfl fun _ _ =>
    .step (World.validValidatorList_repair hlist) fun _ _ => ?_
  -- neither run charges a fee
  have hfree : (w.repair .stakeWithdrawal z b).stakePool.withdrawalFee rt (w.repair .stakeWithdrawal z b).accounts
      (w.repair .stakeWithdrawal z b).stakePool.calcPoolTokensStakeWithdrawalFee a.burnFromPoolInfo a.managerFeeInfo
      n = .ok 0 := StakePool.withdrawalFee_of_zero (StakePool.calcPoolTokensFee_zero (.inl hz) n)
  rw [StakePool.withdrawalFee_of_invalid hf (ensure_eq_ok.1 hk), hfree]
  simp only [ok_bind]
  refine .step rfl fun burnt _ => .step rfl fun lamports _ => .step (plan_repair hfrom _ _) fun plan _ => ?_
  refine (hacc.tokenBurn hburn hmint).bind fun acc acc' hacc => ?_
  refine (hacc.stakeSplit hfrom hto).bind fun acc acc' hacc => ?_
  refine (hacc.stakeAuthorizeSigned hto _).bind fun acc acc' hacc => ?_
  refine Lockstep.bind (.pure hacc) fun acc acc' hacc => ?_
  rw [World.repair, WithdrawPlan.stakePool_setActiveFee, StakePool.subWithdrawal_setActiveFee]
  refine (Lockstep.orErr_map _ _ _).bind fun p p' hp => .step rfl fun _ _ => .pure ⟨rfl, rfl, rfl, rfl, ?_, hacc⟩
  rw [hp, StakePool.setActiveFee_setActiveFee]

omit [DecidableEq Key] in
/-- Without an epoch fee nothing is minted on a reward, as long as there are pool tokens. -/
theorem StakePool.calcEpochFeeAmount_zero {p : StakePool Key} {d : Nat} (hz : p.epochFee.numerator = 0)
    (hs : 0 < p.poolTokenSupply) (hd : 0 < d → p.totalLamports + d < 2 ^ 64) :
    p.calcEpochFeeAmount d = some 0 := by
  simp only [calcEpochFeeAmount]
  split
  · rfl
  · have hlt := hd (by omega)
    simp only [Option.bind_eq_bind, checkedAdd_of_lt (show p.totalLamports + d < 2 ^ 128 by omega), Option.bind_some,
      Fee.apply_zero (.inl hz)]
    rw [if_neg (by omega)]
    simp only [checkedMul_of_lt (show p.poolTokenSupply * 0 < 2 ^ 128 by omega), Option.bind_some,
      checkedSub_of_le (Nat.zero_le (p.totalLamports + d)), Nat.mul_zero, Nat.sub_zero,
      checkedDiv_eq_some.2 ⟨show p.totalLamports + d ≠ 0 by omega, Nat.zero_div _⟩]
    rfl

theorem StakePool.epochFeeToMint_of_invalid {n : Nat} (hf : ¬ w.FeeAccountValid rt)
    (hk : w.stakePool.managerFeeAccount = info.key) :
    w.stakePool.epochFeeToMint rt w.accounts info n = .ok 0 := by
  rw [StakePool.epochFeeToMint]
  cases h : w.stakePool.checkManagerFeeInfo rt w.accounts info with
  | ok u =>
    refine absurd ?_ hf
    rw [World.FeeAccountValid, hk]
    exact h
  | error e => rfl

theorem StakePool.epochFeeToMint_of_zero {p : StakePool Key} {acc : Accounts Key} {n : Nat}
    (h : p.calcEpochFeeAmount n = some 0) : p.epochFeeToMint rt acc info n = .ok 0 := by
  rw [StakePool.epochFeeToMint, h]
  split <;> rfl

theorem UpdateStakePoolBalanceAccounts.process_lockstep {a : UpdateStakePoolBalanceAccounts Key}
    (hz : z.numerator = 0) (hf : ¬ w.FeeAccountValid rt) (hsupply : 0 < w.stakePool.poolTokenSupply)
    (hlt : (w.accounts w.stakePool.reserveStake).lamports < 2 ^ 64)
    (hpool : a.stakePoolInfo.key ≠ w.stakePool.managerFeeAccount)
    (hlist : a.validatorListInfo.key ≠ w.stakePool.managerFeeAccount)
    (hreserve : a.reserveStakeInfo.key ≠ w.stakePool.managerFeeAccount)
    (hmint : a.poolMintInfo.key ≠ w.stakePool.managerFeeAccount) :
    Lockstep (World.SameApart .epoch z w.stakePool.managerFeeAccount (w.accounts w.stakePool.managerFeeAccount) b)
      (a.process rt w) (a.process rt (w.repair .epoch z b)) := by
  have hacc := w.repair_accounts .epoch z b
  simp only [UpdateStakePoolBalanceAccounts.process]
  refine (World.validStakePool_repair hpool).bind ?_
  rintro _ _ ⟨rfl, rfl⟩
  refine .step (StakePool.checkMint_of_eq rfl (hacc.same _ hmint)) fun _ _ => .step rfl fun _ _ =>
    .step rfl fun _ hr => .step rfl fun _ hk => .step rfl fun _ _ => .step rfl fun _ _ =>
    .step (World.validValidatorList_repair hlist) fun l _ =>
    .step (by rw [hacc.same _ hreserve]) fun reserve hreserve => .step rfl fun slice _ => .step rfl fun total hsum => ?_
  have htotal : total < 2 ^ 64 := by
    obtain ⟨-, htotal, hslice⟩ := sumStakeLamports_eq_ok.1 hsum
    obtain ⟨m, -, -, hle⟩ := reserveLamportsAvailable_eq_ok hreserve
    rw [ensure_eq_ok.1 hr] at hle
    rcases hslice with rfl | h
    · rw [recordedLamports_nil] at htotal
      omega
    · exact h
  -- neither run mints a fee
  have hfree : (w.repair .epoch z b).stakePool.epochFeeToMint rt (w.repair .epoch z b).accounts a.managerFeeInfo
      (saturatingSub total (w.repair .epoch z b).stakePool.totalLamports) = .ok 0 := by
    have hprevious : (w.repair .epoch z b).stakePool.totalLamports = w.stakePool.totalLamports := rfl
    refine StakePool.epochFeeToMint_of_zero (StakePool.calcEpochFeeAmount_zero hz hsupply fun hpos => ?_)
    rw [saturatingSub_eq, hprevious] at hpos ⊢
    omega
  rw [StakePool.epochFeeToMint_of_invalid hf (ensure_eq_ok.1 hk), hfree]
  simp only [ok_bind, gt_iff_lt, Nat.lt_irrefl, if_false]
  refine Lockstep.bind (.pure hacc) fun acc acc' hacc => .step (by rw [hacc.same _ hmint]) fun m _ =>
    .pure ⟨rfl, rfl, rfl, rfl, ?_, hacc⟩
  have hlast : (w.repair .epoch z b).stakePool.lastUpdateEpoch = w.stakePool.lastUpdateEpoch := rfl
  have hsys : (w.repair .epoch z b).sysvars = w.sysvars := rfl
  simp only [hlast, hsys]
  split <;> rfl

end

section
variable {accounts rest : List (AccountInfo Key)}

omit [DecidableEq Key] in
theorem WithdrawSolAccounts.parse_others {a : WithdrawSolAccounts Key} (h : parse accounts = .ok (a, rest)) :
    ∀ info ∈ [a.stakePoolInfo, a.burnFromPoolInfo, a.reserveStakeInfo, a.destinationLamportsInfo, a.poolMintInfo],
      info ∈ accounts.eraseIdx ScheduledFee.solWithdrawal.place := by
  simp only [parse, nextAccountInfo_bind] at h
  obtain ⟨_, _, rfl, _, _, rfl, _, _, rfl, _, _, rfl, _, _, rfl, _, _, rfl, _, _, rfl, _, _, rfl, _, _, rfl, _, _, rfl,
    _, _, rfl, _, _, rfl, h⟩ := h
  cases h
  simp [ScheduledFee.place]

theorem WithdrawStakeAccounts.parse_others {a : WithdrawStakeAccounts Key}
    (h : (parse rt).run accounts = .ok (a, rest)) :
    ∀ info ∈ [a.stakePoolInfo, a.validatorListInfo, a.stakeSplitFrom, a.stakeSplitTo, a.burnFromPoolInfo,
      a.poolMintInfo], info ∈ accounts.eraseIdx ScheduledFee.stakeWithdrawal.place := by
  change parse rt accounts = _ at h
  simp only [parse, nextAccountInfo_bind, nextSysvar_bind] at h
  obtain ⟨_, _, rfl, _, _, rfl, _, _, rfl, _, _, rfl, _, _, rfl, _, _, rfl, _, _, rfl, _, _, rfl, _, _, rfl, _, _, rfl,
    _, _, rfl, -, _, _, rfl, _, _, rfl, h⟩ := h
  cases h
  simp [ScheduledFee.place]

omit [DecidableEq Key] in
theorem UpdateStakePoolBalanceAccounts.parse_others {a : UpdateStakePoolBalanceAccounts Key}
    (h : parse accounts = .ok (a, rest)) :
    ∀ info ∈ [a.stakePoolInfo, a.validatorListInfo, a.reserveStakeInfo, a.poolMintInfo],
      info ∈ accounts.eraseIdx ScheduledFee.epoch.place := by
  simp only [parse, nextAccountInfo_bind] at h
  obtain ⟨_, _, rfl, _, _, rfl, _, _, rfl, _, _, rfl, _, _, rfl, _, _, rfl, _, _, rfl, h⟩ := h
  cases h
  simp [ScheduledFee.place]

end

/-- With a fee account that is not valid, an exit or an update runs as with any other fee account and no fee, and
neither run touches the fee account, which the instruction does not name in another place. -/
theorem faulty_fee_account_never_blocks [Inhabited Key] {z : Fee} {f : ScheduledFee} {i : StakePoolInstruction Key}
    {accounts : List (AccountInfo Key)} (hf : ¬ w.FeeAccountValid rt) (hz : z.numerator = 0)
    (hi : i.charges = some f)
    (honly : ∀ info ∈ accounts.eraseIdx f.place, info.key ≠ w.stakePool.managerFeeAccount)
    (hupdate : f = .epoch → 0 < w.stakePool.poolTokenSupply ∧
      (w.accounts w.stakePool.reserveStake).lamports < 2 ^ 64) (b : Account Key) :
    Lockstep (World.SameApart f z w.stakePool.managerFeeAccount (w.accounts w.stakePool.managerFeeAccount) b)
      (process rt w accounts i) (process rt (w.repair f z b) accounts i) := by
  have hsol : f = .solWithdrawal → ∀ n minimum, Lockstep (World.SameApart f z w.stakePool.managerFeeAccount
      (w.accounts w.stakePool.managerFeeAccount) b) (processWithdrawSol rt w accounts n minimum)
      (processWithdrawSol rt (w.repair f z b) accounts n minimum) := by
    rintro rfl n minimum
    refine .step rfl fun ⟨a, rest⟩ hp => ?_
    have hne := fun info h => honly info (WithdrawSolAccounts.parse_others hp info h)
    simp only [List.forall_mem_cons] at hne
    obtain ⟨hpool, hburn, hreserve, hdestination, hmint, -⟩ := hne
    exact a.process_lockstep hz hf hpool hburn hreserve hdestination hmint n minimum
  have hstake : f = .stakeWithdrawal → ∀ n minimum, Lockstep (World.SameApart f z w.stakePool.managerFeeAccount
      (w.accounts w.stakePool.managerFeeAccount) b) (processWithdrawStake rt w accounts n minimum)
      (processWithdrawStake rt (w.repair f z b) accounts n minimum) := by
    rintro rfl n minimum
    refine .step rfl fun ⟨a, rest⟩ hp => ?_
    have hne := fun info h => honly info (WithdrawStakeAccounts.parse_others hp info h)
    simp only [List.forall_mem_cons] at hne
    obtain ⟨hpool, hlist, hfrom, hto, hburn, hmint, -⟩ := hne
    exact a.process_lockstep hz hf hpool hlist hfrom hto hburn hmint n minimum
  cases i <;> cases hi
  case withdrawSol n => exact hsol rfl n none
  case withdrawSolWithSlippage n minimum => exact hsol rfl n (some minimum)
  case withdrawStake n => exact hstake rfl n none
  case withdrawStakeWithSlippage n minimum => exact hstake rfl n (some minimum)
  case updateStakePoolBalance =>
    obtain ⟨hsupply, hlt⟩ := hupdate rfl
    refine .step rfl fun ⟨a, rest⟩ hp => ?_
    have hne := fun info h => honly info (UpdateStakePoolBalanceAccounts.parse_others hp info h)
    simp only [List.forall_mem_cons] at hne
    obtain ⟨hpool, hlist, hreserve, hmint, -⟩ := hne
    exact a.process_lockstep hz hf hsupply hlt hpool hlist hreserve hmint

section
open Reference

/-- A pool whose manager has closed the fee account after a user deposited. -/
def unclaimed : World Reference.Key :=
  (next gainedPool (depositSol 1000003 0)).setAccount managerFeeAccount ⟨0, systemProgram, .none⟩

/-- A fee account with tokens. -/
def filled : Account Reference.Key :=
  ⟨rent 165, wallet 3, .token ⟨poolMint, manager, 1000000, .initialized, []⟩⟩

/-- The accounts of a `WithdrawSol` of pool tokens of the manager or of the user. -/
def withdrawSolAccounts (authority burnFrom : Reference.Key) : List (AccountInfo Reference.Key) :=
  [poolInfo, authorityInfo, signer authority, Reference.writable burnFrom, reserveInfo, Reference.writable user,
    feeInfo, mintInfo, clock, Reference.unused, stakeInfo, tokenInfo]

theorem faulty_fee_account_never_blocks_unclaimed : ∃ w₁ w₂,
    process runtime unclaimed (withdrawSolAccounts user userTokens) (.withdrawSol 400000) = .ok w₁ ∧
    process runtime (unclaimed.repair .solWithdrawal noFee filled) (withdrawSolAccounts user userTokens)
      (.withdrawSol 400000) = .ok w₂ ∧
    World.SameApart .solWithdrawal noFee managerFeeAccount ⟨0, systemProgram, .none⟩ filled w₁ w₂ := by
  have h : Lockstep _ (process runtime unclaimed (withdrawSolAccounts user userTokens) (.withdrawSol 400000))
      (process runtime (unclaimed.repair .solWithdrawal noFee filled) (withdrawSolAccounts user userTokens)
        (.withdrawSol 400000)) :=
    faulty_fee_account_never_blocks (by decide +kernel) rfl rfl (by decide +kernel) (fun h => by cases h) filled
  have hok : (process runtime unclaimed (withdrawSolAccounts user userTokens)
      (.withdrawSol 400000)).toOption.isSome := by decide +kernel
  cases h₁ : process runtime unclaimed (withdrawSolAccounts user userTokens) (.withdrawSol 400000) with
  | error e => rw [h₁] at hok; cases hok
  | ok w₁ =>
    rw [h₁] at h
    obtain ⟨w₂, h₂, hs⟩ := h.of_ok
    exact ⟨w₁, w₂, rfl, h₂, hs⟩

/-- The manager cannot burn from the closed account. -/
theorem faulty_fee_account_blocks_itself :
    ¬ unclaimed.FeeAccountValid runtime ∧
    (unclaimed.repair .solWithdrawal noFee filled).FeeAccountValid runtime ∧
    (process runtime unclaimed (withdrawSolAccounts manager managerFeeAccount) (.withdrawSol 400000)).toOption.isNone ∧
    (process runtime (unclaimed.repair .solWithdrawal noFee filled) (withdrawSolAccounts manager managerFeeAccount)
      (.withdrawSol 400000)).toOption.isSome := by
  exact ⟨by decide +kernel, by decide +kernel, by decide +kernel, by decide +kernel⟩

end

end SplStakePool
