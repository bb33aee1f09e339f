import SplStakePool.Properties.WithdrawalSources

/-!
# What a withdrawal reads and what its calls leave

Of the accounts of a withdrawal the checks depend on little: of the source on its lamports and its state, of the fee
account on all but its amount, of the mint on the decimals. These views are kept by the calls into the token and the
stake program, except the first one for the source and for the account that receives the stake. So the checks of a
later withdrawal are decided by the accounts as they were before an earlier one, when it is from another account.

`process_eq_ok_iff` takes the handler apart into what it computes, the plan and the calls.
-/

namespace SplStakePool
open Exec Machine Function

variable {Key : Type} [DecidableEq Key]

/-- The calls of a withdrawal into the token and the stake program. -/
def WithdrawStakeAccounts.chargedCalls (rt : Runtime Key) (a : WithdrawStakeAccounts Key) (sys : Sysvars)
    (accounts : Accounts Key) (poolTokensBurnt poolTokensFee decimals lamports : Nat) :
    Except ProgramError (Accounts Key) := do
  let accounts ← tokenBurn rt accounts a.burnFromPoolInfo a.poolMintInfo a.userTransferAuthorityInfo poolTokensBurnt
  let accounts ← stakeSplit rt sys accounts a.stakeSplitFrom a.withdrawAuthorityInfo lamports a.stakeSplitTo
  let accounts ← stakeAuthorizeSigned rt sys accounts a.stakeSplitTo a.withdrawAuthorityInfo
    a.userStakeAuthorityInfo.key
  transferFee rt accounts a.burnFromPoolInfo a.poolMintInfo a.managerFeeInfo a.userTransferAuthorityInfo
    poolTokensFee decimals

section
variable {rt : Runtime Key} {sys : Sysvars} {acc acc' acc'' : Accounts Key} {source stakeReceiver : Key}

/-- The lamports and the state of a stake account. -/
def stakeView (a : Account Key) : Option (Nat × StakeStateV2 Key) := a.stakeState?.map fun s => (a.lamports, s)

/-- What the check of a fee account depends on. -/
def tokenView (a : Account Key) : Key × Option (TokenAccount Key) :=
  (a.owner, a.token?.map fun t => { t with amount := 0 })

/-- The decimals of a mint. -/
def decimalsView (a : Account Key) : Option Nat := a.mint?.map (·.decimals)

/-- Stake accounts stay as they are but for the source and the receiver, other accounts but for the amounts of
tokens. -/
structure Keeps (source stakeReceiver : Key) (acc acc' : Accounts Key) : Prop where
  stake : ∀ k, k ≠ source → k ≠ stakeReceiver → stakeView (acc' k) = stakeView (acc k)
  token : ∀ k, tokenView (acc' k) = tokenView (acc k)
  decimals : ∀ k, decimalsView (acc' k) = decimalsView (acc k)

omit [DecidableEq Key] in
theorem Keeps.trans (h : Keeps source stakeReceiver acc acc') (h' : Keeps source stakeReceiver acc' acc'') :
    Keeps source stakeReceiver acc acc'' :=
  ⟨fun k hs hr => (h'.stake k hs hr).trans (h.stake k hs hr), fun k => (h'.token k).trans (h.token k),
    fun k => (h'.decimals k).trans (h.decimals k)⟩

omit [DecidableEq Key] in
theorem Keeps.refl : Keeps source stakeReceiver acc acc := ⟨fun _ _ _ => rfl, fun _ => rfl, fun _ => rfl⟩

theorem view_update {β : Type} (view : Account Key → β) {k : Key} {a : Account Key} (h : view a = view (acc k))
    (j : Key) : view (update acc k a j) = view (acc j) := by
  by_cases hj : j = k
  · rw [hj, update_self, h]
  · rw [update_of_ne hj]

/-- Replacing an account by one with the same views. -/
theorem Keeps.update {k : Key} {a : Account Key} (h : Keeps source stakeReceiver acc acc')
    (hstake : k = source ∨ k = stakeReceiver ∨ stakeView a = stakeView (acc k))
    (htoken : tokenView a = tokenView (acc k)) (hdecimals : decimalsView a = decimalsView (acc k)) :
    Keeps source stakeReceiver acc (Function.update acc' k a) := by
  refine ⟨fun j hs hr => ?_, fun j => ?_, fun j => ?_⟩
  · by_cases hj : j = k
    · subst hj
      rw [update_self]
      exact (hstake.resolve_left hs).resolve_left hr
    · rw [update_of_ne hj]
      exact h.stake j hs hr
  · rw [view_update tokenView (htoken.trans (h.token k).symm)]
    exact h.token j
  · rw [view_update decimalsView (hdecimals.trans (h.decimals k).symm)]
    exact h.decimals j

theorem tokenBurn_keeps {src mint auth : AccountInfo Key} {n : Nat} (hl : rt.Lawful)
    (h : tokenBurn rt acc src mint auth n = .ok acc') : Keeps source stakeReceiver acc acc' := by
  obtain ⟨-, -, t, m, ht, hm, -, -, -, rfl⟩ := tokenBurn_ok hl h
  refine (Keeps.refl.update (.inr (.inr ?_)) ?_ ?_).update (.inr (.inr ?_)) ?_ ?_
  all_goals simp only [stakeView, tokenView, decimalsView, Account.stakeState?, Account.token?, Account.mint?, ht, hm,
    Option.map_none, Option.map_some]

theorem tokenTransfer_keeps {src mint dst auth : AccountInfo Key} {n decimals : Nat} (hl : rt.Lawful)
    (h : tokenTransfer rt acc src mint dst auth n decimals = .ok acc') : Keeps source stakeReceiver acc acc' := by
  obtain ⟨-, t, u, r, ht, hu, -, -, -, -, rfl⟩ := tokenTransfer_ok hl h
  refine (Keeps.refl.update (.inr (.inr ?_)) ?_ ?_).update (.inr (.inr ?_)) ?_ ?_
  all_goals simp only [stakeView, tokenView, decimalsView, Account.stakeState?, Account.token?, Account.mint?, ht, hu,
    Option.map_none, Option.map_some]

theorem stakeSplit_keeps {src dst auth : AccountInfo Key} {n : Nat} (hl : rt.Lawful)
    (h : stakeSplit rt sys acc src auth n dst = .ok acc') : Keeps src.key dst.key acc acc' := by
  obtain ⟨-, hso, hdo, hdd, -, s, t, u, hs, -, -, rfl⟩ := stakeSplit_ok hl h
  refine (Keeps.refl.update (.inl rfl) ?_ ?_).update (.inr (.inl rfl)) ?_ ?_
  all_goals simp only [tokenView, decimalsView, Account.token?, Account.mint?, hs, hso, hdo, hdd, Option.map_none]

theorem stakeAuthorizeSigned_keeps {dst auth : AccountInfo Key} {new : Key} (hl : rt.Lawful)
    (h : stakeAuthorizeSigned rt sys acc dst auth new = .ok acc') : Keeps source dst.key acc acc' := by
  obtain ⟨-, s, m, hd, -, -, rfl⟩ := stakeAuthorizeSigned_ok hl h
  refine Keeps.refl.update (.inr (.inl rfl)) ?_ ?_
  all_goals simp only [tokenView, decimalsView, Account.token?, Account.mint?, hd, Option.map_none]

/-- The calls of a withdrawal leave the other stake accounts as they are. -/
theorem chargedCalls_keeps {a : WithdrawStakeAccounts Key} {burnt fee decimals lamports : Nat} (hl : rt.Lawful)
    (h : a.chargedCalls rt sys acc burnt fee decimals lamports = .ok acc') :
    Keeps a.stakeSplitFrom.key a.stakeSplitTo.key acc acc' := by
  simp only [WithdrawStakeAccounts.chargedCalls, bind_eq_ok] at h
  obtain ⟨acc₁, hburn, acc₂, hsplit, acc₃, hauthorize, htransfer⟩ := h
  have h₃ := ((tokenBurn_keeps hl hburn).trans (stakeSplit_keeps hl hsplit)).trans
    (stakeAuthorizeSigned_keeps hl hauthorize)
  rcases transferFee_eq_ok htransfer with ⟨-, htransfer⟩ | ⟨-, rfl⟩
  · exact h₃.trans (tokenTransfer_keeps hl htransfer)
  · exact h₃

end

section
variable {rt : Runtime Key} {w w' : World Key} {a : WithdrawStakeAccounts Key} {n : Nat}

theorem StakePool.withdrawalFee_congr {p : StakePool Key} {acc acc' : Accounts Key} {calcFee : Nat → Option Nat}
    {src feeInfo : AccountInfo Key} (h : tokenView (acc' feeInfo.key) = tokenView (acc feeInfo.key)) :
    p.withdrawalFee rt acc' calcFee src feeInfo n = p.withdrawalFee rt acc calcFee src feeInfo n := by
  simp only [tokenView, Prod.mk.injEq] at h
  obtain ⟨howner, htoken⟩ := h
  have hcheck : p.checkManagerFeeInfo rt acc' feeInfo = p.checkManagerFeeInfo rt acc feeInfo := by
    simp only [checkManagerFeeInfo, unpackToken, ownerOf, howner]
    cases ht : (acc feeInfo.key).token? with
    | none =>
      rw [ht, Option.map_none, Option.map_eq_none_iff] at htoken
      rw [htoken]
      rfl
    | some t =>
      rw [ht, Option.map_some, Option.map_eq_some_iff] at htoken
      obtain ⟨t', ht', heq⟩ := htoken
      rw [ht']
      simp only [TokenAccount.mk.injEq] at heq
      obtain ⟨hmint, -, -, hstate, hext⟩ := heq
      simp only [orErr, ok_bind, hmint, hstate, hext, bind_assoc, pure_bind]
      congr!
  rw [withdrawalFee, withdrawalFee, hcheck]

theorem paidLamports_congr {tokens : Nat} (hpool : w'.stakePool = w.stakePool)
    (h : tokenView (w'.accounts a.managerFeeInfo.key) = tokenView (w.accounts a.managerFeeInfo.key)) :
    paidLamports rt w' a tokens = paidLamports rt w a tokens := by
  rw [paidLamports, paidLamports, hpool, StakePool.withdrawalFee_congr h]

omit [DecidableEq Key] in
theorem stakeView_cases {b b' : Account Key} (h : stakeView b' = stakeView b) :
    b'.stakeState? = b.stakeState? ∧ (b.stakeState? = none ∨ b'.lamports = b.lamports) := by
  simp only [stakeView] at h
  cases hb : b.stakeState? with
  | none =>
    rw [hb, Option.map_none, Option.map_eq_none_iff] at h
    exact ⟨h, .inl rfl⟩
  | some s =>
    rw [hb, Option.map_some, Option.map_eq_some_iff] at h
    obtain ⟨s', hs', heq⟩ := h
    rw [Prod.mk.injEq] at heq
    exact ⟨hs'.trans (congrArg some heq.2), .inr heq.1⟩

omit [DecidableEq Key] in
theorem exists_mint {b b' : Account Key} {m : Mint Key} (h : decimalsView b' = decimalsView b) (hm : b.data = .mint m) :
    ∃ m', b'.data = .mint m' ∧ m'.decimals = m.decimals := by
  rw [decimalsView, decimalsView, Account.mint?_eq_some.2 hm, Option.map_some, Option.map_eq_some_iff] at h
  obtain ⟨m', hm', hdecimals⟩ := h
  exact ⟨m', Account.mint?_eq_some.1 hm', hdecimals⟩

theorem plan_congr {p : StakePool Key} {l : ValidatorList Key} (hsys : w'.sysvars = w.sysvars)
    (h : stakeView (w'.accounts a.stakeSplitFrom.key) = stakeView (w.accounts a.stakeSplitFrom.key)) :
    a.plan rt w' p l n = a.plan rt w p l n := by
  obtain ⟨hstate, hnone | hlamports⟩ := stakeView_cases h
  · simp only [WithdrawStakeAccounts.plan, readStakeState, hstate, hnone, orErr]
    rfl
  · simp only [WithdrawStakeAccounts.plan, WithdrawStakeAccounts.planReserve, WithdrawStakeAccounts.planValidator,
      readStakeState, hstate, hlamports, hsys]

end

section
variable {rt : Runtime Key} {w : World Key}

/-- The checks of an instruction that are about which accounts it names. -/
structure Served (rt : Runtime Key) (w : World Key) (a : WithdrawStakeAccounts Key) : Prop where
  stakeProgram : checkStakeProgram rt a.stakeProgramInfo.key = .ok ()
  pool : w.validStakePool rt a.stakePoolInfo = .ok w.stakePool
  mint : a.poolMintInfo.key = w.stakePool.poolMint
  listKey : w.stakePool.checkValidatorList a.validatorListInfo = .ok ()
  authority : w.stakePool.checkAuthorityWithdraw rt a.withdrawAuthorityInfo.key rt.programId a.stakePoolInfo.key =
    .ok ()
  fee : w.stakePool.managerFeeAccount = a.managerFeeInfo.key
  token : w.stakePool.tokenProgramId = a.tokenProgramInfo.key
  list : w.validValidatorList rt a.validatorListInfo = .ok w.validatorList

theorem process_eq_ok_iff {a : WithdrawStakeAccounts Key} {tokens : Nat} {w' : World Key} (h : Served rt w a) :
    a.process rt w tokens none = .ok w' ↔ ∃ m fee n plan accounts' p l,
      (w.accounts w.stakePool.poolMint).data = .mint m ∧ w.sysvars.epoch ≤ w.stakePool.lastUpdateEpoch ∧
      w.stakePool.withdrawalFee rt w.accounts w.stakePool.calcPoolTokensStakeWithdrawalFee a.burnFromPoolInfo
        a.managerFeeInfo tokens = .ok fee ∧ fee ≤ tokens ∧
      w.stakePool.withdrawLamports (tokens - fee) none = .ok n ∧
      a.plan rt w w.stakePool w.validatorList n = .ok plan ∧
      a.chargedCalls rt w.sysvars w.accounts (tokens - fee) fee m.decimals plan.withdrawLamports = .ok accounts' ∧
      (plan.stakePool w.stakePool).subWithdrawal (tokens - fee) plan.withdrawLamports = some p ∧
      w.validatorList.withdraw plan = .ok l ∧
      w' = { w with stakePool := p, validatorList := l, accounts := accounts' } := by
  simp only [WithdrawStakeAccounts.process, h.stakeProgram, h.pool, h.listKey, h.authority, h.list, ok_bind, bind_eq_ok,
    StakePool.checkMint, h.mint, h.fee, h.token, ensure_eq_ok, exists_unit, true_and, unpackMint, orErr_eq_ok,
    pure_eq_ok, Account.mint?_eq_some, checkedSub_eq_some, WithdrawStakeAccounts.chargedCalls]
  constructor
  · rintro ⟨_, ⟨m, hm, rfl⟩, hepoch, fee, hfee, _, ⟨hle, rfl⟩, n, hn, plan, hplan, acc₁, hburn, acc₂, hsplit, acc₃,
      hauthorize, acc₄, htransfer, p, hp, l, hl, rfl⟩
    exact ⟨m, fee, n, plan, acc₄, p, l, hm, hepoch, hfee, hle, hn, hplan,
      ⟨acc₁, hburn, acc₂, hsplit, acc₃, hauthorize, htransfer⟩, hp, hl, rfl⟩
  · rintro ⟨m, fee, n, plan, acc₄, p, l, hm, hepoch, hfee, hle, hn, hplan,
      ⟨acc₁, hburn, acc₂, hsplit, acc₃, hauthorize, htransfer⟩, hp, hl, rfl⟩
    exact ⟨_, ⟨m, hm, rfl⟩, hepoch, fee, hfee, _, ⟨hle, rfl⟩, n, hn, plan, hplan, acc₁, hburn, acc₂, hsplit, acc₃,
      hauthorize, acc₄, htransfer, p, hp, l, hl, rfl⟩

end

end SplStakePool
