import SplStakePool.Invariant.Cpi

/-!
# What a withdrawal that succeeds has done

For each handler of `Processor/Withdraw.lean`: the checks that held, the calls that were made and the
world that is left.

The plan of a withdrawal of stake has one constructor for each source, with the conditions under which the program
uses it (`Planned`). Exactly when a whole account is taken, the lamports that are subtracted from the counters are not
those computed from the tokens.
-/

namespace SplStakePool
open Exec Machine

variable {Key : Type} {minimum : Option Nat}

theorem StakePool.calcLamportsWithdrawAmount_floor {p : StakePool Key} {t n : Nat}
    (h : p.calcLamportsWithdrawAmount t = some n) : n = t * p.totalLamports / p.poolTokenSupply := by
  simp only [calcLamportsWithdrawAmount, Option.bind_eq_bind, Option.bind_eq_some_iff,
    checkedMul_eq_some] at h
  obtain ⟨_, ⟨-, rfl⟩, h⟩ := h
  split at h
  · rename_i h0
    cases h
    rcases h0 with h0 | h0
    · rw [Nat.div_eq_of_lt h0]
    · rw [h0, Nat.div_zero]
  · simp only [Option.bind_eq_some_iff, checkedDiv_eq_some, tryFrom_eq_some] at h
    obtain ⟨_, ⟨-, rfl⟩, -, rfl⟩ := h
    rfl

/-- The lamports paid for tokens are no more than their part of the pool. -/
theorem StakePool.calcLamportsWithdrawAmount_le {p : StakePool Key} {t n : Nat}
    (h : p.calcLamportsWithdrawAmount t = some n) : n * p.poolTokenSupply ≤ t * p.totalLamports := by
  rw [calcLamportsWithdrawAmount_floor h]
  exact Nat.div_mul_le_self _ _

/-- The lamports of a withdrawal before a whole account is taken. -/
structure StakePool.WithdrawLamports (p : StakePool Key) (burnt : Nat) (minimum : Option Nat)
    (n : Nat) : Prop where
  pos : 0 < n
  minimum : ∀ m, minimum = some m → m ≤ n
  share : n * p.poolTokenSupply ≤ burnt * p.totalLamports

theorem StakePool.withdrawLamports_priced {p : StakePool Key} {burnt n : Nat}
    (h : p.withdrawLamports burnt minimum = .ok n) :
    p.WithdrawLamports burnt minimum n ∧ p.calcLamportsWithdrawAmount burnt = some n := by
  simp only [withdrawLamports, bind_eq_ok, orErr_eq_ok, ensure_eq_ok, exists_unit, pure_eq_ok] at h
  obtain ⟨_, hn, h0, hm, rfl⟩ := h
  refine ⟨⟨Nat.pos_of_ne_zero h0, fun m he => ?_, calcLamportsWithdrawAmount_le hn⟩, hn⟩
  subst he
  simpa using hm

theorem StakePool.withdrawLamports_eq_ok {p : StakePool Key} {burnt n : Nat}
    (h : p.withdrawLamports burnt minimum = .ok n) : p.WithdrawLamports burnt minimum n :=
  (withdrawLamports_priced h).1

theorem StakePool.subWithdrawal_eq_some {p p' : StakePool Key} {tokens lamports : Nat}
    (h : p.subWithdrawal tokens lamports = some p') :
    tokens ≤ p.poolTokenSupply ∧ lamports ≤ p.totalLamports ∧ p' = { p with
      poolTokenSupply := p.poolTokenSupply - tokens
      totalLamports := p.totalLamports - lamports } := by
  simp only [subWithdrawal, Option.bind_eq_bind, Option.bind_eq_some_iff, checkedSub_eq_some,
    Option.pure_def, Option.some.injEq] at h
  obtain ⟨_, ⟨ht, rfl⟩, _, ⟨hl, rfl⟩, rfl⟩ := h
  exact ⟨ht, hl, rfl⟩

variable [DecidableEq Key] {rt : Runtime Key} {w w' : World Key} {accounts : List (AccountInfo Key)}

/-- A successful `WithdrawSol` of `n` lamports for `burnt` tokens: the accounts after the tokens were
burnt and after the fee was transferred. -/
structure WithdrawSolAccounts.Ok (rt : Runtime Key) (w w' : World Key) (a : WithdrawSolAccounts Key)
    (tokens : Nat) (minimum : Option Nat) (fee decimals n : Nat) (acc₁ acc₂ : Accounts Key) : Prop where
  poolKey : a.stakePoolInfo.key = rt.stakePoolAddress
  authority : w.stakePool.checkAuthorityWithdraw rt a.withdrawAuthorityInfo.key rt.programId
    a.stakePoolInfo.key = .ok ()
  mintKey : a.poolMintInfo.key = w.stakePool.poolMint
  reserveKey : a.reserveStakeInfo.key = w.stakePool.reserveStake
  feeKey : a.managerFeeInfo.key = w.stakePool.managerFeeAccount
  fresh : w.sysvars.epoch ≤ w.stakePool.lastUpdateEpoch
  fee_le : fee ≤ tokens
  lamports : w.stakePool.WithdrawLamports (tokens - fee) minimum n
  reserve : ∃ m, (w.accounts a.reserveStakeInfo.key).data = .stakeState (.initialized m) ∧
    minimumReserveLamports m ≤ (w.accounts a.reserveStakeInfo.key).lamports - n
  burn : tokenBurn rt w.accounts a.burnFromPoolInfo a.poolMintInfo a.userTransferAuthorityInfo
    (tokens - fee) = .ok acc₁
  transfer : 0 < fee ∧ tokenTransfer rt acc₁ a.burnFromPoolInfo a.poolMintInfo a.managerFeeInfo
      a.userTransferAuthorityInfo fee decimals = .ok acc₂ ∨ fee = 0 ∧ acc₁ = acc₂
  withdraw : stakeWithdraw rt w.sysvars acc₂ a.reserveStakeInfo a.withdrawAuthorityInfo
    a.destinationLamportsInfo n = .ok w'.accounts
  burnt_le : tokens - fee ≤ w.stakePool.poolTokenSupply
  lamports_le : n ≤ w.stakePool.totalLamports
  result : w' = { w with
    stakePool := { w.stakePool with
      poolTokenSupply := w.stakePool.poolTokenSupply - (tokens - fee)
      totalLamports := w.stakePool.totalLamports - n }
    accounts := w'.accounts }

omit [DecidableEq Key] in
theorem checkReserveAfter_eq_ok {a : Account Key} {n : Nat} (h : checkReserveAfter a n = .ok ()) :
    ∃ m, a.data = .stakeState (.initialized m) ∧ minimumReserveLamports m ≤ a.lamports - n := by
  simp only [checkReserveAfter, bind_eq_ok, readStakeState_eq_ok] at h
  obtain ⟨s, hs, h⟩ := h
  cases s with
  | initialized m => exact ⟨m, hs, ensure_eq_ok.1 h⟩
  | _ => cases h

theorem transferFee_eq_ok {acc acc' : Accounts Key} {src mint dst auth : AccountInfo Key}
    {fee decimals : Nat} (h : transferFee rt acc src mint dst auth fee decimals = .ok acc') :
    0 < fee ∧ tokenTransfer rt acc src mint dst auth fee decimals = .ok acc' ∨ fee = 0 ∧ acc = acc' := by
  rcases ite_pure_eq_ok.1 h with h | ⟨h, he⟩
  · exact .inl h
  · exact .inr ⟨by omega, he⟩

theorem WithdrawSolAccounts.process_priced {a : WithdrawSolAccounts Key} {tokens : Nat}
    (h : a.process rt w tokens minimum = .ok w') :
    ∃ fee decimals n acc₁ acc₂, a.Ok rt w w' tokens minimum fee decimals n acc₁ acc₂ ∧
      w.stakePool.withdrawalFee rt w.accounts w.stakePool.calcPoolTokensSolWithdrawalFee a.burnFromPoolInfo
        a.managerFeeInfo tokens = .ok fee ∧
      w.stakePool.calcLamportsWithdrawAmount (tokens - fee) = some n := by
  simp only [process, bind_eq_ok, ensure_eq_ok, orErr_eq_ok, exists_unit, pure_eq_ok,
    World.validStakePool_eq_ok, StakePool.checkReserveStake, StakePool.checkMint,
    checkedSub_eq_some] at h
  obtain ⟨p, ⟨hk, -, rfl⟩, hauth, -, dec, ⟨hmk, -⟩, hrk, -, -, hf, hfr, fee, hfe, _, ⟨hfee, rfl⟩, n, hn,
    hra, acc₁, hb, acc₂, ht, acc₃, hw, p', hp, rfl⟩ := h
  obtain ⟨hbs, hls, rfl⟩ := StakePool.subWithdrawal_eq_some hp
  obtain ⟨hn, hc⟩ := StakePool.withdrawLamports_priced hn
  exact ⟨fee, dec, n, acc₁, acc₂, ⟨hk, hauth, hmk, hrk, hf.symm, hfr, hfee, hn,
    checkReserveAfter_eq_ok hra, hb, transferFee_eq_ok ht, hw, hbs, hls, rfl⟩, hfe, hc⟩

theorem WithdrawSolAccounts.process_ok {a : WithdrawSolAccounts Key} {tokens : Nat}
    (h : a.process rt w tokens minimum = .ok w') :
    ∃ fee decimals n acc₁ acc₂, a.Ok rt w w' tokens minimum fee decimals n acc₁ acc₂ := by
  obtain ⟨fee, decimals, n, acc₁, acc₂, h, -⟩ := a.process_priced h
  exact ⟨fee, decimals, n, acc₁, acc₂, h⟩

theorem processWithdrawSol_ok {tokens : Nat}
    (h : processWithdrawSol rt w accounts tokens minimum = .ok w') :
    ∃ a rest, WithdrawSolAccounts.parse accounts = .ok (a, rest) ∧
      ∃ fee decimals n acc₁ acc₂, a.Ok rt w w' tokens minimum fee decimals n acc₁ acc₂ := by
  simp only [processWithdrawSol, bind_eq_ok] at h
  obtain ⟨⟨a, rest⟩, hp, h⟩ := h
  exact ⟨a, rest, hp, a.process_ok h⟩

namespace WithdrawStakeAccounts
variable {a : WithdrawStakeAccounts Key} {n : Nat}

/-- What must remain on a validator's account, with the rounding tolerance. -/
def minimumLamportsWithTolerance (w : World Key) (a : WithdrawStakeAccounts Key) : Option Nat := do
  let stakeState ← (w.accounts a.stakeSplitFrom.key).stakeState?
  let m ← stakeState.meta?
  let lamportsPerPoolToken ← w.stakePool.getLamportsPerPoolToken
  return saturatingAdd 64 (minimumStakeLamports m w.sysvars.minimumDelegation) lamportsPerPoolToken

/-- Whether some active validator has more active stake than must remain on its account. -/
def hasActiveStake (w : World Key) (a : WithdrawStakeAccounts Key) : Bool :=
  (a.minimumLamportsWithTolerance w).any fun lamports => w.validatorList.validators.any fun v =>
    v.activeLamportsGreaterThan lamports && v.isActive

/-- Whether some active validator has more transient stake than must remain on its account. -/
def hasTransientStake (w : World Key) (a : WithdrawStakeAccounts Key) : Bool :=
  (a.minimumLamportsWithTolerance w).any fun lamports => w.validatorList.validators.any fun v =>
    v.transientLamportsGreaterThan lamports && v.isActive

/-- The entry of the validator that the split stake is delegated to. -/
def splitEntry (w : World Key) (a : WithdrawStakeAccounts Key) : Option (ValidatorStakeInfo Key) := do
  let stakeState ← (w.accounts a.stakeSplitFrom.key).stakeState?
  let d ← stakeState.delegation?
  w.validatorList.find d.voterPubkey

/-- A withdrawal of a whole validator account: the stake is not the reserve, no validator has enough
stake, and the validator has no transient stake. -/
def takesWholeAccount (w : World Key) (a : WithdrawStakeAccounts Key) : Bool :=
  a.stakeSplitFrom.key ≠ w.stakePool.reserveStake && !a.hasActiveStake w && !a.hasTransientStake w &&
    (a.splitEntry w).any fun v => v.transientStakeLamports = 0

/-- The entry that a withdrawal is from, found by the validator of the stake. -/
structure FromEntry (w : World Key) (a : WithdrawStakeAccounts Key) (v : ValidatorStakeInfo Key)
    (m : Meta Key) (d : Delegation Key) : Prop where
  not_reserve : a.stakeSplitFrom.key ≠ w.stakePool.reserveStake
  state : ∃ s, (w.accounts a.stakeSplitFrom.key).data = .stakeState s ∧ s.meta? = some m ∧
    s.delegation? = some d
  find : w.validatorList.find d.voterPubkey = some v
  status : v.status = StakeStatus.active.pod

/-- The sources of a withdrawal of `n` lamports. -/
inductive Planned (rt : Runtime Key) (w : World Key) (a : WithdrawStakeAccounts Key) (n : Nat) :
    WithdrawPlan Key → Prop
  | reserve (m : Meta Key) (hk : a.stakeSplitFrom.key = w.stakePool.reserveStake)
      (hs : ∃ s, (w.accounts a.stakeSplitFrom.key).data = .stakeState s ∧ s.meta? = some m)
      (hle : minimumReserveLamports m ≤ (w.accounts a.stakeSplitFrom.key).lamports - n) :
      Planned rt w a n ⟨none, n⟩
  | active (v : ValidatorStakeInfo Key) (m : Meta Key) (d : Delegation Key) (he : FromEntry w a v m d)
      (hk : (findStakeProgramAddress rt rt.programId d.voterPubkey a.stakePoolInfo.key
        (nonZeroU32 v.validatorSeedSuffix)).1 = a.stakeSplitFrom.key)
      (hle : minimumStakeLamports m w.sysvars.minimumDelegation ≤
        (w.accounts a.stakeSplitFrom.key).lamports - n)
      (ha : a.hasActiveStake w) : Planned rt w a n ⟨some (v, .active), n⟩
  | transient (v : ValidatorStakeInfo Key) (m : Meta Key) (d : Delegation Key) (he : FromEntry w a v m d)
      (hk : (findTransientStakeProgramAddress rt rt.programId d.voterPubkey a.stakePoolInfo.key
        v.transientSeedSuffix).1 = a.stakeSplitFrom.key)
      (hle : minimumStakeLamports m w.sysvars.minimumDelegation ≤
        (w.accounts a.stakeSplitFrom.key).lamports - n)
      (ht : a.hasTransientStake w ∨ v.transientStakeLamports ≠ 0) :
      Planned rt w a n ⟨some (v, .transient), n⟩
  | removal (v : ValidatorStakeInfo Key) (m : Meta Key) (d : Delegation Key) (he : FromEntry w a v m d)
      (hk : (findStakeProgramAddress rt rt.programId d.voterPubkey a.stakePoolInfo.key
        (nonZeroU32 v.validatorSeedSuffix)).1 = a.stakeSplitFrom.key)
      (hle : (w.accounts a.stakeSplitFrom.key).lamports ≤ n)
      (ha : ¬ a.hasActiveStake w) (ht : ¬ a.hasTransientStake w) (hv : v.transientStakeLamports = 0) :
      Planned rt w a n ⟨some (v, .validatorRemoval), (w.accounts a.stakeSplitFrom.key).lamports⟩

theorem plan_eq_ok {plan' : WithdrawPlan Key}
    (h : plan rt w a w.stakePool w.validatorList n = .ok plan') : Planned rt w a n plan' := by
  simp only [plan, bind_eq_ok, readStakeState_eq_ok, orErr_eq_ok] at h
  obtain ⟨s, hs, m, hm, l, hl, h⟩ := h
  have htol : a.minimumLamportsWithTolerance w =
      some (saturatingAdd 64 (minimumStakeLamports m w.sysvars.minimumDelegation) l) := by
    simp [minimumLamportsWithTolerance, Account.stakeState?_eq_some.2 hs, hm, hl]
  have hact : a.hasActiveStake w = w.validatorList.validators.any fun v =>
      v.activeLamportsGreaterThan (saturatingAdd 64
        (minimumStakeLamports m w.sysvars.minimumDelegation) l) && v.isActive := by
    simp only [hasActiveStake, htol, Option.any_some]
  have htra : a.hasTransientStake w = w.validatorList.validators.any fun v =>
      v.transientLamportsGreaterThan (saturatingAdd 64
        (minimumStakeLamports m w.sysvars.minimumDelegation) l) && v.isActive := by
    simp only [hasTransientStake, htol, Option.any_some]
  rw [← hact, ← htra] at h
  split at h
  · rename_i hk
    simp only [planReserve, bind_eq_ok, ensure_eq_ok, exists_unit, pure_eq_ok] at h
    obtain ⟨-, hle, rfl⟩ := h
    exact .reserve m hk ⟨s, hs, hm⟩ hle
  · rename_i hk
    simp only [planValidator, bind_eq_ok, orErr_eq_ok, ensure_eq_ok, exists_unit, pure_eq_ok] at h
    obtain ⟨d, hd, -, v, hv, source, hsrc, hst, n', hn', rfl⟩ := h
    have he : FromEntry w a v m d := ⟨hk, ⟨s, hs, hm, hd⟩, hv, hst⟩
    simp only [withdrawSource] at hsrc
    split at hsrc
    · rename_i hA
      simp only [bind_eq_ok, checkValidatorStakeAddress, ensure_eq_ok, exists_unit, pure_eq_ok] at hsrc
      obtain ⟨hkey, rfl⟩ := hsrc
      simp only [withdrawAmount, bind_eq_ok, ensure_eq_ok, exists_unit, pure_eq_ok] at hn'
      obtain ⟨hle, rfl⟩ := hn'
      exact .active v m d he hkey hle hA
    rename_i hA
    split at hsrc
    · rename_i hT
      simp only [bind_eq_ok, checkTransientStakeAddress, ensure_eq_ok, exists_unit, pure_eq_ok] at hsrc
      obtain ⟨-, ⟨hkey, -⟩, rfl⟩ := hsrc
      simp only [withdrawAmount, bind_eq_ok, ensure_eq_ok, exists_unit, pure_eq_ok] at hn'
      obtain ⟨hle, rfl⟩ := hn'
      exact .transient v m d he hkey hle hT
    · rename_i hT
      simp only [not_or, not_not] at hT
      simp only [bind_eq_ok, checkValidatorStakeAddress, ensure_eq_ok, exists_unit, pure_eq_ok] at hsrc
      obtain ⟨hkey, rfl⟩ := hsrc
      simp only [withdrawAmount, bind_eq_ok, ensure_eq_ok, exists_unit, pure_eq_ok] at hn'
      obtain ⟨⟨hle, -⟩, rfl⟩ := hn'
      exact .removal v m d he hkey hle hA hT.1 hT.2

/-- Exactly the withdrawals of a whole account take what the account holds. -/
theorem Planned.lamports_eq {plan : WithdrawPlan Key} (h : Planned rt w a n plan) :
    plan.withdrawLamports =
      if a.takesWholeAccount w then (w.accounts a.stakeSplitFrom.key).lamports else n := by
  have entry : ∀ {v m d}, FromEntry w a v m d → a.splitEntry w = some v := by
    rintro v m d ⟨-, ⟨s, hs, -, hd⟩, hv, -⟩
    simp [splitEntry, Account.stakeState?_eq_some.2 hs, hd, hv]
  cases h with
  | reserve m hk => simp [takesWholeAccount, hk]
  | active v m d he hk hle ha => simp [takesWholeAccount, ha]
  | transient v m d he hk hle ht =>
    rcases ht with ht | ht
    · simp [takesWholeAccount, ht]
    · simp [takesWholeAccount, entry he, ht]
  | removal v m d he hk hle ha ht hv =>
    simp [takesWholeAccount, entry he, ha, ht, hv, he.not_reserve]

theorem Planned.le {plan : WithdrawPlan Key} (h : Planned rt w a n plan) : plan.withdrawLamports ≤ n := by
  cases h with
  | removal v m d he hk hle => exact hle
  | _ => exact Nat.le_refl _

/-- A successful `WithdrawStake`: the accounts after the tokens were burnt, the stake was split off
and handed over. -/
structure Ok (rt : Runtime Key) (w w' : World Key) (a : WithdrawStakeAccounts Key) (tokens : Nat)
    (minimum : Option Nat) (fee decimals n : Nat) (plan : WithdrawPlan Key)
    (acc₁ acc₂ acc₃ : Accounts Key) : Prop where
  poolKey : a.stakePoolInfo.key = rt.stakePoolAddress
  authority : w.stakePool.checkAuthorityWithdraw rt a.withdrawAuthorityInfo.key rt.programId
    a.stakePoolInfo.key = .ok ()
  mintKey : a.poolMintInfo.key = w.stakePool.poolMint
  feeKey : a.managerFeeInfo.key = w.stakePool.managerFeeAccount
  fresh : w.sysvars.epoch ≤ w.stakePool.lastUpdateEpoch
  fee_le : fee ≤ tokens
  lamports : w.stakePool.WithdrawLamports (tokens - fee) minimum n
  planned : Planned rt w a n plan
  burn : tokenBurn rt w.accounts a.burnFromPoolInfo a.poolMintInfo a.userTransferAuthorityInfo
    (tokens - fee) = .ok acc₁
  split : stakeSplit rt w.sysvars acc₁ a.stakeSplitFrom a.withdrawAuthorityInfo plan.withdrawLamports
    a.stakeSplitTo = .ok acc₂
  authorize : stakeAuthorizeSigned rt w.sysvars acc₂ a.stakeSplitTo a.withdrawAuthorityInfo
    a.userStakeAuthorityInfo.key = .ok acc₃
  transfer : 0 < fee ∧ tokenTransfer rt acc₃ a.burnFromPoolInfo a.poolMintInfo a.managerFeeInfo
      a.userTransferAuthorityInfo fee decimals = .ok w'.accounts ∨ fee = 0 ∧ acc₃ = w'.accounts
  burnt_le : tokens - fee ≤ w.stakePool.poolTokenSupply
  lamports_le : plan.withdrawLamports ≤ w.stakePool.totalLamports
  list : w.validatorList.withdraw plan = .ok w'.validatorList
  result : w' = { w with
    stakePool := { plan.stakePool w.stakePool with
      poolTokenSupply := w.stakePool.poolTokenSupply - (tokens - fee)
      totalLamports := w.stakePool.totalLamports - plan.withdrawLamports }
    validatorList := w'.validatorList
    accounts := w'.accounts }

theorem stakePool_eq (plan : WithdrawPlan Key) (p : StakePool Key) : ∃ d x, plan.stakePool p =
    { p with preferredDepositValidatorVoteAddress := d, preferredWithdrawValidatorVoteAddress := x } := by
  unfold WithdrawPlan.stakePool
  split
  · exact ⟨_, _, rfl⟩
  · exact ⟨_, _, rfl⟩

/-- The fee, the lamports and the plan of a successful `WithdrawStake` are the computed ones. -/
theorem process_priced {tokens : Nat} (h : a.process rt w tokens minimum = .ok w') :
    ∃ fee decimals n plan' acc₁ acc₂ acc₃,
      a.Ok rt w w' tokens minimum fee decimals n plan' acc₁ acc₂ acc₃ ∧
      w.stakePool.withdrawalFee rt w.accounts w.stakePool.calcPoolTokensStakeWithdrawalFee
        a.burnFromPoolInfo a.managerFeeInfo tokens = .ok fee ∧
      w.stakePool.calcLamportsWithdrawAmount (tokens - fee) = some n ∧
      plan rt w a w.stakePool w.validatorList n = .ok plan' := by
  simp only [process, bind_eq_ok, ensure_eq_ok, orErr_eq_ok, exists_unit, pure_eq_ok,
    World.validStakePool_eq_ok, World.validValidatorList_eq_ok, StakePool.checkMint,
    checkedSub_eq_some] at h
  obtain ⟨-, p, ⟨hk, -, rfl⟩, dec, ⟨hmk, -⟩, -, hauth, hf, -, hfr, l, ⟨-, -, rfl⟩, fee, hfe, _,
    ⟨hfee, rfl⟩, n, hn, plan, hplan, acc₁, hb, acc₂, hsp, acc₃, hau, acc₄, ht, p', hp, l', hl, rfl⟩ := h
  obtain ⟨hbs, hls, rfl⟩ := StakePool.subWithdrawal_eq_some hp
  obtain ⟨hn, hc⟩ := StakePool.withdrawLamports_priced hn
  have hT : (plan.stakePool w.stakePool).totalLamports = w.stakePool.totalLamports := by
    obtain ⟨d, x, he⟩ := stakePool_eq plan w.stakePool
    rw [he]
  have hS : (plan.stakePool w.stakePool).poolTokenSupply = w.stakePool.poolTokenSupply := by
    obtain ⟨d, x, he⟩ := stakePool_eq plan w.stakePool
    rw [he]
  simp only [hT, hS] at hbs hls ⊢
  exact ⟨fee, dec, n, plan, acc₁, acc₂, acc₃, ⟨hk, hauth, hmk, hf.symm, hfr, hfee, hn, plan_eq_ok hplan,
    hb, hsp, hau, transferFee_eq_ok ht, hbs, hls, hl, rfl⟩, hfe, hc, hplan⟩

theorem process_ok {tokens : Nat} (h : a.process rt w tokens minimum = .ok w') :
    ∃ fee decimals n plan acc₁ acc₂ acc₃,
      a.Ok rt w w' tokens minimum fee decimals n plan acc₁ acc₂ acc₃ := by
  obtain ⟨fee, decimals, n, plan, acc₁, acc₂, acc₃, h, -⟩ := a.process_priced h
  exact ⟨fee, decimals, n, plan, acc₁, acc₂, acc₃, h⟩

end WithdrawStakeAccounts

theorem processWithdrawStake_ok {tokens : Nat}
    (h : processWithdrawStake rt w accounts tokens minimum = .ok w') :
    ∃ a rest, (WithdrawStakeAccounts.parse rt).run accounts = .ok (a, rest) ∧
      ∃ fee decimals n plan acc₁ acc₂ acc₃,
        a.Ok rt w w' tokens minimum fee decimals n plan acc₁ acc₂ acc₃ := by
  simp only [processWithdrawStake, bind_eq_ok] at h
  obtain ⟨⟨a, rest⟩, hp, h⟩ := h
  exact ⟨a, rest, hp, a.process_ok h⟩

end SplStakePool
