import SplStakePool.Invariant.Voter
import SplStakePool.Properties.EpochFee
import SplStakePool.Properties.ListWellFormed
import SplStakePool.Properties.WithdrawalExecution

/-!
# A withdrawal is always possible

While some validator has active stake to withdraw, there is an entry and an amount of pool tokens that the
program accepts for it. When none has active or transient stake to withdraw, there is an amount of tokens for
every whole account: for each amount of lamports up to the total, some tokens redeem it with an excess of less
than the value of a token.

An entry from which stake can be taken is the preferred one if that has any, and else the one that the program has
found; the amount is the least that gives a lamport. For a whole account the rounding has to be within the
tolerance that the program leaves, which is the value of one token and thus what the excess is below.
-/

namespace SplStakePool
open Exec Machine System ShareVault

variable {Key : Type} [DecidableEq Key] [Inhabited Key] {rt : Runtime Key} {w : World Key}
  {a : WithdrawStakeAccounts Key} {v : ValidatorStakeInfo Key} {n p R : Nat}

section
variable {stakePool : StakePool Key} {lamports : Nat}

omit [DecidableEq Key] [Inhabited Key] in
theorem StakePool.getLamportsPerPoolToken_eq (hT : 0 < stakePool.totalLamports) (hS : 0 < stakePool.poolTokenSupply)
    (hlt : stakePool.totalLamports + stakePool.poolTokenSupply < 2 ^ 64) :
    stakePool.getLamportsPerPoolToken =
      some (1 + (stakePool.totalLamports - 1) / stakePool.poolTokenSupply) := by
  have hle : 1 ≤ stakePool.totalLamports + stakePool.poolTokenSupply := by omega
  have hdiv : (stakePool.totalLamports + stakePool.poolTokenSupply - 1) / stakePool.poolTokenSupply =
      1 + (stakePool.totalLamports - 1) / stakePool.poolTokenSupply := by
    rw [show stakePool.totalLamports + stakePool.poolTokenSupply - 1 =
      stakePool.totalLamports - 1 + stakePool.poolTokenSupply by omega, Nat.add_div_right _ hS, Nat.add_comm]
  rw [← hdiv]
  simp only [getLamportsPerPoolToken, Option.bind_eq_bind, checkedAdd_of_lt hlt, Option.bind_some,
    checkedSub_of_le hle, checkedDiv_eq_some.2 ⟨show stakePool.poolTokenSupply ≠ 0 by omega, rfl⟩]

omit [DecidableEq Key] [Inhabited Key] in
/-- Some tokens give each amount up to the total, and less than the value of a token more. -/
theorem StakePool.exists_poolTokens (hT : 0 < stakePool.totalLamports) (hS : 0 < stakePool.poolTokenSupply)
    (hlt : stakePool.totalLamports + stakePool.poolTokenSupply < 2 ^ 64) (hle : lamports ≤ stakePool.totalLamports) :
    ∃ p ≤ stakePool.poolTokenSupply, ∃ n, stakePool.calcLamportsWithdrawAmount p = some n ∧ lamports ≤ n ∧
      n ≤ lamports + (stakePool.totalLamports - 1) / stakePool.poolTokenSupply ∧ n ≤ stakePool.totalLamports := by
  obtain ⟨p, hp, hlow, hhigh⟩ : ∃ p ≤ stakePool.poolTokenSupply,
      lamports ≤ p * stakePool.totalLamports / stakePool.poolTokenSupply ∧
      p * stakePool.totalLamports / stakePool.poolTokenSupply ≤
        lamports + (stakePool.totalLamports - 1) / stakePool.poolTokenSupply :=
    exists_shares (v := stakePool.vault) hT hS hle
  have hbound : p * stakePool.totalLamports / stakePool.poolTokenSupply ≤ stakePool.totalLamports :=
    Nat.div_le_of_le_mul (Nat.mul_le_mul_right _ hp)
  exact ⟨p, hp, _, StakePool.calcLamportsWithdrawAmount_eq (by omega) (by omega) hS (by omega), hlow, hhigh, hbound⟩

end

/-! ## Acceptance -/

variable (rt w a v n p) in
/-- The accounts of a withdrawal from the validator stake account of an entry. -/
structure FromValidatorStake : Prop where
  poolKey : a.stakePoolInfo.key = rt.stakePoolAddress
  listKey : a.validatorListInfo.key = w.stakePool.validatorList
  authority : a.withdrawAuthorityInfo.key = rt.withdrawAuthority
  source : a.stakeSplitFrom.key = rt.validatorStake v
  feeKey : a.managerFeeInfo.key = w.stakePool.managerFeeAccount
  mintKey : a.poolMintInfo.key = w.stakePool.poolMint
  tokenProgram : a.tokenProgramInfo.key = w.stakePool.tokenProgramId
  stakeProgram : a.stakeProgramInfo.key = rt.stakeProgramId

variable (rt w a) in
/-- The calls into the token and the stake program of a withdrawal without a fee: tokens are burnt, and lamports
are split off and handed over. -/
def WithdrawStakeAccounts.calls (poolTokens lamports : Nat) : Except ProgramError (Accounts Key) := do
  let accounts ← tokenBurn rt w.accounts a.burnFromPoolInfo a.poolMintInfo a.userTransferAuthorityInfo poolTokens
  let accounts ← stakeSplit rt w.sysvars accounts a.stakeSplitFrom a.withdrawAuthorityInfo lamports a.stakeSplitTo
  stakeAuthorizeSigned rt w.sysvars accounts a.stakeSplitTo a.withdrawAuthorityInfo a.userStakeAuthorityInfo.key

variable (rt w a) in
/-- Pool tokens that are worth `n` lamports pass every check of a withdrawal, and it takes some lamports for them:
the checks of the source, of the counters and of the entry succeed, and all that is left of the instruction are
its calls. -/
structure Accepted (poolTokens n lamports : Nat) (plan : WithdrawPlan Key) (stakePool : StakePool Key)
    (validatorList : ValidatorList Key) : Prop where
  paid : paidLamports rt w a poolTokens = .ok n
  planned : a.plan rt w w.stakePool w.validatorList n = .ok plan
  taken : plan.withdrawLamports = lamports
  counters : (plan.stakePool w.stakePool).subWithdrawal poolTokens lamports = some stakePool
  list : w.validatorList.withdraw plan = .ok validatorList
  process : a.process rt w poolTokens none = do
    let accounts ← a.calls rt w poolTokens lamports
    return { w with stakePool, validatorList, accounts }

variable (w R) in
/-- An up-to-date pool with tokens and without a withdrawal fee, whose active entries have delegated stake accounts
with one rent-exempt reserve, and prefer only active entries. Records are 64-bit integers. -/
structure Withdrawable (rt : Runtime Key) : Prop where
  fresh : w.sysvars.epoch ≤ w.stakePool.lastUpdateEpoch
  total_pos : 0 < w.stakePool.totalLamports
  supply_pos : 0 < w.stakePool.poolTokenSupply
  sum_lt : w.stakePool.totalLamports + w.stakePool.poolTokenSupply < 2 ^ 64
  fee : w.stakePool.stakeWithdrawalFee.numerator = 0 ∨ w.stakePool.stakeWithdrawalFee.denominator = 0
  delegated : ∀ v ∈ w.validatorList.validators, v.status = StakeStatus.active.pod →
    ∃ m s, (w.accounts (rt.validatorStake v)).data = .stakeState (.stake m s) ∧ m.rentExemptReserve = R
  preferred : ∀ vote, w.stakePool.preferredDepositValidatorVoteAddress = some vote ∨
    w.stakePool.preferredWithdrawValidatorVoteAddress = some vote →
    ∃ v ∈ w.validatorList.validators, v.voteAccountAddress = vote ∧ v.status = StakeStatus.active.pod
  record_lt : ∀ v ∈ w.validatorList.validators, v.activeStakeLamports < 2 ^ 64

omit [DecidableEq Key] [Inhabited Key] in
theorem withdrawLamports_eq_ok {stakePool : StakePool Key} (h : stakePool.calcLamportsWithdrawAmount p = some n)
    (hn : 0 < n) : stakePool.withdrawLamports p none = .ok n := by
  simp only [StakePool.withdrawLamports, h, orErr, ok_bind, bind_eq_ok, ensure_eq_ok, exists_unit, pure_eq_ok]
  exact ⟨Nat.ne_of_gt hn, rfl, trivial⟩

omit [DecidableEq Key] [Inhabited Key] in
theorem subWithdrawal_eq {stakePool : StakePool Key} (hp : p ≤ stakePool.poolTokenSupply)
    (hn : n ≤ stakePool.totalLamports) : stakePool.subWithdrawal p n = some { stakePool with
      poolTokenSupply := stakePool.poolTokenSupply - p
      totalLamports := stakePool.totalLamports - n } := by
  simp only [StakePool.subWithdrawal, checkedSub_of_le hp, checkedSub_of_le hn, Option.bind_eq_bind, Option.bind_some,
    Option.pure_def]

theorem Accepted.of_plan (hl : rt.Lawful) (hreach : (poolSystem rt).Reachable w) (hw : Withdrawable w R rt)
    (ha : FromValidatorStake rt w a v) (hp : p ≤ w.stakePool.poolTokenSupply)
    (hn : w.stakePool.calcLamportsWithdrawAmount p = some n) (hpos : 0 < n) {lamports : Nat}
    {plan : WithdrawPlan Key} (hplan : a.plan rt w w.stakePool w.validatorList n = .ok plan)
    (hlamports : plan.withdrawLamports = lamports) (hle : lamports ≤ w.stakePool.totalLamports)
    {validatorList : ValidatorList Key} (hlist : w.validatorList.withdraw plan = .ok validatorList) :
    ∃ stakePool, Accepted rt w a p n lamports plan stakePool validatorList := by
  have hi := Inv.of_reach hl hreach
  obtain ⟨s, hs, -⟩ := (Backing.of_reach hl hreach).supply
  obtain ⟨mint, hmint⟩ : ∃ m, (w.accounts a.poolMintInfo.key).mint? = some m := by
    rw [ha.mintKey]
    rw [World.supply?, Account.supply?, Option.map_eq_some_iff] at hs
    obtain ⟨m, hm, -⟩ := hs
    exact ⟨m, hm⟩
  have hsum := hw.sum_lt
  -- the checks of the accounts
  have hpool : w.validStakePool rt a.stakePoolInfo = .ok w.stakePool :=
    World.validStakePool_eq_ok.2 ⟨ha.poolKey, hi.pool.valid, rfl⟩
  have hlistInfo : w.validValidatorList rt a.validatorListInfo = .ok w.validatorList :=
    World.validValidatorList_eq_ok.2 ⟨ha.listKey.trans hi.pool.list,
      by rw [ValidatorListHeader.isValid, (Roomy.of_reach hl hreach).type]; rfl, rfl⟩
  have hauth : w.stakePool.checkAuthorityWithdraw rt a.withdrawAuthorityInfo.key rt.programId a.stakePoolInfo.key =
      .ok () := by
    rw [ha.poolKey]
    exact (StakePool.checkAuthorityWithdraw_eq_ok hl hi.pool.bump).2 ha.authority
  have hdecimals : w.stakePool.checkMint w.accounts a.poolMintInfo = .ok mint.decimals := by
    simp only [StakePool.checkMint, bind_eq_ok, ensure_eq_ok, exists_unit, unpackMint, orErr_eq_ok, pure_eq_ok]
    exact ⟨ha.mintKey, mint, hmint, rfl⟩
  have hlistKey : w.stakePool.checkValidatorList a.validatorListInfo = .ok () := ensure_eq_ok.2 ha.listKey
  have hfeeKey : ensure (w.stakePool.managerFeeAccount = a.managerFeeInfo.key)
      (ProgramError.custom .invalidFeeAccount) = .ok () := ensure_eq_ok.2 ha.feeKey.symm
  have htoken : ensure (w.stakePool.tokenProgramId = a.tokenProgramInfo.key) ProgramError.incorrectProgramId =
      .ok () := ensure_eq_ok.2 ha.tokenProgram.symm
  have hfresh : ensure (w.sysvars.epoch ≤ w.stakePool.lastUpdateEpoch)
      (ProgramError.custom .stakeListAndPoolOutOfDate) = .ok () := ensure_eq_ok.2 hw.fresh
  have hprogram : checkStakeProgram rt a.stakeProgramInfo.key = .ok () := ensure_eq_ok.2 ha.stakeProgram
  -- the fee
  have hfee : w.stakePool.withdrawalFee rt w.accounts w.stakePool.calcPoolTokensStakeWithdrawalFee
      a.burnFromPoolInfo a.managerFeeInfo p = .ok 0 :=
    StakePool.withdrawalFee_of_zero (StakePool.calcPoolTokensFee_zero hw.fee p)
  have hlam := withdrawLamports_eq_ok hn hpos
  obtain ⟨d, x, hstakePool⟩ := WithdrawStakeAccounts.stakePool_eq plan w.stakePool
  obtain ⟨stakePool, hcounters⟩ : ∃ q, (plan.stakePool w.stakePool).subWithdrawal p lamports = some q := by
    rw [hstakePool]
    exact ⟨_, subWithdrawal_eq hp hle⟩
  refine ⟨stakePool, ?_, hplan, hlamports, hcounters, hlist, ?_⟩
  · simp only [paidLamports, hfee, ok_bind, checkedSub_of_le (Nat.zero_le p), Nat.sub_zero, orErr, hlam]
  · simp only [WithdrawStakeAccounts.process, hprogram, hpool, hdecimals, hlistKey, hauth, hfeeKey, htoken, hfresh,
      hlistInfo, hfee, ok_bind, checkedSub_of_le (Nat.zero_le p), Nat.sub_zero, orErr, hlam, hplan, hlamports,
      hcounters, hlist, WithdrawStakeAccounts.calls, transferFee, bind_assoc, gt_iff_lt, Nat.lt_irrefl, if_false,
      pure_bind]

omit [DecidableEq Key] [Inhabited Key] in
theorem isActive_iff : v.isActive = true ↔ v.status = StakeStatus.active.pod := by
  rw [ValidatorStakeInfo.isActive, decide_eq_true_eq]
  constructor
  · intro h
    exact PodStakeStatus.status_eq_ok (orErr_eq_ok.2 h)
  · intro h
    rw [h, StakeStatus.fromU8_pod]

/-- What must remain on an account with a rent-exempt reserve. -/
def requiredLamports (w : World Key) (rent : Nat) : Nat :=
  saturatingAdd 64 rent (minimumDelegation w.sysvars.minimumDelegation)

section
variable {m : Meta Key} {s : StakeStateV2 Key} {l : Nat}

omit [DecidableEq Key] [Inhabited Key] in
theorem hasActiveStake_iff (hs : (w.accounts a.stakeSplitFrom.key).data = .stakeState s) (hm : s.meta? = some m)
    (hprice : w.stakePool.getLamportsPerPoolToken = some l) :
    a.hasActiveStake w = true ↔ ∃ u ∈ w.validatorList.validators, u.status = StakeStatus.active.pod ∧
      saturatingAdd 64 (requiredLamports w m.rentExemptReserve) l < u.activeStakeLamports := by
  rw [WithdrawStakeAccounts.hasActiveStake, tolerance_eq hs hm hprice, Option.any_some, List.any_eq_true]
  refine exists_congr fun u => and_congr_right fun _ => ?_
  rw [Bool.and_eq_true, isActive_iff, ValidatorStakeInfo.activeLamportsGreaterThan, decide_eq_true_eq, and_comm]
  rfl

theorem lt_of_saturatingAdd_lt {x y z : Nat} (h : saturatingAdd 64 x y < z) (hz : z < 2 ^ 64) : x + y < z := by
  simp only [saturatingAdd, maxValue] at h
  omega

omit [DecidableEq Key] [Inhabited Key] in
theorem requiredLamports_mono {rent rent' : Nat} (h : rent ≤ rent') :
    requiredLamports w rent ≤ requiredLamports w rent' := by
  simp only [requiredLamports, saturatingAdd]
  omega

end

/-- An entry whose validator stake account can be used by a withdrawal. -/
structure Usable (rt : Runtime Key) (w : World Key) (v : ValidatorStakeInfo Key) (R l : Nat) : Prop where
  mem : v ∈ w.validatorList.validators
  active : v.status = StakeStatus.active.pod
  more : requiredLamports w R + l < v.activeStakeLamports
  preferred : ∀ a : WithdrawStakeAccounts Key, a.stakeSplitFrom.key = rt.validatorStake v →
    PreferredUsed w a v.voteAccountAddress

theorem Withdrawable.entryReady (hl : rt.Lawful) (hreach : (poolSystem rt).Reachable w) (hw : Withdrawable w R rt)
    (hv : v ∈ w.validatorList.validators) (hs : v.status = StakeStatus.active.pod)
    (hk : a.stakeSplitFrom.key = rt.validatorStake v) {l : Nat}
    (hprice : w.stakePool.getLamportsPerPoolToken = some l) (hpreferred : PreferredUsed w a v.voteAccountAddress) :
    ∃ m, m.rentExemptReserve = R ∧ EntryReady w a v.voteAccountAddress m l v := by
  obtain ⟨m, s, hd, hrent⟩ := hw.delegated v hv hs
  have hvote := VotersOk.of_reach hl hreach v hv hs _ ⟨m, s, hd, rfl⟩
  exact ⟨m, hrent, ⟨s, hk ▸ hd, hvote⟩, hprice, ValidatorList.find_of_mem (Inv.of_reach hl hreach).core.votes hv, hs,
    hpreferred⟩

/-- When some active validator has stake to withdraw, there is an entry for it: the preferred one, if that has. -/
theorem Withdrawable.exists_usable (hl : rt.Lawful) (hreach : (poolSystem rt).Reachable w) (hw : Withdrawable w R rt)
    {u : ValidatorStakeInfo Key} (hu : u ∈ w.validatorList.validators) (hs : u.status = StakeStatus.active.pod)
    {l : Nat} (hprice : w.stakePool.getLamportsPerPoolToken = some l)
    (hmore : requiredLamports w R + l < u.activeStakeLamports) : ∃ v, Usable rt w v R l := by
  have hvotes := (Inv.of_reach hl hreach).core.votes
  cases hq : w.stakePool.preferredWithdrawValidatorVoteAddress with
  | none =>
    refine ⟨u, hu, hs, hmore, fun a ha q _ _ hq' => ?_⟩
    rw [hq] at hq'
    cases hq'
  | some q =>
    obtain ⟨v, hv, rfl, hsv⟩ := hw.preferred q (.inr hq)
    by_cases hmore' : requiredLamports w R + l < v.activeStakeLamports
    · refine ⟨v, hv, hsv, hmore', fun a ha q _ _ hq' hne => ?_⟩
      rw [hq, Option.some.injEq] at hq'
      exact absurd hq'.symm hne
    · -- the preferred validator has nothing that may be withdrawn
      refine ⟨u, hu, hs, hmore, fun a ha q v' lamports hq' _ hfind htol => ?_⟩
      rw [hq, Option.some.injEq] at hq'
      subst hq'
      rw [ValidatorList.find_of_mem hvotes hv, Option.some.injEq] at hfind
      subst hfind
      obtain ⟨m, s, hd, rfl⟩ := hw.delegated u hu hs
      rw [tolerance_eq (ha ▸ hd) rfl hprice, Option.some.injEq] at htol
      subst htol
      have hlt := hw.record_lt v hv
      exact le_saturatingAdd_of_le (Nat.not_lt.1 hmore') (by simp only [maxValue]; omega)

/-! ## The withdrawals -/

theorem Usable.accepted (hl : rt.Lawful) (hreach : (poolSystem rt).Reachable w) (hw : Withdrawable w R rt) {l : Nat}
    (hv : Usable rt w v R l) (hprice : w.stakePool.getLamportsPerPoolToken = some l)
    (ha : FromValidatorStake rt w a v) (hp : p ≤ w.stakePool.poolTokenSupply)
    (hn : w.stakePool.calcLamportsWithdrawAmount p = some n) (hpos : 0 < n) (hnl : n ≤ l) :
    ∃ plan stakePool validatorList, Accepted rt w a p n n plan stakePool validatorList := by
  have hi := Inv.of_reach hl hreach
  have hmore := hv.more
  have hle : n ≤ w.stakePool.totalLamports := StakePool.calcLamportsWithdrawAmount_le_total hn hp
  obtain ⟨m, hrent, hready⟩ := hw.entryReady hl hreach hv.mem hv.active ha.source hprice (hv.preferred a ha.source)
  obtain ⟨s, hd, -⟩ := hready.delegated
  have hactive : a.hasActiveStake w = true := by
    refine (hasActiveStake_iff hd rfl hprice).2 ⟨v, hv.mem, hv.active, ?_⟩
    rw [hrent]
    exact Nat.lt_of_le_of_lt (Nat.min_le_left _ _) hmore
  have hsource : a.withdrawSource rt v v.voteAccountAddress (a.hasActiveStake w) (a.hasTransientStake w) =
      .ok .active := (withdrawSource_eq_ok ha.poolKey).2 (.inl ⟨hactive, ha.source.symm, rfl⟩)
  -- the account holds what is recorded
  have hlamports := (hi.core.entries v hv.mem).active_le
  rw [← ha.source] at hlamports
  have hamount : WithdrawStakeAccounts.withdrawAmount .active (w.accounts a.stakeSplitFrom.key).lamports n
      (minimumStakeLamports m w.sysvars.minimumDelegation) l = .ok n := by
    have hremains : minimumStakeLamports m w.sysvars.minimumDelegation ≤
        (w.accounts a.stakeSplitFrom.key).lamports - n := by
      rw [← hrent, requiredLamports] at hmore
      rw [minimumStakeLamports]
      omega
    simp only [WithdrawStakeAccounts.withdrawAmount, bind_eq_ok, exists_unit, pure_eq_ok, saturatingSub_eq, and_true]
    exact ensure_eq_ok.2 hremains
  have hk : a.stakeSplitFrom.key ≠ w.stakePool.reserveStake :=
    fun he => hi.core.reserve_pda (he ▸ ha.source ▸ .validator v)
  have hlist : w.validatorList.withdraw ⟨some (v, .active), n⟩ =
      .ok (w.validatorList.set { v with activeStakeLamports := v.activeStakeLamports - n }) := by
    simp only [ValidatorList.withdraw, ValidatorStakeInfo.withdraw, orErr,
      checkedSub_of_le (show n ≤ v.activeStakeLamports by omega), ok_bind, pure, Except.pure]
  obtain ⟨stakePool, h⟩ := Accepted.of_plan hl hreach hw ha hp hn hpos (hready.plan_eq_ok hk hsource hamount) rfl hle
    hlist
  exact ⟨_, stakePool, _, h⟩

theorem Withdrawable.active_available (hl : rt.Lawful) (hreach : (poolSystem rt).Reachable w) (hw : Withdrawable w R rt)
    {m : Meta Key} {s : StakeStateV2 Key} (hs : (w.accounts a.stakeSplitFrom.key).data = .stakeState s)
    (hm : s.meta? = some m) (hR : R ≤ m.rentExemptReserve) (hactive : a.hasActiveStake w = true) :
    ∃ v ∈ w.validatorList.validators, ∃ p ≤ w.stakePool.poolTokenSupply, ∃ n, 1 ≤ n ∧
      ∀ a, FromValidatorStake rt w a v →
        ∃ plan stakePool validatorList, Accepted rt w a p n n plan stakePool validatorList := by
  have hprice := StakePool.getLamportsPerPoolToken_eq hw.total_pos hw.supply_pos hw.sum_lt
  obtain ⟨u, hu, hsu, hlt⟩ := (hasActiveStake_iff hs hm hprice).1 hactive
  have hmore := lt_of_saturatingAdd_lt hlt (hw.record_lt u hu)
  have hmono := requiredLamports_mono (w := w) hR
  obtain ⟨v, hv⟩ := hw.exists_usable hl hreach hu hsu hprice (by omega)
  obtain ⟨p, hp, n, hn, hlow, hhigh, -⟩ :=
    StakePool.exists_poolTokens hw.total_pos hw.supply_pos hw.sum_lt (show 1 ≤ _ from hw.total_pos)
  exact ⟨v, hv.mem, p, hp, n, hlow, fun a ha => hv.accepted hl hreach hw hprice ha hp hn hlow hhigh⟩

/-- When no active validator has stake to withdraw, the tokens for a whole account are accepted for it. -/
theorem Withdrawable.removal_accepted (hl : rt.Lawful) (hreach : (poolSystem rt).Reachable w) (hw : Withdrawable w R rt)
    (hv : v ∈ w.validatorList.validators) (hs : v.status = StakeStatus.active.pod)
    (hzero : v.transientStakeLamports = 0)
    (hexact : (w.accounts (rt.validatorStake v)).lamports = v.activeStakeLamports)
    (hle : v.activeStakeLamports ≤ w.stakePool.totalLamports) {l : Nat}
    (hprice : w.stakePool.getLamportsPerPoolToken = some l) (ha : FromValidatorStake rt w a v)
    (hactive : a.hasActiveStake w = false) (htransient : a.hasTransientStake w = false)
    (hpreferred : PreferredUsed w a v.voteAccountAddress) (hp : p ≤ w.stakePool.poolTokenSupply)
    (hn : w.stakePool.calcLamportsWithdrawAmount p = some n) (hlow : v.activeStakeLamports ≤ n)
    (hhigh : n ≤ v.activeStakeLamports + l) : ∃ plan stakePool validatorList,
      Accepted rt w a p n v.activeStakeLamports plan stakePool validatorList := by
  have hi := Inv.of_reach hl hreach
  have hsum := hw.sum_lt
  have hnT : n ≤ w.stakePool.totalLamports := StakePool.calcLamportsWithdrawAmount_le_total hn hp
  have hpos := ((hi.core.entries v hv).of_active hs).lamports
  rw [hexact] at hpos
  obtain ⟨m, -, hready⟩ := hw.entryReady hl hreach hv hs ha.source hprice hpreferred
  have hsource : a.withdrawSource rt v v.voteAccountAddress (a.hasActiveStake w) (a.hasTransientStake w) =
      .ok .validatorRemoval :=
    (withdrawSource_eq_ok ha.poolKey).2 (.inr (.inr ⟨hactive, htransient, hzero, ha.source.symm, rfl⟩))
  have hamount : WithdrawStakeAccounts.withdrawAmount .validatorRemoval (w.accounts a.stakeSplitFrom.key).lamports n
      (minimumStakeLamports m w.sysvars.minimumDelegation) l = .ok v.activeStakeLamports := by
    rw [ha.source, hexact]
    have hupper : n ≤ saturatingAdd 64 v.activeStakeLamports l :=
      le_saturatingAdd_of_le hhigh (by simp only [maxValue]; omega)
    simp only [WithdrawStakeAccounts.withdrawAmount, bind_eq_ok, exists_unit, pure_eq_ok, and_true]
    exact ensure_eq_ok.2 ⟨hlow, hupper⟩
  have hk : a.stakeSplitFrom.key ≠ w.stakePool.reserveStake :=
    fun he => hi.core.reserve_pda (he ▸ ha.source ▸ .validator v)
  have hlist : w.validatorList.withdraw ⟨some (v, .validatorRemoval), v.activeStakeLamports⟩ =
      .ok (w.validatorList.set { v with activeStakeLamports := 0, status := StakeStatus.readyForRemoval.pod }) := by
    simp only [ValidatorList.withdraw, ValidatorStakeInfo.withdraw, orErr,
      checkedSub_of_le (Nat.le_refl v.activeStakeLamports), Nat.sub_self, ok_bind, ensure, if_true, pure, Except.pure]
  obtain ⟨stakePool, h⟩ := Accepted.of_plan hl hreach hw ha hp hn (by omega)
    (hready.plan_eq_ok hk hsource hamount) rfl hle hlist
  exact ⟨_, stakePool, _, h⟩

/-- No withdrawal deadlock. While some active validator has stake to withdraw, for the rent-exempt reserve of the
entries or a larger one, there is an entry and an amount of tokens that is accepted for lamports of its account.
When none has, there are tokens for each whole account that holds what is recorded, within the tolerance. -/
theorem withdrawal_available (hl : rt.Lawful) (hreach : (poolSystem rt).Reachable w) (hw : Withdrawable w R rt) :
    (∀ (a : WithdrawStakeAccounts Key) (s : StakeStateV2 Key) (m : Meta Key),
      (w.accounts a.stakeSplitFrom.key).data = .stakeState s → s.meta? = some m → R ≤ m.rentExemptReserve →
      a.hasActiveStake w = true →
      ∃ v ∈ w.validatorList.validators, ∃ p ≤ w.stakePool.poolTokenSupply, ∃ n, 1 ≤ n ∧
        ∀ a, FromValidatorStake rt w a v →
          ∃ plan stakePool validatorList, Accepted rt w a p n n plan stakePool validatorList) ∧
    ∀ v ∈ w.validatorList.validators, v.status = StakeStatus.active.pod → v.transientStakeLamports = 0 →
      (w.accounts (rt.validatorStake v)).lamports = v.activeStakeLamports →
      v.activeStakeLamports ≤ w.stakePool.totalLamports →
      ∃ p ≤ w.stakePool.poolTokenSupply, ∃ n l, w.stakePool.calcLamportsWithdrawAmount p = some n ∧
        w.stakePool.getLamportsPerPoolToken = some l ∧ v.activeStakeLamports ≤ n ∧ n ≤ v.activeStakeLamports + l ∧
        ∀ a, FromValidatorStake rt w a v → a.hasActiveStake w = false → a.hasTransientStake w = false →
          PreferredUsed w a v.voteAccountAddress →
          ∃ plan stakePool validatorList,
            Accepted rt w a p n v.activeStakeLamports plan stakePool validatorList := by
  refine ⟨fun a s m hs hm hR hactive => hw.active_available hl hreach hs hm hR hactive,
    fun v hv hs hzero hexact hle => ?_⟩
  have hprice := StakePool.getLamportsPerPoolToken_eq hw.total_pos hw.supply_pos hw.sum_lt
  obtain ⟨p, hp, n, hn, hlow, hhigh, -⟩ :=
    StakePool.exists_poolTokens hw.total_pos hw.supply_pos hw.sum_lt hle
  have hhigh' : n ≤ v.activeStakeLamports + (1 + (w.stakePool.totalLamports - 1) / w.stakePool.poolTokenSupply) := by
    omega
  exact ⟨p, hp, n, _, hn, hprice, hlow, hhigh', fun a ha hactive htransient hpreferred =>
    hw.removal_accepted hl hreach hv hs hzero hexact hle hprice ha hactive htransient hpreferred hp hn hlow hhigh'⟩

section
open Reference

/-- A pool whose preferred validator has active stake to withdraw. -/
def grown : World Reference.Key :=
  after joined [.advanceEpoch 11 false (fun _ => none), updateList [(vote, 0)] false, updatePool,
    increase vote 5000000 7, .advanceEpoch 12 false (fun _ => none), updateList [(vote, 7)] false, updatePool,
    setPreferred .withdraw (some vote)]

/-- The rent-exempt reserve of the delegated stake accounts of the entries. -/
def delegatedRent (w : World Reference.Key) (v : ValidatorStakeInfo Reference.Key) : Option Nat :=
  match (w.accounts (runtime.validatorStake v)).stakeState? with
  | some (.stake m _) => some m.rentExemptReserve
  | _ => none

theorem delegated_of_rent {w : World Reference.Key} {v : ValidatorStakeInfo Reference.Key} {R : Nat}
    (h : delegatedRent w v = some R) :
    ∃ m s, (w.accounts (runtime.validatorStake v)).data = .stakeState (.stake m s) ∧ m.rentExemptReserve = R := by
  unfold delegatedRent at h
  split at h
  next m s hs => exact ⟨m, s, Account.stakeState?_eq_some.1 hs, Option.some.inj h⟩
  next => cases h

theorem withdrawable_grown : Withdrawable grown 2282880 runtime := by
  have hdeposit : grown.stakePool.preferredDepositValidatorVoteAddress = none := by decide +kernel
  have hwithdraw : grown.stakePool.preferredWithdrawValidatorVoteAddress = some vote := by decide +kernel
  have hrent : ∀ v ∈ grown.validatorList.validators, delegatedRent grown v = some 2282880 := by decide +kernel
  refine ⟨by decide +kernel, by decide +kernel, by decide +kernel, by decide +kernel, by decide +kernel,
    fun v hv _ => delegated_of_rent (hrent v hv), ?_, by decide +kernel⟩
  rintro q (hq | hq)
  · rw [hdeposit] at hq
    cases hq
  · rw [hwithdraw, Option.some.injEq] at hq
    subst hq
    decide +kernel

theorem withdrawable_joined : Withdrawable joined 2282880 runtime := by
  have hdeposit : joined.stakePool.preferredDepositValidatorVoteAddress = none := by decide +kernel
  have hwithdraw : joined.stakePool.preferredWithdrawValidatorVoteAddress = none := by decide +kernel
  have hrent : ∀ v ∈ joined.validatorList.validators, delegatedRent joined v = some 2282880 := by decide +kernel
  refine ⟨by decide +kernel, by decide +kernel, by decide +kernel, by decide +kernel, by decide +kernel,
    fun v hv _ => delegated_of_rent (hrent v hv), ?_, by decide +kernel⟩
  rintro q (hq | hq)
  · rw [hdeposit] at hq
    cases hq
  · rw [hwithdraw] at hq
    cases hq

theorem withdrawal_available_grown :
    (∃ v ∈ grown.validatorList.validators, ∃ p ≤ grown.stakePool.poolTokenSupply, ∃ n, 1 ≤ n ∧
      ∀ a, FromValidatorStake runtime grown a v →
        ∃ plan stakePool validatorList, Accepted runtime grown a p n n plan stakePool validatorList) ∧
    ∃ v ∈ joined.validatorList.validators, ∃ p n l, p ≤ joined.stakePool.poolTokenSupply ∧
      v.activeStakeLamports ≤ n ∧ n ≤ v.activeStakeLamports + l ∧
      ∀ a, FromValidatorStake runtime joined a v → a.hasActiveStake joined = false →
        a.hasTransientStake joined = false → PreferredUsed joined a v.voteAccountAddress →
        ∃ plan stakePool validatorList,
          Accepted runtime joined a p n v.activeStakeLamports plan stakePool validatorList := by
  have hjoined : (poolSystem runtime).Reachable joined :=
    reachable_after (initialized_opened (by decide +kernel)) (by decide +kernel)
  have hgrown : (poolSystem runtime).Reachable grown :=
    hjoined.trans_path (after_path (fun _ _ _ _ => trivial) (by decide +kernel))
  constructor
  · have hrent : ∃ v ∈ grown.validatorList.validators, delegatedRent grown v = some 2282880 := by decide +kernel
    have hactive : ∀ v ∈ grown.validatorList.validators, (someCaller.accounts runtime grown
        ⟨runtime.validatorStake v, none, 0⟩ userStake).hasActiveStake grown = true := by decide +kernel
    obtain ⟨v, hv, hrent⟩ := hrent
    obtain ⟨m, s, hd, hm⟩ := delegated_of_rent hrent
    exact (withdrawal_available lawful hgrown withdrawable_grown).1 _ _ m hd rfl hm.ge (hactive v hv)
  · have hv : ∃ v ∈ joined.validatorList.validators, v.status = StakeStatus.active.pod ∧
        v.transientStakeLamports = 0 ∧
        (joined.accounts (runtime.validatorStake v)).lamports = v.activeStakeLamports ∧
        v.activeStakeLamports ≤ joined.stakePool.totalLamports := by decide +kernel
    obtain ⟨v, hv, hs, hzero, hexact, hle⟩ := hv
    obtain ⟨p, hp, n, l, -, -, hlow, hhigh, h⟩ :=
      (withdrawal_available lawful hjoined withdrawable_joined).2 v hv hs hzero hexact hle
    exact ⟨v, hv, p, n, l, hp, hlow, hhigh, h⟩

end
end SplStakePool
