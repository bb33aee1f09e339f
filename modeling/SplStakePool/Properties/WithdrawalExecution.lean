import SplStakePool.Effect.WithdrawalCalls
import SplStakePool.Properties.ClientPlan
import SplStakePool.Properties.ListWellFormed
import SplStakePool.Runtime.Session

/-!
# Whether the plan of a withdrawal can be executed

A plan of the command line client is executed one withdrawal after the other, each to a new stake account. The
client does not look at the status of an entry, nor at what must remain on an account, nor at the order in which the
program wants the sources, so that a plan need not pass the checks of the program.

Whether it does can be told from the world that the plan is made in. A withdrawal changes the counters of the pool
and the record of one entry, by amounts that the prices fix, and of the stake accounts only its own source: an
account that is drained later is as it was. `Suitable` goes through the accounts as the loop of the client does, and
keeps the books of what was drained; it asks each account to suit these books, with the lamports and the delegation
that it has in the input. What it leaves to the token and the stake program is whether they carry out the calls.

The proof follows the accounts. The step lemma `withdraw_eq_ok_iff` says that an instruction succeeds in the world
of the run exactly if the books can be kept and the calls are carried out, given that the account suits. The world of
the run is the books with the accounts that the calls left, of which `Carried` says that they are as in the input
where the checks look.
-/

namespace SplStakePool
open Exec Machine Function

variable {Key : Type} [DecidableEq Key]

/-! ## The run of a plan -/

section
variable (rt : Runtime Key) (caller : WithdrawCaller Key)

/-- The accounts of an instruction of the client. -/
def WithdrawCaller.accounts (w : World Key) (s : WithdrawAccount Key) (stakeReceiver : Key) :
    WithdrawStakeAccounts Key where
  stakePoolInfo := .writable rt.stakePoolAddress
  validatorListInfo := .writable w.stakePool.validatorList
  withdrawAuthorityInfo := .readonly rt.withdrawAuthority
  stakeSplitFrom := .writable s.stakeAddress
  stakeSplitTo := .writable stakeReceiver
  userStakeAuthorityInfo := .readonly caller.staker
  userTransferAuthorityInfo := ⟨caller.userTransferAuthority, true, false⟩
  burnFromPoolInfo := .writable caller.poolTokenAccount
  managerFeeInfo := .writable w.stakePool.managerFeeAccount
  poolMintInfo := .writable w.stakePool.poolMint
  tokenProgramInfo := .readonly w.stakePool.tokenProgramId
  stakeProgramInfo := .readonly rt.stakeProgramId

theorem WithdrawCaller.parse_instruction (w : World Key) (s : WithdrawAccount Key) (stakeReceiver : Key) :
    (WithdrawStakeAccounts.parse rt).run (caller.instruction rt w s stakeReceiver).accounts =
      .ok (caller.accounts rt w s stakeReceiver, []) := by
  simp only [StateT.run, WithdrawStakeAccounts.parse, nextAccountInfo_bind, nextSysvar_bind,
    WithdrawCaller.instruction, withdrawStake]
  refine ⟨_, _, rfl, _, _, rfl, _, _, rfl, _, _, rfl, _, _, rfl, _, _, rfl, _, _, rfl, _, _, rfl, _, _, rfl,
    _, _, rfl, _, _, rfl, rfl, _, _, rfl, _, _, rfl, ?_⟩
  rfl

/-- An address that is used for nothing else, as that of a new key pair is. -/
structure Fresh (w : World Key) (stakeReceiver : Key) : Prop where
  mint : stakeReceiver ≠ w.stakePool.poolMint
  managerFee : stakeReceiver ≠ w.stakePool.managerFeeAccount
  tokens : stakeReceiver ≠ caller.poolTokenAccount
  reserve : stakeReceiver ≠ w.stakePool.reserveStake
  entries : ∀ v ∈ w.validatorList.validators,
    stakeReceiver ≠ rt.validatorStake v ∧ stakeReceiver ≠ rt.transientStake v

/-- The world with the stake account that is created for a withdrawal. -/
def World.withReceiver (w : World Key) (stakeReceiver : Key) : World Key :=
  w.setAccount stakeReceiver (newStakeAccount rt)

/-- A withdrawal of a plan made in `w₀`, with the account that is created before it. -/
def WithdrawCaller.withdraw (w₀ w : World Key) (s : WithdrawAccount Key) (stakeReceiver : Key) :
    Except ProgramError (World Key) :=
  processWithdrawStake rt (w.withReceiver rt stakeReceiver) (caller.instruction rt w₀ s stakeReceiver).accounts
    s.poolAmount none

/-- The withdrawals of a plan made in a world, one after the other, each to a new account. -/
inductive Executes (w₀ : World Key) : World Key → List (WithdrawAccount Key) → World Key → Prop
  | nil (w : World Key) : Executes w₀ w [] w
  | cons {w w₁ w₂ : World Key} {s : WithdrawAccount Key} {plan : List (WithdrawAccount Key)} {stakeReceiver : Key}
      (fresh : Fresh rt caller w₀ stakeReceiver) (h : caller.withdraw rt w₀ w s stakeReceiver = .ok w₁)
      (rest : Executes w₀ w₁ plan w₂) : Executes w₀ w (s :: plan) w₂

/-- An account passes the checks of the program in a world, once the amount that it pays is computed. -/
def PassesAt (w₀ w : World Key) (s : WithdrawAccount Key) : Prop :=
  ∀ stakeReceiver n, Fresh rt caller w₀ stakeReceiver →
    paidLamports rt (w.withReceiver rt stakeReceiver) (caller.accounts rt w₀ s stakeReceiver) s.poolAmount = .ok n →
    Passes rt (w.withReceiver rt stakeReceiver) (caller.accounts rt w₀ s stakeReceiver) n

/-- Each account of a plan passes when the ones before it have been withdrawn from. -/
def PassesInTurn (w₀ w : World Key) (plan : List (WithdrawAccount Key)) : Prop :=
  ∀ before s after w', plan = before ++ s :: after → Executes rt caller w₀ w before w' → PassesAt rt caller w₀ w' s

/-- What the client promises of a withdrawal: it comes to an end, a plan gives the amount, and the program accepts
each account of the plan at its turn. -/
structure PlanKept (w : World Key) (poolAmount : Nat) (skipFee : Bool) : Prop where
  terminates : (prepareWithdrawAccounts rt w poolAmount skipFee).isSome
  sum : ∀ plan, prepareWithdrawAccounts rt w poolAmount skipFee = some (.ok plan) →
    (plan.map (·.poolAmount)).sum = poolAmount
  passes : ∀ plan, prepareWithdrawAccounts rt w poolAmount skipFee = some (.ok plan) →
    PassesInTurn rt caller w w plan

/-! ## The books -/

/-- What a withdrawal does to the books of a world and to other accounts, none of its checks made. The world has
the counters and the records that are left, and the accounts of the input; the calls are made on `accounts`. -/
inductive Drained (w₀ w : World Key) (accounts : Accounts Key) (s : WithdrawAccount Key) :
    World Key → Accounts Key → Prop
  | intro {stakeReceiver : Key} {m : Mint Key} {poolTokensFee n : Nat} {plan : WithdrawPlan Key}
      {stakePool : StakePool Key} {validatorList : ValidatorList Key} {accounts' : Accounts Key}
      (fresh : Fresh rt caller w₀ stakeReceiver)
      (epoch : w.sysvars.epoch ≤ w.stakePool.lastUpdateEpoch)
      (mint : (w.accounts w.stakePool.poolMint).data = .mint m)
      (fee : w.stakePool.withdrawalFee rt w.accounts w.stakePool.calcPoolTokensStakeWithdrawalFee
        (caller.accounts rt w₀ s stakeReceiver).burnFromPoolInfo
        (caller.accounts rt w₀ s stakeReceiver).managerFeeInfo s.poolAmount = .ok poolTokensFee)
      (fee_le : poolTokensFee ≤ s.poolAmount)
      (paid : w.stakePool.withdrawLamports (s.poolAmount - poolTokensFee) none = .ok n)
      (source : sourceOf rt w (caller.accounts rt w₀ s stakeReceiver) s n = some plan)
      (calls : (caller.accounts rt w₀ s stakeReceiver).chargedCalls rt w.sysvars
        (update accounts stakeReceiver (newStakeAccount rt)) (s.poolAmount - poolTokensFee) poolTokensFee m.decimals
        plan.withdrawLamports = .ok accounts')
      (counters : (plan.stakePool w.stakePool).subWithdrawal (s.poolAmount - poolTokensFee) plan.withdrawLamports =
        some stakePool)
      (records : w.validatorList.withdraw plan = .ok validatorList) :
      Drained w₀ w accounts s { w with stakePool, validatorList } accounts'

/-- An account suits the books, once the amount that it pays is computed. -/
def SuitsAt (w₀ w : World Key) (s : WithdrawAccount Key) : Prop :=
  ∀ stakeReceiver n, Fresh rt caller w₀ stakeReceiver →
    paidLamports rt w (caller.accounts rt w₀ s stakeReceiver) s.poolAmount = .ok n →
    Suits rt w (caller.accounts rt w₀ s stakeReceiver) s n

/-- Each account suits the books that the ones before it leave, which are drained, until the amount is met. -/
def Suitable (skipFee : Bool) (w₀ : World Key) :
    List (Key × Nat × Option Key) → World Key → Accounts Key → Nat → Prop
  | [], _, _, _ => True
  | c :: rest, w, accounts, remainingAmount =>
    SuitsAt rt caller w₀ w ⟨c.1, c.2.2, min (capacity w₀.stakePool skipFee c) remainingAmount⟩ ∧
      (capacity w₀.stakePool skipFee c < remainingAmount → ∀ w' accounts',
        Drained rt caller w₀ w accounts ⟨c.1, c.2.2, capacity w₀.stakePool skipFee c⟩ w' accounts' →
        Suitable skipFee w₀ rest w' accounts' (remainingAmount - capacity w₀.stakePool skipFee c))

end

/-- What identifies an entry, with its seeds. -/
def entryKeys (v : ValidatorStakeInfo Key) : Key × UInt32 × UInt64 :=
  (v.voteAccountAddress, v.validatorSeedSuffix, v.transientSeedSuffix)

/-- The books of withdrawals made in `w₀`: the counters, the preferred validators and what the entries record are
others, and nothing else is. -/
structure BooksOf (w₀ w : World Key) : Prop where
  accounts : w.accounts = w₀.accounts
  sysvars : w.sysvars = w₀.sysvars
  pool : ∃ d x s t, w.stakePool = { w₀.stakePool with
    preferredDepositValidatorVoteAddress := d
    preferredWithdrawValidatorVoteAddress := x
    poolTokenSupply := s
    totalLamports := t }
  header : w.validatorList.header = w₀.validatorList.header
  keys : w.validatorList.validators.map entryKeys = w₀.validatorList.validators.map entryKeys

section
variable {rt : Runtime Key} {caller : WithdrawCaller Key} {w₀ w w' : World Key} {accounts accounts' : Accounts Key}
  {s : WithdrawAccount Key}

omit [DecidableEq Key] in
theorem BooksOf.refl (w : World Key) : BooksOf w w := ⟨rfl, rfl, ⟨_, _, _, _, rfl⟩, rfl, rfl⟩

omit [DecidableEq Key] in
theorem entryKeys_withdraw {v v' : ValidatorStakeInfo Key} {source : StakeWithdrawSource} {n : Nat}
    (h : v.withdraw source n = .ok v') : entryKeys v' = entryKeys v := by
  cases source with
  | active | transient =>
    simp only [ValidatorStakeInfo.withdraw, bind_eq_ok, pure_eq_ok] at h
    obtain ⟨_, -, rfl⟩ := h
    rfl
  | validatorRemoval =>
    simp only [ValidatorStakeInfo.withdraw, bind_eq_ok, pure_eq_ok, exists_unit] at h
    obtain ⟨_, -, -, rfl⟩ := h
    rfl

theorem find_of_sourceOf {a : WithdrawStakeAccounts Key} {n : Nat} {plan : WithdrawPlan Key}
    {v : ValidatorStakeInfo Key} {source : StakeWithdrawSource} (h : sourceOf rt w a s n = some plan)
    (hitem : plan.item = some (v, source)) : ∃ vote, w.validatorList.find vote = some v := by
  rw [sourceOf] at h
  split at h
  · cases h
    cases hitem
  · simp only [Option.bind_eq_bind, Option.bind_eq_some_iff] at h
    obtain ⟨vote, -, u, hu, h⟩ := h
    refine ⟨vote, ?_⟩
    repeat' split at h
    all_goals
      cases h
      cases hitem
      exact hu

theorem Drained.booksOf (h : Drained rt caller w₀ w accounts s w' accounts') (hb : BooksOf w₀ w) : BooksOf w₀ w' := by
  obtain @⟨stakeReceiver, m, fee, n, plan, stakePool, validatorList, _, -, -, -, -, -, -, hsource, -, hcounters,
    hrecords⟩ := h
  have hlist : validatorList.header = w.validatorList.header ∧
      validatorList.validators.map entryKeys = w.validatorList.validators.map entryKeys := by
    rw [ValidatorList.withdraw] at hrecords
    split at hrecords
    next v source hitem =>
      obtain ⟨vote, hfind⟩ := find_of_sourceOf hsource hitem
      simp only [bind_eq_ok, pure_eq_ok] at hrecords
      obtain ⟨v', hv', rfl⟩ := hrecords
      have hkeys := entryKeys_withdraw hv'
      obtain ⟨hvote, pre, post, hl, hsplit⟩ := ValidatorList.find_split hfind
      refine ⟨rfl, ?_⟩
      rw [hsplit v' ((congrArg Prod.fst hkeys).trans hvote), hl, List.map_append, List.map_append, List.map_cons,
        List.map_cons, hkeys]
    next =>
      cases hrecords
      exact ⟨rfl, rfl⟩
  obtain ⟨-, -, rfl⟩ := StakePool.subWithdrawal_eq_some hcounters
  obtain ⟨_, _, hpool⟩ := WithdrawStakeAccounts.stakePool_eq plan w.stakePool
  obtain ⟨_, _, _, _, hpool₀⟩ := hb.pool
  refine ⟨hb.accounts, hb.sysvars, ?_, hlist.1.trans hb.header, hlist.2.trans hb.keys⟩
  dsimp only
  rw [hpool, hpool₀]
  exact ⟨_, _, _, _, rfl⟩

omit [DecidableEq Key] in
theorem BooksOf.votes (hb : BooksOf w₀ w) : w.validatorList.validators.map (·.voteAccountAddress) =
    w₀.validatorList.validators.map (·.voteAccountAddress) := by
  have h := congrArg (List.map Prod.fst) hb.keys
  rwa [List.map_map, List.map_map] at h

omit [DecidableEq Key] in
theorem BooksOf.listed {stakeAddress : Key} {voteAddress : Option Key} (hb : BooksOf w₀ w)
    (h : Listed rt w₀ stakeAddress voteAddress) : Listed rt w stakeAddress voteAddress := by
  rcases h with ⟨v, hv, hvote, haddress⟩ | h
  · have hmem : entryKeys v ∈ w.validatorList.validators.map entryKeys := by
      rw [hb.keys]
      exact List.mem_map_of_mem hv
    obtain ⟨u, hu, hkeys⟩ := List.mem_map.1 hmem
    simp only [entryKeys, Prod.mk.injEq] at hkeys
    obtain ⟨hvote', hseed, htransient⟩ := hkeys
    refine .inl ⟨u, hu, by rw [hvote, hvote'], ?_⟩
    rw [Runtime.validatorStake, Runtime.transientStake, hvote', hseed, htransient]
    exact haddress
  · obtain ⟨_, _, _, _, hpool⟩ := hb.pool
    rw [Listed, hpool]
    exact .inr h

end

/-! ## A run and the books -/

section
variable [Inhabited Key] {rt : Runtime Key} {caller : WithdrawCaller Key} {w₀ w : World Key}
  {accounts : Accounts Key} {s : WithdrawAccount Key} {stakeReceiver : Key}

theorem BooksOf.served (hl : rt.Lawful) (hi : Inv rt w₀) (hroomy : Roomy w₀) (hb : BooksOf w₀ w) :
    Served rt { w with accounts } (caller.accounts rt w₀ s stakeReceiver) := by
  obtain ⟨d, x, supply, total, hpool⟩ := hb.pool
  have hlist : w.validatorList.header.isValid := by
    rw [hb.header, ValidatorListHeader.isValid, hroomy.type]
    rfl
  refine ⟨ensure_eq_ok.2 rfl, World.validStakePool_eq_ok.2 ⟨rfl, ?_, rfl⟩, ?_, ?_, ?_, ?_, ?_,
    World.validValidatorList_eq_ok.2 ⟨hi.pool.list, hlist, rfl⟩⟩
  all_goals dsimp only
  all_goals rw [hpool]
  · exact hi.pool.valid
  · rfl
  · exact ensure_eq_ok.2 rfl
  · exact (StakePool.checkAuthorityWithdraw_eq_ok hl hi.pool.bump).2 rfl
  · rfl
  · rfl

/-- The accounts that the withdrawals in turn depend on are as they were in `w₀`, as far as they do. -/
structure Carried (w₀ : World Key) (accounts : Accounts Key) (rest : List (Key × Nat × Option Key)) : Prop where
  stake : ∀ c ∈ rest, stakeView (accounts c.1) = stakeView (w₀.accounts c.1)
  fee : tokenView (accounts w₀.stakePool.managerFeeAccount) = tokenView (w₀.accounts w₀.stakePool.managerFeeAccount)
  mint : decimalsView (accounts w₀.stakePool.poolMint) = decimalsView (w₀.accounts w₀.stakePool.poolMint)

omit [DecidableEq Key] [Inhabited Key] in
theorem Fresh.ne_of_listed {stakeAddress : Key} {voteAddress : Option Key}
    (h : Fresh rt caller w₀ stakeReceiver) (hs : Listed rt w₀ stakeAddress voteAddress) :
    stakeReceiver ≠ stakeAddress := by
  rcases hs with ⟨v, hv, -, rfl | rfl⟩ | rfl
  · exact (h.entries v hv).1
  · exact (h.entries v hv).2
  · exact h.reserve

omit [Inhabited Key] in
theorem Carried.withReceiver {rest : List (Key × Nat × Option Key)} {b : Account Key}
    (h : Carried w₀ accounts rest) (hlisted : ∀ c ∈ rest, Listed rt w₀ c.1 c.2.2)
    (hfresh : Fresh rt caller w₀ stakeReceiver) : Carried w₀ (update accounts stakeReceiver b) rest := by
  refine ⟨fun c hc => ?_, ?_, ?_⟩
  · rw [update_of_ne (hfresh.ne_of_listed (hlisted c hc)).symm]
    exact h.stake c hc
  · rw [update_of_ne hfresh.managerFee.symm]
    exact h.fee
  · rw [update_of_ne hfresh.mint.symm]
    exact h.mint

omit [Inhabited Key] in
theorem WithdrawCaller.withdraw_eq : caller.withdraw rt w₀ { w with accounts } s stakeReceiver =
    (caller.accounts rt w₀ s stakeReceiver).process rt
      { w with accounts := update accounts stakeReceiver (newStakeAccount rt) } s.poolAmount none := by
  rw [WithdrawCaller.withdraw, processWithdrawStake, WithdrawCaller.parse_instruction]
  rfl

omit [DecidableEq Key] [Inhabited Key] in
theorem BooksOf.listed_head {c : Key × Nat × Option Key} {rest : List (Key × Nat × Option Key)} (hb : BooksOf w₀ w)
    (hs : s.stakeAddress = c.1 ∧ s.voteAddress = c.2.2) (hlisted : ∀ c' ∈ c :: rest, Listed rt w₀ c'.1 c'.2.2) :
    Listed rt w s.stakeAddress s.voteAddress := by
  rw [hs.1, hs.2]
  exact hb.listed (hlisted c List.mem_cons_self)

-- what the handler reads is in the world of the run as in the books
section
variable {c : Key × Nat × Option Key} {rest : List (Key × Nat × Option Key)} {n : Nat}
  (hb : BooksOf w₀ w) (hc : Carried w₀ accounts (c :: rest))
  (hlisted : ∀ c' ∈ c :: rest, Listed rt w₀ c'.1 c'.2.2) (hfresh : Fresh rt caller w₀ stakeReceiver)
include hb hc hlisted hfresh

omit [Inhabited Key] in
theorem withdrawalFee_run :
    w.stakePool.withdrawalFee rt (update accounts stakeReceiver (newStakeAccount rt))
        w.stakePool.calcPoolTokensStakeWithdrawalFee (caller.accounts rt w₀ s stakeReceiver).burnFromPoolInfo
        (caller.accounts rt w₀ s stakeReceiver).managerFeeInfo s.poolAmount =
      w.stakePool.withdrawalFee rt w.accounts w.stakePool.calcPoolTokensStakeWithdrawalFee
        (caller.accounts rt w₀ s stakeReceiver).burnFromPoolInfo
        (caller.accounts rt w₀ s stakeReceiver).managerFeeInfo s.poolAmount := by
  refine StakePool.withdrawalFee_congr ?_
  rw [hb.accounts]
  exact (hc.withReceiver hlisted hfresh).fee

omit [Inhabited Key] in
theorem decimals_run : decimalsView (update accounts stakeReceiver (newStakeAccount rt) w.stakePool.poolMint) =
    decimalsView (w.accounts w.stakePool.poolMint) := by
  obtain ⟨_, _, _, _, hpool⟩ := hb.pool
  rw [show w.stakePool.poolMint = w₀.stakePool.poolMint by rw [hpool], hb.accounts]
  exact (hc.withReceiver hlisted hfresh).mint

omit [Inhabited Key] in
theorem paidLamports_run :
    paidLamports rt ({ w with accounts }.withReceiver rt stakeReceiver) (caller.accounts rt w₀ s stakeReceiver)
        s.poolAmount =
      paidLamports rt w (caller.accounts rt w₀ s stakeReceiver) s.poolAmount := by
  refine paidLamports_congr rfl ?_
  rw [hb.accounts]
  exact (hc.withReceiver hlisted hfresh).fee

omit [Inhabited Key] in
theorem plan_run (hs : s.stakeAddress = c.1) :
    (caller.accounts rt w₀ s stakeReceiver).plan rt ({ w with accounts }.withReceiver rt stakeReceiver) w.stakePool
        w.validatorList n =
      (caller.accounts rt w₀ s stakeReceiver).plan rt w w.stakePool w.validatorList n := by
  refine plan_congr rfl ?_
  rw [hb.accounts]
  show stakeView (update accounts stakeReceiver _ s.stakeAddress) = stakeView (w₀.accounts s.stakeAddress)
  rw [hs]
  exact (hc.withReceiver hlisted hfresh).stake c List.mem_cons_self

end

section
variable {c : Key × Nat × Option Key} {rest : List (Key × Nat × Option Key)}
  (hl : rt.Lawful) (hi : Inv rt w₀) (hroomy : Roomy w₀) (hb : BooksOf w₀ w) (hc : Carried w₀ accounts (c :: rest))
  (hs : s.stakeAddress = c.1 ∧ s.voteAddress = c.2.2) (hlisted : ∀ c' ∈ c :: rest, Listed rt w₀ c'.1 c'.2.2)
include hl hi hb hc hs hlisted

/-- An account passes at its turn exactly if it suits the books. -/
theorem passesAt_iff_suitsAt : PassesAt rt caller w₀ { w with accounts } s ↔ SuitsAt rt caller w₀ w s := by
  refine forall₃_congr fun stakeReceiver n hfresh => ?_
  rw [paidLamports_run hb hc hlisted hfresh]
  refine imp_congr_right fun _ => ?_
  rw [← passes_iff_suits hl (hb.votes ▸ hi.core.votes) rfl rfl (hb.listed_head hs hlisted)]
  exact exists_congr fun plan => Eq.congr_left (plan_run hb hc hlisted hfresh hs.1)

include hroomy

/-- The step lemma: a withdrawal of an account that suits succeeds exactly if the books can be kept and the calls
are carried out, and leaves the books and what the calls leave. -/
theorem withdraw_eq_ok_iff (hsuits : SuitsAt rt caller w₀ w s) {w₁ : World Key} :
    (∃ stakeReceiver, Fresh rt caller w₀ stakeReceiver ∧
        caller.withdraw rt w₀ { w with accounts } s stakeReceiver = .ok w₁) ↔
      ∃ w' accounts', Drained rt caller w₀ w accounts s w' accounts' ∧ w₁ = { w' with accounts := accounts' } := by
  have hlisted' := hb.listed_head hs hlisted
  have hvotes : (w.validatorList.validators.map (·.voteAccountAddress)).Nodup := hb.votes ▸ hi.core.votes
  constructor
  · rintro ⟨stakeReceiver, hfresh, h⟩
    rw [WithdrawCaller.withdraw_eq, process_eq_ok_iff (hb.served hl hi hroomy)] at h
    obtain ⟨m, fee, n, plan, accounts', p, l, hm, hepoch, hfee', hle, hn, hplan, hcalls, hp, hl', rfl⟩ := h
    have hplan' := (plan_run hb hc hlisted hfresh hs.1).symm.trans hplan
    obtain ⟨m', hm', hdec⟩ := exists_mint (decimals_run hb hc hlisted hfresh).symm hm
    exact ⟨_, accounts', .intro hfresh hepoch hm' ((withdrawalFee_run hb hc hlisted hfresh).symm.trans hfee') hle hn
      (sourceOf_of_plan hl hvotes rfl rfl hlisted' hplan') (hdec ▸ hcalls) hp hl', rfl⟩
  · rintro ⟨w', accounts', ⟨hfresh, hepoch, hm, hfee', hle, hn, hsource, hcalls, hp, hl'⟩, rfl⟩
    rename_i stakeReceiver m fee n plan p l
    refine ⟨stakeReceiver, hfresh, ?_⟩
    have hpaid : paidLamports rt w (caller.accounts rt w₀ s stakeReceiver) s.poolAmount = .ok n := by
      simp only [paidLamports, hfee', ok_bind, checkedSub_of_le hle, orErr, hn]
    obtain ⟨plan', hplan⟩ :=
      (passes_iff_suits hl hvotes rfl rfl hlisted').2 (hsuits stakeReceiver n hfresh hpaid)
    obtain rfl : plan' = plan := by
      have := sourceOf_of_plan hl hvotes rfl rfl hlisted' hplan
      rw [hsource, Option.some.injEq] at this
      exact this.symm
    obtain ⟨m', hm', hdec⟩ := exists_mint (decimals_run hb hc hlisted hfresh) hm
    rw [WithdrawCaller.withdraw_eq, process_eq_ok_iff (hb.served hl hi hroomy)]
    exact ⟨m', fee, n, plan', accounts', p, l, hm', hepoch, (withdrawalFee_run hb hc hlisted hfresh).trans hfee', hle,
      hn, (plan_run hb hc hlisted hfresh hs.1).trans hplan, hdec ▸ hcalls, hp, hl', rfl⟩

end
end

/-! ## The whole plan -/

section
variable {rt : Runtime Key} {caller : WithdrawCaller Key} {w₀ w : World Key} {s : WithdrawAccount Key}
  {plan : List (WithdrawAccount Key)}

theorem passesInTurn_nil : PassesInTurn rt caller w₀ w [] := by
  intro before s after w' h
  cases before <;> cases h

theorem passesInTurn_cons :
    PassesInTurn rt caller w₀ w (s :: plan) ↔ PassesAt rt caller w₀ w s ∧
      ∀ w₁, (∃ stakeReceiver, Fresh rt caller w₀ stakeReceiver ∧ caller.withdraw rt w₀ w s stakeReceiver = .ok w₁) →
        PassesInTurn rt caller w₀ w₁ plan := by
  constructor
  · intro h
    refine ⟨h [] s plan w rfl (.nil w), ?_⟩
    rintro w₁ ⟨stakeReceiver, hfresh, hstep⟩ before s' after w' rfl hrun
    exact h (s :: before) s' after w' rfl (.cons hfresh hstep hrun)
  · rintro ⟨hhead, htail⟩ before s' after w' heq hrun
    cases hrun with
    | nil =>
      cases heq
      exact hhead
    | cons hfresh hstep hrest =>
      cases heq
      exact htail _ ⟨_, hfresh, hstep⟩ _ _ _ _ rfl hrest

/-- The accounts that a withdrawal is not from stay as they matter. -/
theorem Drained.carried {w' : World Key} {accounts accounts' : Accounts Key} {c : Key × Nat × Option Key}
    {rest : List (Key × Nat × Option Key)} (hl : rt.Lawful)
    (h : Drained rt caller w₀ w accounts s w' accounts') (hc : Carried w₀ accounts (c :: rest))
    (hs : s.stakeAddress = c.1) (hlisted : ∀ c' ∈ c :: rest, Listed rt w₀ c'.1 c'.2.2)
    (hnot : c.1 ∉ rest.map Prod.fst) : Carried w₀ accounts' rest := by
  obtain ⟨hfresh, -, -, -, -, -, -, hcalls, -, -⟩ := h
  have hkeeps := chargedCalls_keeps hl hcalls
  have hc := hc.withReceiver (b := newStakeAccount rt) hlisted hfresh
  refine ⟨fun c' hc' => ?_, (hkeeps.token _).trans hc.fee, (hkeeps.decimals _).trans hc.mint⟩
  have hne : c'.1 ≠ s.stakeAddress := fun heq => hnot (hs ▸ heq ▸ List.mem_map_of_mem hc')
  exact (hkeeps.stake c'.1 hne (hfresh.ne_of_listed (hlisted c' (List.mem_cons_of_mem _ hc'))).symm).trans
    (hc.stake c' (List.mem_cons_of_mem _ hc'))

end

section
variable [Inhabited Key] {rt : Runtime Key} {caller : WithdrawCaller Key} {w₀ w : World Key} {skipFee : Bool}

/-- The run lemma: what the loop of the client takes from passes in turn exactly if the accounts suit the books. -/
theorem passesInTurn_iff_suitable (hl : rt.Lawful) (hi : Inv rt w₀) (hroomy : Roomy w₀) {minBalance : Nat}
    {rest : List (Key × Nat × Option Key)} {accounts : Accounts Key} {remainingAmount : Nat}
    {plan : List (WithdrawAccount Key)} (hb : BooksOf w₀ w) (hc : Carried w₀ accounts rest)
    (hlisted : ∀ c ∈ rest, Listed rt w₀ c.1 c.2.2) (hnodup : (rest.map Prod.fst).Nodup)
    (husable : ∀ c ∈ rest, minBalance < c.2.1)
    (hloop : withdrawFromAccounts w₀.stakePool minBalance skipFee rest remainingAmount = some (plan, 0)) :
    PassesInTurn rt caller w₀ { w with accounts } plan ↔
      Suitable rt caller skipFee w₀ rest w accounts remainingAmount := by
  induction rest generalizing w accounts remainingAmount plan with
  | nil =>
    cases hloop
    exact iff_of_true passesInTurn_nil trivial
  | cons c rest ih =>
    obtain ⟨hnot, hnodup'⟩ := List.nodup_cons.1 hnodup
    obtain ⟨rest', rfl, hrest⟩ :=
      withdrawFromAccounts_cons_usable (husable c List.mem_cons_self) hloop
    rw [passesInTurn_cons, Suitable, passesAt_iff_suitsAt hl hi hb hc ⟨rfl, rfl⟩ hlisted]
    refine and_congr_right fun hsuits => ?_
    rcases hrest with ⟨hle, rfl, -⟩ | ⟨hlt, hloop'⟩
    · exact iff_of_true (fun _ _ => passesInTurn_nil) fun hlt => absurd hle (Nat.not_le.2 hlt)
    · rw [Nat.min_eq_left (Nat.le_of_lt hlt)] at hsuits ⊢
      have hstep := @withdraw_eq_ok_iff _ _ _ rt caller w₀ w accounts ⟨c.1, c.2.2, capacity w₀.stakePool skipFee c⟩
        c rest hl hi hroomy hb hc ⟨rfl, rfl⟩ hlisted hsuits
      have htail : ∀ w' accounts',
          Drained rt caller w₀ w accounts ⟨c.1, c.2.2, capacity w₀.stakePool skipFee c⟩ w' accounts' →
          (PassesInTurn rt caller w₀ { w' with accounts := accounts' } rest' ↔
            Suitable rt caller skipFee w₀ rest w' accounts' (remainingAmount - capacity w₀.stakePool skipFee c)) :=
        fun w' accounts' h => ih (h.booksOf hb) (h.carried hl hc rfl hlisted hnot)
          (fun c' hc' => hlisted c' (List.mem_cons_of_mem _ hc')) hnodup'
          (fun c' hc' => husable c' (List.mem_cons_of_mem _ hc')) hloop'
      constructor
      · intro h _ w' accounts' hdrained
        exact (htail w' accounts' hdrained).1 (h _ (hstep.2 ⟨w', accounts', hdrained, rfl⟩))
      · intro h w₁ hrun
        obtain ⟨w', accounts', hdrained, rfl⟩ := hstep.1 hrun
        exact (htail w' accounts' hdrained).2 (h hlt w' accounts' hdrained)

/-! ### The accounts of the pool -/

omit [Inhabited Key] in
theorem listed_of_usable {c : Key × Nat × Option Key} (h : c ∈ usableAccounts rt w) : Listed rt w c.1 c.2.2 := by
  have hmem := (List.mem_filter.1 h).1
  simp only [withdrawableAccounts, sortedAccounts, List.mem_append, List.mem_insertionSort, List.mem_map,
    List.mem_singleton] at hmem
  rcases hmem with (⟨v, hv, rfl⟩ | ⟨v, hv, rfl⟩) | rfl
  · exact .inl ⟨v, hv, rfl, .inl rfl⟩
  · exact .inl ⟨v, hv, rfl, .inr rfl⟩
  · exact .inr rfl

theorem nodup_usableAccounts (hl : rt.Lawful) (hi : Inv rt w) : ((usableAccounts rt w).map Prod.fst).Nodup := by
  have hvotes := hi.core.votes
  have hvalidators : (w.validatorList.validators.map rt.validatorStake).Nodup :=
    (List.Nodup.of_map _ hvotes).map_on fun u hu v hv h => entry_unique hvotes hv hu (validatorStake_inj hl h)
  have htransients : (w.validatorList.validators.map rt.transientStake).Nodup :=
    (List.Nodup.of_map _ hvotes).map_on fun u hu v hv h => entry_unique hvotes hv hu (transientStake_inj hl h)
  have hperm : ((withdrawableAccounts rt w (reserveLamports rt w)).map Prod.fst).Perm
      (w.validatorList.validators.map rt.validatorStake ++ w.validatorList.validators.map rt.transientStake ++
        [w.stakePool.reserveStake]) := by
    simp only [withdrawableAccounts, sortedAccounts, List.map_append, List.map_cons, List.map_nil]
    refine List.Perm.append_right _ (List.Perm.append ?_ ?_)
    · refine ((List.perm_insertionSort _ _).map _).trans ?_
      rw [List.map_map]
      rfl
    · refine ((List.perm_insertionSort _ _).map _).trans ?_
      rw [List.map_map]
      rfl
  refine List.Nodup.sublist (List.filter_sublist.map _) (hperm.nodup_iff.2 ?_)
  refine List.nodup_append.2 ⟨List.nodup_append.2 ⟨hvalidators, htransients, ?_⟩, List.nodup_singleton _, ?_⟩
  · rintro k hk k' hk' rfl
    obtain ⟨u, -, rfl⟩ := List.mem_map.1 hk
    obtain ⟨v, -, hv⟩ := List.mem_map.1 hk'
    exact validatorStake_ne_transientStake hl u v hv.symm
  · rintro k hk k' hk' rfl
    cases List.mem_singleton.1 hk'
    rcases List.mem_append.1 hk with hk | hk
    · obtain ⟨u, -, hu⟩ := List.mem_map.1 hk
      exact hi.core.reserve_pda (hu ▸ .validator u)
    · obtain ⟨u, -, hu⟩ := List.mem_map.1 hk
      exact hi.core.reserve_pda (hu ▸ .transient u)

/-! ### The result -/

/-- The promise is kept exactly if the client can compute what it needs and, where the accounts give the amount, each
that it comes to suits the books that the ones before it leave. -/
theorem planKept_iff (hl : rt.Lawful) (hreach : (poolSystem rt).Reachable w) {poolAmount : Nat} :
    PlanKept rt caller w poolAmount skipFee ↔
      (Fetched w → Computable rt w skipFee poolAmount ∧
        (poolAmount ≤ capacities w.stakePool skipFee (usableAccounts rt w) →
          Suitable rt caller skipFee w (usableAccounts rt w) w w.accounts poolAmount)) := by
  have hi := Inv.of_reach hl hreach
  have hpasses : ∀ plan, prepareWithdrawAccounts rt w poolAmount skipFee = some (.ok plan) →
      (PassesInTurn rt caller w w plan ↔
        Suitable rt caller skipFee w (usableAccounts rt w) w w.accounts poolAmount) := fun plan hplan =>
    passesInTurn_iff_suitable hl hi (Roomy.of_reach hl hreach) (BooksOf.refl w) ⟨fun _ _ => rfl, rfl, rfl⟩
      (fun c hc => listed_of_usable hc) (nodup_usableAccounts hl hi) (fun c hc => minBalance_lt hc)
      (prepareWithdrawAccounts_eq_ok_iff.1 hplan).2.2.2
  constructor
  · rintro ⟨hends, -, hkept⟩ hfetched
    have hcomputable := prepareWithdrawAccounts_isSome_iff.1 hends hfetched
    refine ⟨hcomputable, fun hle => ?_⟩
    obtain ⟨plan, hplan⟩ := (exists_plan_iff hcomputable).2 ⟨hfetched, hle⟩
    exact (hpasses plan hplan).1 (hkept plan hplan)
  · intro h
    refine ⟨prepareWithdrawAccounts_isSome_iff.2 fun hfetched => (h hfetched).1, fun plan hplan => sum_plan hplan,
      fun plan hplan => ?_⟩
    obtain ⟨hcomputable, hsuitable⟩ := h (prepareWithdrawAccounts_eq_ok_iff.1 hplan).1
    exact (hpasses plan hplan).2 (hsuitable ((exists_plan_iff hcomputable).1 ⟨plan, hplan⟩).2)

end

section
open Reference

/-- The keys of a withdrawal. -/
def someCaller : WithdrawCaller Reference.Key := ⟨wallet 40, wallet 41, wallet 42⟩

/-- A withdrawal that is paid from the fee account, for which the fee is skipped. -/
def feeCaller : WithdrawCaller Reference.Key := ⟨wallet 40, wallet 41, managerFeeAccount⟩

theorem suits_joined (stakeReceiver : Reference.Key) :
    Suits runtime joined (feeCaller.accounts runtime joined ⟨reserve, none, 1000⟩ stakeReceiver)
      ⟨reserve, none, 1000⟩ 1000 := by
  have hactive : (feeCaller.accounts runtime joined ⟨reserve, none, 1000⟩ reserve).hasActiveStake joined = false := by
    decide +kernel
  have htransient :
      (feeCaller.accounts runtime joined ⟨reserve, none, 1000⟩ reserve).hasTransientStake joined = false := by
    decide +kernel
  have hprice : joined.stakePool.getLamportsPerPoolToken.isSome := by decide +kernel
  have hstate : ((joined.accounts reserve).stakeState?.bind fun s => s.meta?.map fun m => (s, m)).isSome := by
    decide +kernel
  have hremains : ∀ x ∈ (joined.accounts reserve).stakeState?.bind fun s => s.meta?.map fun m => (s, m),
      minimumReserveLamports x.2 ≤ (joined.accounts reserve).lamports - 1000 := by decide +kernel
  obtain ⟨⟨s, m⟩, hsm⟩ := Option.isSome_iff_exists.1 hstate
  have hle := hremains _ hsm
  simp only [Option.bind_eq_some_iff, Option.map_eq_some_iff, Prod.mk.injEq] at hsm
  obtain ⟨_, hs, _, hm, rfl, rfl⟩ := hsm
  rw [Suits, if_pos (by decide +kernel)]
  exact ⟨_, _, Account.stakeState?_eq_some.1 hs, hm, hprice, hactive, htransient, hle⟩

theorem planKept_iff_joined : PlanKept runtime feeCaller joined 1000 true := by
  have hreach : (poolSystem runtime).Reachable joined :=
    reachable_after (initialized_opened (by decide +kernel)) (by decide +kernel)
  have husable : usableAccounts runtime joined = [(reserve, 1094434240, none)] := by decide +kernel
  refine (planKept_iff lawful hreach).2 fun _ => ⟨⟨by decide +kernel, by decide +kernel, ?_⟩, fun _ => ?_⟩
  · rw [husable]
    intro before c after h _
    have hc : c ∈ [(reserve, 1094434240, none)] := h ▸ List.mem_append_right _ List.mem_cons_self
    cases List.mem_singleton.1 hc
    exact ⟨1094434240, by decide +kernel, .inl rfl⟩
  · have hcapacity : capacity joined.stakePool true (reserve, 1094434240, none) = 1094434240 := by decide +kernel
    rw [husable, Suitable, hcapacity]
    refine ⟨fun stakeReceiver n _ hpaid => ?_, fun h => absurd h (by decide)⟩
    have hpaid' : paidLamports runtime joined (feeCaller.accounts runtime joined ⟨reserve, none, 1000⟩ reserve) 1000 =
        .ok 1000 := by decide +kernel
    cases hpaid.symm.trans hpaid'
    exact suits_joined stakeReceiver

/-- Without a withdrawal fee, which is stored as 0/0, the client divides by zero. -/
theorem plan_not_kept : ¬ PlanKept runtime someCaller joined 1000 false := by
  have hpanics : (prepareWithdrawAccounts runtime joined 1000 false).isSome = false := by decide +kernel
  intro h
  have := h.terminates
  rw [hpanics] at this
  cases this

end

end SplStakePool
