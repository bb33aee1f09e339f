import SplStakePool.System
import SplStakePool.Runtime.Reference

/-!
# Sessions on the reference runtime

Executable steps of the system over the reference runtime, and a genesis with one pool, so that runs
of the system can be computed. A session is the list of the labels of its steps.

An executed step is a step of the system (`exec_step`), so that what a session computes is a reachable world. The
worlds at the end are the ones that several modules look at: a pool that gained, one with a removed validator, one
that holds no more than it must.
-/

namespace SplStakePool.Reference

/-! ## Executing steps -/

/-- Wallets sign, derived addresses do not. -/
def mayAct (info : AccountInfo Key) : Bool := !info.isSigner || info.key.head? != some 1

/-- The steps that sessions are made of; `none` where a step is not possible or not provided for. -/
def exec (w : World Key) : Label Key → Option (World Key)
  | .instruction accounts i =>
    if accounts.all mayAct then (process runtime w accounts i).toOption else none
  | .donate k n => some (w.setAccount k ((w.accounts k).credit n))
  | .reward k n =>
    match (w.accounts k).data with
    | .stakeState (.stake m s) =>
      if (w.accounts k).owner = stakeProgram ∧ w.sysvars.epochRewardsActive ∧
          s.delegation.activationEpoch < w.sysvars.epoch ∧ 0 < (w.accounts k).lamports then
        some (w.setAccount k ⟨(w.accounts k).lamports + n, stakeProgram,
          .stakeState (.stake m (s.addStake n s.creditsObserved))⟩)
      else none
    | _ => none
  | .advanceEpoch epoch epochRewardsActive stakeHistory =>
    if w.sysvars.epoch < epoch ∧ epoch < 2 ^ 64 then
      some { w with sysvars := { w.sysvars with epoch, epochRewardsActive, stakeHistory } }
    else none
  | .completeRewards => some { w with sysvars := { w.sysvars with epochRewardsActive := false } }
  | .deactivateDelinquent k =>
    match (w.accounts k).data with
    | .stakeState (.stake m s) =>
      if s.delegation.deactivationEpoch = epochMax then
        some (w.setAccount k ⟨(w.accounts k).lamports, (w.accounts k).owner,
          .stakeState (.stake m (s.deactivateAt w.sysvars.epoch))⟩)
      else none
    | _ => none
  | .forceDestake k =>
    match (w.accounts k).data with
    | .stakeState (.stake m _) =>
      some (w.setAccount k ⟨(w.accounts k).lamports, (w.accounts k).owner, .stakeState (.initialized m)⟩)
    | _ => none
  | .purge k =>
    if (w.accounts k).lamports = 0 ∧ k ≠ w.stakePool.poolMint then
      some (w.setAccount k ⟨0, systemProgram, .none⟩)
    else none
  | .setMinimumDelegation n =>
    if n < 2 ^ 64 then some { w with sysvars := { w.sysvars with minimumDelegation := n } } else none
  | .foreign _ _ | .burn _ _ => none

theorem not_isPda_of_head {k : Key} (h : k.head? ≠ some 1) : ¬ runtime.IsPda k := by
  rintro ⟨seeds, hs⟩
  cases hs
  exact h rfl

theorem noPdaSigner_of_all {accounts : List (AccountInfo Key)} (h : accounts.all mayAct) :
    NoPdaSigner runtime accounts := by
  intro info hi hs
  have := List.all_eq_true.1 h info hi
  simp only [mayAct, hs, Bool.not_true, Bool.false_or, bne_iff_ne, ne_eq] at this
  exact not_isPda_of_head this

theorem exec_step {w w' : World Key} {l : Label Key} (h : exec w l = some w') : Step runtime w l w' := by
  cases l with
  | instruction accounts i =>
    simp only [exec] at h
    split at h
    · exact .instruction (noPdaSigner_of_all ‹_›) (Exec.toOption_eq_some.1 h)
    · cases h
  | donate k n => cases h; exact .env (.donate k n)
  | reward k n =>
    simp only [exec] at h
    split at h
    · split at h
      · cases h
        rename_i hd hc
        exact .env (.reward k n _ _ _ hd hc.1 hc.2.1 hc.2.2.1 hc.2.2.2)
      · cases h
    · cases h
  | advanceEpoch epoch active history =>
    simp only [exec] at h
    split at h
    · cases h
      exact .env (.advanceEpoch epoch active history (And.left ‹_›) (And.right ‹_›))
    · cases h
  | completeRewards => cases h; exact .env .completeRewards
  | deactivateDelinquent k =>
    simp only [exec] at h
    split at h
    · split at h
      · cases h
        exact .env (.deactivateDelinquent k _ _ ‹_› ‹_›)
      · cases h
    · cases h
  | forceDestake k =>
    simp only [exec] at h
    split at h
    · cases h
      exact .env (.forceDestake k _ _ ‹_›)
    · cases h
  | purge k =>
    simp only [exec] at h
    split at h
    · cases h
      exact .env (.purge k (And.left ‹_›) (And.right ‹_›))
    · cases h
  | setMinimumDelegation n =>
    simp only [exec] at h
    split at h
    · cases h
      exact .env (.setMinimumDelegation n ‹_›)
    · cases h
  | foreign | burn => cases h

theorem session_path {ok : World Key → Label Key → Prop} (hok : ∀ w l w', exec w l = some w' → ok w l)
    {w w' : World Key} {ls : List (Label Key)} (h : System.runList exec w ls = some w') :
    (poolSystem runtime).Path ok w w' :=
  System.Executes.path (S := poolSystem runtime) (fun _ _ _ hs => ⟨hok _ _ _ hs, exec_step hs⟩) h

/-- The world after a step, if the step is possible. -/
def next (w : World Key) (l : Label Key) : World Key := (exec w l).getD w

/-- The world after a session, if all of its steps are possible. -/
def after (w : World Key) (ls : List (Label Key)) : World Key := (System.runList exec w ls).getD w

theorem exec_next {w : World Key} {l : Label Key} (h : (exec w l).isSome) : exec w l = some (next w l) := by
  obtain ⟨w', hw⟩ := Option.isSome_iff_exists.1 h
  rw [next, hw, Option.getD_some]

theorem next_step {w : World Key} {l : Label Key} (h : (exec w l).isSome) :
    Step runtime w l (next w l) := exec_step (exec_next h)

theorem next_process {w : World Key} {accounts : List (AccountInfo Key)} {i : StakePoolInstruction Key}
    (h : (exec w (.instruction accounts i)).isSome) :
    process runtime w accounts i = .ok (next w (.instruction accounts i)) := by
  cases next_step h with
  | instruction _ h => exact h
  | env h => cases h

theorem after_path {ok : World Key → Label Key → Prop} (hok : ∀ w l w', exec w l = some w' → ok w l)
    {w : World Key} {ls : List (Label Key)} (h : (System.runList exec w ls).isSome) :
    (poolSystem runtime).Path ok w (after w ls) := by
  obtain ⟨w', hw⟩ := Option.isSome_iff_exists.1 h
  rw [after, hw, Option.getD_some]
  exact session_path hok hw

theorem after_path_of {ok : World Key → Label Key → Prop} {w : World Key} {ls : List (Label Key)}
    (hok : ∀ l ∈ ls, ∀ w, ok w l) (h : (System.runList exec w ls).isSome) :
    (poolSystem runtime).Path ok w (after w ls) := by
  obtain ⟨w', hw⟩ := Option.isSome_iff_exists.1 h
  rw [after, hw, Option.getD_some]
  exact System.Path.of_runList (S := poolSystem runtime) (fun _ _ _ => exec_step) hok hw

theorem reachable_after {w : World Key} {ls : List (Label Key)} (h : Initialized runtime w)
    (hs : (System.runList exec w ls).isSome) : (poolSystem runtime).Reachable (after w ls) :=
  ⟨w, h, after_path (fun _ _ _ _ => trivial) hs⟩

def withdrawAuthority : Key := runtime.withdrawAuthority
def depositAuthority : Key := runtime.depositAuthority

def stakePoolKey : Key := wallet 10
def validatorListKey : Key := wallet 11
def reserve : Key := wallet 12
def poolMint : Key := wallet 13
def managerFeeAccount : Key := wallet 14
def manager : Key := wallet 20
def staker : Key := wallet 21
def user : Key := wallet 22
/-- The user's pool tokens, and the accounts for withdrawn stake. -/
def userTokens : Key := wallet 23
def userStake : Key := wallet 24
def userStake' : Key := wallet 25
def vote : Key := wallet 30
def vote' : Key := wallet 31

def poolMeta : Meta Key := ⟨rent stakeSpace, ⟨withdrawAuthority, withdrawAuthority⟩, default⟩

def tokenAccount (owner : Key) : AccountData Key := .token ⟨poolMint, owner, 0, .initialized, []⟩

/-- The accounts there are at genesis. -/
def genesisAccounts : List (Key × Account Key) := [
  (stakePoolKey, ⟨rent 1000, wallet 0, .none⟩),
  (validatorListKey, ⟨rent 1000, wallet 0, .none⟩),
  (reserve, ⟨1000000000, stakeProgram, .stakeState (.initialized poolMeta)⟩),
  (poolMint, ⟨rent 82, wallet 3, .mint ⟨some withdrawAuthority, 0, 9, none, []⟩⟩),
  (managerFeeAccount, ⟨rent 165, wallet 3, tokenAccount manager⟩),
  (userTokens, ⟨rent 165, wallet 3, tokenAccount user⟩),
  (user, ⟨1000000000, systemProgram, .none⟩),
  (userStake, ⟨rent stakeSpace, stakeProgram, .stakeState .uninitialized⟩),
  (userStake', ⟨rent stakeSpace, stakeProgram, .stakeState .uninitialized⟩),
  (vote, ⟨rent 3762, wallet 8, .vote 0⟩),
  (vote', ⟨rent 3762, wallet 8, .vote 0⟩)]

def noFee : Fee := ⟨0, 0⟩

/-- A stake pool account full of zeros. -/
def blankPool : StakePool Key where
  version := 0
  accountType := .uninitialized
  manager := default
  staker := default
  stakeDepositAuthority := default
  stakeWithdrawBumpSeed := 0
  validatorList := default
  reserveStake := default
  poolMint := default
  managerFeeAccount := default
  tokenProgramId := default
  totalLamports := 0
  poolTokenSupply := 0
  lastUpdateEpoch := 0
  lockup := default
  epochFee := noFee
  nextEpochFee := .none
  preferredDepositValidatorVoteAddress := none
  preferredWithdrawValidatorVoteAddress := none
  stakeDepositFee := noFee
  stakeWithdrawalFee := noFee
  nextStakeWithdrawalFee := .none
  stakeReferralFee := 0
  solDepositAuthority := none
  solDepositFee := noFee
  solReferralFee := 0
  solWithdrawAuthority := none
  solWithdrawalFee := noFee
  nextSolWithdrawalFee := .none
  lastEpochPoolTokenSupply := 0
  lastEpochTotalLamports := 0
  maxValidatorStake := none

def genesis : World Key where
  sysvars := ⟨10, false, fun _ => none, 1⟩
  stakePool := blankPool
  stakePoolDataLen := 600
  validatorList := ⟨⟨.uninitialized, 0⟩, []⟩
  validatorListDataLen := 9 + 3 * 73
  accounts := fun k => (genesisAccounts.lookup k).getD ⟨0, systemProgram, .none⟩

theorem genesis_stake {k : Key} {s : StakeStateV2 Key} (hd : (genesis.accounts k).data = .stakeState s) :
    s = .uninitialized ∨ s = .initialized poolMeta := by
  simp only [genesis] at hd
  cases hl : genesisAccounts.lookup k with
  | none => rw [hl] at hd; cases hd
  | some a =>
    rw [hl] at hd
    have hmem : a ∈ genesisAccounts.map Prod.snd := by
      rw [List.lookup_eq_some_iff] at hl
      obtain ⟨l₁, l₂, he, -⟩ := hl
      rw [he]; simp
    have hall : ∀ b ∈ genesisAccounts.map Prod.snd, ∀ t, b.data = .stakeState t →
        t = .uninitialized ∨ t = .initialized poolMeta := by
      simp [genesisAccounts, tokenAccount]
    exact hall a hmem s hd

theorem genesis_ok : Genesis runtime genesis where
  pdas k hk := by
    obtain ⟨seeds, hs⟩ := hk.isPda lawful
    cases hs
    exact ⟨rfl, rfl⟩
  rent k s hd m hm := by
    rcases genesis_stake hd with rfl | rfl
    · cases hm
    · cases hm; decide
  rent_lt k s m hd hm := by
    rcases genesis_stake hd with rfl | rfl
    · cases hm
    · cases hm; decide
  epoch := by decide

/-! ## Instructions -/

def signer (k : Key) : AccountInfo Key := ⟨k, true, true⟩
def writable (k : Key) : AccountInfo Key := ⟨k, false, true⟩
def clock : AccountInfo Key := writable (wallet 6)
def rentSysvar : AccountInfo Key := writable (wallet 7)
/-- The stake history, the stake configuration. -/
def unused : AccountInfo Key := writable (wallet 9)

def poolInfo : AccountInfo Key := writable stakePoolKey
def listInfo : AccountInfo Key := writable validatorListKey
def authorityInfo : AccountInfo Key := writable withdrawAuthority
def reserveInfo : AccountInfo Key := writable reserve
def mintInfo : AccountInfo Key := writable poolMint
def feeInfo : AccountInfo Key := writable managerFeeAccount
def tokensInfo : AccountInfo Key := writable userTokens
def systemInfo : AccountInfo Key := writable systemProgram
def stakeInfo : AccountInfo Key := writable stakeProgram
def tokenInfo : AccountInfo Key := writable (wallet 3)

/-- The stake accounts of a validator, the transient one under a seed. -/
def entry (vote : Key) (transientSeedSuffix : UInt64) : ValidatorStakeInfo Key :=
  ⟨0, 0, 0, transientSeedSuffix, 0, StakeStatus.active.pod, vote⟩

def validatorStake (vote : Key) : Key := runtime.validatorStake (entry vote 0)
def transientStake (vote : Key) (seed : UInt64) : Key := runtime.transientStake (entry vote seed)

def openPool (epochFee withdrawalFee depositFee : Fee) : Label Key :=
  .instruction [poolInfo, signer manager, writable staker, authorityInfo, listInfo, reserveInfo,
    mintInfo, feeInfo, tokenInfo] (.initializePool epochFee withdrawalFee depositFee 0 3)

def addValidator (vote : Key) : Label Key :=
  .instruction [poolInfo, signer staker, reserveInfo, authorityInfo, listInfo,
    writable (validatorStake vote), writable vote, rentSysvar, clock, unused, unused, systemInfo,
    stakeInfo] (.addValidatorToPool 0)

def removeValidator (vote : Key) : Label Key :=
  .instruction [poolInfo, signer staker, authorityInfo, listInfo, writable (validatorStake vote),
    writable (transientStake vote 0), clock, stakeInfo] .removeValidatorFromPool

def increase (vote : Key) (lamports : Nat) (seed : UInt64) : Label Key :=
  .instruction [poolInfo, signer staker, authorityInfo, listInfo, reserveInfo,
    writable (transientStake vote seed), writable (validatorStake vote), writable vote, clock,
    rentSysvar, unused, unused, systemInfo, stakeInfo] (.increaseValidatorStake lamports seed)

def decrease (vote : Key) (lamports : Nat) (seed : UInt64) : Label Key :=
  .instruction [poolInfo, signer staker, authorityInfo, listInfo, reserveInfo,
    writable (validatorStake vote), writable (transientStake vote seed), clock, unused, systemInfo,
    stakeInfo] (.decreaseValidatorStakeWithReserve lamports seed)

def updateList (entries : List (Key × UInt64)) (noMerge : Bool) : Label Key :=
  .instruction ([poolInfo, authorityInfo, listInfo, reserveInfo, clock, unused, stakeInfo] ++
    entries.flatMap fun (vote, seed) =>
      [writable (validatorStake vote), writable (transientStake vote seed)])
    (.updateValidatorListBalance 0 noMerge)

def updatePool : Label Key :=
  .instruction [poolInfo, authorityInfo, listInfo, reserveInfo, feeInfo, mintInfo, tokenInfo]
    .updateStakePoolBalance

def setPreferred (validatorType : PreferredValidatorType) (vote : Option Key) : Label Key :=
  .instruction [poolInfo, signer staker, listInfo] (.setPreferredValidator validatorType vote)

def setFee (fee : FeeType) : Label Key := .instruction [poolInfo, signer manager] (.setFee fee)

def setMaxValidatorStake (maxStake : Option Nat) : Label Key :=
  .instruction [poolInfo, signer manager] (.setMaxValidatorStake maxStake)

def depositSol (lamports minimum : Nat) : Label Key :=
  .instruction [poolInfo, authorityInfo, reserveInfo, signer user, tokensInfo, feeInfo, feeInfo, mintInfo,
    systemInfo, tokenInfo] (.depositSolWithSlippage lamports minimum)

def depositStake (stake vote : Key) (minimum : Nat) : Label Key :=
  .instruction [poolInfo, listInfo, writable depositAuthority, authorityInfo, writable stake,
    writable (validatorStake vote), reserveInfo, tokensInfo, feeInfo, feeInfo, mintInfo, clock, unused,
    tokenInfo, stakeInfo] (.depositStakeWithSlippage minimum)

def withdrawSol (poolTokens minimum : Nat) : Label Key :=
  .instruction [poolInfo, authorityInfo, signer user, tokensInfo, reserveInfo, writable user, feeInfo,
    mintInfo, clock, unused, stakeInfo, tokenInfo] (.withdrawSolWithSlippage poolTokens minimum)

def withdrawStake (source destination : Key) (poolTokens minimum : Nat) : Label Key :=
  .instruction [poolInfo, listInfo, authorityInfo, writable source, writable destination, writable user, signer user,
    tokensInfo, feeInfo, mintInfo, clock, tokenInfo, stakeInfo]
    (.withdrawStakeWithSlippage poolTokens minimum)

/-- The pool right after `Initialize`. -/
def opened (epochFee withdrawalFee depositFee : Fee) : World Key :=
  next genesis (openPool epochFee withdrawalFee depositFee)

theorem initialized_opened {epochFee withdrawalFee depositFee : Fee}
    (h : (exec genesis (openPool epochFee withdrawalFee depositFee)).isSome) :
    Initialized runtime (opened epochFee withdrawalFee depositFee) :=
  ⟨genesis, _, epochFee, withdrawalFee, depositFee, 0, 3, genesis_ok, next_process h⟩

/-- A pool with fees that has received a donation. -/
def endowed : World Key := next (opened ⟨10, 1⟩ ⟨3, 1⟩ ⟨7, 1⟩) (.donate reserve 123456789)

/-- The pool after an update, with a token that is worth more than a lamport. -/
def gainedPool : World Key := next endowed updatePool

/-- The pool after a user deposited and withdrew. -/
def roundTrip : World Key := next (next gainedPool (depositSol 1000003 0)) (withdrawSol 400000 0)

/-- A pool without fees whose only validator holds no more than the minimum. -/
def thin : World Key :=
  after (opened noFee noFee noFee) [.donate reserve 123456789, updatePool, depositSol 10000000 0,
    addValidator vote, .advanceEpoch 11 false (fun _ => none), updateList [(vote, 0)] false, updatePool]

/-- A pool with a validator that has active and transient stake. -/
def staked : World Key :=
  after (opened noFee noFee noFee) [depositSol 100000000 0, addValidator vote, increase vote 5000000 7]

/-- A pool with a validator, and after its removal. -/
def joined : World Key := after (opened noFee noFee noFee) [depositSol 100000000 0, addValidator vote]

def retired : World Key := next joined (removeValidator vote)

end SplStakePool.Reference
