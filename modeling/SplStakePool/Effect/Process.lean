import SplStakePool.Effect.Decrease
import SplStakePool.Effect.Exchange
import SplStakePool.Effect.Increase
import SplStakePool.Effect.Update
import SplStakePool.Effect.Validator
import SplStakePool.Spec.Initialize
import SplStakePool.Spec.Manage
import SplStakePool.Spec.Signers

/-!
# The effect of an instruction

`Executed` says which handler a successful instruction on an initialized pool was, with what that handler
has done. `Effect` sorts the handlers by what they do to the stake of the pool, and `Statics` is what all
of them leave alone.

The dispatch is unfolded once, in `process_executed`. A result about every instruction then is a case for each
constructor of `Executed`, and one about the stake of the pool a case for each of the six effects.
-/

namespace SplStakePool
open Exec Machine Function

variable {Key : Type} [DecidableEq Key] [Inhabited Key] {rt : Runtime Key} {w w' : World Key}
  {accounts : List (AccountInfo Key)} {i : StakePoolInstruction Key} {out : Option Key}

/-- The account that a withdrawal pays out to. -/
def StakePoolInstruction.recipient (rt : Runtime Key) (accounts : List (AccountInfo Key)) :
    StakePoolInstruction Key → Option Key
  | .withdrawSol _ | .withdrawSolWithSlippage _ _ =>
    (WithdrawSolAccounts.parse accounts).toOption.map (·.1.destinationLamportsInfo.key)
  | .withdrawStake _ | .withdrawStakeWithSlippage _ _ =>
    ((WithdrawStakeAccounts.parse rt).run accounts).toOption.map (·.1.stakeSplitTo.key)
  | _ => none

/-- A successful instruction on an initialized pool, that paid out to `out`. -/
inductive Executed (rt : Runtime Key) (w w' : World Key) (accounts : List (AccountInfo Key))
    (i : StakePoolInstruction Key) : Option Key → Prop
  | add {a seed m acc₁ acc₂} (hi : i = .addValidatorToPool seed) (hs : Signed accounts w.stakePool.staker)
      (h : AddValidatorToPoolAccounts.Ok rt w w' a seed m acc₁ acc₂) :
      Executed rt w w' accounts i none
  | remove {a s v acc₁} (hs : Signed accounts w.stakePool.staker)
      (h : RemoveValidatorFromPoolAccounts.Ok rt w w' a s v acc₁) :
      Executed rt w w' accounts i none
  | decrease {a lamports seed m s v acc₁ src n} (hs : Signed accounts w.stakePool.staker)
      (h : DecreaseValidatorStakeAccounts.Ok rt w w' a lamports seed m s v acc₁ src n) :
      Executed rt w w' accounts i none
  | increase {a lamports seed v acc₁ src} (hs : Signed accounts w.stakePool.staker)
      (h : IncreaseValidatorStakeAccounts.Ok rt w w' a lamports seed v acc₁ src) :
      Executed rt w w' accounts i none
  | setPreferred {validatorType vote} (hs : Signed accounts w.stakePool.staker)
      (hv : ∀ k, vote = some k →
        ∃ v, w.validatorList.find k = some v ∧ v.status = StakeStatus.active.pod)
      (h : w' = { w with stakePool := w.stakePool.setPreferred validatorType vote }) :
      Executed rt w w' accounts i none
  | updateList {a rest start noMerge pre slice post slice'}
      (hi : i = .updateValidatorListBalance start noMerge)
      (hp : (UpdateValidatorListBalanceAccounts.parse rt).run accounts = .ok (a, rest))
      (h : UpdateValidatorListBalanceAccounts.Ok rt w w' a start noMerge pre slice post slice') :
      Executed rt w w' accounts i none
  | updatePool {a m fee mint} (hi : i = .updateStakePoolBalance)
      (h : UpdateStakePoolBalanceAccounts.Ok rt w w' a m fee mint) :
      Executed rt w w' accounts i none
  | cleanup {l} {writable : Bool}
      (hl : l = { w.validatorList with validators := w.validatorList.validators.filter fun v => ¬ v.isRemoved })
      (h : w' = { w with
        stakePool := if writable then { w.stakePool with
            preferredDepositValidatorVoteAddress :=
              l.keepPreferred w.stakePool.preferredDepositValidatorVoteAddress
            preferredWithdrawValidatorVoteAddress :=
              l.keepPreferred w.stakePool.preferredWithdrawValidatorVoteAddress }
          else w.stakePool
        validatorList := l }) : Executed rt w w' accounts i none
  | depositStake {a minimum s v t acc₁ acc₂ acc₃ total stake}
      (hm : a.stakeDepositAuthorityInfo ∈ accounts)
      (h : DepositStakeAccounts.Ok rt w w' a minimum s v t acc₁ acc₂ acc₃ total stake) :
      Executed rt w w' accounts i none
  | withdrawStake {a tokens minimum fee decimals n plan acc₁ acc₂ acc₃}
      (h : WithdrawStakeAccounts.Ok rt w w' a tokens minimum fee decimals n plan acc₁ acc₂ acc₃) :
      Executed rt w w' accounts i (some a.stakeSplitTo.key)
  | depositSol {a n minimum t acc₁} (hm : a.fromUserLamportsInfo ∈ accounts)
      (h : DepositSolAccounts.Ok rt w w' a n minimum t acc₁) : Executed rt w w' accounts i none
  | withdrawSol {a tokens minimum fee decimals n acc₁ acc₂}
      (h : WithdrawSolAccounts.Ok rt w w' a tokens minimum fee decimals n acc₁ acc₂) :
      Executed rt w w' accounts i (some a.destinationLamportsInfo.key)
  | setFee {fee : FeeType} {p} (hi : i = .setFee fee) (hs : Signed accounts w.stakePool.manager)
      (hf : fee.canOnlyChangeNextEpoch → w.sysvars.epoch ≤ w.stakePool.lastUpdateEpoch)
      (hc : fee.checkTooHigh = .ok ()) (hp : w.stakePool.updateFee fee = .ok p)
      (h : w' = { w with stakePool := p }) : Executed rt w w' accounts i none
  /-- The other setters. -/
  | manage {manager feeAccount staker stakeDeposit solDeposit solWithdraw maxStake}
      (hm : Signed accounts w.stakePool.manager ∨ manager = w.stakePool.manager ∧
        feeAccount = w.stakePool.managerFeeAccount ∧ stakeDeposit = w.stakePool.stakeDepositAuthority ∧
        solDeposit = w.stakePool.solDepositAuthority ∧ solWithdraw = w.stakePool.solWithdrawAuthority ∧
        maxStake = w.stakePool.maxValidatorStake)
      (hs : staker = w.stakePool.staker ∨ Signed accounts w.stakePool.manager ∨
        Signed accounts w.stakePool.staker)
      (h : w' = { w with stakePool := { w.stakePool with
        manager := manager
        managerFeeAccount := feeAccount
        staker := staker
        stakeDepositAuthority := stakeDeposit
        solDepositAuthority := solDeposit
        solWithdrawAuthority := solWithdraw
        maxValidatorStake := maxStake } }) :
      Executed rt w w' accounts i none
  | createMetadata {mint auth payer name symbol uri} {a b : Account Key} (hm : payer ∈ accounts)
      (hs : payer.isSigner) (ho : rt.systemProgramId = ownerOf rt w.accounts payer.key)
      (hc : rt.createMetadataAccountsV3 mint auth name symbol uri
        (w.accounts (findMetadataAccount rt w.stakePool.poolMint).1) (w.accounts payer.key) = .ok (a, b))
      (h : w' = World.mk w.sysvars w.stakePool w.stakePoolDataLen w.validatorList w.validatorListDataLen
        (update (update w.accounts payer.key b) (findMetadataAccount rt w.stakePool.poolMint).1 a)) :
      Executed rt w w' accounts i none
  | updateMetadata {auth name symbol uri metadata} {a : Account Key}
      (hc : rt.updateMetadataAccountsV2 auth name symbol uri (w.accounts metadata) = .ok a)
      (h : w' = { w with accounts := update w.accounts metadata a }) : Executed rt w w' accounts i none

/-- `Initialize` -/
def StakePoolInstruction.isInitialize : StakePoolInstruction Key → Bool
  | .initializePool _ _ _ _ _ => true
  | _ => false

theorem not_isInitialize (hl : rt.Lawful) (hv : w.stakePool.isValid) (h : process rt w accounts i = .ok w') :
    ¬ i.isInitialize := by
  cases i with
  | initializePool =>
    obtain ⟨_, _, _, _, h⟩ := processInitialize_ok hl h
    have hu := h.uninitialized
    simp only [StakePool.isValid, StakePool.isUninitialized, decide_eq_true_eq] at hv hu
    rw [hv] at hu
    cases hu
  | _ => exact Bool.false_ne_true

/-- Which handler a successful instruction was. -/
theorem process_executed (hi : ¬ i.isInitialize) (h : process rt w accounts i = .ok w') :
    Executed rt w w' accounts i (i.recipient rt accounts) := by
  cases i with
  | initializePool => exact absurd rfl hi
  | addValidatorToPool =>
    have hs := processAddValidatorToPool_signed h
    obtain ⟨_, _, _, _, h⟩ := processAddValidatorToPool_ok h
    exact .add rfl hs h
  | removeValidatorFromPool =>
    have hs := processRemoveValidatorFromPool_signed h
    obtain ⟨_, _, _, _, h⟩ := processRemoveValidatorFromPool_ok h
    exact .remove hs h
  | decreaseValidatorStake | decreaseValidatorStakeWithReserve | decreaseAdditionalValidatorStake =>
    have hs := processDecreaseValidatorStake_signed h
    obtain ⟨_, _, -, _, _, _, _, _, _, h⟩ := processDecreaseValidatorStake_ok h
    exact .decrease hs h
  | increaseValidatorStake | increaseAdditionalValidatorStake =>
    have hs := processIncreaseValidatorStake_signed h
    obtain ⟨_, _, -, _, _, _, h⟩ := processIncreaseValidatorStake_ok h
    exact .increase hs h
  | setPreferredValidator =>
    have hs := processSetPreferredValidator_signed h
    obtain ⟨hv, h⟩ := processSetPreferredValidator_ok h
    exact .setPreferred hs hv h
  | updateValidatorListBalance =>
    obtain ⟨_, _, hp, _, _, _, _, h⟩ := processUpdateValidatorListBalance_ok h
    exact .updateList rfl hp h
  | updateStakePoolBalance =>
    obtain ⟨_, _, -, _, _, _, h⟩ := processUpdateStakePoolBalance_ok h
    exact .updatePool rfl h
  | cleanupRemovedValidatorEntries =>
    obtain ⟨_, _, _, -, hl, h⟩ := processCleanupRemovedValidatorEntries_ok h
    exact .cleanup hl h
  | depositStake | depositStakeWithSlippage =>
    obtain ⟨_, _, hp, _, _, _, _, _, _, _, _, h⟩ := processDepositStake_ok h
    exact .depositStake (DepositStakeAccounts.parse_mem hp) h
  | withdrawStake | withdrawStakeWithSlippage =>
    obtain ⟨_, _, hp, _, _, _, _, _, _, _, h⟩ := processWithdrawStake_ok h
    simp only [StakePoolInstruction.recipient, hp]
    exact .withdrawStake h
  | depositSol | depositSolWithSlippage =>
    obtain ⟨_, _, hp, _, _, h⟩ := processDepositSol_ok h
    exact .depositSol (DepositSolAccounts.parse_mem hp) h
  | withdrawSol | withdrawSolWithSlippage =>
    obtain ⟨_, _, hp, _, _, _, _, _, h⟩ := processWithdrawSol_ok h
    simp only [StakePoolInstruction.recipient, hp]
    exact .withdrawSol h
  | setFee =>
    have hs := processSetFee_signed h
    obtain ⟨hf, hc, _, hp, h⟩ := processSetFee_ok h
    exact .setFee rfl hs hf hc hp h
  | setManager =>
    have hs := processSetManager_signed h
    obtain ⟨_, _, h⟩ := processSetManager_ok h
    exact .manage (.inl hs) (.inl rfl) h
  | setStaker =>
    have hs := processSetStaker_signed h
    obtain ⟨_, h⟩ := processSetStaker_ok h
    exact .manage (.inr ⟨rfl, rfl, rfl, rfl, rfl, rfl⟩) (.inr hs) h
  | setFundingAuthority =>
    have hs := processSetFundingAuthority_signed h
    obtain ⟨_, _, _, h⟩ := processSetFundingAuthority_ok h
    exact .manage (.inl hs) (.inl rfl) h
  | setMaxValidatorStake =>
    exact .manage (.inl (processSetMaxValidatorStake_signed h)) (.inl rfl) (processSetMaxValidatorStake_ok h)
  | createTokenMetadata =>
    obtain ⟨_, _, _, _, _, _, hm, hs, ho, rfl, hc, h⟩ := processCreatePoolTokenMetadata_ok h
    exact .createMetadata hm hs ho hc h
  | updateTokenMetadata =>
    obtain ⟨_, _, _, hc, h⟩ := processUpdatePoolTokenMetadata_ok h
    exact .updateMetadata hc h
  | redelegate => cases h

/-! ## What stays -/

/-- What no instruction changes after `Initialize`. -/
structure Statics (w w' : World Key) : Prop where
  accountType : w'.stakePool.accountType = w.stakePool.accountType
  bump : w'.stakePool.stakeWithdrawBumpSeed = w.stakePool.stakeWithdrawBumpSeed
  list : w'.stakePool.validatorList = w.stakePool.validatorList
  reserve : w'.stakePool.reserveStake = w.stakePool.reserveStake
  mint : w'.stakePool.poolMint = w.stakePool.poolMint
  tokenProgram : w'.stakePool.tokenProgramId = w.stakePool.tokenProgramId
  lockup : w'.stakePool.lockup = w.stakePool.lockup
  header : w'.validatorList.header = w.validatorList.header
  sysvars : w'.sysvars = w.sysvars
  poolLen : w'.stakePoolDataLen = w.stakePoolDataLen
  listLen : w'.validatorListDataLen = w.validatorListDataLen

omit [DecidableEq Key] [Inhabited Key] in
theorem Statics.refl (w : World Key) : Statics w w := by
  constructor <;> rfl

omit [DecidableEq Key] [Inhabited Key] in
theorem Statics.trans {w₁ : World Key} (h : Statics w w₁) (h' : Statics w₁ w') : Statics w w' where
  accountType := h'.accountType.trans h.accountType
  bump := h'.bump.trans h.bump
  list := h'.list.trans h.list
  reserve := h'.reserve.trans h.reserve
  mint := h'.mint.trans h.mint
  tokenProgram := h'.tokenProgram.trans h.tokenProgram
  lockup := h'.lockup.trans h.lockup
  header := h'.header.trans h.header
  sysvars := h'.sysvars.trans h.sysvars
  poolLen := h'.poolLen.trans h.poolLen
  listLen := h'.listLen.trans h.listLen

omit [Inhabited Key] in
theorem ValidatorList.withdraw_header {l l' : ValidatorList Key} {plan : WithdrawPlan Key}
    (h : l.withdraw plan = .ok l') : l'.header = l.header := by
  simp only [withdraw] at h
  split at h
  · simp only [bind_eq_ok, pure_eq_ok] at h
    obtain ⟨_, -, rfl⟩ := h
    rfl
  · cases h; rfl

omit [DecidableEq Key] [Inhabited Key] in
theorem StakePool.updateFee_statics {p p' : StakePool Key} {fee : FeeType} (h : p.updateFee fee = .ok p')
    (hw : w.stakePool = p) : Statics w { w with stakePool := p' } := by
  subst hw
  cases fee with
  | stakeWithdrawal | solWithdrawal =>
    simp only [updateFee, bind_eq_ok, exists_unit, pure_eq_ok] at h
    obtain ⟨-, rfl⟩ := h
    constructor <;> rfl
  | _ => cases h; constructor <;> rfl

omit [Inhabited Key] in
theorem Executed.statics (h : Executed rt w w' accounts i out) : Statics w w' := by
  cases h with
  | @setPreferred t _ _ _ h => subst h; cases t <;> constructor <;> rfl
  | updatePool _ h =>
    rw [h.result]
    simp only [StakePool.updateEpoch]
    split <;> constructor <;> rfl
  | cleanup hl h =>
    subst h hl
    split <;> constructor <;> rfl
  | @withdrawStake _ _ _ _ _ _ plan _ _ _ h =>
    have hh := ValidatorList.withdraw_header h.list
    rw [h.result]
    obtain ⟨d, x, he⟩ := WithdrawStakeAccounts.stakePool_eq plan w.stakePool
    rw [he]
    exact ⟨rfl, rfl, rfl, rfl, rfl, rfl, rfl, hh, rfl, rfl, rfl⟩
  | setFee _ _ _ _ hp h => subst h; exact StakePool.updateFee_statics hp rfl
  | manage _ _ h | createMetadata _ _ _ _ h | updateMetadata _ h => subst h; constructor <;> rfl
  | add _ _ h | remove _ h | decrease _ h | increase _ h | updateList _ _ h | depositStake _ h | depositSol _ h
  | withdrawSol h => rw [h.result]; constructor <;> rfl

/-! ## What happens to the list -/

/-- The vote accounts in the list. -/
def World.votes (w : World Key) : List Key := w.validatorList.validators.map (·.voteAccountAddress)

omit [Inhabited Key] in
theorem ValidatorList.set_votes (l : ValidatorList Key) (v : ValidatorStakeInfo Key) :
    (l.set v).validators.map (·.voteAccountAddress) = l.validators.map (·.voteAccountAddress) :=
  BigVec.map_setFirst (fun _ h => of_decide_eq_true h) _

omit [Inhabited Key] in
theorem ValidatorList.withdraw_votes {l l' : ValidatorList Key} {plan : WithdrawPlan Key}
    (h : l.withdraw plan = .ok l') :
    l'.validators.map (·.voteAccountAddress) = l.validators.map (·.voteAccountAddress) := by
  simp only [withdraw] at h
  split at h
  · simp only [bind_eq_ok, pure_eq_ok] at h
    obtain ⟨v, -, rfl⟩ := h
    exact l.set_votes v
  · cases h; rfl

/-- Vote accounts leave the list, or the staker adds one that is not in it. -/
inductive VotesStep (accounts : List (AccountInfo Key)) (w w' : World Key) : Prop
  | kept (h : w'.votes.Sublist w.votes)
  | pushed {vote} (hs : Signed accounts w.stakePool.staker) (hv : vote ∉ w.votes)
      (hroom : w.validatorList.header.maxValidators ≠ w.validatorList.validators.length)
      (h : w'.votes = w.votes ++ [vote])

omit [Inhabited Key] in
theorem Executed.votes (h : Executed rt w w' accounts i out) : VotesStep accounts w w' := by
  have same : w'.votes = w.votes → VotesStep accounts w w' := fun he => .kept (by rw [he])
  cases h with
  | add _ hs h =>
    refine .pushed hs (ValidatorList.find_eq_none h.notFound) h.room ?_
    simp [World.votes, congrArg World.validatorList h.result, newEntry]
  | remove _ h | decrease _ h | increase _ h | depositStake _ h =>
    refine same ?_
    rw [World.votes, congrArg World.validatorList h.result]
    exact ValidatorList.set_votes _ _
  | updateList _ _ h =>
    refine same ?_
    simp [World.votes, congrArg World.validatorList h.result, h.list,
      UpdateValidatorListBalanceAccounts.updateEntries_votes h.entries]
  | withdrawStake h => exact same (ValidatorList.withdraw_votes h.list)
  | cleanup hl h =>
    subst h hl
    exact .kept (List.filter_sublist.map _)
  | setPreferred _ _ h | setFee _ _ _ _ _ h | manage _ _ h | createMetadata _ _ _ _ h | updateMetadata _ h =>
    subst h
    exact same rfl
  | updatePool _ h | depositSol _ h | withdrawSol h =>
    exact same (by rw [World.votes, congrArg World.validatorList h.result]; rfl)

/-! ## What happens to the stake -/

/-- What an instruction has done to the reserve, the list and the stake accounts. -/
inductive Effect (rt : Runtime Key) (out : Option Key) (w w' : World Key) : Prop
  | evolve (h : EvolveEffect rt out w w')
  | entry {pre v v' post} (h : EntryEffect rt out w w' pre v v' post)
  | push {v} (h : PushEffect rt w w' v)
  | refresh {vs} (h : Relation.ReflTransGen (Refresh rt w.stakePool.reserveStake w.sysvars.epoch)
        (w.accounts, w.validatorList.validators) (w'.accounts, vs))
      (hw : w' = { w with
        validatorList := { w.validatorList with validators := vs }, accounts := w'.accounts })
  | cleanup (hl : w'.validatorList =
        { w.validatorList with validators := w.validatorList.validators.filter fun v => ¬ v.isRemoved })
      (ha : w'.accounts = w.accounts) (ht : w'.stakePool.totalLamports = w.stakePool.totalLamports)
  | balance {a m fee mint} (h : UpdateStakePoolBalanceAccounts.Ok rt w w' a m fee mint)

omit [DecidableEq Key] [Inhabited Key] in
theorem StakePool.updateFee_total {p p' : StakePool Key} {fee : FeeType} (h : p.updateFee fee = .ok p') :
    p'.totalLamports = p.totalLamports := by
  cases fee with
  | stakeWithdrawal | solWithdrawal =>
    simp only [updateFee, bind_eq_ok, exists_unit, pure_eq_ok] at h
    obtain ⟨-, rfl⟩ := h
    rfl
  | _ => cases h; rfl

/-- The metadata program only takes from the payer, and gives the pool's accounts nothing. -/
theorem createMetadata_same (hl : rt.Lawful) {mint auth : Key} {payer : AccountInfo Key}
    {name symbol uri : String} {a b : Account Key}
    (hp : PoolOk rt w.stakePool) (hc : Core rt w.stakePool.reserveStake w.validatorList.validators w.accounts)
    (hpda : ¬ rt.IsPda payer.key) (ho : rt.systemProgramId = ownerOf rt w.accounts payer.key)
    (hm : rt.createMetadataAccountsV3 mint auth name symbol uri
      (w.accounts (findMetadataAccount rt w.stakePool.poolMint).1) (w.accounts payer.key) = .ok (a, b)) :
    ∀ k, rt.StakePda k ∨ k = w.stakePool.reserveStake →
      update (update w.accounts payer.key b) (findMetadataAccount rt w.stakePool.poolMint).1 a k =
        w.accounts k := by
  obtain ⟨hown, hd, had, -, n, -, hb⟩ := hl.createMetadataAccountsV3_ok _ _ _ _ _ _ _ _ _ hm
  have hres := hc.reserve_ok.controlled
  have hmd : ∀ k, rt.StakePda k ∨ k = w.stakePool.reserveStake →
      k ≠ (findMetadataAccount rt w.stakePool.poolMint).1 := by
    rintro k (hk | rfl) he
    · obtain ⟨seeds, hs⟩ := hk.isPda hl
      rw [he] at hs
      exact hl.program_ne_metadata (hl.create_inj _ _ _ _ _ hs (hl.create_find _ rt.mplTokenMetadataId)).2
    · exact hown (he ▸ hres.owner)
  have hpay : ∀ k, rt.StakePda k ∨ k = w.stakePool.reserveStake → k ≠ payer.key := by
    rintro k (hk | rfl) he
    · exact hpda (he ▸ hk.isPda hl)
    · rw [← he, ownerOf, if_neg (not_or.2 hp.reserve_ne), hres.owner] at ho
      exact hl.system_ne_stake ho
  exact fun k hk => by rw [update_of_ne (hmd k hk), update_of_ne (hpay k hk)]

omit [DecidableEq Key] in
theorem EvolveEffect.of_same (hc : Core rt w.stakePool.reserveStake w.validatorList.validators w.accounts)
    (hl : w'.validatorList = w.validatorList) (ht : w'.stakePool.totalLamports = w.stakePool.totalLamports)
    (ha : ∀ k, rt.StakePda k ∨ k = w.stakePool.reserveStake → w'.accounts k = w.accounts k) :
    EvolveEffect rt out w w' := by
  refine ⟨hl, by rw [ha _ (.inr rfl)]; exact .refl hc.reserve_ok, fun k hk => by rw [ha k (.inl hk)]; exact id,
    fun k hk => ?_, fun k hk _ => ha k (.inl hk), by rw [ha _ (.inr rfl), ht]⟩
  rw [ha k (.inl hk)]
  exact .refl _

/-- A successful instruction is an update of the list, or has one of the other effects. -/
theorem Executed.effect_or_update (hl : rt.Lawful) (hs : NoPdaSigner rt accounts) (hp : PoolOk rt w.stakePool)
    (hc : Core rt w.stakePool.reserveStake w.validatorList.validators w.accounts)
    (h : Executed rt w w' accounts i out) :
    (∃ a start noMerge pre slice post slice',
      UpdateValidatorListBalanceAccounts.Ok rt w w' a start noMerge pre slice post slice') ∨
    EvolveEffect rt out w w' ∨ (∃ pre v v' post, EntryEffect rt out w w' pre v v' post) ∨
    (∃ v, PushEffect rt w w' v) ∨
    (w'.validatorList =
        { w.validatorList with validators := w.validatorList.validators.filter fun v => ¬ v.isRemoved } ∧
      w'.accounts = w.accounts ∧ w'.stakePool.totalLamports = w.stakePool.totalLamports) ∨
    ∃ a m fee mint, UpdateStakePoolBalanceAccounts.Ok rt w w' a m fee mint := by
  cases h with
  | add _ _ h => exact .inr (.inr (.inr (.inl (h.effect hl hc))))
  | remove _ h =>
    obtain ⟨pre, v', post, h⟩ := h.effect hl hc
    exact .inr (.inr (.inl ⟨pre, _, v', post, h⟩))
  | decrease _ h =>
    obtain ⟨pre, v', post, h⟩ := h.effect hl hc
    exact .inr (.inr (.inl ⟨pre, _, v', post, h⟩))
  | increase _ h =>
    obtain ⟨pre, v', post, h⟩ := h.effect hl hc
    exact .inr (.inr (.inl ⟨pre, _, v', post, h⟩))
  | depositStake hm h =>
    obtain ⟨pre, v', post, h⟩ := h.effect hl (fun hsig => hs _ hm hsig) hc
    exact .inr (.inr (.inl ⟨pre, _, v', post, h⟩))
  | depositSol hm h => exact .inr (.inl (h.effect hl (fun hsig => hs _ hm hsig) hc))
  | withdrawSol h => exact .inr (.inl (h.effect hl hc))
  | withdrawStake h =>
    rcases h.effect hl hc with h | h
    · exact .inr (.inl h)
    · exact .inr (.inr (.inl h))
  | updateList _ _ h => exact .inl ⟨_, _, _, _, _, _, _, h⟩
  | updatePool _ h => exact .inr (.inr (.inr (.inr (.inr ⟨_, _, _, _, h⟩))))
  | @cleanup l _ hl h =>
    subst h hl
    refine .inr (.inr (.inr (.inr (.inl ⟨rfl, rfl, ?_⟩))))
    dsimp only
    split <;> rfl
  | @setPreferred t _ _ _ h =>
    subst h
    exact .inr (.inl (.of_same hc rfl (by cases t <;> rfl) fun _ _ => rfl))
  | setFee _ _ _ _ hp h =>
    subst h
    exact .inr (.inl (.of_same hc rfl (StakePool.updateFee_total hp) fun _ _ => rfl))
  | manage _ _ h =>
    subst h
    exact .inr (.inl (.of_same hc rfl rfl fun _ _ => rfl))
  | createMetadata hm hsig ho hcr h =>
    subst h
    exact .inr (.inl (.of_same hc rfl rfl (createMetadata_same hl hp hc (hs _ hm hsig) ho hcr)))
  | updateMetadata hup h =>
    subst h
    obtain ⟨-, rfl⟩ := hl.updateMetadataAccountsV2_ok _ _ _ _ _ _ hup
    exact .inr (.inl (.of_same hc rfl rfl fun _ _ => by rw [update_eq_self]))

theorem Executed.effect (hl : rt.Lawful) (hs : NoPdaSigner rt accounts) (hp : PoolOk rt w.stakePool)
    (hc : Core rt w.stakePool.reserveStake w.validatorList.validators w.accounts)
    (h : Executed rt w w' accounts i out) : Effect rt out w w' := by
  rcases h.effect_or_update hl hs hp hc with ⟨_, _, _, _, _, _, _, h⟩ | h | ⟨_, _, _, _, h⟩ | ⟨_, h⟩ |
    ⟨hlist, ha, ht⟩ | ⟨_, _, _, _, h⟩
  · exact .refresh (h.refreshes hl hp hc) h.result
  · exact .evolve h
  · exact .entry h
  · exact .push h
  · exact .cleanup hlist ha ht
  · exact .balance h

end SplStakePool
