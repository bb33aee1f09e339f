import SplStakePool.Processor.Deposit
import SplStakePool.Processor.UpdatePool
import SplStakePool.Processor.Withdraw

/-!
# Errors that a handler does not return

A handler returns an error of its own checks, of the arithmetic, or of a call into another program. The
errors of the checks that handlers share are collected in `checkErrors`: an error that is not among them
comes from what is left, so that a handler is gone through step by step with the rules of `Avoids` and
only its arithmetic needs an argument. A call that fails ends the transaction with the error of the
program called, so errors of the pool are never returned by a call (`Runtime.CallsAvoid`).
-/

namespace SplStakePool
open Exec

/-- The errors of the checks that the handlers share, and of reading their accounts. -/
def checkErrors : List ProgramError := [
  .incorrectProgramId, .borshIoError, .invalidSeeds, .invalidAccountData, .notEnoughAccountKeys,
  .invalidArgument, .missingRequiredSignature, .custom .invalidState, .custom .wrongStakeStake,
  .custom .invalidProgramAddress, .custom .wrongPoolMint, .custom .signatureMissing,
  .custom .invalidFeeAccount, .custom .invalidValidatorStakeList, .custom .invalidSolDepositAuthority,
  .custom .invalidSolWithdrawAuthority, .custom .invalidStakeDepositAuthority,
  .custom .invalidStakeAccountAddress, .custom .stakeListAndPoolOutOfDate, .custom .validatorNotFound]

variable {Key : Type} {e : ProgramError} (he : e ∉ checkErrors)
include he

theorem ensure_avoids {c : Prop} [Decidable c] {e' : ProgramError} (h : e' ∈ checkErrors) :
    Avoids e (ensure c e') :=
  .ensure (ne_of_mem_of_not_mem h he)

theorem orErr_avoids {α : Type} {o : Option α} {e' : ProgramError} (h : e' ∈ checkErrors) :
    Avoids e (orErr o e') :=
  .orErr (ne_of_mem_of_not_mem h he)

theorem error_avoids {α : Type} {e' : ProgramError} (h : e' ∈ checkErrors) :
    Avoids e (.error e' : Except ProgramError α) :=
  .error (ne_of_mem_of_not_mem h he)

theorem getStakeState_avoids {a : Account Key} : Avoids e (getStakeState a) := by
  refine .bind (orErr_avoids he (by decide)) fun s _ => ?_
  cases s with
  | stake m t => exact .ok
  | _ => exact error_avoids he (by decide)

variable [DecidableEq Key] {rt : Runtime Key} {w : World Key} {info : AccountInfo Key}
  {accounts acc : Accounts Key} {p : StakePool Key}

theorem nextSysvar_avoids {β : Type} {id : Key} {f : AccountInfo Key → AccountIter Key β}
    {infos : List (AccountInfo Key)} (hf : ∀ info rest, Avoids e (f info rest)) :
    Avoids e ((nextSysvar id >>= f) infos) := by
  rw [nextSysvar, bind_assoc]
  refine nextAccountInfo_avoids (ne_of_mem_of_not_mem (by decide) he) fun info rest => ?_
  by_cases hk : info.key = id
  · simp only [hk, ensure_of]
    exact hf info rest
  · simp only [ensure, hk, if_false]
    exact error_avoids he (by decide)

theorem World.validStakePool_avoids : Avoids e (w.validStakePool rt info) := by
  refine .bind (ensure_avoids he (by decide)) fun _ _ => .bind ?_ fun _ _ =>
    .bind (ensure_avoids he (by decide)) fun _ _ => .pure
  unfold World.readStakePool
  split
  · exact .ok
  · exact error_avoids he (by decide)

theorem World.validValidatorList_avoids : Avoids e (w.validValidatorList rt info) := by
  refine .bind (ensure_avoids he (by decide)) fun _ _ => .bind ?_ fun _ _ =>
    .bind (ensure_avoids he (by decide)) fun _ _ => .pure
  unfold World.readValidatorList
  split
  · exact .ok
  · exact error_avoids he (by decide)

theorem StakePool.checkAuthorityWithdraw_avoids {k program pool : Key} :
    Avoids e (p.checkAuthorityWithdraw rt k program pool) :=
  .bind (orErr_avoids he (by decide)) fun _ _ => ensure_avoids he (by decide)

theorem StakePool.checkMint_avoids : Avoids e (p.checkMint accounts info) :=
  .bind (ensure_avoids he (by decide)) fun _ _ => .bind (orErr_avoids he (by decide)) fun _ _ => .pure

theorem StakePool.checkFundingAuthority_avoids {authority : Option Key} {maybeInfo : Option (AccountInfo Key)}
    {wrong : StakePoolError} (h : .custom wrong ∈ checkErrors) :
    Avoids e (checkFundingAuthority authority maybeInfo wrong) := by
  cases authority with
  | none => exact .ok
  | some auth =>
    exact .bind (orErr_avoids he (by decide)) fun _ _ => .bind (ensure_avoids he h) fun _ _ =>
      ensure_avoids he (by decide)

/-- What an update of the pool returns is an error of the sum, the fee or a call. -/
theorem UpdateStakePoolBalanceAccounts.process_avoids {a : UpdateStakePoolBalanceAccounts Key}
    (hreserve : Avoids e (reserveLamportsAvailable (w.accounts w.stakePool.reserveStake)))
    (hsum : ∀ n, reserveLamportsAvailable (w.accounts w.stakePool.reserveStake) = .ok n →
      Avoids e (sumStakeLamports w.sysvars.epoch n w.validatorList.validators) ∧
      ∀ total, sumStakeLamports w.sysvars.epoch n w.validatorList.validators = .ok total →
        Avoids e (w.stakePool.epochFeeToMint rt w.accounts a.managerFeeInfo
          (total - w.stakePool.totalLamports)))
    (hm : ∀ mint dst auth n, Avoids e (tokenMintTo rt w.accounts mint dst auth n)) :
    Avoids e (a.process rt w) := by
  refine .bind (World.validStakePool_avoids he) fun p hp => ?_
  obtain ⟨-, -, rfl⟩ := World.validStakePool_eq_ok.1 hp
  refine .bind (StakePool.checkMint_avoids he) fun _ _ =>
    .bind (StakePool.checkAuthorityWithdraw_avoids he) fun _ _ =>
    .bind (ensure_avoids he (by decide)) fun _ hr => .bind (ensure_avoids he (by decide)) fun _ _ =>
    .bind (ensure_avoids he (by decide)) fun _ _ => .bind (ensure_avoids he (by decide)) fun _ _ =>
    .bind (World.validValidatorList_avoids he) fun l hl => ?_
  obtain ⟨-, -, rfl⟩ := World.validValidatorList_eq_ok.1 hl
  rw [ensure_eq_ok.1 hr, BigVec.deserializeSlice_all]
  refine .bind hreserve fun n hn => ?_
  rw [ok_bind]
  refine .bind (hsum n hn).1 fun total ht => .bind ((hsum n hn).2 total ht) fun _ _ => .bind ?_ fun _ _ =>
    .bind (orErr_avoids he (by decide)) fun _ _ => .pure
  split
  · exact hm _ _ _ _
  · exact .pure

omit he

/-- No program that is called returns the error. -/
structure Runtime.CallsAvoid (rt : Runtime Key) (e : ProgramError) : Prop where
  transfer : ∀ n a, Avoids e (rt.transfer n a)
  split : ∀ sys auth n src dst, Avoids e (rt.split sys auth n src dst)
  merge : ∀ sys auth dst src, Avoids e (rt.merge sys auth dst src)
  withdraw : ∀ sys auth n src, Avoids e (rt.withdraw sys auth n src)
  authorize : ∀ sys auth new role a, Avoids e (rt.authorize sys auth new role a)
  mintTo : ∀ k auth n mint dst, Avoids e (rt.mintTo k auth n mint dst)
  burn : ∀ k auth n src mint, Avoids e (rt.burn k auth n src mint)
  transferChecked : ∀ k auth n decimals src mint dst, Avoids e (rt.transferChecked k auth n decimals src mint dst)

namespace Runtime.CallsAvoid
variable {sys : Sysvars} {src dst mint auth : AccountInfo Key} {n decimals : Nat} {new : Key}

theorem stakeMerge (h : rt.CallsAvoid e) : Avoids e (stakeMerge rt sys acc src auth dst) :=
  .bind (h.merge _ _ _ _) fun _ _ => .pure

theorem stakeSplit (h : rt.CallsAvoid e) : Avoids e (stakeSplit rt sys acc src auth n dst) :=
  .bind (h.split _ _ _ _ _) fun _ _ => .pure

theorem stakeWithdraw (h : rt.CallsAvoid e) : Avoids e (stakeWithdraw rt sys acc src auth dst n) :=
  .bind (h.withdraw _ _ _ _) fun _ _ => .pure

theorem stakeAuthorizeSigned (h : rt.CallsAvoid e) : Avoids e (stakeAuthorizeSigned rt sys acc src auth new) :=
  .bind (h.authorize _ _ _ _ _) fun _ _ => .bind (h.authorize _ _ _ _ _) fun _ _ => .pure

theorem tokenMintTo (h : rt.CallsAvoid e) : Avoids e (tokenMintTo rt acc mint dst auth n) :=
  .bind (h.mintTo _ _ _ _ _) fun _ _ => .pure

theorem mintDepositTokens {t : DepositTokens} {user manager referrer : AccountInfo Key} (h : rt.CallsAvoid e) :
    Avoids e (mintDepositTokens rt acc t mint user manager referrer auth) := by
  refine .bind h.tokenMintTo fun _ _ => .bind ?_ fun _ _ => ?_
  · split
    · exact h.tokenMintTo
    · exact .pure
  · split
    · exact h.tokenMintTo
    · exact .pure

section
include he

theorem authorizeDeposit {a : DepositStakeAccounts Key} (h : rt.CallsAvoid e) :
    Avoids e (a.authorizeDeposit rt w) := by
  unfold DepositStakeAccounts.authorizeDeposit
  split
  · exact h.stakeAuthorizeSigned
  · exact .bind (ensure_avoids he (by decide)) fun _ _ => h.stakeAuthorizeSigned

theorem solTransfer (h : rt.CallsAvoid e) : Avoids e (solTransfer rt acc src dst n) :=
  .bind (ensure_avoids he (by decide)) fun _ _ => .bind (h.transfer _ _) fun _ _ => .pure

theorem tokenBurn (h : rt.CallsAvoid e) : Avoids e (tokenBurn rt acc src mint auth n) :=
  .bind (ensure_avoids he (by decide)) fun _ _ => .bind (h.burn _ _ _ _ _) fun _ _ => .pure

theorem transferFee (h : rt.CallsAvoid e) : Avoids e (transferFee rt acc src mint dst auth n decimals) := by
  unfold SplStakePool.transferFee
  split
  · exact .bind (ensure_avoids he (by decide)) fun _ _ => .bind (h.transferChecked _ _ _ _ _ _ _) fun _ _ => .pure
  · exact .pure

end

end Runtime.CallsAvoid

end SplStakePool
