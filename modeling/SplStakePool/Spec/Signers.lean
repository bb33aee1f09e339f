import SplStakePool.Instruction
import SplStakePool.Spec.AccountIter

/-!
# Who has signed an instruction that succeeds

The handlers that change what belongs to the manager or the staker check a signature first. The account
that they check is one of the instruction's.

Both halves are needed for a statement about the accounts that were passed: that the reader draws the account from
them, and that the check requires it to be the expected one and to have signed. The handlers differ in the number of
accounts that are read before and behind it.
-/

namespace SplStakePool
open Exec Machine

variable {Key : Type} [DecidableEq Key] {rt : Runtime Key} {w w' : World Key}
  {accounts : List (AccountInfo Key)}

/-- The holder of a key has signed an instruction. -/
def Signed (accounts : List (AccountInfo Key)) (k : Key) : Prop :=
  ∃ info ∈ accounts, info.key = k ∧ info.isSigner

omit [DecidableEq Key] in
theorem Signed.of_mem {info : AccountInfo Key} {k : Key} (hm : info ∈ accounts)
    (h : info.key = k ∧ info.isSigner) : Signed accounts k := ⟨info, hm, h⟩

theorem StakePool.checkSigned_eq_ok {k : Key} {info : AccountInfo Key} {e : StakePoolError} {u : Unit} :
    checkSigned k info e = .ok u ↔ info.key = k ∧ info.isSigner := by
  simp only [checkSigned, bind_eq_ok, ensure_eq_ok, exists_unit]

theorem isOk_iff {ε α : Type} {x : Except ε α} : x.isOk ↔ ∃ a, x = .ok a := by
  cases x <;> simp [Except.isOk, Except.toBool]

/-! ## The accounts that are checked -/

omit [DecidableEq Key] in
theorem mem_of_second {α : Type} {f : AccountInfo Key → AccountInfo Key → AccountIter Key α}
    {g : α → AccountInfo Key} {a : α} {rest : List (AccountInfo Key)}
    (hf : ∀ x y, Yields (f x y) fun a => some (g a) = some y)
    (h : (nextAccountInfo >>= fun x => nextAccountInfo >>= f x) accounts = .ok (a, rest)) :
    g a ∈ accounts := by
  have hdraws : Draws (nextAccountInfo >>= fun x => nextAccountInfo >>= f x) fun a => some (g a) :=
    .next fun x => .first (hf x)
  exact hdraws _ _ _ _ h rfl

section
variable {rest : List (AccountInfo Key)}

omit [DecidableEq Key] in
theorem SetManagerAccounts.parse_mem {a : SetManagerAccounts Key}
    (h : parse accounts = .ok (a, rest)) : a.managerInfo ∈ accounts :=
  mem_of_second (fun _ _ => .bind fun _ => .bind fun _ => .pure rfl) h

omit [DecidableEq Key] in
theorem ManagerAccounts.parse_mem {a : ManagerAccounts Key}
    (h : parse accounts = .ok (a, rest)) : a.managerInfo ∈ accounts :=
  mem_of_second (fun _ _ => .pure rfl) h

omit [DecidableEq Key] in
theorem SetStakerAccounts.parse_mem {a : SetStakerAccounts Key}
    (h : parse accounts = .ok (a, rest)) : a.setStakerAuthorityInfo ∈ accounts :=
  mem_of_second (fun _ _ => .bind fun _ => .pure rfl) h

omit [DecidableEq Key] in
theorem SetPreferredValidatorAccounts.parse_mem {a : SetPreferredValidatorAccounts Key}
    (h : parse accounts = .ok (a, rest)) : a.stakerInfo ∈ accounts :=
  mem_of_second (fun _ _ => .bind fun _ => .pure rfl) h

theorem AddValidatorToPoolAccounts.parse_mem {a : AddValidatorToPoolAccounts Key}
    (h : (parse rt).run accounts = .ok (a, rest)) : a.stakerInfo ∈ accounts := by
  refine mem_of_second (fun _ _ => ?_) h
  repeat refine .bind fun _ => ?_
  exact .pure rfl

theorem RemoveValidatorFromPoolAccounts.parse_mem {a : RemoveValidatorFromPoolAccounts Key}
    (h : (parse rt).run accounts = .ok (a, rest)) : a.stakerInfo ∈ accounts := by
  refine mem_of_second (fun _ _ => ?_) h
  repeat refine .bind fun _ => ?_
  exact .pure rfl

theorem IncreaseValidatorStakeAccounts.parse_mem {a : IncreaseValidatorStakeAccounts Key}
    {maybeEphemeralStakeSeed : Option UInt64}
    (h : (parse rt maybeEphemeralStakeSeed).run accounts = .ok (a, rest)) : a.stakerInfo ∈ accounts := by
  refine mem_of_second (fun _ _ => ?_) h
  -- the two optional accounts are branches
  repeat' first
    | exact .pure rfl
    | refine .bind fun _ => ?_
    | split

theorem DecreaseValidatorStakeAccounts.parse_mem {a : DecreaseValidatorStakeAccounts Key}
    {maybeEphemeralStakeSeed : Option UInt64} {fund : Bool}
    (h : (parse rt maybeEphemeralStakeSeed fund).run accounts = .ok (a, rest)) :
    a.stakerInfo ∈ accounts := by
  refine mem_of_second (fun _ _ => ?_) h
  repeat' first
    | exact .pure rfl
    | refine .bind fun _ => ?_
    | split
    | dsimp only

omit [DecidableEq Key] in
theorem DepositSolAccounts.parse_authority_mem {a : DepositSolAccounts Key} {info : AccountInfo Key}
    (h : parse accounts = .ok (a, rest)) (hi : a.solDepositAuthorityInfo = some info) :
    info ∈ accounts := by
  have hparse : Draws parse fun a : DepositSolAccounts Key => a.solDepositAuthorityInfo := by
    repeat refine .next fun _ => ?_
    exact .optional fun _ => .pure rfl
  exact hparse _ _ _ _ h hi

omit [DecidableEq Key] in
theorem WithdrawSolAccounts.parse_authority_mem {a : WithdrawSolAccounts Key} {info : AccountInfo Key}
    (h : parse accounts = .ok (a, rest)) (hi : a.solWithdrawAuthorityInfo = some info) :
    info ∈ accounts := by
  have hparse : Draws parse fun a : WithdrawSolAccounts Key => a.solWithdrawAuthorityInfo := by
    repeat refine .next fun _ => ?_
    exact .optional fun _ => .pure rfl
  exact hparse _ _ _ _ h hi

end

/-! ## The manager -/

theorem processSetManager_signed (h : processSetManager rt w accounts = .ok w') :
    Signed accounts w.stakePool.manager := by
  simp only [processSetManager, SetManagerAccounts.process, bind_eq_ok, World.readStakePool_eq_ok] at h
  obtain ⟨⟨a, rest⟩, hp, -, -, p, ⟨-, rfl⟩, -, -, -, -, _, hm, -⟩ := h
  exact .of_mem (SetManagerAccounts.parse_mem hp) (StakePool.checkSigned_eq_ok.1 hm)

theorem ManagerAccounts.stakePool_signed {a : ManagerAccounts Key} {rest : List (AccountInfo Key)}
    {p : StakePool Key} (hp : parse accounts = .ok (a, rest)) (h : a.stakePool rt w = .ok p) :
    Signed accounts w.stakePool.manager := by
  simp only [stakePool, bind_eq_ok, World.validStakePool_eq_ok] at h
  obtain ⟨_, ⟨-, -, rfl⟩, _, hm, -⟩ := h
  exact .of_mem (parse_mem hp) (StakePool.checkSigned_eq_ok.1 hm)

theorem processSetFee_signed {fee : FeeType} (h : processSetFee rt w accounts fee = .ok w') :
    Signed accounts w.stakePool.manager := by
  simp only [processSetFee, bind_eq_ok] at h
  obtain ⟨⟨a, rest⟩, hp, p, hs, -⟩ := h
  exact ManagerAccounts.stakePool_signed hp hs

theorem processSetMaxValidatorStake_signed {maxStake : Option Nat}
    (h : processSetMaxValidatorStake rt w accounts maxStake = .ok w') :
    Signed accounts w.stakePool.manager := by
  simp only [processSetMaxValidatorStake, bind_eq_ok] at h
  obtain ⟨⟨a, rest⟩, hp, p, hs, -⟩ := h
  exact ManagerAccounts.stakePool_signed hp hs

theorem processSetFundingAuthority_signed {fundingType : FundingType}
    (h : processSetFundingAuthority rt w accounts fundingType = .ok w') :
    Signed accounts w.stakePool.manager := by
  simp only [processSetFundingAuthority, bind_eq_ok] at h
  obtain ⟨⟨a, rest⟩, hp, p, hs, -⟩ := h
  exact ManagerAccounts.stakePool_signed hp hs

/-- A new staker is set by the manager or by the old one. -/
theorem processSetStaker_signed (h : processSetStaker rt w accounts = .ok w') :
    Signed accounts w.stakePool.manager ∨ Signed accounts w.stakePool.staker := by
  simp only [processSetStaker, SetStakerAccounts.process, bind_eq_ok, World.validStakePool_eq_ok,
    ensure_eq_ok, isOk_iff] at h
  obtain ⟨⟨a, rest⟩, hp, p, ⟨-, -, rfl⟩, _, hs, -⟩ := h
  have hmem := SetStakerAccounts.parse_mem hp
  rcases hs with ⟨_, hs⟩ | ⟨_, hs⟩
  · exact .inr (.of_mem hmem (StakePool.checkSigned_eq_ok.1 hs))
  · exact .inl (.of_mem hmem (StakePool.checkSigned_eq_ok.1 hs))

theorem processAddValidatorToPool_signed {seed : UInt32}
    (h : processAddValidatorToPool rt w accounts seed = .ok w') : Signed accounts w.stakePool.staker := by
  simp only [processAddValidatorToPool, AddValidatorToPoolAccounts.process, bind_eq_ok,
    World.validStakePool_eq_ok] at h
  obtain ⟨⟨a, rest⟩, hp, -, -, -, -, p, ⟨-, -, rfl⟩, -, -, _, hs, -⟩ := h
  exact .of_mem (AddValidatorToPoolAccounts.parse_mem hp) (StakePool.checkSigned_eq_ok.1 hs)

theorem processRemoveValidatorFromPool_signed
    (h : processRemoveValidatorFromPool rt w accounts = .ok w') : Signed accounts w.stakePool.staker := by
  simp only [processRemoveValidatorFromPool, RemoveValidatorFromPoolAccounts.process, bind_eq_ok,
    World.validStakePool_eq_ok] at h
  obtain ⟨⟨a, rest⟩, hp, -, -, p, ⟨-, -, rfl⟩, -, -, _, hs, -⟩ := h
  exact .of_mem (RemoveValidatorFromPoolAccounts.parse_mem hp) (StakePool.checkSigned_eq_ok.1 hs)

theorem processIncreaseValidatorStake_signed {lamports : Nat} {seed : UInt64} {ephemeral : Option UInt64}
    (h : processIncreaseValidatorStake rt w accounts lamports seed ephemeral = .ok w') :
    Signed accounts w.stakePool.staker := by
  simp only [processIncreaseValidatorStake, IncreaseValidatorStakeAccounts.process, bind_eq_ok,
    World.validStakePool_eq_ok] at h
  obtain ⟨⟨a, rest⟩, hp, -, -, -, -, p, ⟨-, -, rfl⟩, -, -, _, hs, -⟩ := h
  exact .of_mem (IncreaseValidatorStakeAccounts.parse_mem hp) (StakePool.checkSigned_eq_ok.1 hs)

theorem processDecreaseValidatorStake_signed {lamports : Nat} {seed : UInt64} {ephemeral : Option UInt64}
    {fund : Bool} (h : processDecreaseValidatorStake rt w accounts lamports seed ephemeral fund = .ok w') :
    Signed accounts w.stakePool.staker := by
  simp only [processDecreaseValidatorStake, DecreaseValidatorStakeAccounts.process, bind_eq_ok,
    World.validStakePool_eq_ok] at h
  obtain ⟨⟨a, rest⟩, hp, -, -, -, -, p, ⟨-, -, rfl⟩, -, -, _, hs, -⟩ := h
  exact .of_mem (DecreaseValidatorStakeAccounts.parse_mem hp) (StakePool.checkSigned_eq_ok.1 hs)

theorem processSetPreferredValidator_signed {validatorType : PreferredValidatorType} {vote : Option Key}
    (h : processSetPreferredValidator rt w accounts validatorType vote = .ok w') :
    Signed accounts w.stakePool.staker := by
  simp only [processSetPreferredValidator, SetPreferredValidatorAccounts.process, bind_eq_ok,
    World.validStakePool_eq_ok] at h
  obtain ⟨⟨a, rest⟩, hp, -, -, -, -, p, ⟨-, -, rfl⟩, _, hs, -⟩ := h
  exact .of_mem (SetPreferredValidatorAccounts.parse_mem hp) (StakePool.checkSigned_eq_ok.1 hs)

theorem StakePool.checkFundingAuthority_signed {authority : Option Key}
    {maybeInfo : Option (AccountInfo Key)} {e : StakePoolError} {u : Unit}
    (h : checkFundingAuthority authority maybeInfo e = .ok u)
    (hm : ∀ info, maybeInfo = some info → info ∈ accounts) (k : Key) (hk : authority = some k) :
    Signed accounts k := by
  subst hk
  simp only [checkFundingAuthority, bind_eq_ok, orErr_eq_ok, ensure_eq_ok, exists_unit] at h
  obtain ⟨info, hi, hk, hs⟩ := h
  exact .of_mem (hm info hi) ⟨hk.symm, hs⟩

theorem processDepositSol_signed {n : Nat} {minimum : Option Nat}
    (h : processDepositSol rt w accounts n minimum = .ok w') (k : Key)
    (hk : w.stakePool.solDepositAuthority = some k) : Signed accounts k := by
  simp only [processDepositSol, DepositSolAccounts.process, bind_eq_ok, World.validStakePool_eq_ok] at h
  obtain ⟨⟨a, rest⟩, hp, p, ⟨-, -, rfl⟩, -, -, _, hs, -⟩ := h
  exact StakePool.checkFundingAuthority_signed hs
    (fun info hi => DepositSolAccounts.parse_authority_mem hp hi) k hk

theorem processWithdrawSol_signed {n : Nat} {minimum : Option Nat}
    (h : processWithdrawSol rt w accounts n minimum = .ok w') (k : Key)
    (hk : w.stakePool.solWithdrawAuthority = some k) : Signed accounts k := by
  simp only [processWithdrawSol, WithdrawSolAccounts.process, bind_eq_ok, World.validStakePool_eq_ok] at h
  obtain ⟨⟨a, rest⟩, hp, p, ⟨-, -, rfl⟩, -, -, _, hs, -⟩ := h
  exact StakePool.checkFundingAuthority_signed hs
    (fun info hi => WithdrawSolAccounts.parse_authority_mem hp hi) k hk

end SplStakePool
