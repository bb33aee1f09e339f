import SplStakePool.Address

/-!
# The world that an instruction runs in

The state of one pool: its two accounts, decoded, all other accounts, and the system variables. The
pool and the list are the accounts that the program owns at the two addresses of the runtime; other
accounts of the program do not decode as this pool's.

A handler reads its accounts in a state monad over the list of accounts, as the source does with
`next_account_info`. What it does after that is a function of the accounts read and of the world.
-/

namespace SplStakePool
open Exec

variable (Key : Type)

structure World where
  sysvars : Sysvars
  stakePool : StakePool Key
  stakePoolDataLen : Nat
  validatorList : ValidatorList Key
  validatorListDataLen : Nat
  accounts : Accounts Key

/-- Reads the accounts of an instruction one after the other. -/
abbrev AccountIter := StateT (List (AccountInfo Key)) (Except ProgramError)

variable {Key}

/-- `next_account_info` -/
def nextAccountInfo : AccountIter Key (AccountInfo Key) := fun accounts =>
  match accounts with
  | a :: rest => .ok (a, rest)
  | [] => .error .notEnoughAccountKeys

theorem nextAccountInfo_bind {β : Type} {f : AccountInfo Key → AccountIter Key β}
    {accounts : List (AccountInfo Key)} {r : β × List (AccountInfo Key)} :
    (nextAccountInfo >>= f) accounts = .ok r ↔
      ∃ info rest, accounts = info :: rest ∧ f info rest = .ok r := by
  cases accounts with
  | nil =>
    simp only [reduceCtorEq, false_and, exists_false, iff_false]
    intro h; cases h
  | cons info rest =>
    simp only [List.cons.injEq]
    exact ⟨fun h => ⟨info, rest, ⟨rfl, rfl⟩, h⟩, fun ⟨_, _, ⟨rfl, rfl⟩, h⟩ => h⟩

theorem nextAccountInfo_avoids {β : Type} {e : ProgramError} {f : AccountInfo Key → AccountIter Key β}
    {accounts : List (AccountInfo Key)} (he : .notEnoughAccountKeys ≠ e)
    (hf : ∀ info rest, Avoids e (f info rest)) : Avoids e ((nextAccountInfo >>= f) accounts) := by
  cases accounts with
  | nil => exact .error he
  | cons info rest => exact hf info rest

/-- `next_account_info(iter).ok()` -/
def nextAccountInfo? : AccountIter Key (Option (AccountInfo Key)) := fun accounts =>
  .ok (accounts.head?, accounts.tail)

/-- The accounts not read yet, `as_slice`. -/
def remainingAccounts : AccountIter Key (List (AccountInfo Key)) := fun accounts => .ok (accounts, accounts)

section
variable [DecidableEq Key] (rt : Runtime Key)

/-- Reads an account that must be the given system variable. -/
def nextSysvar (id : Key) : AccountIter Key (AccountInfo Key) := do
  let info ← nextAccountInfo
  ensure (info.key = id) ProgramError.invalidArgument
  return info

theorem nextSysvar_bind {β : Type} {id : Key} {f : AccountInfo Key → AccountIter Key β}
    {accounts : List (AccountInfo Key)} {r : β × List (AccountInfo Key)} :
    (nextSysvar id >>= f) accounts = .ok r ↔
      ∃ info rest, accounts = info :: rest ∧ info.key = id ∧ f info rest = .ok r := by
  rw [nextSysvar, bind_assoc, nextAccountInfo_bind]
  refine exists_congr fun info => exists_congr fun rest => and_congr_right fun _ => ?_
  by_cases h : info.key = id
  · simp only [h, true_and]; rfl
  · simp only [h, false_and, iff_false]
    intro hr
    simp only [ensure, if_false] at hr
    cases hr

/-- The owner of an account. -/
def ownerOf (accounts : Accounts Key) (k : Key) : Key :=
  if k = rt.stakePoolAddress ∨ k = rt.validatorListAddress then rt.programId else (accounts k).owner

def checkAccountOwner (accounts : Accounts Key) (info : AccountInfo Key) (programId : Key) :
    Except ProgramError Unit :=
  ensure (programId = ownerOf rt accounts info.key) .incorrectProgramId

/-- Deserializes the stake pool. -/
def World.readStakePool (w : World Key) (info : AccountInfo Key) : Except ProgramError (StakePool Key) :=
  if info.key = rt.stakePoolAddress then .ok w.stakePool else .error .borshIoError

/-- Deserializes the validator list. -/
def World.readValidatorList (w : World Key) (info : AccountInfo Key) :
    Except ProgramError (ValidatorList Key) :=
  if info.key = rt.validatorListAddress then .ok w.validatorList else .error .borshIoError

variable {rt} {w : World Key} {info : AccountInfo Key}

theorem World.readStakePool_eq_ok {p : StakePool Key} :
    w.readStakePool rt info = .ok p ↔ info.key = rt.stakePoolAddress ∧ p = w.stakePool := by
  unfold World.readStakePool; split <;> simp [*, eq_comm]

theorem World.readValidatorList_eq_ok {l : ValidatorList Key} :
    w.readValidatorList rt info = .ok l ↔ info.key = rt.validatorListAddress ∧ l = w.validatorList := by
  unfold World.readValidatorList; split <;> simp [*, eq_comm]

end
end SplStakePool
