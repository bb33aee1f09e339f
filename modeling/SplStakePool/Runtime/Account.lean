import Mathlib.Algebra.Order.Ring.Nat
import Mathlib.Logic.Function.Basic

/-!
# Accounts of the runtime

An account has lamports, an owning program and data. Only the data that the pool program decodes has
a shape here: stake accounts, token mints, token accounts and vote accounts. The stake pool and the
validator list are kept apart from the other accounts (`World`).

`Key` is the type of public keys. It is a parameter, because the pool relies on derived addresses not
colliding, which no finite type of addresses allows for every derivation at once.
-/

namespace SplStakePool

/-- `Epoch::MAX`, the deactivation epoch of a stake that is not deactivated. -/
def epochMax : Nat := 2 ^ 64 - 1

variable (Key : Type)

structure Authorized where
  staker : Key
  withdrawer : Key
deriving DecidableEq, Repr

structure Lockup where
  unixTimestamp : Int
  epoch : Nat
  custodian : Key
deriving DecidableEq, Repr

structure Meta where
  rentExemptReserve : Nat
  authorized : Authorized Key
  lockup : Lockup Key
deriving DecidableEq, Repr

structure Delegation where
  voterPubkey : Key
  stake : Nat
  activationEpoch : Nat
  deactivationEpoch : Nat
deriving DecidableEq, Repr

structure Stake where
  delegation : Delegation Key
  creditsObserved : Nat
deriving DecidableEq, Repr

inductive StakeStateV2
  | uninitialized
  | initialized (m : Meta Key)
  | stake (m : Meta Key) (s : Stake Key)
  | rewardsPool
deriving DecidableEq, Repr

/-- The extensions a token mint or a token account may have. -/
inductive ExtensionType
  | uninitialized | transferFeeConfig | transferFeeAmount | mintCloseAuthority
  | confidentialTransferMint | confidentialTransferAccount | defaultAccountState | immutableOwner
  | memoTransfer | nonTransferable | interestBearingConfig | cpiGuard | permanentDelegate
  | nonTransferableAccount | transferHook | transferHookAccount | confidentialTransferFeeConfig
  | confidentialTransferFeeAmount | metadataPointer | tokenMetadata | groupPointer | tokenGroup
  | groupMemberPointer | tokenGroupMember
deriving DecidableEq, Repr

structure Mint where
  mintAuthority : Option Key
  supply : Nat
  decimals : Nat
  freezeAuthority : Option Key
  extensions : List ExtensionType
deriving DecidableEq, Repr

inductive TokenAccountState
  | uninitialized | initialized | frozen
deriving DecidableEq, Repr

structure TokenAccount where
  mint : Key
  owner : Key
  amount : Nat
  state : TokenAccountState
  extensions : List ExtensionType
deriving DecidableEq, Repr

inductive AccountData
  /-- No data, or data that decodes to none of the below. -/
  | none
  | stakeState (s : StakeStateV2 Key)
  | mint (m : Mint Key)
  | token (t : TokenAccount Key)
  | vote (credits : Nat)
deriving DecidableEq, Repr

structure Account where
  lamports : Nat
  owner : Key
  data : AccountData Key
deriving DecidableEq, Repr

/-- An account as an instruction names it. -/
structure AccountInfo where
  key : Key
  isSigner : Bool
  isWritable : Bool
deriving DecidableEq, Repr

abbrev Accounts := Key → Account Key

variable {Key}

instance [Inhabited Key] : Inhabited (Lockup Key) := ⟨⟨0, 0, default⟩⟩

/-- The meta data of a stake account, present once it is initialized. -/
def StakeStateV2.meta? : StakeStateV2 Key → Option (Meta Key)
  | .initialized m => some m
  | .stake m _ => some m
  | .uninitialized | .rewardsPool => Option.none

/-- The delegation of a stake account. -/
def StakeStateV2.delegation? : StakeStateV2 Key → Option (Delegation Key)
  | .stake _ s => some s.delegation
  | .initialized _ | .uninitialized | .rewardsPool => Option.none

/-- What `solana_program::stake` decodes from the account's data. -/
def Account.stakeState? (a : Account Key) : Option (StakeStateV2 Key) :=
  match a.data with
  | .stakeState s => some s
  | _ => Option.none

/-- What the token program decodes as a mint. -/
def Account.mint? (a : Account Key) : Option (Mint Key) :=
  match a.data with
  | .mint m => some m
  | _ => Option.none

/-- What the token program decodes as a token account. -/
def Account.token? (a : Account Key) : Option (TokenAccount Key) :=
  match a.data with
  | .token t => some t
  | _ => Option.none

theorem Account.stakeState?_eq_some {a : Account Key} {s : StakeStateV2 Key} :
    a.stakeState? = some s ↔ a.data = .stakeState s := by
  unfold Account.stakeState?; split <;> simp_all

theorem Account.mint?_eq_some {a : Account Key} {m : Mint Key} :
    a.mint? = some m ↔ a.data = .mint m := by
  unfold Account.mint?; split <;> simp_all

theorem Account.token?_eq_some {a : Account Key} {t : TokenAccount Key} :
    a.token? = some t ↔ a.data = .token t := by
  unfold Account.token?; split <;> simp_all

/-- Adds lamports, which anybody may do to any account. -/
def Account.credit (a : Account Key) (n : Nat) : Account Key := { a with lamports := a.lamports + n }

@[simp] theorem Account.credit_lamports (a : Account Key) (n : Nat) :
    (a.credit n).lamports = a.lamports + n := rfl
@[simp] theorem Account.credit_owner (a : Account Key) (n : Nat) : (a.credit n).owner = a.owner := rfl
@[simp] theorem Account.credit_data (a : Account Key) (n : Nat) : (a.credit n).data = a.data := rfl

end SplStakePool
