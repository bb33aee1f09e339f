import SplStakePool.Instruction
import SplStakePool.Lib.Transition

/-!
# The pool and its environment

The system whose runs the properties are about: an initialized pool, on which instructions are
executed in any order, and an environment that can do to the accounts what the runtime, the stake
program, the token program and third parties can do without the pool's withdraw authority.

Instructions are those of anybody: any accounts and any data, with the one restriction that no derived address has
signed, because none has a private key. Of the environment, `foreign` stands for all that owners do with accounts
that the pool does not control; the other labels are what can be done to accounts that it does.
-/

namespace SplStakePool

variable {Key : Type} [DecidableEq Key] [Inhabited Key] (rt : Runtime Key)

/-- The meta data of the pool's stake accounts. -/
structure PoolMeta (m : Meta Key) : Prop where
  authorized : m.authorized = ⟨rt.withdrawAuthority, rt.withdrawAuthority⟩
  lockup : m.lockup = default
  rent : 0 < m.rentExemptReserve

/-- The state of a stake account of the pool. -/
def PoolState (s : StakeStateV2 Key) : Prop := ∃ m, s.meta? = some m ∧ PoolMeta rt m

/-- A stake account with lamports that only the pool's withdraw authority can use. -/
structure Controlled (a : Account Key) : Prop where
  owner : a.owner = rt.stakeProgramId
  lamports : 0 < a.lamports
  state : ∃ s, a.data = .stakeState s ∧ PoolState rt s

/-- A stake state as the stake program initializes it: with a rent-exempt reserve. -/
def RentExempt (s : StakeStateV2 Key) : Prop := ∀ m, s.meta? = some m → 0 < m.rentExemptReserve

/-- What the account at a derived stake address can be: not created, or a stake account. -/
def PdaOk (a : Account Key) : Prop :=
  (a.owner = rt.systemProgramId ∧ a.data = .none) ∨
    (a.owner = rt.stakeProgramId ∧ ∃ s, a.data = .stakeState s ∧ RentExempt s)

omit [DecidableEq Key] [Inhabited Key] in
/-- No derived address signs an instruction. -/
def NoPdaSigner (accounts : List (AccountInfo Key)) : Prop :=
  ∀ info ∈ accounts, info.isSigner → ¬ rt.IsPda info.key

/-- Sets one account. -/
def World.setAccount (w : World Key) (k : Key) (a : Account Key) : World Key :=
  { w with accounts := Function.update w.accounts k a }

variable (Key) in
inductive Label
  /-- An instruction of the pool program. -/
  | instruction (accounts : List (AccountInfo Key)) (i : StakePoolInstruction Key)
  /-- A transfer of lamports to any account. -/
  | donate (k : Key) (lamports : Nat)
  /-- A staking reward, added to the lamports and to the delegation. -/
  | reward (k : Key) (lamports : Nat)
  | advanceEpoch (epoch : Nat) (epochRewardsActive : Bool)
      (stakeHistory : Nat → Option StakeHistoryEntry)
  | completeRewards
  /-- Deactivation of a delinquent stake, by anyone. -/
  | deactivateDelinquent (k : Key)
  /-- A delegated stake becomes initialized, as in a cluster restart. -/
  | forceDestake (k : Key)
  /-- Anything that the owner of an account does with it. -/
  | foreign (k : Key) (a : Account Key)
  /-- The runtime removes an account without lamports. -/
  | purge (k : Key)
  /-- A holder burns pool tokens. -/
  | burn (k : Key) (amount : Nat)
  | setMinimumDelegation (lamports : Nat)

/-- What the environment can do. -/
inductive EnvStep (w : World Key) : Label Key → World Key → Prop
  | donate (k : Key) (n : Nat) :
      EnvStep w (.donate k n) (w.setAccount k ((w.accounts k).credit n))
  /-- Rewards are paid while they are being distributed, for stake that was active before. -/
  | reward (k : Key) (n credits : Nat) (m : Meta Key) (s : Stake Key)
      (hd : (w.accounts k).data = .stakeState (.stake m s)) (ho : (w.accounts k).owner = rt.stakeProgramId)
      (hr : w.sysvars.epochRewardsActive) (ha : s.delegation.activationEpoch < w.sysvars.epoch)
      (hl : 0 < (w.accounts k).lamports) :
      EnvStep w (.reward k n) (w.setAccount k ⟨(w.accounts k).lamports + n, rt.stakeProgramId,
        .stakeState (.stake m (s.addStake n credits))⟩)
  | advanceEpoch (epoch : Nat) (active : Bool) (history : Nat → Option StakeHistoryEntry)
      (h : w.sysvars.epoch < epoch) (hlt : epoch < 2 ^ 64) :
      EnvStep w (.advanceEpoch epoch active history) { w with sysvars := { w.sysvars with
        epoch, epochRewardsActive := active, stakeHistory := history } }
  | completeRewards :
      EnvStep w .completeRewards { w with sysvars := { w.sysvars with epochRewardsActive := false } }
  | deactivateDelinquent (k : Key) (m : Meta Key) (s : Stake Key)
      (hd : (w.accounts k).data = .stakeState (.stake m s))
      (hde : s.delegation.deactivationEpoch = epochMax) :
      EnvStep w (.deactivateDelinquent k) (w.setAccount k ⟨(w.accounts k).lamports,
        (w.accounts k).owner, .stakeState (.stake m (s.deactivateAt w.sysvars.epoch))⟩)
  | forceDestake (k : Key) (m : Meta Key) (s : Stake Key)
      (hd : (w.accounts k).data = .stakeState (.stake m s)) :
      EnvStep w (.forceDestake k)
        (w.setAccount k ⟨(w.accounts k).lamports, (w.accounts k).owner, .stakeState (.initialized m)⟩)
  /-- Nobody else can use an account that the pool controls, mint pool tokens, or sign for a derived
  address; but anyone can initialize a stake account that holds lamports and is uninitialized. -/
  | foreign (k : Key) (a : Account Key) (hc : ¬ Controlled rt (w.accounts k))
      (hm : k ≠ w.stakePool.poolMint)
      (hp : rt.StakePda k → (w.accounts k).owner = rt.stakeProgramId ∧ 0 < (w.accounts k).lamports ∧
        a.owner = rt.stakeProgramId ∧ 0 < a.lamports ∧ PdaOk rt a) :
      EnvStep w (.foreign k a) (w.setAccount k a)
  | purge (k : Key) (hl : (w.accounts k).lamports = 0) (hm : k ≠ w.stakePool.poolMint) :
      EnvStep w (.purge k) (w.setAccount k ⟨0, rt.systemProgramId, .none⟩)
  | burn (k : Key) (n : Nat) (t : TokenAccount Key) (m : Mint Key)
      (ht : (w.accounts k).data = .token t) (hm : (w.accounts w.stakePool.poolMint).data = .mint m)
      (hn : n ≤ t.amount) (hs : n ≤ m.supply) :
      EnvStep w (.burn k n)
        ((w.setAccount k { w.accounts k with data := .token { t with amount := t.amount - n } }).setAccount
          w.stakePool.poolMint
          { w.accounts w.stakePool.poolMint with data := .mint { m with supply := m.supply - n } })
  | setMinimumDelegation (n : Nat) (h : n < 2 ^ 64) :
      EnvStep w (.setMinimumDelegation n)
        { w with sysvars := { w.sysvars with minimumDelegation := n } }

/-- A step of the system: a successful instruction or a step of the environment. -/
inductive Step (w : World Key) : Label Key → World Key → Prop
  | instruction {accounts : List (AccountInfo Key)} {i : StakePoolInstruction Key} {w' : World Key}
      (hs : NoPdaSigner rt accounts) (h : process rt w accounts i = .ok w') :
      Step w (.instruction accounts i) w'
  | env {l : Label Key} {w' : World Key} (h : EnvStep rt w l w') : Step w l w'

/-- The world before `Initialize`: the derived stake addresses are unused, and stake accounts are
initialized with a rent-exempt reserve. -/
structure Genesis (w : World Key) : Prop where
  pdas : ∀ k, rt.StakePda k → (w.accounts k).owner = rt.systemProgramId ∧ (w.accounts k).data = .none
  rent : ∀ k s, (w.accounts k).data = .stakeState s → RentExempt s
  rent_lt : ∀ k s m, (w.accounts k).data = .stakeState s → s.meta? = some m →
    m.rentExemptReserve < 2 ^ 64
  epoch : w.sysvars.epoch < 2 ^ 64

/-- Right after a successful `Initialize`. -/
def Initialized (w : World Key) : Prop :=
  ∃ w₀ accounts fee withdrawalFee depositFee referralFee maxValidators, Genesis rt w₀ ∧
    process rt w₀ accounts (.initializePool fee withdrawalFee depositFee referralFee maxValidators) = .ok w

/-- The system of a pool and its environment. -/
def poolSystem : System (World Key) (Label Key) where
  init := Initialized rt
  step := Step rt

end SplStakePool
