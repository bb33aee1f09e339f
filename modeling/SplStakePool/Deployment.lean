import SplStakePool.Lib.Components
import SplStakePool.Invariant.Foreign

/-!
# Many pools of one program

A deployment is the program with any number of pools on one chain. The pools share the accounts and the system
variables; each has its two accounts of the program. Pools are initialized at any time, and the instructions of all
pools interleave with steps of the environment.

To one pool, the instructions of the others are steps of an environment. They are instances of the general notion of
components over a shared state, so that a run of the deployment can be looked at as a run of each of its pools.
-/

namespace SplStakePool
open Exec Machine Function

/-- The program with the addresses of its pools, which are all different. -/
structure Deployment (ι Key : Type) where
  rt : Runtime Key
  stakePool : ι → Key
  validatorList : ι → Key
  stakePool_injective : Injective stakePool
  validatorList_injective : Injective validatorList
  disjoint : ∀ i j, stakePool i ≠ validatorList j
  program_ne_system : rt.programId ≠ rt.systemProgramId

/-- What all pools share. -/
structure Chain (Key : Type) where
  sysvars : Sysvars
  accounts : Accounts Key

/-- The two accounts of one pool, decoded. -/
structure PoolAccounts (Key : Type) where
  stakePool : StakePool Key
  stakePoolDataLen : Nat
  validatorList : ValidatorList Key
  validatorListDataLen : Nat

variable {ι Key : Type} [DecidableEq ι] [DecidableEq Key] [Inhabited Key]

section
omit [DecidableEq ι] [DecidableEq Key] [Inhabited Key]

/-- The world that an instruction of the pool runs in. -/
def PoolAccounts.world (p : PoolAccounts Key) (c : Chain Key) : World Key where
  sysvars := c.sysvars
  stakePool := p.stakePool
  stakePoolDataLen := p.stakePoolDataLen
  validatorList := p.validatorList
  validatorListDataLen := p.validatorListDataLen
  accounts := c.accounts

def World.chain (w : World Key) : Chain Key := ⟨w.sysvars, w.accounts⟩

def World.poolAccounts (w : World Key) : PoolAccounts Key :=
  ⟨w.stakePool, w.stakePoolDataLen, w.validatorList, w.validatorListDataLen⟩

@[simp] theorem World.poolAccounts_world_chain (w : World Key) : w.poolAccounts.world w.chain = w := rfl

/-- Steps of the environment that are the same for every pool. -/
def Label.anyPool : Label Key → Bool
  | .donate _ _ | .reward _ _ | .advanceEpoch _ _ _ | .completeRewards | .deactivateDelinquent _ | .forceDestake _
  | .setMinimumDelegation _ => true
  | .instruction _ _ | .foreign _ _ | .purge _ | .burn _ _ => false

end

namespace Deployment
variable (D : Deployment ι Key)

/-- What the program's handlers know in an instruction of the pool. -/
def runtime (i : ι) : Runtime Key := D.rt.forPool (D.stakePool i) (D.validatorList i)

/-- What the environment can do: to every pool what it can do to one. -/
inductive EnvStep (c : Chain Key) (ps : ι → PoolAccounts Key) : Label Key → Chain Key → Prop
  | common {l : Label Key} {c' : Chain Key} (hl : l.anyPool)
      (h : ∀ i, SplStakePool.EnvStep (D.runtime i) ((ps i).world c) l ((ps i).world c')) : EnvStep c ps l c'
  | foreign (k : Key) (a : Account Key) (hc : ∀ i, ¬ Controlled (D.runtime i) (c.accounts k))
      (hm : ∀ i, (ps i).stakePool.isValid → k ≠ (ps i).stakePool.poolMint)
      (hp : ∀ i, (D.runtime i).StakePda k → (c.accounts k).owner = D.rt.stakeProgramId ∧ 0 < (c.accounts k).lamports ∧
        a.owner = D.rt.stakeProgramId ∧ 0 < a.lamports ∧ PdaOk D.rt a)
      (hr : a.Rented) : EnvStep c ps (.foreign k a) { c with accounts := update c.accounts k a }
  | purge (k : Key) (h0 : (c.accounts k).lamports = 0)
      (hm : ∀ i, (ps i).stakePool.isValid → k ≠ (ps i).stakePool.poolMint) :
      EnvStep c ps (.purge k) { c with accounts := update c.accounts k ⟨0, D.rt.systemProgramId, .none⟩ }
  /-- A holder burns tokens of some mint. -/
  | burn (mint k : Key) (n : Nat) (t : TokenAccount Key) (m : Mint Key) (ht : (c.accounts k).data = .token t)
      (hm : (c.accounts mint).data = .mint m) (hn : n ≤ t.amount) (hs : n ≤ m.supply) :
      EnvStep c ps (.burn k n) ⟨c.sysvars, update (update c.accounts k
        { c.accounts k with data := .token { t with amount := t.amount - n } }) mint
        { c.accounts mint with data := .mint { m with supply := m.supply - n } }⟩

/-- Before any pool is initialized: the stake addresses of all pools are unused. -/
structure Genesis (c : Chain Key) (ps : ι → PoolAccounts Key) : Prop where
  unborn : ∀ i, ¬ (ps i).stakePool.isValid
  pdas : ∀ i k, (D.runtime i).StakePda k → (c.accounts k).Unused D.rt
  rent : ∀ k, (c.accounts k).Rented
  epoch : c.sysvars.epoch < 2 ^ 64

/-- The pools as components over the chain: the instructions of a pool change its own two accounts, and accounts that
all pools share. -/
def components : Components ι (Chain Key) (PoolAccounts Key) (List (AccountInfo Key) × StakePoolInstruction Key)
    (Label Key) where
  init := D.Genesis
  step i x l y := NoPdaSigner D.rt l.1 ∧
    ∃ w, process (D.runtime i) (x.2.world x.1) l.1 l.2 = .ok w ∧ y = (w.chain, w.poolAccounts)
  env := D.EnvStep

/-- The chain with all pools. -/
def system : System (Chain Key × (ι → PoolAccounts Key)) (ι × (List (AccountInfo Key) × StakePoolInstruction Key) ⊕
    Label Key) := D.components.system

end Deployment
end SplStakePool
