import SplStakePool.Deployment

/-!
# Pools do not interfere

In a deployment with any number of pools every initialized pool keeps its invariants, whatever the others do: the
calls of a pool are harmless for every other pool, and that is all that a pool relies on. In a run without its own
instructions a pool stays as it is, none of its accounts loses lamports, and no tokens of it are minted.

The obligations of the library are met pool by pool. A pool keeps its invariant in its own steps, as in a system of one
pool; what it relies on of the shared accounts (`Rely`) holds of the calls of the others and of the environment, and
is enough to keep the invariant. An instruction that initializes another pool is no exception: it is a run of calls.
-/

namespace SplStakePool
open Exec Machine Function Relation

variable {ι Key : Type} [DecidableEq ι] [DecidableEq Key] [Inhabited Key] {rt : Runtime Key} {w w' : World Key}
  {p : PoolAccounts Key} {c c' : Chain Key} {l : Label Key}

/-! ## One pool -/

/-- What a pool relies on, of what is done to the chain without it. -/
structure Rely (rt : Runtime Key) (p : PoolAccounts Key) (c c' : Chain Key) : Prop where
  rent : KeepsRent c.accounts c'.accounts
  epoch : c.sysvars.epoch < 2 ^ 64 → c'.sysvars.epoch < 2 ^ 64
  unused : ∀ k, rt.StakePda k → (c.accounts k).Unused rt → (c'.accounts k).Unused rt
  ambient : p.stakePool.isValid → Ambient rt (p.world c) (p.world c')
  mintable : p.stakePool.isValid → (p.world c).Mintable rt → (p.world c').Mintable rt
  supply : p.stakePool.isValid → ∀ s, (p.world c).supply? = some s → ∃ s', (p.world c').supply? = some s' ∧ s' ≤ s

/-- A pool on the chain: not initialized, with its stake addresses unused, or initialized, with the invariants of a
pool. -/
structure PoolAccounts.OnChain (rt : Runtime Key) (c : Chain Key) (p : PoolAccounts Key) : Prop where
  rent : ∀ k, (c.accounts k).Rented
  epoch : c.sysvars.epoch < 2 ^ 64
  unborn : ¬ p.stakePool.isValid → ∀ k, rt.StakePda k → (c.accounts k).Unused rt
  inv : p.stakePool.isValid → Inv rt (p.world c)
  backing : p.stakePool.isValid → Backing (p.world c)
  mintable : p.stakePool.isValid → (p.world c).Mintable rt

omit [DecidableEq Key] in
/-- What it relies on keeps a pool as it should be. -/
theorem PoolAccounts.OnChain.stable (h : p.OnChain rt c) (hr : Rely rt p c c') : p.OnChain rt c' := by
  refine ⟨fun k => hr.rent k (h.rent k), hr.epoch h.epoch, fun hv k hk => hr.unused k hk (h.unborn hv k hk),
    fun hv => (hr.ambient hv).inv (h.inv hv), fun hv => ?_, fun hv => hr.mintable hv (h.mintable hv)⟩
  obtain ⟨⟨s, hs, hle⟩, hbacked, hfees⟩ := h.backing hv
  obtain ⟨s', hs', hle'⟩ := hr.supply hv s hs
  exact ⟨⟨s', hs', hle'.trans hle⟩, hbacked, hfees⟩

omit [DecidableEq Key] in
/-- A pool can rely on what is harmless for it. -/
theorem Rely.of_harmless (h : AllHarmless rt c.accounts c'.accounts) (hr : KeepsRent c.accounts c'.accounts)
    (hs : c'.sysvars = c.sysvars) (hm : p.stakePool.isValid → (p.world c).Mintable rt) : Rely rt p c c' := by
  have mint : p.stakePool.isValid → ∃ m n, (c.accounts p.stakePool.poolMint).data = .mint m ∧ n ≤ m.supply ∧
      m.mintAuthority = some rt.withdrawAuthority ∧
      (c'.accounts p.stakePool.poolMint).data = .mint { m with supply := n } := fun hv => by
    obtain ⟨m, hd, ha⟩ := (hm hv).mint
    obtain ⟨n, hn, hd'⟩ := (h p.stakePool.poolMint).mint m hd ha
    exact ⟨m, n, hd, hn, ha, hd'⟩
  refine ⟨hr, fun he => by rwa [hs], fun k hk => (h k).unused hk, fun _ => ⟨rfl, rfl, rfl, rfl, ?_, fun k => (h k).evolves,
    fun k hk => (h k).pda hk⟩, fun hv _ => ?_, fun hv s hs => ?_⟩
  · exact (congrArg Sysvars.epoch hs).ge
  · obtain ⟨m, n, -, -, ha, hd'⟩ := mint hv
    rw [World.Mintable]
    exact (Account.mintAuthority?_of_mint hd').trans ha
  · obtain ⟨m, n, hd, hn, -, hd'⟩ := mint hv
    have hsupply := (Account.supply?_of_mint hd).symm.trans hs
    rw [Option.some.injEq] at hsupply
    exact ⟨n, Account.supply?_of_mint hd', by omega⟩

omit [DecidableEq Key] in
theorem Rely.run (hv : p.stakePool.isValid) (h : ReflTransGen (Rely rt p) c c') :
    AllEvolve rt c.accounts c'.accounts ∧ ∀ s, (p.world c).supply? = some s →
      ∃ s', (p.world c').supply? = some s' ∧ s' ≤ s := by
  induction h with
  | refl => exact ⟨.refl _, fun s hs => ⟨s, hs, le_rfl⟩⟩
  | tail _ h ih =>
    refine ⟨ih.1.trans (h.ambient hv).evolves, fun s hs => ?_⟩
    obtain ⟨s', hs', hle⟩ := ih.2 s hs
    obtain ⟨s'', hs'', hle'⟩ := h.supply hv s' hs'
    exact ⟨s'', hs'', hle'.trans hle⟩

theorem EnvStep.unused {k : Key} (hl : l.anyPool) (h : EnvStep rt w l w') (hu : (w.accounts k).Unused rt) :
    (w'.accounts k).Unused rt := by
  have other : ∀ {j : Key} {a : Account Key} {s : StakeStateV2 Key}, (w.accounts j).data = .stakeState s →
      (update w.accounts j a k).Unused rt := by
    intro j a s hd
    rw [update_of_ne]
    · exact hu
    · rintro rfl
      rw [Account.Unused, hd] at hu
      cases hu.2
  cases h with
  | donate j n =>
    simp only [World.setAccount]
    by_cases hj : k = j
    · subst hj
      rw [update_self]
      exact hu
    · rw [update_of_ne hj]
      exact hu
  | reward j n credits m s hd => exact other hd
  | deactivateDelinquent j m s hd => exact other hd
  | forceDestake j m s hd => exact other hd
  | advanceEpoch | completeRewards | setMinimumDelegation => exact hu
  | foreign | purge | burn => cases hl

omit [Inhabited Key] in
theorem EnvStep.rent [Inhabited Key] (hl : l.anyPool) (h : EnvStep rt w l w') : KeepsRent w.accounts w'.accounts := by
  have hrefl := KeepsRent.refl w.accounts
  cases h with
  | donate j n => exact hrefl.update fun hr => hr.of_data rfl
  | reward j n credits m s hd => exact hrefl.update (.of_stake hd rfl rfl)
  | deactivateDelinquent j m s hd => exact hrefl.update (.of_stake hd rfl rfl)
  | forceDestake j m s hd => exact hrefl.update (.of_stake hd rfl rfl)
  | advanceEpoch | completeRewards | setMinimumDelegation => exact hrefl
  | foreign | purge | burn => cases hl

theorem EnvStep.epoch_lt (hl : l.anyPool) (h : EnvStep rt w l w') (he : w.sysvars.epoch < 2 ^ 64) :
    w'.sysvars.epoch < 2 ^ 64 := by
  cases h with
  | advanceEpoch epoch active history _ hlt => exact hlt
  | foreign | purge | burn => cases hl
  | _ => exact he

/-! ## All pools -/

namespace Deployment
variable {D : Deployment ι Key} {i j : ι} {ps : ι → PoolAccounts Key} {accounts : List (AccountInfo Key)}
  {ins : StakePoolInstruction Key}

omit [DecidableEq ι] [DecidableEq Key] [Inhabited Key] in
theorem runtime_lawful (hl : D.rt.Lawful) (i : ι) : (D.runtime i).Lawful := hl.forPool _ _

omit [DecidableEq ι] in
theorem EnvStep.rely (hl : D.rt.Lawful) (h : D.EnvStep c ps l c') (hon : ∀ i, (ps i).OnChain (D.runtime i) c) (j : ι) :
    Rely (D.runtime j) (ps j) c c' := by
  cases h with
  | common hl h =>
    have h := h j
    exact ⟨h.rent hl, h.epoch_lt hl, fun k _ => h.unused hl, fun _ => h.ambient, fun _ hm => h.mintable hm,
      fun _ s hs => h.supply hs⟩
  | foreign k a hc hm hp hr =>
    have env : (ps j).stakePool.isValid → SplStakePool.EnvStep (D.runtime j) ((ps j).world c) (.foreign k a)
        ((ps j).world { c with accounts := update c.accounts k a }) := fun hv => .foreign k a (hc j) (hm j hv) (hp j)
    refine ⟨(KeepsRent.refl _).update fun _ => hr, id, fun k' hk' hu => ?_, fun hv => (env hv).ambient,
      fun hv hm => (env hv).mintable hm, fun hv s hs => (env hv).supply hs⟩
    dsimp only
    rw [update_of_ne]
    · exact hu
    · -- nobody can do anything to an unused stake address
      rintro rfl
      exact hl.system_ne_stake (hu.1.symm.trans (hp j hk').1)
  | purge k h0 hm =>
    have env : (ps j).stakePool.isValid → SplStakePool.EnvStep (D.runtime j) ((ps j).world c) (.purge k)
        ((ps j).world { c with accounts := update c.accounts k ⟨0, D.rt.systemProgramId, .none⟩ }) :=
      fun hv => .purge k h0 (hm j hv)
    have hnone : (⟨0, D.rt.systemProgramId, .none⟩ : Account Key).Rented := .of_not fun s m hs => by cases hs
    refine ⟨(KeepsRent.refl _).update fun _ => hnone, id, fun k' _ hu => ?_,
      fun hv => (env hv).ambient, fun hv hm => (env hv).mintable hm, fun hv s hs => (env hv).supply hs⟩
    dsimp only
    by_cases hk : k' = k
    · subst hk
      rw [update_self]
      exact ⟨rfl, rfl⟩
    · rw [update_of_ne hk]
      exact hu
  | burn mint k n t m ht hm hn hs =>
    refine .of_harmless ?_ ?_ rfl fun hv => (hon j).mintable hv
    · exact ((AllHarmless.refl _ _).update (.of_token ht)).update (.of_mint hm rfl fun _ => Nat.sub_le _ _)
    · exact ((KeepsRent.refl _).update fun _ => .of_not fun s m hs => by cases hs).update
        fun _ => .of_not fun s m hs => by cases hs

theorem process_sysvars (hl : rt.Lawful) (h : process rt w accounts ins = .ok w') : w'.sysvars = w.sysvars := by
  by_cases hi : ins.isInitialize
  · cases ins with
    | initializePool =>
      obtain ⟨_, _, _, _, h⟩ := processInitialize_ok hl h
      obtain ⟨_, hw⟩ := h.result
      rw [hw]
    | _ => cases hi
  · exact (process_executed hi h).statics.sysvars

theorem process_run (hl : rt.Lawful) (hon : p.OnChain rt c) (h : process rt (p.world c) accounts ins = .ok w') :
    Calls rt c.sysvars accounts c.accounts w'.accounts :=
  process_calls hl (fun hv => (hon.inv hv).pool) h

omit [DecidableEq ι] in
/-- What one pool does, every other pool can rely on. -/
theorem process_rely {q : PoolAccounts Key} (hl : D.rt.Lawful) (hij : i ≠ j) (hi : q.OnChain (D.runtime i) c)
    (hj : p.OnChain (D.runtime j) c) (hs : NoPdaSigner D.rt accounts)
    (h : process (D.runtime i) (q.world c) accounts ins = .ok w') : Rely (D.runtime j) p c w'.chain := by
  have hli := runtime_lawful hl i
  have hcalls := process_run hli hi h
  have hne : D.stakePool j ≠ (D.runtime i).stakePoolAddress := fun he => hij (D.stakePool_injective he).symm
  have hharmless : AllHarmless ((D.runtime i).forPool (D.stakePool j) (D.validatorList j)) c.accounts w'.accounts :=
    hcalls.harmless hli hne D.program_ne_system hs
  exact .of_harmless hharmless (hcalls.rent hli) (process_sysvars hli h) hj.mintable

/-- A pool keeps its invariants in its own instructions, the first of which is `Initialize`. -/
theorem process_onChain (hl : rt.Lawful) (hon : p.OnChain rt c) (hs : NoPdaSigner rt accounts)
    (h : process rt (p.world c) accounts ins = .ok w') : w'.poolAccounts.OnChain rt w'.chain := by
  have hrent := (process_run hl hon h).rent hl
  have hsys := process_sysvars hl h
  suffices hinv : Inv rt w' ∧ Backing w' ∧ w'.Mintable rt by
    refine ⟨fun k => hrent k (hon.rent k), ?_, fun hv => absurd hinv.1.pool.valid hv, fun _ => hinv.1, fun _ => hinv.2.1,
      fun _ => hinv.2.2⟩
    show w'.sysvars.epoch < _
    rw [hsys]
    exact hon.epoch
  by_cases hv : p.stakePool.isValid
  · have hi := hon.inv hv
    have he := process_executed (not_isInitialize hl hv h) h
    exact ⟨(he.effect hl hs hi.pool hi.core).inv hl hi he.statics, he.backing hl hi (hon.backing hv),
      he.mintable hl (hon.mintable hv)⟩
  · -- only `Initialize` succeeds
    have hi : ins.isInitialize := by
      by_contra hi
      exact hv (process_requires hi _ h)
    have hgenesis : SplStakePool.Genesis rt (p.world c) :=
      ⟨hon.unborn hv, fun k s hd m hm => (hon.rent k s m hd hm).1, fun k s m hd hm => (hon.rent k s m hd hm).2, hon.epoch⟩
    cases ins with
    | initializePool =>
      have hinit : Initialized rt w' := ⟨_, _, _, _, _, _, _, hgenesis, h⟩
      exact ⟨hinit.inv hl, hinit.backing hl, hinit.mintable hl⟩
    | _ => cases hi

omit [DecidableEq ι] in
/-- The pools of a deployment do not interfere. -/
theorem interferenceFree (hl : D.rt.Lawful) : D.components.InterferenceFree
    (fun i c p => p.OnChain (D.runtime i) c) (fun i => Rely (D.runtime i)) where
  own := by
    rintro i c p l c' p' hon ⟨hs, w, h, he⟩
    cases he
    exact process_onChain (runtime_lawful hl i) hon hs h
  other := by
    rintro i j c p l c' p' q hij hi hj ⟨hs, w, h, he⟩
    cases he
    exact process_rely hl hij hi hj hs h
  env hon h := EnvStep.rely hl h hon
  stable hon hr := hon.stable hr

omit [DecidableEq ι] [DecidableEq Key] in
theorem Genesis.onChain (h : D.Genesis c ps) (i : ι) : (ps i).OnChain (D.runtime i) c :=
  ⟨h.rent, h.epoch, fun _ => h.pdas i, fun hv => absurd hv (h.unborn i), fun hv => absurd hv (h.unborn i),
    fun hv => absurd hv (h.unborn i)⟩

theorem onChain_of_reach (hl : D.rt.Lawful) {x : Chain Key × (ι → PoolAccounts Key)} (hr : D.system.Reachable x) (i : ι) :
    (x.2 i).OnChain (D.runtime i) x.1 :=
  (interferenceFree hl).invariant (fun _ _ h => h.onChain) hr i

omit [DecidableEq ι] [DecidableEq Key] [Inhabited Key] in
/-- An account of one pool is not of another. -/
theorem not_controlled_of_ne (hl : D.rt.Lawful) (hij : i ≠ j) {a : Account Key} [Inhabited Key]
    (h : Controlled (D.runtime i) a) : ¬ Controlled (D.runtime j) a := by
  intro h'
  obtain ⟨s, hd, m, hm, hp⟩ := h.state
  have hp' := (h'.poolState hd).poolMeta hm
  have hne : (D.runtime i).withdrawAuthority ≠ (D.runtime j).withdrawAuthority :=
    Runtime.forPool_withdrawAuthority_ne (runtime_lawful hl i) fun he => hij (D.stakePool_injective he).symm
  exact hne (congrArg Authorized.staker (hp.authorized.symm.trans hp'.authorized))

/-- In every state of every run of a deployment, however the instructions of its pools are interleaved, every pool that
is initialized has the invariants of a pool, and no two of them have the same reserve or the same mint. -/
theorem pools_stay_sound (hl : D.rt.Lawful) {x : Chain Key × (ι → PoolAccounts Key)} (hr : D.system.Reachable x)
    (hv : (x.2 i).stakePool.isValid) :
    Inv (D.runtime i) ((x.2 i).world x.1) ∧ Backing ((x.2 i).world x.1) ∧ ((x.2 i).world x.1).Mintable (D.runtime i) ∧
      ∀ j, j ≠ i → (x.2 j).stakePool.isValid → (x.2 j).stakePool.reserveStake ≠ (x.2 i).stakePool.reserveStake ∧
        (x.2 j).stakePool.poolMint ≠ (x.2 i).stakePool.poolMint := by
  have hi := onChain_of_reach hl hr i
  refine ⟨hi.inv hv, hi.backing hv, hi.mintable hv, fun j hji hvj => ⟨fun he => ?_, fun he => ?_⟩⟩
  · have hres : Controlled (D.runtime i) (x.1.accounts (x.2 i).stakePool.reserveStake) :=
      (hi.inv hv).core.reserve_ok.controlled
    have hres' : Controlled (D.runtime j) (x.1.accounts (x.2 j).stakePool.reserveStake) :=
      ((onChain_of_reach hl hr j).inv hvj).core.reserve_ok.controlled
    rw [he] at hres'
    exact not_controlled_of_ne hl hji hres' hres
  · have hm : (x.1.accounts (x.2 i).stakePool.poolMint).mintAuthority? = some (D.runtime i).withdrawAuthority :=
      hi.mintable hv
    have hm' : (x.1.accounts (x.2 j).stakePool.poolMint).mintAuthority? = some (D.runtime j).withdrawAuthority :=
      (onChain_of_reach hl hr j).mintable hvj
    rw [he, hm] at hm'
    exact Runtime.forPool_withdrawAuthority_ne (runtime_lawful hl i) (fun he => hji (D.stakePool_injective he))
      (Option.some.inj hm')

/-- In every run without instructions of an initialized pool, whatever the other pools and the environment do, the pool
stays as it is, its stake accounts stay under its authority and lose no lamports, and no tokens of it are minted. -/
theorem others_take_nothing (hl : D.rt.Lawful) {x y : Chain Key × (ι → PoolAccounts Key)} (hr : D.system.Reachable x)
    (hv : (x.2 i).stakePool.isValid) (hp : D.system.Path (fun _ => Components.Others i) x y) :
    y.2 i = x.2 i ∧
      (∀ k, Controlled (D.runtime i) (x.1.accounts k) →
        Controlled (D.runtime i) (y.1.accounts k) ∧ (x.1.accounts k).lamports ≤ (y.1.accounts k).lamports) ∧
      ∃ s s', ((x.2 i).world x.1).supply? = some s ∧ ((y.2 i).world y.1).supply? = some s' ∧ s' ≤ s := by
  have hon := onChain_of_reach hl hr
  obtain ⟨-, he, hrely⟩ := (interferenceFree hl).others hon hp
  have hrun := Rely.run hv hrely
  obtain ⟨s, hs, -⟩ := ((hon i).backing hv).supply
  obtain ⟨s', hs', hle⟩ := hrun.2 s hs
  refine ⟨he, fun k hk => ⟨(hrun.1 k).controlled hk, (hrun.1 k hk).2.1⟩, s, s', hs, ?_, hle⟩
  rw [he]
  exact hs'

end Deployment

section
open Reference

/-- The accounts of two pools: the pool, its list, the reserve, the mint, the fee account and a user's tokens. -/
def twin (b : Bool) (n : Nat) : Reference.Key := wallet (if b then 50 + n else 40 + n)

/-- Two pools of the program. -/
def twins : Deployment Bool Reference.Key where
  rt := Reference.runtime
  stakePool b := twin b 0
  validatorList b := twin b 1
  stakePool_injective := by
    intro a b h
    cases a <;> cases b <;> first | rfl | cases h
  validatorList_injective := by
    intro a b h
    cases a <;> cases b <;> first | rfl | cases h
  disjoint := by
    intro a b h
    cases a <;> cases b <;> cases h
  program_ne_system := by decide

def twinAuthority (b : Bool) : Reference.Key := (twins.runtime b).withdrawAuthority

def twinAccounts : List (Reference.Key × Account Reference.Key) :=
  (user, ⟨1000000000, systemProgram, .none⟩) :: [false, true].flatMap fun b => [
    (twin b 0, ⟨rent 1000, wallet 0, .none⟩),
    (twin b 1, ⟨rent 1000, wallet 0, .none⟩),
    (twin b 2, ⟨1000000000, stakeProgram, .stakeState (.initialized
      ⟨rent stakeSpace, ⟨twinAuthority b, twinAuthority b⟩, default⟩)⟩),
    (twin b 3, ⟨rent 82, wallet 3, .mint ⟨some (twinAuthority b), 0, 9, none, []⟩⟩),
    (twin b 4, ⟨rent 165, wallet 3, .token ⟨twin b 3, manager, 0, .initialized, []⟩⟩),
    (twin b 5, ⟨rent 165, wallet 3, .token ⟨twin b 3, user, 0, .initialized, []⟩⟩)]

abbrev TwinState := Chain Reference.Key × (Bool → PoolAccounts Reference.Key)

/-- Neither pool is initialized. -/
def twinGenesis : TwinState :=
  (⟨⟨10, false, fun _ => none, 1⟩, fun k => (twinAccounts.lookup k).getD ⟨0, systemProgram, .none⟩⟩,
    fun _ => ⟨blankPool, 600, ⟨⟨.uninitialized, 0⟩, []⟩, 9 + 3 * 73⟩)

theorem rented_of_all {a : Account Reference.Key}
    (h : (a.stakeState?.bind (·.meta?)).all fun m => 0 < m.rentExemptReserve ∧ m.rentExemptReserve < 2 ^ 64) :
    a.Rented := by
  intro s m hs hm
  rw [Account.stakeState?_eq_some.2 hs, Option.bind_some, hm] at h
  simpa using h

theorem twinGenesis_ok : twins.Genesis twinGenesis.1 twinGenesis.2 where
  unborn b := by decide +revert
  pdas b k hk := by
    obtain ⟨seeds, hs⟩ := hk.isPda (Deployment.runtime_lawful (D := twins) lawful b)
    cases hs
    exact ⟨rfl, rfl⟩
  rent k := by
    refine rented_of_all ?_
    simp only [twinGenesis]
    cases hl : twinAccounts.lookup k with
    | none => rfl
    | some a =>
      rw [List.lookup_eq_some_iff] at hl
      obtain ⟨l₁, l₂, he, -⟩ := hl
      have hall : ∀ x ∈ twinAccounts, (x.2.stakeState?.bind (·.meta?)).all fun m =>
          0 < m.rentExemptReserve ∧ m.rentExemptReserve < 2 ^ 64 := by decide +kernel
      exact hall (k, a) (by rw [he]; simp)
  epoch := by decide

/-- An instruction of one of the two. -/
abbrev TwinLabel := Bool × (List (AccountInfo Reference.Key) × StakePoolInstruction Reference.Key) ⊕ Label Reference.Key

def twinExec (x : TwinState) : TwinLabel → Option TwinState
  | .inl (b, accounts, i) =>
    if accounts.all mayAct then
      (process (twins.runtime b) ((x.2 b).world x.1) accounts i).toOption.map fun w =>
        (w.chain, Function.update x.2 b w.poolAccounts)
    else none
  | .inr _ => none

theorem twinExec_step {x y : TwinState} {l : TwinLabel} (h : twinExec x l = some y) : twins.system.step x l y := by
  rcases l with ⟨b, accounts, i⟩ | l
  · simp only [twinExec] at h
    split at h
    · rename_i hs
      obtain ⟨w, hw, rfl⟩ := Option.map_eq_some_iff.1 h
      exact .own ⟨noPdaSigner_of_all hs, w, toOption_eq_some.1 hw, rfl⟩
    · cases h
  · cases h

/-- The state after some instructions, if all of them succeed. -/
def twinsAfter (x : TwinState) (ls : List TwinLabel) : TwinState := (System.runList twinExec x ls).getD x

theorem twinsAfter_path {ok : TwinLabel → Prop} {x : TwinState} {ls : List TwinLabel} (hok : ∀ l ∈ ls, ok l)
    (h : (System.runList twinExec x ls).isSome) : twins.system.Path (fun _ => ok) x (twinsAfter x ls) := by
  obtain ⟨y, hy⟩ := Option.isSome_iff_exists.1 h
  rw [twinsAfter, hy, Option.getD_some]
  exact .of_runList (fun _ _ _ => twinExec_step) (fun l hl _ => hok l hl) hy

def twinOpen (b : Bool) : TwinLabel :=
  .inl (b, [Reference.writable (twin b 0), signer manager, Reference.writable staker, Reference.writable (twinAuthority b),
    Reference.writable (twin b 1), Reference.writable (twin b 2), Reference.writable (twin b 3),
    Reference.writable (twin b 4), tokenInfo], .initializePool ⟨10, 1⟩ ⟨3, 1⟩ ⟨7, 1⟩ 0 3)

def twinDeposit (b : Bool) (lamports : Nat) : TwinLabel :=
  .inl (b, [Reference.writable (twin b 0), Reference.writable (twinAuthority b), Reference.writable (twin b 2),
    signer user, Reference.writable (twin b 5), Reference.writable (twin b 4), Reference.writable (twin b 4),
    Reference.writable (twin b 3), systemInfo, tokenInfo], .depositSol lamports)

def twinWithdraw (b : Bool) (poolTokens : Nat) : TwinLabel :=
  .inl (b, [Reference.writable (twin b 0), Reference.writable (twinAuthority b), signer user,
    Reference.writable (twin b 5), Reference.writable (twin b 2), Reference.writable user,
    Reference.writable (twin b 4), Reference.writable (twin b 3), clock, Reference.unused, stakeInfo, tokenInfo],
    .withdrawSol poolTokens)

/-- One pool is initialized after deposits in the other. -/
def twinsOpen : TwinState :=
  twinsAfter twinGenesis [twinOpen false, twinDeposit false 1000, twinOpen true, twinDeposit true 5000]

theorem twinsOpen_reachable : twins.system.Reachable twinsOpen :=
  ⟨twinGenesis, twinGenesis_ok, twinsAfter_path (fun _ _ => trivial) (by decide +kernel)⟩

theorem pools_stay_sound_twins : (twinsOpen.2 true).stakePool.poolTokenSupply = 997722120 ∧
    Inv (twins.runtime true) ((twinsOpen.2 true).world twinsOpen.1) :=
  ⟨by decide +kernel, (Deployment.pools_stay_sound (D := twins) (i := true) lawful twinsOpen_reachable
    (by decide +kernel)).1⟩

/-- A deposit and a withdrawal in one of the pools. -/
def twinsMoved : TwinState := twinsAfter twinsOpen [twinDeposit false 77, twinWithdraw false 30]

theorem others_take_nothing_twins :
    (twinsMoved.2 false).stakePool.poolTokenSupply ≠ (twinsOpen.2 false).stakePool.poolTokenSupply ∧
    twinsMoved.2 true = twinsOpen.2 true := by
  have hother : ∀ l ∈ [twinDeposit false 77, twinWithdraw false 30], Components.Others true l := by
    rintro l hl a rfl
    simp [twinDeposit, twinWithdraw] at hl
  refine ⟨by decide +kernel, (Deployment.others_take_nothing (D := twins) (i := true) lawful twinsOpen_reachable
    (by decide +kernel) (twinsAfter_path hother (by decide +kernel))).1⟩

end

end SplStakePool
