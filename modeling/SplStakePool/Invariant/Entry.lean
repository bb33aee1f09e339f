import SplStakePool.Invariant.Core
import SplStakePool.Invariant.Token

/-!
# How an instruction changes one entry

The instructions that move stake replace one entry and work on its two stake accounts, and perhaps on
the reserve and an ephemeral account. `Moved` says what they have in common: the records follow the
lamports. It gives both the step of the core invariant and, in a run without donations, that exact
records stay exact.

A record follows an account when it changes by what the account gains or loses, in both directions, so that a record
that was at most the lamports stays so, and one that was exact stays exact.
-/

namespace SplStakePool
open Function

variable {Key : Type} [DecidableEq Key] [Inhabited Key] {rt : Runtime Key} {sys : Sysvars}
  {acc acc' acc'' : Accounts Key} {src dst auth vote : AccountInfo Key} {n epoch : Nat}

/-- No ephemeral account has lamports. -/
def EphemeralsEmpty (rt : Runtime Key) (acc : Accounts Key) : Prop :=
  ∀ seed, (acc (rt.ephemeralStake seed)).lamports = 0

/-- Nothing is left over at a derived address, and what goes out does not go to one. -/
structure Clean (rt : Runtime Key) (out : Option Key) (acc : Accounts Key) : Prop where
  ephemerals : EphemeralsEmpty rt acc
  out : ∀ k, out = some k → ¬ rt.StakePda k

/-- A record `r` of `x` lamports that are now `x'` is now `r'`: what the account holds, or changed as the
account did. It may have gained more than the record, but not when nothing was left over elsewhere. -/
def Follows (clean : Prop) (x r x' r' : Nat) : Prop :=
  r' = x' ∨ x + r' ≤ x' + r ∧ (clean → x + r' = x' + r)

namespace Follows
variable {clean : Prop} {x r x' r' : Nat}

theorem of_eq (h : r' = x') : Follows clean x r x' r' := .inl h

theorem of_add (h : x + r' = x' + r) : Follows clean x r x' r' := .inr ⟨h.le, fun _ => h⟩

theorem le (h : Follows clean x r x' r') (hr : r ≤ x) : r' ≤ x' := by
  rcases h with h | ⟨h, -⟩ <;> omega

theorem exact (h : Follows clean x r x' r') (hc : clean) (hr : x = r) : x' = r' := by
  rcases h with h | ⟨-, h⟩
  · exact h.symm
  · have := h hc; omega

end Follows

omit [DecidableEq Key] in
/-- The records of an entry are still backed after both followed the lamports. -/
theorem EntryOk.follow {v v' : ValidatorStakeInfo Key} {clean : Prop} (h : EntryOk rt acc v)
    (hvote : v'.voteAccountAddress = v.voteAccountAddress)
    (hseed : v'.validatorSeedSuffix = v.validatorSeedSuffix)
    (htseed : v.transientStakeLamports ≠ 0 → v'.transientSeedSuffix = v.transientSeedSuffix)
    (ha : Follows clean (acc (rt.validatorStake v)).lamports v.activeStakeLamports
      (acc' (rt.validatorStake v)).lamports v'.activeStakeLamports)
    (ht : Follows clean (acc (rt.transientStake v')).lamports v.transientStakeLamports
      (acc' (rt.transientStake v')).lamports v'.transientStakeLamports)
    (hac : 0 < v'.activeStakeLamports → Controlled rt (acc' (rt.validatorStake v)))
    (htc : 0 < v'.transientStakeLamports → Controlled rt (acc' (rt.transientStake v')))
    (hst : ∃ s, v'.status = s.pod ∧ StatusOk rt acc' v' s) : EntryOk rt acc' v' := by
  have hk : rt.validatorStake v' = rt.validatorStake v := rt.validatorStake_congr hvote hseed
  refine ⟨hk ▸ ha.le h.active_le, ht.le ?_, hk ▸ hac, htc, hst⟩
  by_cases h0 : v.transientStakeLamports = 0
  · omega
  · rw [rt.transientStake_congr hvote (htseed h0)]
    exact h.transient_le

/-- What an instruction has done that moved stake of the entry `v`, which is now `v'`, in an epoch. The
account `out` may have received lamports of the pool. -/
structure Moved (rt : Runtime Key) (epoch : Nat) (fresh : Prop) (reserve : Key) (out : Option Key)
    (acc acc' : Accounts Key) (v v' : ValidatorStakeInfo Key) : Prop
    extends EntryStep rt reserve acc acc' v v' where
  seed : v'.validatorSeedSuffix = v.validatorSeedSuffix
  transientSeed : v.transientStakeLamports ≠ 0 → v'.transientSeedSuffix = v.transientSeedSuffix
  updated : v'.lastUpdateEpoch = v.lastUpdateEpoch
  active : Follows (Clean rt out acc) (acc (rt.validatorStake v)).lamports v.activeStakeLamports
    (acc' (rt.validatorStake v)).lamports v'.activeStakeLamports
  transient : Follows (Clean rt out acc) (acc (rt.transientStake v')).lamports
    v.transientStakeLamports (acc' (rt.transientStake v')).lamports v'.transientStakeLamports
  /-- The other derived accounts that have lamports are unchanged. -/
  settled : Clean rt out acc → ∀ k, rt.StakePda k → k ≠ rt.validatorStake v →
    k ≠ rt.transientStake v' → 0 < (acc' k).lamports → acc' k = acc k
  quiet : Clean rt out acc → Quiet epoch (acc (rt.validatorStake v)) →
    Quiet epoch (acc (rt.transientStake v')) →
    Quiet epoch (acc' (rt.validatorStake v)) ∧ Quiet epoch (acc' (rt.transientStake v'))
  /-- Lamports only move on an up-to-date pool. -/
  still : fresh ∨ v'.activeStakeLamports = v.activeStakeLamports ∧
    v'.transientStakeLamports = v.transientStakeLamports ∧
    v'.transientSeedSuffix = v.transientSeedSuffix ∧ ∀ k, (acc' k).lamports = (acc k).lamports

/-- What an instruction has done that replaced one entry: with what leaves the total of the pool, the
reserve and the records at least as well covered. -/
structure EntryEffect (rt : Runtime Key) (out : Option Key) (w w' : World Key)
    (pre : List (ValidatorStakeInfo Key)) (v v' : ValidatorStakeInfo Key)
    (post : List (ValidatorStakeInfo Key)) : Prop where
  list : w.validatorList.validators = pre ++ v :: post
  list' : w'.validatorList = { w.validatorList with validators := pre ++ v' :: post }
  moved : Moved rt w.sysvars.epoch (w.sysvars.epoch ≤ w.stakePool.lastUpdateEpoch)
    w.stakePool.reserveStake out w.accounts w'.accounts v v'
  covered : w'.stakePool.totalLamports + (w.accounts w.stakePool.reserveStake).lamports + v.recorded ≤
    w.stakePool.totalLamports + (w'.accounts w.stakePool.reserveStake).lamports + v'.recorded

/-- What an instruction has done that replaced no entry: the stake accounts of the pool evolve, and the
reserve with the records covers the total at least as well. -/
structure EvolveEffect (rt : Runtime Key) (out : Option Key) (w w' : World Key) : Prop where
  list : w'.validatorList = w.validatorList
  reserve_step : ReserveStep rt (w.accounts w.stakePool.reserveStake) (w'.accounts w.stakePool.reserveStake)
  pda : ∀ k, rt.StakePda k → PdaOk rt (w.accounts k) → PdaOk rt (w'.accounts k)
  evolves : ∀ k, rt.StakePda k → Evolves rt (w.accounts k) (w'.accounts k)
  settled : ∀ k, rt.StakePda k → out ≠ some k → w'.accounts k = w.accounts k
  covered : w'.stakePool.totalLamports + (w.accounts w.stakePool.reserveStake).lamports ≤
    w.stakePool.totalLamports + (w'.accounts w.stakePool.reserveStake).lamports

/-- An entry with new records, transient seed and status. -/
def ValidatorStakeInfo.revise (v : ValidatorStakeInfo Key) (active transient : Nat) (seed : UInt64)
    (status : StakeStatus) : ValidatorStakeInfo Key :=
  { v with
    activeStakeLamports := active
    transientStakeLamports := transient
    transientSeedSuffix := seed
    status := status.pod }

section
variable {w w' : World Key} {v : ValidatorStakeInfo Key} {vote' ta : Key} {out : Option Key}
  {active transient : Nat} {seed : UInt64} {status : StakeStatus}

omit [DecidableEq Key] [Inhabited Key] in
@[simp] theorem Runtime.validatorStake_revise :
    rt.validatorStake (v.revise active transient seed status) = rt.validatorStake v := rfl

variable (v ta active transient seed status) in
/-- Writing a revised entry back that was found in the list, after its accounts were worked on. -/
theorem EntryEffect.of_revise (hc : Core rt w.stakePool.reserveStake w.validatorList.validators w.accounts)
    (hf : w.validatorList.find vote' = some v) (hactive : v.status = StakeStatus.active.pod)
    (hset : w'.validatorList = w.validatorList.set (v.revise active transient seed status))
    (hreserve : ReserveStep rt (w.accounts w.stakePool.reserveStake) (w'.accounts w.stakePool.reserveStake))
    (hpda : AllPda rt w.accounts w'.accounts)
    (hta : ta = rt.transientStake (v.revise active transient seed status))
    (hevolves : ∀ k, rt.StakePda k → k ≠ rt.validatorStake v → k ≠ ta →
      Evolves rt (w.accounts k) (w'.accounts k) ∧
        (Clean rt out w.accounts → 0 < (w'.accounts k).lamports → w'.accounts k = w.accounts k))
    (hseed : v.transientStakeLamports ≠ 0 → seed = v.transientSeedSuffix)
    (ha : Follows (Clean rt out w.accounts) (w.accounts (rt.validatorStake v)).lamports
      v.activeStakeLamports (w'.accounts (rt.validatorStake v)).lamports active)
    (ht : Follows (Clean rt out w.accounts) (w.accounts ta).lamports
      v.transientStakeLamports (w'.accounts ta).lamports transient)
    (hac : 0 < active ∨ status = .active → Controlled rt (w'.accounts (rt.validatorStake v)))
    (htc : 0 < transient → Controlled rt (w'.accounts ta))
    (hst : status ≠ .active → StatusOk rt w'.accounts (v.revise active transient seed status) status)
    (hq : Clean rt out w.accounts → Quiet w.sysvars.epoch (w.accounts (rt.validatorStake v)) →
      Quiet w.sysvars.epoch (w.accounts ta) →
      Quiet w.sysvars.epoch (w'.accounts (rt.validatorStake v)) ∧ Quiet w.sysvars.epoch (w'.accounts ta))
    (hstill : w.sysvars.epoch ≤ w.stakePool.lastUpdateEpoch ∨ active = v.activeStakeLamports ∧
      transient = v.transientStakeLamports ∧ seed = v.transientSeedSuffix ∧
      ∀ k, (w'.accounts k).lamports = (w.accounts k).lamports)
    (hcov : w'.stakePool.totalLamports + (w.accounts w.stakePool.reserveStake).lamports +
        (v.activeStakeLamports + v.transientStakeLamports) ≤
      w.stakePool.totalLamports + (w'.accounts w.stakePool.reserveStake).lamports +
        (active + transient)) :
    ∃ pre v' post, EntryEffect rt out w w' pre v v' post := by
  subst hta
  obtain ⟨hvote, pre, post, hlist, hwrite⟩ := ValidatorList.find_split hf
  have hv : EntryOk rt w.accounts v := hc.entries v (by rw [hlist]; simp)
  have hst' : StatusOk rt w'.accounts (v.revise active transient seed status) status := by
    by_cases hs : status = .active
    · rw [hs]; exact hac (.inr hs)
    · exact hst hs
  have he : EntryOk rt w'.accounts (v.revise active transient seed status) :=
    hv.follow rfl rfl hseed ha ht (fun h0 => hac (.inl h0)) htc ⟨status, rfl, hst'⟩
  exact ⟨pre, _, post, hlist, hset.trans (hwrite _ hvote),
    ⟨⟨rfl, hreserve, hpda, fun k hk hkv hkt => (hevolves k hk hkv hkt).1, he,
      fun s hs => ⟨status, rfl, StakeStatus.pod_inj (hactive.symm.trans hs) ▸ rfl⟩⟩, rfl, hseed, rfl, ha, ht,
      fun hcl k hk hkv hkt => (hevolves k hk hkv hkt).2 hcl, hq, hstill⟩, hcov⟩

end

omit [DecidableEq Key] [Inhabited Key] in
theorem Runtime.validatorStake_eq {v : ValidatorStakeInfo Key} {vote' pool k : Key}
    (hv : v.voteAccountAddress = vote') (hp : pool = rt.stakePoolAddress)
    (h : (findStakeProgramAddress rt rt.programId vote' pool (nonZeroU32 v.validatorSeedSuffix)).1 = k) :
    k = rt.validatorStake v := by
  subst hv hp
  exact h.symm

omit [DecidableEq Key] [Inhabited Key] in
theorem Runtime.transientStake_eq {v : ValidatorStakeInfo Key} {vote' pool k : Key} {seed : UInt64}
    (hv : v.voteAccountAddress = vote') (hp : pool = rt.stakePoolAddress)
    (hs : v.transientSeedSuffix = seed)
    (h : (findTransientStakeProgramAddress rt rt.programId vote' pool seed).1 = k) :
    k = rt.transientStake v := by
  subst hv hp hs
  exact h.symm

omit [DecidableEq Key] [Inhabited Key] in
theorem Runtime.ephemeralStake_eq {pool k : Key} {seed : UInt64} (hp : pool = rt.stakePoolAddress)
    (h : (findEphemeralStakeProgramAddress rt rt.programId pool seed).1 = k) :
    k = rt.ephemeralStake seed := by
  subst hp
  exact h.symm

theorem minimumStakeLamports_pos {Key : Type} (m : Meta Key) (n : Nat) : 0 < minimumStakeLamports m n := by
  simp only [minimumStakeLamports, minimumDelegation, minimumActiveStake, Machine.saturatingAdd,
    Machine.maxValue]
  omega

/-- The token program decodes nothing of an account. -/
def NotToken (a : Account Key) : Prop := a.mint? = none ∧ a.token? = none

omit [DecidableEq Key] [Inhabited Key] in
theorem NotToken.of_stake {a : Account Key} {s : StakeStateV2 Key} (h : a.data = .stakeState s) :
    NotToken a := by simp [NotToken, Account.mint?, Account.token?, h]

omit [DecidableEq Key] [Inhabited Key] in
theorem PdaOk.notToken {a : Account Key} (h : PdaOk rt a) : NotToken a := by
  rcases h with ⟨-, hd⟩ | ⟨-, s, hd, -⟩
  · simp [NotToken, Account.mint?, Account.token?, hd]
  · exact .of_stake hd

omit [DecidableEq Key] in
theorem Controlled.notToken {a : Account Key} (h : Controlled rt a) : NotToken a := by
  obtain ⟨s, hs, -⟩ := h.state
  exact .of_stake hs

omit [DecidableEq Key] [Inhabited Key] in
theorem OnlyTokens.eq (h : OnlyTokens acc acc') {k : Key} (hk : NotToken (acc k)) : acc' k = acc k :=
  (h k).2 hk.1 hk.2

omit [DecidableEq Key] [Inhabited Key] in
theorem OnlyTokens.pda (h : OnlyTokens acc acc') : AllPda rt acc acc' :=
  fun k hk => by rw [h.eq hk.notToken]; exact hk

/-! ## Stake that lands on another account -/

/-- Some lamports of `src` moved to `dst`, which the pool now controls. -/
structure Landed (rt : Runtime Key) (acc acc' : Accounts Key) (src dst : Key) (n : Nat) : Prop where
  ne : src ≠ dst
  src_lamports : (acc' src).lamports + n = (acc src).lamports
  dst_lamports : (acc' dst).lamports = (acc dst).lamports + n
  src_controlled : 0 < (acc' src).lamports → Controlled rt (acc' src)
  controlled : Controlled rt (acc' dst)
  reserve : 0 < (acc' src).lamports → Reserve rt (acc src) → ReserveStep rt (acc src) (acc' src)
  src_young : ∀ epoch, Young epoch (acc src) → Young epoch (acc' src)
  frame : Frame acc acc' [src, dst]
  pda : AllPda rt acc acc'

namespace Frame

omit [DecidableEq Key] [Inhabited Key] in
theorem mono {ks ks' : List Key} (h : Frame acc acc' ks) (hs : ks ⊆ ks') : Frame acc acc' ks' :=
  fun k hk => h k fun hk' => hk (hs hk')

omit [DecidableEq Key] [Inhabited Key] in
theorem trans {ks ks' : List Key} (h : Frame acc acc' ks) (h' : Frame acc' acc'' ks') :
    Frame acc acc'' (ks ++ ks') := by
  intro k hk
  rw [List.mem_append, not_or] at hk
  rw [h' k hk.2, h k hk.1]

end Frame

namespace Landed
variable {s d : Key}

omit [DecidableEq Key]

theorem of_split (h : SplitSpec rt acc acc' s d n) : Landed rt acc acc' s d n := by
  have hle := h.le
  have hlam := h.src_lamports
  exact ⟨h.ne, by omega, h.dst_lamports, fun h0 => h.src_controlled (by omega), h.dst_controlled,
    fun h0 => h.reserve (by omega), fun e he => (h.young e he).1, h.frame, h.pda⟩

theorem of_merge (h : MergeSpec rt acc acc' s d) (hd : Controlled rt (acc d)) :
    Landed rt acc acc' s d (acc s).lamports := by
  have h0 := h.src_lamports
  exact ⟨h.ne.symm, by omega, h.dst_lamports, fun _ => by omega, h.dst_controlled hd, fun _ => by omega,
    fun e _ => h.src_young e, h.frame, h.pda⟩

theorem delegate (h : Landed rt acc acc' s d n) (hd : DelegateSpec rt acc' acc'' d) :
    Landed rt acc acc'' s d n := by
  have hs : acc'' s = acc' s := hd.frame s (by simpa using h.ne)
  refine ⟨h.ne, ?_, ?_, ?_, hd.controlled h.controlled, ?_, ?_, ?_, h.pda.trans hd.pda⟩
  · rw [hs]; exact h.src_lamports
  · rw [hd.lamports]; exact h.dst_lamports
  · rw [hs]; exact h.src_controlled
  · rw [hs]; exact h.reserve
  · rw [hs]; exact h.src_young
  · exact (h.frame.trans hd.frame).mono (by simp)

theorem create (h : Landed rt acc' acc'' s d n) (hc : CreateSpec rt acc acc' d) :
    Landed rt acc acc'' s d n := by
  have hs : acc' s = acc s := hc.frame s (by simpa using h.ne)
  refine ⟨h.ne, ?_, ?_, h.src_controlled, h.controlled, ?_, ?_, ?_, hc.pda.trans h.pda⟩
  · rw [← hs]; exact h.src_lamports
  · rw [← hc.lamports]; exact h.dst_lamports
  · rw [← hs]; exact h.reserve
  · rw [← hs]; exact h.src_young
  · exact (hc.frame.trans h.frame).mono (by simp)

end Landed

end SplStakePool
