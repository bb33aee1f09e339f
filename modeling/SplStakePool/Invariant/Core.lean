import Mathlib.Data.List.Nodup
import SplStakePool.Invariant.Stake
import SplStakePool.Spec.UpdatePool

/-!
# The core invariant

`Core` ties the pool, the validator list and the accounts together: the reserve is one of the pool's
stake accounts, the entries are of different validators, and what an entry records is held by its two
stake accounts, as its status says. An instruction that works on one entry is an `EntryStep`; one that
does not touch the stake of the pool lets the derived accounts evolve. Both keep `Core`.

Because the accounts of different entries differ, a step on one entry says nothing about the others: it is enough to
look at that entry before and after (`entry`).
-/

namespace SplStakePool
open Exec Machine Function

variable {Key : Type} [DecidableEq Key] [Inhabited Key] {rt : Runtime Key} {sys : Sysvars}
  {acc acc' : Accounts Key}

omit [DecidableEq Key] [Inhabited Key] in
@[simp] theorem StakeStatus.fromU8_pod (s : StakeStatus) : StakeStatus.fromU8 s.pod.byte = some s := by
  cases s <;> decide

theorem StakeStatus.status_pod (s : StakeStatus) : s.pod.status = .ok s := by
  simp [PodStakeStatus.status, orErr]

theorem StakeStatus.pod_inj {s t : StakeStatus} (h : s.pod = t.pod) : s = t := by
  have := StakeStatus.fromU8_pod s
  rw [h, StakeStatus.fromU8_pod, Option.some.injEq] at this
  exact this.symm

theorem PodStakeStatus.status_eq_ok {p : PodStakeStatus} {s : StakeStatus} (h : p.status = .ok s) :
    p = s.pod := by
  rw [PodStakeStatus.status, orErr_eq_ok] at h
  rcases p with ⟨b⟩
  simp only [StakeStatus.fromU8] at h
  rw [StakeStatus.pod, PodStakeStatus.mk.injEq]
  repeat' split at h
  all_goals cases h
  all_goals assumption

/-- The statuses that a status can go down to: one part after the other is deactivated. -/
def StakeStatus.down : StakeStatus → StakeStatus → Bool
  | .active, _ => true
  | .deactivatingAll, t => t ≠ .active
  | .deactivatingValidator, t => t = .deactivatingValidator ∨ t = .readyForRemoval
  | .deactivatingTransient, t => t = .deactivatingTransient ∨ t = .readyForRemoval
  | .readyForRemoval, t => t = .readyForRemoval

theorem StakeStatus.down_refl (s : StakeStatus) : s.down s := by cases s <;> rfl

theorem StakeStatus.down_trans {s t u : StakeStatus} (h₁ : s.down t) (h₂ : t.down u) : s.down u := by
  cases s <;> cases t <;> cases u <;> simp_all [down]

/-- What the status of an entry says about it. -/
def StatusOk (rt : Runtime Key) (acc : Accounts Key) (v : ValidatorStakeInfo Key) : StakeStatus → Prop
  | .active => Controlled rt (acc (rt.validatorStake v))
  | .deactivatingAll => True
  | .deactivatingValidator => v.transientStakeLamports = 0
  | .deactivatingTransient => v.activeStakeLamports = 0
  | .readyForRemoval => v.activeStakeLamports = 0 ∧ v.transientStakeLamports = 0

/-- The records of an entry are backed by its stake accounts, which the pool controls. -/
structure EntryOk (rt : Runtime Key) (acc : Accounts Key) (v : ValidatorStakeInfo Key) : Prop where
  active_le : v.activeStakeLamports ≤ (acc (rt.validatorStake v)).lamports
  transient_le : v.transientStakeLamports ≤ (acc (rt.transientStake v)).lamports
  active : 0 < v.activeStakeLamports → Controlled rt (acc (rt.validatorStake v))
  transient : 0 < v.transientStakeLamports → Controlled rt (acc (rt.transientStake v))
  status : ∃ s, v.status = s.pod ∧ StatusOk rt acc v s

/-- The records of an entry are exact. -/
structure Synced (rt : Runtime Key) (acc : Accounts Key) (v : ValidatorStakeInfo Key) : Prop where
  active : (acc (rt.validatorStake v)).lamports = v.activeStakeLamports
  transient : (acc (rt.transientStake v)).lamports = v.transientStakeLamports

/-- A stake that is not old enough to be paid rewards in an epoch. -/
def Quiet (epoch : Nat) (a : Account Key) : Prop := 0 < a.lamports → Young epoch a

omit [DecidableEq Key] in
theorem EntryOk.of_active {v : ValidatorStakeInfo Key} (h : EntryOk rt acc v)
    (hs : v.status = StakeStatus.active.pod) : Controlled rt (acc (rt.validatorStake v)) := by
  obtain ⟨s, he, hok⟩ := h.status
  obtain rfl := StakeStatus.pod_inj (hs.symm.trans he)
  exact hok

omit [DecidableEq Key] in
theorem EntryOk.evolves {v : ValidatorStakeInfo Key} (h : EntryOk rt acc v)
    (hv : Evolves rt (acc (rt.validatorStake v)) (acc' (rt.validatorStake v)))
    (ht : Evolves rt (acc (rt.transientStake v)) (acc' (rt.transientStake v))) : EntryOk rt acc' v := by
  refine ⟨?_, ?_, fun h0 => hv.controlled (h.active h0), fun h0 => ht.controlled (h.transient h0), ?_⟩
  · rcases Nat.eq_zero_or_pos v.activeStakeLamports with h0 | h0
    · omega
    · exact h.active_le.trans (hv (h.active h0)).2.1
  · rcases Nat.eq_zero_or_pos v.transientStakeLamports with h0 | h0
    · omega
    · exact h.transient_le.trans (ht (h.transient h0)).2.1
  · obtain ⟨s, he, hok⟩ := h.status
    refine ⟨s, he, ?_⟩
    cases s with
    | active => exact hv.controlled hok
    | _ => exact hok

omit [DecidableEq Key] [Inhabited Key] in
theorem Runtime.validatorStake_congr (rt : Runtime Key) {v v' : ValidatorStakeInfo Key}
    (hv : v'.voteAccountAddress = v.voteAccountAddress)
    (hs : v'.validatorSeedSuffix = v.validatorSeedSuffix) : rt.validatorStake v' = rt.validatorStake v := by
  simp only [Runtime.validatorStake, hv, hs]

omit [DecidableEq Key] [Inhabited Key] in
theorem Runtime.transientStake_congr (rt : Runtime Key) {v v' : ValidatorStakeInfo Key}
    (hv : v'.voteAccountAddress = v.voteAccountAddress)
    (hs : v'.transientSeedSuffix = v.transientSeedSuffix) : rt.transientStake v' = rt.transientStake v := by
  simp only [Runtime.transientStake, hv, hs]

/-! ## The invariant -/

/-- What no instruction changes of an initialized pool. -/
structure PoolOk (rt : Runtime Key) (p : StakePool Key) : Prop where
  valid : p.isValid
  bump : p.stakeWithdrawBumpSeed =
    (findWithdrawAuthorityProgramAddress rt rt.programId rt.stakePoolAddress).2
  list : p.validatorList = rt.validatorListAddress
  lockup : p.lockup = default
  reserve_ne : p.reserveStake ≠ rt.stakePoolAddress ∧ p.reserveStake ≠ rt.validatorListAddress

/-- The core invariant, of a reserve, the entries and the accounts. -/
structure Core (rt : Runtime Key) (reserve : Key) (vs : List (ValidatorStakeInfo Key))
    (acc : Accounts Key) : Prop where
  reserve_ok : Reserve rt (acc reserve)
  reserve_pda : ¬ rt.StakePda reserve
  pdas : ∀ k, rt.StakePda k → PdaOk rt (acc k)
  votes : (vs.map (·.voteAccountAddress)).Nodup
  entries : ∀ v ∈ vs, EntryOk rt acc v

/-- What an instruction does that replaces the entry `v` by `v'`. -/
structure EntryStep (rt : Runtime Key) (reserve : Key) (acc acc' : Accounts Key)
    (v v' : ValidatorStakeInfo Key) : Prop where
  vote : v'.voteAccountAddress = v.voteAccountAddress
  reserve_step : ReserveStep rt (acc reserve) (acc' reserve)
  pda : AllPda rt acc acc'
  evolves : ∀ k, rt.StakePda k → k ≠ rt.validatorStake v → k ≠ rt.transientStake v' →
    Evolves rt (acc k) (acc' k)
  entry : EntryOk rt acc' v'
  down : ∀ s, v.status = StakeStatus.pod s → ∃ t, v'.status = StakeStatus.pod t ∧ s.down t

namespace Core
variable {reserve : Key} {vs pre post : List (ValidatorStakeInfo Key)} {v v' : ValidatorStakeInfo Key}

omit [DecidableEq Key] in
theorem vote_ne (h : Core rt reserve (pre ++ v :: post) acc) {u : ValidatorStakeInfo Key}
    (hu : u ∈ pre ++ post) : u.voteAccountAddress ≠ v.voteAccountAddress := by
  have hn := h.votes
  rw [List.map_append, List.map_cons, List.nodup_middle, List.nodup_cons, ← List.map_append] at hn
  intro he
  exact hn.1 (he ▸ List.mem_map_of_mem hu)

omit [DecidableEq Key] in
theorem mem (h : Core rt reserve (pre ++ v :: post) acc) : EntryOk rt acc v := h.entries v (by simp)

omit [DecidableEq Key] in
theorem entry (hl : rt.Lawful) (h : Core rt reserve (pre ++ v :: post) acc)
    (hs : EntryStep rt reserve acc acc' v v') : Core rt reserve (pre ++ v' :: post) acc' := by
  refine ⟨hs.reserve_step.reserve, h.reserve_pda, fun k hk => hs.pda k (h.pdas k hk), ?_, ?_⟩
  · have hn := h.votes
    simp only [List.map_append, List.map_cons, hs.vote] at hn ⊢
    exact hn
  · intro u hu
    simp only [List.mem_append, List.mem_cons] at hu
    have hother : u ∈ pre ++ post → EntryOk rt acc' u := by
      intro hu
      have hne := h.vote_ne hu
      refine (h.entries u (by simp only [List.mem_append, List.mem_cons] at hu ⊢; tauto)).evolves ?_ ?_
      · exact hs.evolves _ (.validator u) (fun he => hne (validatorStake_inj hl he))
          (validatorStake_ne_transientStake hl _ _)
      · exact hs.evolves _ (.transient u) (validatorStake_ne_transientStake hl _ _).symm
          (fun he => hne ((transientStake_inj hl he).trans hs.vote))
    rcases hu with hu | rfl | hu
    · exact hother (List.mem_append_left _ hu)
    · exact hs.entry
    · exact hother (List.mem_append_right _ hu)

omit [DecidableEq Key] in
/-- The stake accounts of the pool evolve, the reserve changes above its minimum. -/
theorem evolve (h : Core rt reserve vs acc) (hr : ReserveStep rt (acc reserve) (acc' reserve))
    (hp : ∀ k, rt.StakePda k → PdaOk rt (acc k) → PdaOk rt (acc' k))
    (he : ∀ k, rt.StakePda k → Evolves rt (acc k) (acc' k)) : Core rt reserve vs acc' :=
  ⟨hr.reserve, h.reserve_pda, fun k hk => hp k hk (h.pdas k hk), h.votes,
    fun v hv => (h.entries v hv).evolves (he _ (.validator v)) (he _ (.transient v))⟩

omit [DecidableEq Key] in
theorem sublist {vs' : List (ValidatorStakeInfo Key)} (h : Core rt reserve vs acc)
    (hs : List.Sublist vs' vs) : Core rt reserve vs' acc :=
  ⟨h.reserve_ok, h.reserve_pda, h.pdas, h.votes.sublist (hs.map _), fun v hv => h.entries v (hs.subset hv)⟩

omit [DecidableEq Key] in
theorem push (h : Core rt reserve vs acc) (hn : v.voteAccountAddress ∉ vs.map (·.voteAccountAddress))
    (hv : EntryOk rt acc v) : Core rt reserve (vs ++ [v]) acc := by
  refine ⟨h.reserve_ok, h.reserve_pda, h.pdas, ?_, ?_⟩
  · rw [List.map_append, List.map_singleton, List.nodup_append]
    refine ⟨h.votes, List.nodup_singleton _, ?_⟩
    intro a ha b hb he
    rw [List.mem_singleton] at hb
    exact hn (hb ▸ he ▸ ha)
  · intro u hu
    rcases List.mem_append.1 hu with hu | hu
    · exact h.entries u hu
    · rw [List.mem_singleton.1 hu]; exact hv

end Core

omit [Inhabited Key] in
theorem ValidatorList.find_split {l : ValidatorList Key} {vote : Key} {v : ValidatorStakeInfo Key}
    (h : l.find vote = some v) : v.voteAccountAddress = vote ∧ ∃ pre post,
      l.validators = pre ++ v :: post ∧ ∀ v', v'.voteAccountAddress = vote →
        l.set v' = { l with validators := pre ++ v' :: post } := by
  obtain ⟨hp, pre, post, hl, -, hset⟩ := BigVec.find?_split h
  simp only [ValidatorStakeInfo.memcmpPubkey, decide_eq_true_eq] at hp
  refine ⟨hp, pre, post, hl, fun v' hv' => ?_⟩
  simp only [ValidatorList.set, hv', hset]

omit [Inhabited Key] in
theorem ValidatorList.find_set {l : ValidatorList Key} {v v' : ValidatorStakeInfo Key}
    (h : l.find v'.voteAccountAddress = some v) : (l.set v').find v'.voteAccountAddress = some v' := by
  obtain ⟨-, pre, post, -, hpre, hset⟩ := BigVec.find?_split h
  have hnone : pre.find? (·.memcmpPubkey v'.voteAccountAddress) = none := List.find?_eq_none.2 hpre
  have hself : v'.memcmpPubkey v'.voteAccountAddress := by simp [ValidatorStakeInfo.memcmpPubkey]
  rw [ValidatorList.find, ValidatorList.set, hset, List.find?_append, hnone, Option.none_or]
  exact List.find?_cons_of_pos hself

omit [Inhabited Key] in
theorem ValidatorList.find_eq_none {l : ValidatorList Key} {vote : Key} (h : l.find vote = none) :
    vote ∉ l.validators.map (·.voteAccountAddress) := by
  simp only [ValidatorList.find, List.find?_eq_none, ValidatorStakeInfo.memcmpPubkey,
    decide_eq_true_eq] at h
  rw [List.mem_map]
  rintro ⟨v, hv, he⟩
  exact h v hv he

end SplStakePool
