import SplStakePool.Invariant.Entry
import SplStakePool.Spec.Validator

/-!
# The effect of adding and removing a validator

A removal deactivates the stake of an entry and moves no lamports. A new entry is funded from the
reserve with the lamports that it records.
-/

namespace SplStakePool
open Exec Machine Function

variable {Key : Type} [DecidableEq Key] [Inhabited Key] {rt : Runtime Key} {w w' : World Key}
  {acc acc' : Accounts Key}

/-- A stake account that may have been deactivated. -/
structure MaybeDeactivated (rt : Runtime Key) (acc acc' : Accounts Key) (k : Key) : Prop where
  lamports : ∀ j, (acc' j).lamports = (acc j).lamports
  controlled : Controlled rt (acc k) → Controlled rt (acc' k)
  young : ∀ epoch, Young epoch (acc k) → Young epoch (acc' k)
  frame : Frame acc acc' [k]
  pda : AllPda rt acc acc'

theorem MaybeDeactivated.of_or (hl : rt.Lawful) {sys : Sysvars} {dst auth : AccountInfo Key}
    (h : stakeDeactivate rt sys acc dst auth = .ok acc' ∨ acc = acc') :
    MaybeDeactivated rt acc acc' dst.key := by
  rcases h with h | rfl
  · have hd := stakeDeactivate_spec hl h
    refine ⟨fun j => ?_, hd.controlled, fun _ => stakeDeactivate_young hl h, hd.frame, hd.pda⟩
    by_cases hj : j = dst.key
    · rw [hj]; exact hd.lamports
    · rw [hd.frame j (by simpa using hj)]
  · exact ⟨fun _ => rfl, id, fun _ => id, fun _ _ => rfl, .refl _⟩

section
variable {a : RemoveValidatorFromPoolAccounts Key} {s : Stake Key} {v : ValidatorStakeInfo Key}
  {acc₁ : Accounts Key}

/-- What a removal has done to the accounts of its entry. -/
structure Retired (rt : Runtime Key) (acc acc' : Accounts Key) (v : ValidatorStakeInfo Key) : Prop where
  lamports : ∀ j, (acc' j).lamports = (acc j).lamports
  validator : Controlled rt (acc (rt.validatorStake v)) → Controlled rt (acc' (rt.validatorStake v))
  transient : Controlled rt (acc (rt.transientStake v)) → Controlled rt (acc' (rt.transientStake v))
  young : ∀ epoch, (Young epoch (acc (rt.validatorStake v)) → Young epoch (acc' (rt.validatorStake v))) ∧
    (Young epoch (acc (rt.transientStake v)) → Young epoch (acc' (rt.transientStake v)))
  frame : Frame acc acc' [rt.validatorStake v, rt.transientStake v]
  pda : AllPda rt acc acc'

theorem RemoveValidatorFromPoolAccounts.Ok.retired (hl : rt.Lawful) (h : a.Ok rt w w' s v acc₁) :
    Retired rt w.accounts w'.accounts v := by
  have hvote := (ValidatorList.find_split h.find).1
  have hv := MaybeDeactivated.of_or hl h.deactivate
  rw [rt.validatorStake_eq hvote h.poolKey h.stakeKey] at hv
  have hne := validatorStake_ne_transientStake hl v v
  have ht : MaybeDeactivated rt w.accounts acc₁ (rt.transientStake v) := by
    rcases h.transient with ⟨-, hk, ht⟩ | ⟨-, rfl⟩
    · rw [← rt.transientStake_eq hvote h.poolKey rfl hk]
      exact .of_or hl ht
    · exact ⟨fun _ => rfl, id, fun _ => id, fun _ _ => rfl, .refl _⟩
  have hvs : acc₁ (rt.validatorStake v) = w.accounts (rt.validatorStake v) :=
    ht.frame _ (by simpa using hne)
  have hts : w'.accounts (rt.transientStake v) = acc₁ (rt.transientStake v) :=
    hv.frame _ (by simpa using hne.symm)
  refine ⟨fun j => (hv.lamports j).trans (ht.lamports j), ?_, ?_, fun epoch => ⟨?_, ?_⟩,
    (ht.frame.trans hv.frame).mono (by simp), ht.pda.trans hv.pda⟩
  · rw [← hvs]; exact hv.controlled
  · rw [hts]; exact ht.controlled
  · rw [← hvs]; exact hv.young epoch
  · rw [hts]; exact ht.young epoch

theorem RemoveValidatorFromPoolAccounts.Ok.effect (hl : rt.Lawful) (h : a.Ok rt w w' s v acc₁)
    (hc : Core rt w.stakePool.reserveStake w.validatorList.validators w.accounts) :
    ∃ pre v' post, EntryEffect rt none w w' pre v v' post := by
  have hr := h.retired hl
  obtain ⟨-, pre, post, hlist, -⟩ := ValidatorList.find_split h.find
  have hv : EntryOk rt w.accounts v := hc.entries v (by rw [hlist]; simp)
  have hcv : Controlled rt (w.accounts (rt.validatorStake v)) := hv.of_active h.status
  have hres : w'.accounts w.stakePool.reserveStake = w.accounts w.stakePool.reserveStake := by
    refine hr.frame _ ?_
    simp only [List.mem_cons, List.not_mem_nil, or_false, not_or]
    exact ⟨fun he => hc.reserve_pda (he ▸ .validator v), fun he => hc.reserve_pda (he ▸ .transient v)⟩
  refine EntryEffect.of_revise _ _ _ _ _ _ hc h.find h.status (congrArg World.validatorList h.result)
    (by rw [hres]; exact .refl hc.reserve_ok) hr.pda rfl ?_ (fun _ => rfl)
    (.of_add (by rw [hr.lamports])) (.of_add (by rw [hr.lamports])) (fun _ => hr.validator hcv)
    (fun h0 => hr.transient (hv.transient h0)) ?_ ?_ (.inr ⟨rfl, rfl, rfl, hr.lamports⟩) ?_
  · intro k _ hkv hkt
    have hkt : k ≠ rt.transientStake v := hkt
    rw [hr.frame k (by simp [hkv, hkt])]
    exact ⟨.refl _, fun _ _ => rfl⟩
  · intro _
    split
    · trivial
    · exact Nat.eq_zero_of_not_pos ‹_›
  · refine fun _ hqv hqt => ⟨fun h0 => (hr.young _).1 (hqv ?_), fun h0 => (hr.young _).2 (hqt ?_)⟩
    · rwa [hr.lamports] at h0
    · rwa [hr.lamports] at h0
  · rw [hr.lamports, congrArg World.stakePool h.result]
    exact le_rfl

end

/-- What an instruction has done that appended the entry `v`. -/
structure PushEffect (rt : Runtime Key) (w w' : World Key) (v : ValidatorStakeInfo Key) : Prop where
  list' : w'.validatorList =
    { w.validatorList with validators := w.validatorList.validators ++ [v] }
  vote : v.voteAccountAddress ∉ w.validatorList.validators.map (·.voteAccountAddress)
  updated : v.lastUpdateEpoch = w.sysvars.epoch
  fresh : w.sysvars.epoch ≤ w.stakePool.lastUpdateEpoch
  status : v.status = StakeStatus.active.pod
  transient : v.transientStakeLamports = 0
  landed : Landed rt w.accounts w'.accounts w.stakePool.reserveStake (rt.validatorStake v)
    v.activeStakeLamports
  reserve_step : ReserveStep rt (w.accounts w.stakePool.reserveStake) (w'.accounts w.stakePool.reserveStake)
  unlisted : ¬ Controlled rt (w.accounts (rt.validatorStake v))
  young : Young w.sysvars.epoch (w'.accounts (rt.validatorStake v))
  total : w'.stakePool.totalLamports = w.stakePool.totalLamports

omit [DecidableEq Key] [Inhabited Key] in
theorem addValidatorLamports_pos : 0 < addValidatorLamports rt w := by
  simp only [addValidatorLamports, minimumDelegation, minimumActiveStake, saturatingAdd, maxValue]
  omega

theorem AddValidatorToPoolAccounts.Ok.effect (hl : rt.Lawful) {a : AddValidatorToPoolAccounts Key}
    {seed : UInt32} {m : Meta Key} {acc₁ acc₂ : Accounts Key} (h : a.Ok rt w w' seed m acc₁ acc₂)
    (hc : Core rt w.stakePool.reserveStake w.validatorList.validators w.accounts) :
    ∃ v, PushEffect rt w w' v := by
  have hkey : a.stakeInfo.key = rt.validatorStake (newEntry rt w a.validatorVoteInfo.key seed) :=
    rt.validatorStake_eq (v := newEntry rt w a.validatorVoteInfo.key seed) rfl h.poolKey h.stakeKey
  have hr := hc.reserve_ok
  have hcr := createStakeAccount_spec hl h.create
  have hne : w.stakePool.reserveStake ≠ a.stakeInfo.key := fun he => hc.reserve_pda (he ▸ hkey ▸ .validator _)
  have hres : acc₁ w.stakePool.reserveStake = w.accounts w.stakePool.reserveStake :=
    hcr.frame _ (by simpa using hne)
  have hsp := stakeSplit_spec hl h.split (by rw [h.reserveKey, hres]; exact hr.controlled)
    addValidatorLamports_pos
  rw [h.reserveKey] at hsp
  have hde := stakeDelegate_spec hl h.delegate
  have hland := ((Landed.of_split hsp).create hcr).delegate hde
  have hlam := hland.src_lamports
  have hpos : 0 < (w'.accounts w.stakePool.reserveStake).lamports := by
    have hle := h.reserve_le
    obtain ⟨s, hs, hm⟩ := h.reserve
    have hp := (hr.controlled.poolState (h.reserveKey ▸ hs)).poolMeta hm
    have := hp.rent
    rw [h.reserveKey] at hle
    simp only [minimumReserveLamports, minimumReserve, saturatingAdd, maxValue] at hle
    omega
  -- the reserve is initialized, and delegating what was split off starts now
  obtain ⟨m', hd, -⟩ := hr.state
  obtain ⟨m'', hi⟩ := hsp.initialized m' (by rw [hres]; exact hd)
  obtain ⟨m₃, st, hst, hact⟩ := stakeDelegate_delegation hl h.delegate hi
  refine ⟨newEntry rt w a.validatorVoteInfo.key seed, ⟨congrArg World.validatorList h.result,
    ValidatorList.find_eq_none h.notFound, rfl, h.fresh, rfl, rfl, hkey ▸ hland,
    hland.reserve hpos hr, hkey ▸ hcr.fresh, ?_, congrArg (·.stakePool.totalLamports) h.result⟩⟩
  rw [← hkey]
  intro m₄ s₄ h₄
  rw [hst] at h₄
  cases h₄
  exact hact.ge

end SplStakePool
