import SplStakePool.Properties.FeeSchedule

/-!
# The freshness of the price

No instruction that uses the price of a token, or moves stake, succeeds in an epoch before the pool was
updated in it, and an update needs every entry to have been refreshed in the same epoch. The epoch in an
entry says when: `Tracked` is kept by every step.

The epoch of an entry is only written by the update of that entry and when it is added, which is what `Tracked` says
with the history of the run. The total is read off the update of the pool; that the instructions after it count
what they do to it is another result.
-/

namespace SplStakePool
open Exec Machine System UpdateValidatorListBalanceAccounts

variable {Key : Type} [DecidableEq Key] {rt : Runtime Key} {s w w' : World Key} {vote : Key}
  {es : History Key} {accounts : List (AccountInfo Key)} {i : StakePoolInstruction Key}

/-- The instructions that are refused by a pool which is not up to date. -/
def StakePoolInstruction.needsUpdate : StakePoolInstruction Key → Bool
  | .depositSol _ | .depositSolWithSlippage _ _ | .depositStake | .depositStakeWithSlippage _
  | .withdrawSol _ | .withdrawSolWithSlippage _ _ | .withdrawStake _ | .withdrawStakeWithSlippage _ _
  | .addValidatorToPool _ | .removeValidatorFromPool
  | .increaseValidatorStake _ _ | .increaseAdditionalValidatorStake _ _ _
  | .decreaseValidatorStake _ _ | .decreaseValidatorStakeWithReserve _ _
  | .decreaseAdditionalValidatorStake _ _ _ => true
  | _ => false

/-- The entry of a vote account is refreshed: by an update that names the entry's own stake accounts, while
no rewards are being distributed, or by being added. -/
inductive Refreshes (rt : Runtime Key) (vote : Key) (e : Event (World Key) (Label Key)) : Prop
  | update {accounts a rest start noMerge k v}
      (hl : e.label = .instruction accounts (.updateValidatorListBalance start noMerge))
      (hp : (parse rt).run accounts = .ok (a, rest)) (hr : e.source.sysvars.epochRewardsActive = false)
      (hv : e.source.validatorList.validators[k]? = some v) (hvote : v.voteAccountAddress = vote)
      (hn : Names rt a start k v)
  | add {accounts seed} (hl : e.label = .instruction accounts (.addValidatorToPool seed))
      (ho : vote ∉ e.source.votes) (hn : vote ∈ e.target.votes)

/-- The entry of a vote account was refreshed in an epoch, and has been in the list since. -/
def RefreshedIn (rt : Runtime Key) (es : History Key) (epoch : Nat) (vote : Key) : Prop :=
  ∃ es₁ e es₂, es = es₁ ++ e :: es₂ ∧ e.source.sysvars.epoch = epoch ∧ Refreshes rt vote e ∧
    ∀ e' ∈ es₂, vote ∈ e'.source.votes

omit [DecidableEq Key] in
theorem mem_votes {v : ValidatorStakeInfo Key} (hv : v ∈ w.validatorList.validators) :
    v.voteAccountAddress ∈ w.votes := List.mem_map_of_mem hv

theorem RefreshedIn.snoc {epoch : Nat} {e : Event (World Key) (Label Key)}
    (h : RefreshedIn rt es epoch vote) (he : vote ∈ e.source.votes) :
    RefreshedIn rt (es ++ [e]) epoch vote := by
  obtain ⟨es₁, e₁, es₂, rfl, hepoch, hr, hin⟩ := h
  refine ⟨es₁, e₁, es₂ ++ [e], by simp, hepoch, hr, fun e' he' => ?_⟩
  rcases List.mem_append.1 he' with he' | he'
  · exact hin e' he'
  · rw [List.mem_singleton.1 he']
    exact he

theorem RefreshedIn.last {e : Event (World Key) (Label Key)} (h : Refreshes rt vote e) :
    RefreshedIn rt (es ++ [e]) e.source.sysvars.epoch vote := ⟨es, e, [], rfl, rfl, h, by simp⟩

/-- An entry was in the list before with the same epoch, or has just been refreshed. -/
def Kept (rt : Runtime Key) (e : Event (World Key) (Label Key)) (u : ValidatorStakeInfo Key) : Prop :=
  (∃ v ∈ e.source.validatorList.validators, v.voteAccountAddress = u.voteAccountAddress ∧
      v.lastUpdateEpoch = u.lastUpdateEpoch) ∨
    u.lastUpdateEpoch = e.source.sysvars.epoch ∧ Refreshes rt u.voteAccountAddress e

theorem Kept.of_mem {l : Label Key} {u : ValidatorStakeInfo Key} (h : u ∈ w.validatorList.validators) :
    Kept rt ⟨w, l, w'⟩ u := .inl ⟨u, h, rfl, rfl⟩

variable [Inhabited Key]

theorem EntryEffect.kept {out : Option Key} {l : Label Key} {pre post : List (ValidatorStakeInfo Key)}
    {u v v' : ValidatorStakeInfo Key} (h : EntryEffect rt out w w' pre v v' post)
    (hu : u ∈ w'.validatorList.validators) : Kept rt ⟨w, l, w'⟩ u := by
  rw [h.list'] at hu
  rcases List.mem_append.1 hu with hu | hu
  · exact .of_mem (by rw [h.list]; exact List.mem_append_left _ hu)
  rcases List.mem_cons.1 hu with rfl | hu
  · exact .inl ⟨v, by simp [h.list], h.moved.vote.symm, h.moved.updated.symm⟩
  · exact .of_mem (by rw [h.list]; simp [hu])

theorem Executed.kept (hl : rt.Lawful) (hs : NoPdaSigner rt accounts) (hi : Inv rt w) {out : Option Key}
    (h : Executed rt w w' accounts i out) {u : ValidatorStakeInfo Key}
    (hu : u ∈ w'.validatorList.validators) : Kept rt ⟨w, .instruction accounts i, w'⟩ u := by
  have hc := hi.core
  cases h with
  | @add a seed m _ _ he _ h =>
    obtain ⟨v, hv⟩ := h.effect hl hc
    have hu' := hu
    rw [hv.list'] at hu'
    rcases List.mem_append.1 hu' with hu' | hu'
    · exact .of_mem hu'
    · obtain rfl := List.mem_singleton.1 hu'
      exact .inr ⟨hv.updated, .add (by rw [he]) hv.vote (mem_votes hu)⟩
  | @updateList a rest start noMerge _ _ _ _ he hp h =>
    obtain ⟨k, hk⟩ := List.getElem?_of_mem hu
    have hlen : k < w.validatorList.validators.length := by
      have := (List.getElem?_eq_some_iff.1 hk).1
      rw [congrArg World.validatorList h.result] at this
      have hslice := updateEntries_length h.entries
      simp only [h.list, List.length_append] at this ⊢
      omega
    have hv := List.getElem?_eq_getElem hlen
    obtain ⟨u', hu', hsame, hcase⟩ := h.get hv
    obtain rfl : u = u' := Option.some.inj (hk.symm.trans hu')
    rcases hcase with ⟨hn, hepoch⟩ | ⟨-, rfl⟩
    · exact .inr ⟨hepoch, .update (by rw [he]) hp h.rewards hv hsame.vote.symm hn⟩
    · exact .of_mem (List.getElem_mem hlen)
  | remove _ h =>
    obtain ⟨_, _, _, h⟩ := h.effect hl hc
    exact h.kept hu
  | decrease _ h =>
    obtain ⟨_, _, _, h⟩ := h.effect hl hc
    exact h.kept hu
  | increase _ h =>
    obtain ⟨_, _, _, h⟩ := h.effect hl hc
    exact h.kept hu
  | depositStake hm h =>
    obtain ⟨_, _, _, h⟩ := h.effect hl (fun hsig => hs _ hm hsig) hc
    exact h.kept hu
  | withdrawStake h =>
    rcases h.effect hl hc with h | ⟨_, _, _, _, h⟩
    · exact .of_mem (h.list ▸ hu)
    · exact h.kept hu
  | depositSol hm h => exact .of_mem ((h.effect hl (fun hsig => hs _ hm hsig) hc).list ▸ hu)
  | withdrawSol h => exact .of_mem ((h.effect hl hc).list ▸ hu)
  | cleanup hl h =>
    subst h hl
    exact .of_mem (List.mem_of_mem_filter hu)
  | updatePool _ h =>
    rw [congrArg World.validatorList h.result] at hu
    exact .of_mem hu
  | setPreferred _ _ h | setFee _ _ _ _ _ h | manage _ _ h | createMetadata _ _ _ _ h
  | updateMetadata _ h =>
    subst h
    exact .of_mem hu

theorem Step.kept (hl : rt.Lawful) (hi : Inv rt w) {l : Label Key} (h : Step rt w l w')
    {u : ValidatorStakeInfo Key} (hu : u ∈ w'.validatorList.validators) : Kept rt ⟨w, l, w'⟩ u := by
  cases h with
  | instruction hs h => exact (process_executed (not_isInitialize hl hi.pool.valid h) h).kept hl hs hi hu
  | env h => exact .of_mem (h.ambient.list ▸ hu)

/-- An instruction that needs an update only succeeds on an updated pool. -/
theorem process_fresh (hn : i.needsUpdate) (h : process rt w accounts i = .ok w') :
    w.sysvars.epoch ≤ w.stakePool.lastUpdateEpoch := by
  cases i with
  | addValidatorToPool =>
    obtain ⟨_, _, _, _, h⟩ := processAddValidatorToPool_ok h
    exact h.fresh
  | removeValidatorFromPool =>
    obtain ⟨_, _, _, _, h⟩ := processRemoveValidatorFromPool_ok h
    exact h.fresh
  | decreaseValidatorStake | decreaseValidatorStakeWithReserve | decreaseAdditionalValidatorStake =>
    obtain ⟨_, _, -, _, _, _, _, _, _, h⟩ := processDecreaseValidatorStake_ok h
    exact h.fresh
  | increaseValidatorStake | increaseAdditionalValidatorStake =>
    obtain ⟨_, _, -, _, _, _, h⟩ := processIncreaseValidatorStake_ok h
    exact h.fresh
  | depositStake | depositStakeWithSlippage =>
    obtain ⟨_, _, -, _, _, _, _, _, _, _, _, h⟩ := processDepositStake_ok h
    exact h.fresh
  | withdrawStake | withdrawStakeWithSlippage =>
    obtain ⟨_, _, -, _, _, _, _, _, _, _, h⟩ := processWithdrawStake_ok h
    exact h.fresh
  | depositSol | depositSolWithSlippage =>
    obtain ⟨_, _, -, _, _, h⟩ := processDepositSol_ok h
    exact h.fresh
  | withdrawSol | withdrawSolWithSlippage =>
    obtain ⟨_, _, -, _, _, _, _, _, h⟩ := processWithdrawSol_ok h
    exact h.fresh
  | _ => cases hn

theorem Step.update_ok {l : Label Key} (h : Step rt w l w') (hu : l.isUpdate) :
    ∃ a m fee mint, UpdateStakePoolBalanceAccounts.Ok rt w w' a m fee mint := by
  cases h with
  | @instruction _ i _ _ hp =>
    cases i with
    | updateStakePoolBalance =>
      obtain ⟨a, _, -, m, fee, mint, hok⟩ := processUpdateStakePoolBalance_ok hp
      exact ⟨a, m, fee, mint, hok⟩
    | _ => cases hu
  | env h => cases h <;> cases hu

/-- What a history says about the state that it leads to: nothing is dated in the future, the pool was
initialized or updated in the epoch of its last update, and each entry was refreshed in its own. -/
structure Tracked (rt : Runtime Key) (s : World Key) (es : History Key) (w : World Key) : Prop where
  updated_le : w.stakePool.lastUpdateEpoch ≤ w.sysvars.epoch
  past : ∀ e ∈ es, e.source.sysvars.epoch ≤ w.sysvars.epoch
  updated : w.stakePool.lastUpdateEpoch = s.sysvars.epoch ∨
    ∃ upd ∈ es, upd.label.isUpdate ∧ upd.source.sysvars.epoch = w.stakePool.lastUpdateEpoch
  entries : ∀ v ∈ w.validatorList.validators, RefreshedIn rt es v.lastUpdateEpoch v.voteAccountAddress

theorem Initialized.tracked (hl : rt.Lawful) (hs : Initialized rt s) : Tracked rt s [] s := by
  obtain ⟨w₀, accounts, fee, withdrawalFee, depositFee, referralFee, maxValidators, -, h⟩ := hs
  obtain ⟨_, _, _, _, h⟩ := processInitialize_ok hl h
  obtain ⟨_, hw⟩ := h.result
  rw [hw]
  exact ⟨Nat.le_refl _, by simp, .inl rfl, by simp⟩

theorem Step.tracked (hl : rt.Lawful) (hi : Inv rt w) {l : Label Key} (hstep : Step rt w l w')
    (h : Tracked rt s es w) : Tracked rt s (es ++ [⟨w, l, w'⟩]) w' := by
  have hepoch := hstep.epoch_le hl hi
  refine ⟨(hstep.lastUpdateEpoch hl hi h.updated_le).2, fun e he => ?_, ?_, fun u hu => ?_⟩
  · rcases List.mem_append.1 he with he | he
    · exact (h.past e he).trans hepoch
    · rw [List.mem_singleton.1 he]
      exact hepoch
  · have hold : w'.stakePool.lastUpdateEpoch = w.stakePool.lastUpdateEpoch →
        w'.stakePool.lastUpdateEpoch = s.sysvars.epoch ∨ ∃ upd ∈ es ++ [⟨w, l, w'⟩],
          upd.label.isUpdate ∧ upd.source.sysvars.epoch = w'.stakePool.lastUpdateEpoch := by
      intro he
      rw [he]
      refine h.updated.imp_right ?_
      rintro ⟨upd, hm, hu⟩
      exact ⟨upd, List.mem_append_left _ hm, hu⟩
    cases hstep.schedules hl hi with
    | kept _ _ _ _ hu | requested _ _ _ _ _ hu => exact hold hu
    | updated hlu hsame =>
      have hu := hsame.lastUpdateEpoch
      rw [StakePool.lastUpdateEpoch_updateEpoch] at hu
      split at hu
      · exact .inr ⟨⟨w, l, w'⟩, by simp, hlu, hu.symm⟩
      · exact hold hu
  · rcases hstep.kept hl hi hu with ⟨v, hv, hvote, he⟩ | ⟨he, hr⟩
    · rw [← hvote, ← he]
      exact (h.entries v hv).snoc (mem_votes hv)
    · rw [he]
      exact .last hr

theorem Tracked.of_run (hl : rt.Lawful) (hs : Initialized rt s) (h : (poolSystem rt).Run s es w) :
    Tracked rt s es w :=
  h.invariant (I := Tracked rt s) (hs.tracked hl) fun _ _ _ _ ht hI hstep =>
    hstep.tracked hl (Inv.of_reach hl (ht.reachable hs)) hI

/-- Every instruction that needs the price finds a total that was computed in its epoch, at `Initialize` or
by an update. At every update each entry had been refreshed in that epoch, by an update of the list with
the entry's own accounts or by being added; an entry that is given other accounts stays as it is. -/
theorem price_freshness (hl : rt.Lawful) (hs : Initialized rt s) (h : (poolSystem rt).Run s es w) :
    (∀ accounts i w', i.needsUpdate → process rt w accounts i = .ok w' →
      s.sysvars.epoch = w.sysvars.epoch ∨
        ∃ upd ∈ es, upd.label.isUpdate ∧ upd.source.sysvars.epoch = w.sysvars.epoch) ∧
    (∀ es₁ upd es₂, es = es₁ ++ upd :: es₂ → upd.label.isUpdate →
      ∀ v ∈ upd.source.validatorList.validators,
        RefreshedIn rt es₁ upd.source.sysvars.epoch v.voteAccountAddress) ∧
    (∀ accounts start noMerge a rest w', (parse rt).run accounts = .ok (a, rest) →
      process rt w accounts (.updateValidatorListBalance start noMerge) = .ok w' →
      ∀ k v, w.validatorList.validators[k]? = some v → ¬ Names rt a start k v →
        w'.validatorList.validators[k]? = some v) := by
  refine ⟨fun accounts i w' hn hp => ?_, fun es₁ upd es₂ he hu v hv => ?_,
    fun accounts start noMerge a rest w' hp h k v hv hn => ?_⟩
  · have ht := Tracked.of_run hl hs h
    have he : w.stakePool.lastUpdateEpoch = w.sysvars.epoch := le_antisymm ht.updated_le (process_fresh hn hp)
    rw [← he]
    exact ht.updated.imp_left Eq.symm
  · obtain ⟨h₁, hstep, -⟩ := h.cut _ _ _ he
    have ht := Tracked.of_run hl hs h₁
    have hr := ht.entries v hv
    -- the update has checked that the entry is up to date
    obtain ⟨_, _, _, _, hok⟩ := hstep.update_ok hu
    have hle := hok.updated v hv
    have hpast : v.lastUpdateEpoch ≤ upd.source.sysvars.epoch := by
      obtain ⟨es₃, e, es₄, rfl, hepoch, -⟩ := hr
      rw [← hepoch]
      exact ht.past e (by simp)
    rwa [le_antisymm hpast hle] at hr
  · obtain ⟨a', rest', hp', _, _, _, _, hok⟩ := processUpdateValidatorListBalance_ok h
    rw [hp, Except.ok.injEq, Prod.mk.injEq] at hp'
    obtain ⟨rfl, rfl⟩ := hp'
    obtain ⟨v', hv', -, hcase⟩ := hok.get hv
    rcases hcase with ⟨hn', -⟩ | ⟨-, rfl⟩
    · exact absurd hn' hn
    · exact hv'

section
open Reference

theorem price_freshness_thin : ∃ es, (poolSystem runtime).Run (opened noFee noFee noFee) es thin ∧
    ∃ upd ∈ es, upd.label.isUpdate ∧ upd.source.sysvars.epoch = 11 := by
  have hpath : (poolSystem runtime).Path (fun _ _ => True) _ thin :=
    after_path (fun _ _ _ _ => trivial) (by decide +kernel)
  obtain ⟨es, hr⟩ := Run.of_path hpath
  obtain ⟨h, -, -⟩ := price_freshness lawful (initialized_opened (by decide +kernel)) hr
  have hne : (opened noFee noFee noFee).sysvars.epoch ≠ thin.sysvars.epoch := by decide +kernel
  have he : thin.sysvars.epoch = 11 := by decide +kernel
  have hsome : (exec thin (depositSol 1000 0)).isSome := by decide +kernel
  have hp := next_process hsome
  obtain ⟨upd, hm, hu, hepoch⟩ := (h _ _ _ rfl hp).resolve_left hne
  exact ⟨es, hr, upd, hm, hu, hepoch.trans he⟩

end

end SplStakePool
