import SplStakePool.Invariant.Run
import SplStakePool.Properties.AccessControl
import SplStakePool.Properties.StatusMachine
import SplStakePool.Runtime.Session

/-!
# Preferred validators

A preferred validator should be one that deposits and withdrawals can use. Every instruction that takes a
validator out of use also resets it, but for one: an update of the balances that finds the stake of a
validator destaked takes its entry out of use and leaves it the preferred one.

An instruction keeps the preferred validators usable when it keeps the active entries that are preferred and prefers no
others (`PreferredUsable.of_kept`). For an update the status of each entry afterwards is known from its accounts
before (`StepAt.active_iff`), so that the steps that fail are told exactly, and from that the runs.
-/

namespace SplStakePool
open Exec Machine System

variable {Key : Type} [DecidableEq Key] [Inhabited Key] {rt : Runtime Key} {w w' : World Key}
  {acc acc' acc₁ : Accounts Key} {v v' : ValidatorStakeInfo Key} {k : Key}

/-- The validators that are preferred, for deposits or for withdrawals. -/
def StakePool.Prefers (p : StakePool Key) (k : Key) : Prop :=
  p.preferredDepositValidatorVoteAddress = some k ∨ p.preferredWithdrawValidatorVoteAddress = some k

/-- A validator that is in the list with status active. -/
def ValidatorList.HasActive (l : ValidatorList Key) (k : Key) : Prop :=
  ∃ v ∈ l.validators, v.voteAccountAddress = k ∧ v.status = StakeStatus.active.pod

/-- Each preferred validator is in the list, with status active. -/
structure PreferredUsable (w : World Key) : Prop where
  listed : ∀ k, w.stakePool.Prefers k → w.validatorList.HasActive k
  /-- A deposit to the preferred validator finds an entry that can take it. -/
  deposit : ∀ k, w.stakePool.preferredDepositValidatorVoteAddress = some k →
    ∃ v, w.validatorList.find k = some v ∧ v.status = StakeStatus.active.pod

namespace UpdateValidatorListBalanceAccounts
variable {a : UpdateValidatorListBalanceAccounts Key} {noMerge : Bool} {status status' : PodStakeStatus}
  {t n : Nat} {va ta : AccountInfo Key}

omit [Inhabited Key] in
theorem updateTransient_active (hl : rt.Lawful) (hs : v.status = StakeStatus.active.pod)
    (hta : va.key ≠ ta.key) (hr : va.key ≠ a.reserveStakeInfo.key)
    (h : a.updateTransient rt w noMerge acc v va ta = .ok (acc₁, status, t)) :
    status = StakeStatus.active.pod ∧ (acc₁ va.key = acc va.key ∨
      (∃ m s, (acc va.key).data = .stakeState (.stake m s)) ∧
        ∃ m s, (acc₁ va.key).data = .stakeState (.stake m s)) := by
  have hkeep : ∀ {acc₂}, stakeMerge rt w.sysvars acc ta a.withdrawAuthorityInfo a.reserveStakeInfo = .ok acc₂ →
      acc₂ va.key = acc va.key := by
    intro acc₂ hm
    obtain ⟨-, -, -, -, -, -, -, -, -, -, -, -, -, -, -, rfl⟩ := stakeMerge_ok hl hm
    rw [Function.update_of_ne hr, Function.update_of_ne hta]
  simp only [updateTransient, hs] at h
  split at h
  · split at h
    · cases h; exact ⟨rfl, .inl rfl⟩
    · cases h; exact ⟨rfl, .inl rfl⟩
    · simp only [bind_eq_ok, pure_eq_ok, Prod.mk.injEq, PodStakeStatus.removeTransientStake,
        StakeStatus.status_pod, Except.ok.injEq, exists_eq_left'] at h
      obtain ⟨acc₂, hm, rfl, rfl, -⟩ := h
      exact ⟨rfl, .inl (hkeep hm)⟩
    · simp only [bind_eq_ok, pure_eq_ok, Prod.mk.injEq, PodStakeStatus.removeTransientStake,
        StakeStatus.status_pod, Except.ok.injEq, exists_eq_left'] at h
      obtain ⟨acc₂, hm, rfl, rfl, -⟩ := h
      exact ⟨rfl, .inl (hkeep hm)⟩
    · rename_i hact
      obtain ⟨-, ⟨md, d, hd⟩, -⟩ := transientAction_mergeValidator hact
      rw [Account.stakeState?_eq_some] at hd
      simp only [bind_eq_ok, pure_eq_ok, Prod.mk.injEq] at h
      obtain ⟨acc₂, hm, rfl, rfl, -⟩ := h
      obtain ⟨-, -, -, s, -, s', -, -, hs, -, -, -, -, -, hstate, rfl⟩ := stakeMerge_ok hl hm
      rw [hd, AccountData.stakeState.injEq] at hs
      subst hs
      cases hstate
      exact ⟨rfl, .inr ⟨⟨md, d, hd⟩, _, _, by rw [Function.update_self]⟩⟩
    · simp only [bind_eq_ok, pure_eq_ok, Prod.mk.injEq] at h
      obtain ⟨acc₂, hm, rfl, rfl, -⟩ := h
      obtain ⟨-, -, -, -, -, rfl⟩ := stakeDeactivate_ok hl hm
      exact ⟨rfl, .inl (Function.update_of_ne hta _ _)⟩
  · cases h; exact ⟨rfl, .inl rfl⟩

theorem updateValidator_active (hx : Ctx rt w a) (hc : Controlled rt (acc va.key))
    (h : a.updateValidator rt w noMerge acc StakeStatus.active.pod t va = .ok (acc', status', n)) :
    status' = StakeStatus.active.pod ↔ ∀ m, (acc va.key).data ≠ .stakeState (.initialized m) := by
  obtain ⟨s, hs, m, hm, -⟩ := hc.state
  have hu := usable_of_controlled hx hc hs hm
  simp only [updateValidator, Account.stakeState?_eq_some.2 hs] at h
  cases s with
  | initialized m' =>
    cases hm
    simp only [hu, if_true, bind_eq_ok, pure_eq_ok, Prod.mk.injEq] at h
    obtain ⟨_, -, -, rfl, -⟩ := h
    refine ⟨fun he => ?_, fun hne => absurd hs (hne m)⟩
    split at he <;> cases StakeStatus.pod_inj he
  | stake m' st =>
    cases hm
    simp only [hu, if_true, bind_eq_ok, updateDelegated, StakeStatus.status_pod, Except.ok.injEq,
      exists_eq_left', pure_eq_ok, Prod.mk.injEq] at h
    obtain ⟨_, -, -, rfl, -⟩ := h
    refine ⟨fun _ m' he => ?_, fun _ => rfl⟩
    rw [hs] at he
    cases he
  | _ => cases hm

theorem StepAt.active_iff (hl : rt.Lawful) (hx : Ctx rt w a) (hpool : a.stakePoolInfo.key = rt.stakePoolAddress)
    (hn : ¬ rt.StakePda w.stakePool.reserveStake) {acc₀ : Accounts Key} {info : AccountInfo Key × AccountInfo Key}
    (h : StepAt rt w a noMerge acc acc₀ acc₁ acc' v v' info) (hs : v.status = StakeStatus.active.pod) :
    v'.status = StakeStatus.active.pod ↔
      ∀ m, (acc (rt.validatorStake v)).data ≠ .stakeState (.initialized m) := by
  obtain ⟨hva, hta⟩ := h.own
  obtain ⟨acc₂, status, t, status', n, ht, hv, hT, -, rfl⟩ := h.parts hl hx hpool hn
  have hne : info.1.key ≠ info.2.key := by rw [hva, hta]; exact validatorStake_ne_transientStake hl _ _
  have hrv : info.1.key ≠ a.reserveStakeInfo.key := by
    rw [hx.reserveKey, hva]
    exact fun he => hn (he ▸ .validator v)
  have hc₀ : Controlled rt (acc₀ info.1.key) := by rw [hva]; exact h.entry.of_active hs
  obtain ⟨rfl, hsame⟩ := updateTransient_active hl hs hne hrv ht
  have hc₂ : Controlled rt (acc₂ info.1.key) := by
    rcases hT.validator with he | ⟨-, hc⟩
    · rw [he]; exact hc₀
    · exact hc
  rw [updateValidator_active hx hc₂ hv, ← h.before _ (.inl rfl), ← hva]
  rcases hsame with he | ⟨⟨_, _, hd⟩, _, _, hd'⟩
  · rw [he]
  · -- a stake before and after
    rw [hd, hd']
    simp

end UpdateValidatorListBalanceAccounts

section
variable {l : ValidatorList Key} {vote : Key}

omit [Inhabited Key] in
theorem ValidatorList.HasActive.set (h : l.HasActive k) (hf : l.find vote = some v)
    (hvote : v'.voteAccountAddress = v.voteAccountAddress) (hs : k = vote → v'.status = StakeStatus.active.pod) :
    (l.set v').HasActive k := by
  obtain ⟨hv, pre, post, hlist, hset⟩ := ValidatorList.find_split hf
  obtain ⟨u, hu, huk, hus⟩ := h
  rw [hset v' (hvote.trans hv)]
  by_cases hk : k = vote
  · exact ⟨v', by simp, by rw [hvote, hv, hk], hs hk⟩
  · rw [hlist] at hu
    simp only [List.mem_append, List.mem_cons] at hu
    rcases hu with hu | rfl | hu
    · exact ⟨u, by simp [hu], huk, hus⟩
    · exact absurd (huk.symm.trans hv) hk
    · exact ⟨u, by simp [hu], huk, hus⟩

omit [Inhabited Key] in
theorem ValidatorList.HasActive.find (h : l.HasActive k)
    (hn : (l.validators.map (·.voteAccountAddress)).Nodup) :
    ∃ v, l.find k = some v ∧ v.status = StakeStatus.active.pod := by
  obtain ⟨v, hv, rfl, hs⟩ := h
  cases hf : l.find v.voteAccountAddress with
  | none => exact absurd (List.mem_map_of_mem hv) (ValidatorList.find_eq_none hf)
  | some u =>
    obtain ⟨hu, pre, post, hlist, -⟩ := ValidatorList.find_split hf
    have hmem : u ∈ l.validators := by rw [hlist]; simp
    exact ⟨u, rfl, List.inj_on_of_nodup_map hn hmem hv hu ▸ hs⟩

end

/-! ## The instructions -/

/-- An update of the balances is given the accounts of a preferred validator whose stake was destaked. -/
def RefreshesDestaked (rt : Runtime Key) (w : World Key) : Label Key → Prop
  | .instruction accounts (.updateValidatorListBalance start _) => ∃ a rest i v m,
    (UpdateValidatorListBalanceAccounts.parse rt).run accounts = .ok (a, rest) ∧
    w.validatorList.validators[i]? = some v ∧ UpdateValidatorListBalanceAccounts.Names rt a start i v ∧
    w.stakePool.Prefers v.voteAccountAddress ∧
    (w.accounts (rt.validatorStake v)).data = .stakeState (.initialized m)
  | _ => False

/-- What a step keeps that keeps the active entries of the preferred validators, and prefers no others. -/
theorem PreferredUsable.of_kept (h : PreferredUsable w) (hi : Inv rt w')
    (hk : ∀ k, w'.stakePool.Prefers k → w.stakePool.Prefers k ∧
      (w.validatorList.HasActive k → w'.validatorList.HasActive k)) : PreferredUsable w' := by
  have hlisted : ∀ k, w'.stakePool.Prefers k → w'.validatorList.HasActive k :=
    fun k hp => (hk k hp).2 (h.listed k (hk k hp).1)
  exact ⟨hlisted, fun k hp => (hlisted k (.inl hp)).find hi.core.votes⟩

omit [DecidableEq Key] [Inhabited Key] in
theorem PreferredKept.prefers {p p' : StakePool Key} (h : PreferredKept p p') (hp : p'.Prefers k) : p.Prefers k :=
  hp.imp (h.deposit k) (h.withdraw k)

omit [Inhabited Key] in
theorem StakePool.resetPreferred_prefers {p : StakePool Key} {vote : Key}
    (h : (p.resetPreferred vote).Prefers k) : k ≠ vote := by
  rintro rfl
  simp only [Prefers, resetPreferred] at h
  rcases h with h | h
  · split at h
    · cases h
    · contradiction
  · split at h
    · cases h
    · contradiction

omit [Inhabited Key] in
theorem WithdrawStakeAccounts.Ok.preferred {a : WithdrawStakeAccounts Key} {tokens fee decimals n : Nat}
    {minimum : Option Nat} {plan : WithdrawPlan Key} {acc₂ acc₃ : Accounts Key}
    (h : a.Ok rt w w' tokens minimum fee decimals n plan acc₁ acc₂ acc₃) (hp : w'.stakePool.Prefers k) :
    w.stakePool.Prefers k ∧ (w.validatorList.HasActive k → w'.validatorList.HasActive k) := by
  have hpool : (plan.stakePool w.stakePool).Prefers k := by
    have hr := congrArg World.stakePool h.result
    obtain ⟨d, x, he⟩ := WithdrawStakeAccounts.stakePool_eq plan w.stakePool
    rw [he] at hr ⊢
    rw [hr] at hp
    exact hp
  refine ⟨(plan.stakePool_kept _).prefers hpool, fun hk => ?_⟩
  have hlist := h.list
  cases h.planned with
  | reserve m hkey =>
    have hl : w.validatorList = w'.validatorList := Except.ok.inj hlist
    exact hl ▸ hk
  | active v m d he | transient v m d he =>
    -- the status of the entry stays
    simp only [ValidatorList.withdraw, ValidatorStakeInfo.withdraw, bind_eq_ok, pure_eq_ok] at hlist
    obtain ⟨_, ⟨_, -, rfl⟩, hlist⟩ := hlist
    exact hlist ▸ hk.set he.find rfl fun _ => he.status
  | removal v m d he =>
    simp only [ValidatorList.withdraw, ValidatorStakeInfo.withdraw, bind_eq_ok, pure_eq_ok, exists_unit] at hlist
    obtain ⟨_, ⟨_, -, -, rfl⟩, hlist⟩ := hlist
    have hne : k ≠ v.voteAccountAddress := StakePool.resetPreferred_prefers hpool
    exact hlist ▸ hk.set he.find rfl fun hkv => absurd (hkv.trans (ValidatorList.find_split he.find).1.symm) hne

theorem Executed.preferred {accounts : List (AccountInfo Key)} {i : StakePoolInstruction Key} {out : Option Key}
    (h : Executed rt w w' accounts i out) (hi : ∀ start noMerge, i ≠ .updateValidatorListBalance start noMerge)
    (hu : PreferredUsable w) (hinv : Inv rt w') : PreferredUsable w' := by
  -- a handler that leaves the list and the preferred validators alone
  have same : w'.validatorList = w.validatorList → PreferredKept w.stakePool w'.stakePool → PreferredUsable w' :=
    fun hl hp => hu.of_kept hinv fun k hk => ⟨hp.prefers hk, by rw [hl]; exact id⟩
  have keep : ∀ {v v' : ValidatorStakeInfo Key} {vote : Key}, w.validatorList.find vote = some v →
      w'.validatorList = w.validatorList.set v' → v'.voteAccountAddress = v.voteAccountAddress →
      v'.status = StakeStatus.active.pod → PreferredKept w.stakePool w'.stakePool → PreferredUsable w' :=
    fun hf hl hvote hs hp => hu.of_kept hinv fun k hk =>
      ⟨hp.prefers hk, fun ha => by rw [hl]; exact ha.set hf hvote fun _ => hs⟩
  cases h with
  | add _ _ h =>
    refine hu.of_kept hinv fun k hk => ?_
    rw [congrArg World.validatorList h.result]
    rw [congrArg World.stakePool h.result] at hk
    exact ⟨hk, fun ⟨v, hv, hrest⟩ => ⟨v, List.mem_append_left _ hv, hrest⟩⟩
  | remove _ h =>
    refine hu.of_kept hinv fun k hk => ?_
    rw [congrArg World.stakePool h.result] at hk
    rw [congrArg World.validatorList h.result]
    have hne := StakePool.resetPreferred_prefers hk
    exact ⟨(StakePool.resetPreferred_kept _ _).prefers hk, fun ha => ha.set h.find rfl fun he => absurd he hne⟩
  | decrease _ h | increase _ h | depositStake _ h =>
    refine keep h.find (congrArg World.validatorList h.result) rfl h.status ?_
    rw [congrArg World.stakePool h.result]
    exact ⟨fun _ => id, fun _ => id⟩
  | updateList hi' => exact absurd hi' (hi _ _)
  | updatePool _ h =>
    refine same (by rw [congrArg World.validatorList h.result]) ?_
    rw [congrArg World.stakePool h.result]
    simp only [StakePool.updateEpoch]
    split <;> exact ⟨fun _ => id, fun _ => id⟩
  | depositSol _ h | withdrawSol h =>
    refine same (by rw [congrArg World.validatorList h.result]) ?_
    rw [congrArg World.stakePool h.result]
    exact ⟨fun _ => id, fun _ => id⟩
  | withdrawStake h => exact hu.of_kept hinv fun k hk => h.preferred hk
  | @cleanup l writable hl h =>
    subst hl
    -- active entries are not dropped
    have hactive : ∀ k, w.validatorList.HasActive k → w'.validatorList.HasActive k := by
      rintro k ⟨v, hv, hvote, hs⟩
      rw [h]
      refine ⟨v, List.mem_filter.2 ⟨hv, ?_⟩, hvote, hs⟩
      simp [ValidatorStakeInfo.isRemoved, hs]
    refine hu.of_kept hinv fun k hk => ⟨?_, hactive k⟩
    rw [congrArg World.stakePool h] at hk
    dsimp only at hk
    split at hk
    · exact hk.imp ValidatorList.keepPreferred_eq_some ValidatorList.keepPreferred_eq_some
    · exact hk
  | @setPreferred validatorType vote _ hv h =>
    subst h
    have hlisted : ∀ k, vote = some k → w.validatorList.HasActive k := by
      intro k hk
      obtain ⟨v, hf, hs⟩ := hv k hk
      obtain ⟨hvote, pre, post, hlist, -⟩ := ValidatorList.find_split hf
      exact ⟨v, by rw [hlist]; simp, hvote, hs⟩
    have hall : ∀ k, (w.stakePool.setPreferred validatorType vote).Prefers k → w.validatorList.HasActive k := by
      intro k hk
      cases validatorType with
      | deposit => exact hk.elim (hlisted k) fun h => hu.listed k (.inr h)
      | withdraw => exact hk.elim (fun h => hu.listed k (.inl h)) (hlisted k)
    exact ⟨hall, fun k hk => (hall k (.inl hk)).find hinv.core.votes⟩
  | @setFee fee _ _ _ _ _ hp h =>
    subst h
    refine same rfl ?_
    cases fee with
    | stakeWithdrawal | solWithdrawal =>
      simp only [StakePool.updateFee, bind_eq_ok, exists_unit, pure_eq_ok] at hp
      obtain ⟨-, rfl⟩ := hp
      exact ⟨fun _ => id, fun _ => id⟩
    | _ => cases hp; exact ⟨fun _ => id, fun _ => id⟩
  | manage _ _ h =>
    refine same (by rw [h]) ?_
    rw [congrArg World.stakePool h]
    exact ⟨fun _ => id, fun _ => id⟩
  | createMetadata _ _ _ _ h | updateMetadata _ h =>
    subst h
    exact same rfl (.refl _)

/-- An update of the balances keeps the preferred validators usable exactly if it meets none that is destaked. -/
theorem UpdateValidatorListBalanceAccounts.Ok.preferred_iff (hl : rt.Lawful) (hi : Inv rt w) (hi' : Inv rt w')
    {a : UpdateValidatorListBalanceAccounts Key} {start : Nat} {noMerge : Bool}
    {pre slice post slice' : List (ValidatorStakeInfo Key)} (hu : PreferredUsable w)
    (h : a.Ok rt w w' start noMerge pre slice post slice') :
    PreferredUsable w' ↔ ¬ ∃ (i : Nat) (v : ValidatorStakeInfo Key) (m : Meta Key),
      w.validatorList.validators[i]? = some v ∧ Names rt a start i v ∧
      w.stakePool.Prefers v.voteAccountAddress ∧
      (w.accounts (rt.validatorStake v)).data = .stakeState (.initialized m) := by
  have hpool : w'.stakePool = w.stakePool := by rw [h.result]
  have hx := h.ctx hl hi.pool
  constructor
  · rintro hu' ⟨i, v, m, hv, hn, hp, hd⟩
    -- the entry was active, and is not any more
    obtain ⟨u, hu, huv, hs⟩ := hu.listed _ hp
    obtain rfl := entry_unique hi.core.votes (List.mem_of_getElem? hv) hu huv
    obtain ⟨v', hv', hcase⟩ := h.step hl hi.pool hi.core hv
    rcases hcase with ⟨hn', -⟩ | ⟨-, info, acc₀, acc₁, hst⟩
    · exact hn' hn
    have hsame := (updateEntry_own h.poolKey hst.own hst.update).1
    obtain ⟨u', hu', huv', hs'⟩ := hu'.listed u.voteAccountAddress (by rw [hpool]; exact hp)
    obtain rfl := entry_unique hi'.core.votes (List.mem_of_getElem? hv') hu' (huv'.trans hsame.vote.symm)
    exact (hst.active_iff hl hx h.poolKey hi.core.reserve_pda hs).1 hs' m hd
  · refine fun hnot => hu.of_kept hi' fun k hk => ⟨by rwa [hpool] at hk, ?_⟩
    rintro ⟨v, hv, rfl, hs⟩
    rw [hpool] at hk
    obtain ⟨i, hi₀⟩ := List.getElem?_of_mem hv
    obtain ⟨v', hv', hcase⟩ := h.step hl hi.pool hi.core hi₀
    rcases hcase with ⟨-, rfl⟩ | ⟨hn, info, acc₀, acc₁, hst⟩
    · exact ⟨v', List.mem_of_getElem? hv', rfl, hs⟩
    · refine ⟨v', List.mem_of_getElem? hv', (updateEntry_own h.poolKey hst.own hst.update).1.vote, ?_⟩
      exact (hst.active_iff hl hx h.poolKey hi.core.reserve_pda hs).2 fun m hd => hnot ⟨i, v, m, hi₀, hn, hk, hd⟩

omit [Inhabited Key] in
/-- No deposit of stake succeeds when the preferred validator cannot be deposited to. -/
theorem processDepositStake_preferred {accounts : List (AccountInfo Key)} {minimum : Option Nat}
    (h : processDepositStake rt w accounts minimum = .ok w')
    (hk : w.stakePool.preferredDepositValidatorVoteAddress = some k) : w.validatorList.HasActive k := by
  simp only [processDepositStake, DepositStakeAccounts.process, bind_eq_ok, ensure_eq_ok, orErr_eq_ok,
    exists_unit, World.validStakePool_eq_ok, World.validValidatorList_eq_ok] at h
  obtain ⟨⟨a, rest⟩, -, -, p, ⟨-, -, rfl⟩, -, -, -, -, -, -, -, -, -, l, ⟨-, -, rfl⟩, ⟨m, s⟩, -, hp, v, hf, -,
    hs, -⟩ := h
  obtain ⟨hv, pre, post, hlist, -⟩ := ValidatorList.find_split hf
  rw [hk, Option.all_some, decide_eq_true_eq] at hp
  exact ⟨v, by rw [hlist]; simp, hv.trans hp.symm, hs⟩

/-! ## Runs -/

/-- Exactly the updates that meet a destaked preferred validator leave one that is not usable. -/
theorem Step.preferred_iff (hl : rt.Lawful) {l : Label Key} (hi : Inv rt w) (hu : PreferredUsable w)
    (h : Step rt w l w') : PreferredUsable w' ↔ ¬ RefreshesDestaked rt w l := by
  have hi' := h.inv hl hi
  cases h with
  | env h =>
    have ha := h.ambient
    have hu' : PreferredUsable w' := hu.of_kept hi' fun k hk => by
      rw [ha.pool] at hk
      rw [ha.list]
      exact ⟨hk, id⟩
    refine iff_of_true hu' ?_
    cases h <;> exact id
  | @instruction accounts i _ hs h =>
    have he := process_executed (not_isInitialize hl hi.pool.valid h) h
    cases i with
    | updateValidatorListBalance start noMerge =>
      obtain ⟨a, rest, hp, pre, slice, post, slice', h⟩ := processUpdateValidatorListBalance_ok h
      rw [h.preferred_iff hl hi hi' hu]
      refine not_congr ⟨fun ⟨i, v, m, hv, hn, hk, hd⟩ => ⟨a, rest, i, v, m, hp, hv, hn, hk, hd⟩, ?_⟩
      rintro ⟨a', rest', i, v, m, hp', hv, hn, hk, hd⟩
      rw [hp] at hp'
      cases hp'
      exact ⟨i, v, m, hv, hn, hk, hd⟩
    | _ => exact iff_of_true (he.preferred (by simp) hu hi') id

/-- In every run whose updates of the balances meet no destaked preferred validator, each preferred validator is
usable in every state. A step from such a state that meets one leaves a preferred validator that is not. -/
theorem preferred_usable_iff (hl : rt.Lawful) :
    (∀ w, (poolSystem rt).Reach (fun w l => ¬ RefreshesDestaked rt w l) w → PreferredUsable w) ∧
    ∀ w l w', (poolSystem rt).Reachable w → PreferredUsable w → Step rt w l w' →
      (PreferredUsable w' ↔ ¬ RefreshesDestaked rt w l) := by
  refine ⟨fun w h => h.invariant ?_ ?_, fun w l w' hr hu hs => hs.preferred_iff hl (Inv.of_reach hl hr) hu⟩
  · rintro w ⟨w₀, accounts, _, _, _, _, _, hg, h⟩
    obtain ⟨a, m, mint, total, h⟩ := processInitialize_ok hl h
    obtain ⟨authorities, hw⟩ := h.result
    have hnone : ∀ k, ¬ w.stakePool.Prefers k := by
      rw [hw]
      rintro k (hk | hk) <;> cases hk
    exact ⟨fun k hk => absurd hk (hnone k), fun k hk => absurd (.inl hk) (hnone k)⟩
  · exact fun a l b hr hu hok hs => (hs.preferred_iff hl (Inv.of_reach hl hr.reachable) hu).2 hok

section
open Reference

/-- A pool that prefers its validator for deposits. -/
def favored : World Reference.Key :=
  next (next (next (opened noFee noFee noFee) (depositSol 100000000 0)) (addValidator vote))
    (setPreferred .deposit (some vote))

theorem favored_reach : (poolSystem runtime).Reach (fun w l => ¬ RefreshesDestaked runtime w l) favored :=
  ⟨_, initialized_opened (by decide +kernel), ((System.Path.refl.step id (next_step (by decide +kernel))).step id
    (next_step (by decide +kernel))).step id (next_step (by decide +kernel))⟩

theorem preferred_usable_iff_favored : PreferredUsable favored ∧
    PreferredUsable (next favored (.forceDestake (validatorStake vote))) := by
  have h := (preferred_usable_iff lawful).1 favored favored_reach
  exact ⟨h, ((preferred_usable_iff lawful).2 favored (.forceDestake (validatorStake vote)) _ favored_reach.reachable h
    (next_step (by decide +kernel))).2 id⟩

/-- The pool after an update that has met the destaked validator. -/
def blocked : World Reference.Key :=
  after favored [.forceDestake (validatorStake vote), .advanceEpoch 11 false (fun _ => none),
    updateList [(vote, 0)] false, updatePool]

/-- The validator is ready for removal, and still preferred: no stake can be deposited. -/
theorem preferred_destaked :
    (poolSystem runtime).Reachable blocked ∧
    blocked.stakePool.preferredDepositValidatorVoteAddress = some vote ∧
    blocked.sysvars.epoch ≤ blocked.stakePool.lastUpdateEpoch ∧ ¬ PreferredUsable blocked ∧
    ∀ accounts minimum w', processDepositStake runtime blocked accounts minimum ≠ .ok w' := by
  have hpref : blocked.stakePool.preferredDepositValidatorVoteAddress = some vote := by decide +kernel
  have hnot : ¬ blocked.validatorList.HasActive vote := by
    have hall : ∀ v ∈ blocked.validatorList.validators, v.status ≠ StakeStatus.active.pod := by decide +kernel
    rintro ⟨v, hv, -, hs⟩
    exact hall v hv hs
  refine ⟨favored_reach.reachable.trans_path (after_path (fun _ _ _ _ => trivial) (by decide +kernel)), hpref,
    by decide +kernel, fun hu => hnot (hu.listed vote (.inl hpref)), fun accounts minimum w' h => ?_⟩
  exact hnot (processDepositStake_preferred h hpref)

end

end SplStakePool
