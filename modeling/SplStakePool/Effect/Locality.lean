import SplStakePool.Invariant.Core
import SplStakePool.Lib.Footprint
import SplStakePool.Spec.UpdateList

/-!
# The accounts that the update of an entry works on

The update of an entry reads and writes the two stake accounts of the entry, and pays into the reserve.
It does not look at the lamports of the reserve, provided that the stake program does not when it merges
into an account that is not delegated.

This is what makes it an operation with cells of its own and a shared pot, in the sense of the library. The proof runs
the update on two maps of accounts that agree on these cells, with the reserve at different amounts, and goes through
both runs call by call (`Alike`).
-/

namespace SplStakePool
open Exec Footprint

variable {Key : Type}

/-- Lamports are paid into an account. -/
instance : AddAction ℕ (Account Key) where
  vadd n a := a.credit n
  zero_vadd _ := rfl
  add_vadd m n a := by
    show a.credit (m + n) = (a.credit n).credit m
    simp only [Account.credit, Nat.add_comm m n, Nat.add_assoc]

/-- What a payment does not change of an account. -/
def Account.kind (a : Account Key) : Key × AccountData Key := (a.owner, a.data)

theorem Account.kind_vadd (n : ℕ) (a : Account Key) : (n +ᵥ a).kind = a.kind := rfl

/-- Whether a merge into an account that is not delegated succeeds does not depend on its lamports. -/
def Runtime.MergeIgnoresBalance (rt : Runtime Key) : Prop :=
  ∀ sys auth kd ks src owner m n n' r,
    rt.merge sys auth (kd, ⟨n, owner, .stakeState (.initialized m)⟩) (ks, src) = .ok r →
    ∃ r', rt.merge sys auth (kd, ⟨n', owner, .stakeState (.initialized m)⟩) (ks, src) = .ok r'

variable [DecidableEq Key] {rt : Runtime Key} {sys : Sysvars} {acc acc' : Accounts Key} {reserve : Key}
  {K : Set Key} {m : Meta Key}

/-- The kind of a reserve. -/
def reserveKind (rt : Runtime Key) (m : Meta Key) : Key × AccountData Key :=
  (rt.stakeProgramId, .stakeState (.initialized m))

section
variable {src dst auth : AccountInfo Key} (ha : Agree Account.kind (reserveKind rt m) reserve K acc acc')
  (hK : reserve ∉ K)
include ha hK

theorem stakeMerge_reserve (hl : rt.Lawful) (hm : rt.MergeIgnoresBalance) (hs : src.key ∈ K)
    (hd : dst.key = reserve) :
    Both (SameWork ℕ reserve K acc acc') (stakeMerge rt sys acc src auth dst)
      (stakeMerge rt sys acc' src auth dst) := by
  have hne : src.key ≠ reserve := fun he => hK (he ▸ hs)
  have hres : acc reserve = ⟨(acc reserve).lamports, rt.stakeProgramId, .stakeState (.initialized m)⟩ :=
    congrArg (fun x : Key × AccountData Key => (⟨(acc reserve).lamports, x.1, x.2⟩ : Account Key)) ha.left
  have hres' : acc' reserve = ⟨(acc' reserve).lamports, rt.stakeProgramId, .stakeState (.initialized m)⟩ :=
    congrArg (fun x : Key × AccountData Key => (⟨(acc' reserve).lamports, x.1, x.2⟩ : Account Key)) ha.right
  -- a merge that succeeds adds the lamports of the source
  have hmerge : ∀ {n d s}, rt.merge sys auth.key (reserve, ⟨n, rt.stakeProgramId, .stakeState (.initialized m)⟩)
      (src.key, acc src.key) = .ok (d, s) →
      d = (acc src.key).lamports +ᵥ (⟨n, rt.stakeProgramId, .stakeState (.initialized m)⟩ : Account Key) ∧
        s = ⟨0, (acc src.key).owner, .stakeState .uninitialized⟩ := by
    intro n d s h
    obtain ⟨-, -, -, _, _, _, _, _, hdd, -, -, -, -, -, hst, rfl, rfl⟩ := hl.merge_ok _ _ _ _ _ _ _ _ h
    cases hdd
    cases hst
    exact ⟨rfl, rfl⟩
  simp only [stakeMerge, hd, ha.own _ hs]
  cases h : rt.merge sys auth.key (reserve, acc reserve) (src.key, acc src.key) with
  | error e =>
    cases h' : rt.merge sys auth.key (reserve, acc' reserve) (src.key, acc src.key) with
    | error e' => exact .error _ _
    | ok r =>
      rw [hres'] at h'
      obtain ⟨r', hr'⟩ := hm _ _ _ _ _ _ _ _ (acc reserve).lamports _ h'
      rw [← hres, h] at hr'
      cases hr'
  | ok r =>
    rw [hres] at h
    obtain ⟨r', hr'⟩ := hm _ _ _ _ _ _ _ _ (acc' reserve).lamports _ h
    obtain ⟨hd₁, hs₁⟩ := hmerge h
    obtain ⟨hd₂, hs₂⟩ := hmerge hr'
    rw [← hres] at hd₁
    rw [← hres'] at hd₂ hr'
    rw [hr']
    refine .ok ?_
    rw [hd₁, hs₁, hd₂, hs₂]
    have hw := SameWork.write (M := ℕ) hs hK ha.own ⟨0, (acc src.key).owner, .stakeState .uninitialized⟩
    have hp := SameWork.pay hK (hw.agree Account.kind_vadd ha).own (acc src.key).lamports
    rw [Function.update_of_ne hne.symm, Function.update_of_ne hne.symm] at hp
    exact hw.trans hp

theorem stakeMerge_own (hs : src.key ∈ K) (hd : dst.key ∈ K) :
    Both (SameWork ℕ reserve K acc acc') (stakeMerge rt sys acc src auth dst)
      (stakeMerge rt sys acc' src auth dst) := by
  simp only [stakeMerge, ha.own _ hs, ha.own _ hd]
  refine .bind (.same _ fun _ => rfl) fun r r' (he : r = r') => ?_
  subst he
  have hw := SameWork.write (M := ℕ) hs hK ha.own r.2
  exact .pure (hw.trans (.write hd hK (hw.agree Account.kind_vadd ha).own r.1))

theorem stakeWithdraw_reserve (hs : src.key ∈ K) (hd : dst.key = reserve) (n : Nat) :
    Both (SameWork ℕ reserve K acc acc') (stakeWithdraw rt sys acc src auth dst n)
      (stakeWithdraw rt sys acc' src auth dst n) := by
  simp only [stakeWithdraw, ha.own _ hs, hd]
  refine .bind (.same _ fun _ => rfl) fun s s' (he : s = s') => ?_
  subst he
  have hw := SameWork.write (M := ℕ) hs hK ha.own s
  exact .pure (hw.trans (.pay hK (hw.agree Account.kind_vadd ha).own n))

theorem stakeDeactivate_own (hs : src.key ∈ K) :
    Both (SameWork ℕ reserve K acc acc') (stakeDeactivate rt sys acc src auth)
      (stakeDeactivate rt sys acc' src auth) := by
  simp only [stakeDeactivate, ha.own _ hs]
  refine .bind (.same _ fun _ => rfl) fun s s' (he : s = s') => ?_
  subst he
  exact .pure (.write hs hK ha.own s)

end

namespace UpdateValidatorListBalanceAccounts
variable {w : World Key} {a : UpdateValidatorListBalanceAccounts Key} {noMerge : Bool}
  {va ta : AccountInfo Key}

/-- Both runs return the same after the same work. -/
def Alike (reserve : Key) (K : Set Key) (acc acc' : Accounts Key) {β : Type} (r r' : Accounts Key × β) : Prop :=
  r'.2 = r.2 ∧ SameWork ℕ reserve K acc acc' r.1 r'.1

omit [DecidableEq Key] in
/-- Runs that go on alike after the same work. -/
theorem Alike.then {β : Type} {t t' : Accounts Key}
    (h : SameWork ℕ reserve K acc acc' t t') {x x' : Except ProgramError (Accounts Key × β)}
    (hx : Both (Alike reserve K t t') x x') : Both (Alike reserve K acc acc') x x' :=
  hx.mono fun _ _ hr => ⟨hr.1, h.trans hr.2⟩

section
variable (hl : rt.Lawful) (hm : rt.MergeIgnoresBalance) (hr : a.reserveStakeInfo.key = reserve)
  (hK : reserve ∉ K) (hva : va.key ∈ K) (ha : Agree Account.kind (reserveKind rt m) reserve K acc acc')
include hl hm hr hK hva ha

theorem updateTransient_alike (hta : ta.key ∈ K) (v : ValidatorStakeInfo Key) :
    Both (Alike reserve K acc acc') (a.updateTransient rt w noMerge acc v va ta)
      (a.updateTransient rt w noMerge acc' v va ta) := by
  have hrefl : SameWork ℕ reserve K acc acc' acc acc' := .refl ha.own
  have hmerge : Both (SameWork ℕ reserve K acc acc')
      (stakeMerge rt w.sysvars acc ta a.withdrawAuthorityInfo a.reserveStakeInfo)
      (stakeMerge rt w.sysvars acc' ta a.withdrawAuthorityInfo a.reserveStakeInfo) :=
    stakeMerge_reserve ha hK hl hm hta hr
  have hafter : ∀ {t t'}, SameWork ℕ reserve K acc acc' t t' → t' ta.key = t ta.key :=
    fun h => (h.agree Account.kind_vadd ha).own _ hta
  unfold updateTransient
  split
  · rw [ha.own _ hta, ha.own _ hva]
    generalize transientAction _ _ _ _ _ _ = action
    cases action with
    | ignore => exact .pure ⟨rfl, hrefl⟩
    | count => exact .pure ⟨rfl, hrefl⟩
    | absorb =>
      refine hmerge.bind fun t t' ht => .bind (.same _ fun _ => rfl) fun s s' (he : s = s') => ?_
      exact .pure ⟨by rw [he], ht⟩
    | absorbInactive =>
      refine hmerge.bind fun t t' ht => .bind (.same _ fun _ => rfl) fun s s' (he : s = s') => ?_
      exact .pure ⟨by rw [he, hafter ht], ht⟩
    | mergeValidator =>
      refine (stakeMerge_own ha hK hta hva).bind fun t t' ht => ?_
      exact .pure ⟨by rw [hafter ht], ht⟩
    | deactivate =>
      refine (stakeDeactivate_own ha hK hta).bind fun t t' ht => ?_
      exact .pure ⟨by rw [hafter ht], ht⟩
  · exact .pure ⟨rfl, hrefl⟩

theorem updateDelegated_alike (status : PodStakeStatus) (s : Stake Key) :
    Both (Alike reserve K acc acc') (a.updateDelegated rt w noMerge acc status s va)
      (a.updateDelegated rt w noMerge acc' status s va) := by
  have hrefl : SameWork ℕ reserve K acc acc' acc acc' := .refl ha.own
  unfold updateDelegated
  rw [ha.own _ hva]
  refine .bind (.same _ fun _ => rfl) fun t t' (he : t = t') => ?_
  subst he
  have hdeactivating : Both (Alike reserve K acc acc')
      (if noMerge then pure (acc, status, (acc va.key).lamports)
        else if stakeIsInactiveWithoutHistory s w.sysvars.epoch then do
          let accounts ← stakeMerge rt w.sysvars acc va a.withdrawAuthorityInfo a.reserveStakeInfo
          return (accounts, ← status.removeValidatorStake, 0)
        else pure (acc, status, (acc va.key).lamports))
      (if noMerge then pure (acc', status, (acc va.key).lamports)
        else if stakeIsInactiveWithoutHistory s w.sysvars.epoch then do
          let accounts ← stakeMerge rt w.sysvars acc' va a.withdrawAuthorityInfo a.reserveStakeInfo
          return (accounts, ← status.removeValidatorStake, 0)
        else pure (acc', status, (acc va.key).lamports)) := by
    split
    · exact .pure ⟨rfl, hrefl⟩
    split
    · refine (stakeMerge_reserve ha hK hl hm hva hr).bind fun t t' ht =>
        .bind (.same _ fun _ => rfl) fun s s' (he : s = s') => ?_
      exact .pure ⟨by rw [he], ht⟩
    · exact .pure ⟨rfl, hrefl⟩
  cases t with
  | active => exact .pure ⟨rfl, hrefl⟩
  | deactivatingValidator => exact hdeactivating
  | deactivatingAll => exact hdeactivating
  | deactivatingTransient => exact .pure ⟨rfl, hrefl⟩
  | readyForRemoval => exact .pure ⟨rfl, hrefl⟩

omit hl hm in
theorem withdrawAdditional_alike (md : Meta Key) (s : Stake Key) :
    Both (SameWork ℕ reserve K acc acc') (a.withdrawAdditional rt w acc md s va)
      (a.withdrawAdditional rt w acc' md s va) := by
  unfold withdrawAdditional
  rw [ha.own _ hva]
  dsimp only
  split
  · exact stakeWithdraw_reserve ha hK hva hr _
  · exact .pure (.refl ha.own)

theorem updateValidator_alike (status : PodStakeStatus) (n : Nat) :
    Both (Alike reserve K acc acc') (a.updateValidator rt w noMerge acc status n va)
      (a.updateValidator rt w noMerge acc' status n va) := by
  have hrefl : SameWork ℕ reserve K acc acc' acc acc' := .refl ha.own
  unfold updateValidator
  rw [ha.own _ hva]
  split
  · split
    · refine (withdrawAdditional_alike hr hK hva ha _ _).bind fun t t' ht => ?_
      exact Alike.then ht (updateDelegated_alike hl hm hr hK hva (ht.agree Account.kind_vadd ha) _ _)
    · exact .pure ⟨rfl, hrefl⟩
  · split
    · refine (stakeMerge_reserve ha hK hl hm hva hr).bind fun t t' ht => ?_
      exact .pure ⟨rfl, ht⟩
    · exact .pure ⟨rfl, hrefl⟩
  · exact .pure ⟨rfl, hrefl⟩
  · exact .pure ⟨rfl, hrefl⟩
  · exact .pure ⟨rfl, hrefl⟩

end

variable (rt) in
/-- The stake accounts of entries. -/
def stakeAccounts (vs : List (ValidatorStakeInfo Key)) : Set Key :=
  {k | ∃ v ∈ vs, k = rt.validatorStake v ∨ k = rt.transientStake v}

section
variable (hl : rt.Lawful) (hm : rt.MergeIgnoresBalance) (hpool : a.stakePoolInfo.key = rt.stakePoolAddress)
  (hr : a.reserveStakeInfo.key = reserve) (hK : reserve ∉ K)
include hl hm hpool hr hK

theorem updateEntry_alike (ha : Agree Account.kind (reserveKind rt m) reserve K acc acc')
    {v : ValidatorStakeInfo Key} (hv : rt.validatorStake v ∈ K) (ht : rt.transientStake v ∈ K) :
    Both (Alike reserve K acc acc') (a.updateEntry rt w noMerge acc v va ta)
      (a.updateEntry rt w noMerge acc' v va ta) := by
  by_cases ho : Own rt v (va, ta)
  · have hva : va.key ∈ K := by rw [ho.1]; exact hv
    have hta : ta.key ∈ K := by rw [ho.2]; exact ht
    rw [updateEntry_of_own hpool ho, updateEntry_of_own hpool ho]
    refine (updateTransient_alike hl hm hr hK hva ha hta v).bind ?_
    rintro ⟨t, status, n⟩ ⟨t', _, _⟩ ⟨he, hw⟩
    cases he
    refine Alike.then hw
      ((updateValidator_alike hl hm hr hK hva (hw.agree Account.kind_vadd ha) status n).bind ?_)
    rintro ⟨u, status', n'⟩ ⟨u', _, _⟩ ⟨he, hw'⟩
    cases he
    exact .pure ⟨rfl, hw'⟩
  · rw [updateEntry_skip hpool ho, updateEntry_skip hpool ho]
    exact .ok ⟨rfl, .refl ha.own⟩

theorem updateEntries_alike {vs : List (ValidatorStakeInfo Key)}
    {infos : List (AccountInfo Key × AccountInfo Key)} (hvs : stakeAccounts rt vs ⊆ K)
    (ha : Agree Account.kind (reserveKind rt m) reserve K acc acc') :
    Both (Alike reserve K acc acc') (a.updateEntries rt w noMerge acc vs infos)
      (a.updateEntries rt w noMerge acc' vs infos) := by
  induction vs generalizing acc acc' infos with
  | nil => exact .pure ⟨rfl, .refl ha.own⟩
  | cons v vs ih =>
    cases infos with
    | nil => exact .pure ⟨rfl, .refl ha.own⟩
    | cons info infos =>
      have hv : rt.validatorStake v ∈ K := hvs ⟨v, by simp, .inl rfl⟩
      have ht : rt.transientStake v ∈ K := hvs ⟨v, by simp, .inr rfl⟩
      have hrest : stakeAccounts rt vs ⊆ K := fun k ⟨u, hu, hk⟩ => hvs ⟨u, by simp [hu], hk⟩
      simp only [updateEntries]
      refine (updateEntry_alike hl hm hpool hr hK ha hv ht).bind ?_
      rintro ⟨t, u⟩ ⟨t', _⟩ ⟨he, hw⟩
      cases he
      refine Alike.then hw ((ih hrest (hw.agree Account.kind_vadd ha)).bind ?_)
      rintro ⟨t₂, us⟩ ⟨t₂', _⟩ ⟨he, hw'⟩
      cases he
      exact .pure ⟨rfl, hw'⟩

end

variable (w noMerge) in
/-- The update of entries is an operation on their stake accounts that pays into the reserve. -/
theorem updateEntries_local (hl : rt.Lawful) (hm : rt.MergeIgnoresBalance)
    (hpool : a.stakePoolInfo.key = rt.stakePoolAddress) (hr : a.reserveStakeInfo.key = reserve)
    {vs : List (ValidatorStakeInfo Key)} (hres : reserve ∉ stakeAccounts rt vs)
    (infos : List (AccountInfo Key × AccountInfo Key)) :
    Local ℕ Account.kind (reserveKind rt m) reserve (stakeAccounts rt vs)
      fun acc => a.updateEntries rt w noMerge acc vs infos :=
  fun _ _ ha => updateEntries_alike hl hm hpool hr hres le_rfl ha

omit [DecidableEq Key] in
theorem not_mem_stakeAccounts (h : ¬ rt.StakePda reserve) (vs : List (ValidatorStakeInfo Key)) :
    reserve ∉ stakeAccounts rt vs := by
  rintro ⟨v, -, rfl | rfl⟩
  · exact h (.validator v)
  · exact h (.transient v)

omit [DecidableEq Key] in
/-- Entries with different vote accounts have different stake accounts. -/
theorem disjoint_stakeAccounts (hl : rt.Lawful) {vs us : List (ValidatorStakeInfo Key)}
    (h : ∀ v ∈ vs, ∀ u ∈ us, v.voteAccountAddress ≠ u.voteAccountAddress) :
    Disjoint (stakeAccounts rt vs) (stakeAccounts rt us) := by
  refine Set.disjoint_left.2 ?_
  rintro k ⟨v, hv, hk⟩ ⟨u, hu, hk'⟩
  refine h v hv u hu ?_
  rcases hk with rfl | rfl
  · rcases hk' with he | he
    · exact validatorStake_inj hl he
    · exact absurd he (validatorStake_ne_transientStake hl _ _)
  · rcases hk' with he | he
    · exact absurd he.symm (validatorStake_ne_transientStake hl _ _)
    · exact transientStake_inj hl he

end UpdateValidatorListBalanceAccounts

end SplStakePool
