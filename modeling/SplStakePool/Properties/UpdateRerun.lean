import SplStakePool.Effect.Supply
import SplStakePool.Properties.EntryAccounting

/-!
# Updating again in the same epoch

After a full update every entry is settled: it records what its accounts hold, as far as it counts. Another
update of a settled entry moves lamports between records and the reserve, and none are gained. So the total
stays, there is no reward to charge a fee on, and the pool stays as it is.

A second update may still do something, as what was merged in the first one can lead to another merge; what it cannot
do is change the sum of the reserve and the records. `Still` says that this sum is the total, and is kept by
updates of the list and of the pool in any order.
-/

namespace SplStakePool
open Exec Machine UpdateValidatorListBalanceAccounts

variable {Key : Type} [DecidableEq Key] [Inhabited Key] {rt : Runtime Key} {w w' w₁ w₂ w₃ : World Key}
  {acc acc' acc₁ : Accounts Key} {a : UpdateValidatorListBalanceAccounts Key} {noMerge : Bool}
  {v v' : ValidatorStakeInfo Key}

variable (rt) in
/-- Whether a stake account with this meta is the pool's. -/
def World.usable (w : World Key) (m : Meta Key) : Bool :=
  stakeIsUsableByPool m rt.withdrawAuthority w.stakePool.lockup

/-- The entry is as an update leaves it. -/
def SettledAt (rt : Runtime Key) (w : World Key) (v : ValidatorStakeInfo Key) : Prop :=
  Settled (w.usable rt) (w.accounts (rt.validatorStake v)) (w.accounts (rt.transientStake v)) v

omit [Inhabited Key] in
theorem usable_eq (hx : a.withdrawAuthorityInfo.key = rt.withdrawAuthority) : usable w a = w.usable rt := by
  funext m
  rw [usable, hx, World.usable]

omit [DecidableEq Key] [Inhabited Key] in
theorem UpdateValidatorListBalanceAccounts.Settled.congr {usable : Meta Key → Bool} {va va' ta ta' : Account Key}
    (h : Settled usable va ta v) (hv : va'.lamports = va.lamports ∧ va'.stakeState? = va.stakeState?)
    (ht : ta'.lamports = ta.lamports ∧ ta'.stakeState? = ta.stakeState?) : Settled usable va' ta' v := by
  obtain ⟨hlam, hst⟩ := hv
  obtain ⟨hlam', hst'⟩ := ht
  refine ⟨?_, ?_, fun s m hd => ?_⟩
  · rw [hlam, Account.isDelegated, hst]
    exact h.active
  · rw [hlam', Account.isUsable, hst']
    exact h.transient
  · rw [← Account.stakeState?_eq_some, hst, Account.stakeState?_eq_some] at hd
    rw [hlam]
    exact h.settled s m hd

theorem updateEntries_again (hl : rt.Lawful) (hpool : a.stakePoolInfo.key = rt.stakePoolAddress)
    (hn : ¬ rt.StakePda a.reserveStakeInfo.key) {vs vs' : List (ValidatorStakeInfo Key)}
    {infos : List (AccountInfo Key × AccountInfo Key)} (hvotes : (vs.map (·.voteAccountAddress)).Nodup)
    (h : a.updateEntries rt w noMerge acc vs infos = .ok (acc', vs'))
    (hs : ∀ v ∈ vs, Settled (usable w a) (acc (rt.validatorStake v)) (acc (rt.transientStake v)) v)
    (hv : ∀ v ∈ vs, StakeStatus.fromU8 v.status.byte = some .active →
      (acc (rt.validatorStake v)).isUsable (usable w a)) :
    (acc' a.reserveStakeInfo.key).lamports + recordedLamports vs' =
      (acc a.reserveStakeInfo.key).lamports + recordedLamports vs := by
  induction vs generalizing acc infos vs' with
  | nil =>
    cases h
    rfl
  | cons u vs ih =>
    cases infos with
    | nil =>
      cases h
      rfl
    | cons info infos =>
      simp only [updateEntries, bind_eq_ok, pure_eq_ok, Prod.mk.injEq] at h
      obtain ⟨⟨acc₁, u'⟩, hu, ⟨acc₂, vs''⟩, h, rfl, rfl⟩ := h
      dsimp only at h ⊢
      rw [List.map_cons, List.nodup_cons] at hvotes
      have hne : ∀ x ∈ vs, u.voteAccountAddress ≠ x.voteAccountAddress :=
        fun x hx he => hvotes.1 (he ▸ List.mem_map_of_mem hx)
      rw [recordedLamports_cons, recordedLamports_cons]
      by_cases ho : Own rt u info
      · obtain ⟨-, -, hf⟩ := updateEntry_accounts hl hpool hn ho hu
        have hagain := updateEntry_again hl hpool hn ho hu (hs u (by simp)) (hv u (by simp))
        -- the other entries stay settled
        have hkeep : ∀ x ∈ vs, ∀ k, k = rt.validatorStake x ∨ k = rt.transientStake x → acc₁ k = acc k :=
          fun x hx k hk => hf.stakeAccounts hl hn hne ⟨x, hx, hk⟩
        have hrest := ih hvotes.2 h
          (fun x hx => by
            rw [hkeep x hx _ (.inl rfl), hkeep x hx _ (.inr rfl)]
            exact hs x (by simp [hx]))
          (fun x hx hact => by
            rw [hkeep x hx _ (.inl rfl)]
            exact hv x (by simp [hx]) hact)
        dsimp only at hrest
        omega
      · rw [updateEntry_skip hpool ho] at hu
        cases hu
        have hrest := ih hvotes.2 h (fun x hx => hs x (by simp [hx])) (fun x hx => hv x (by simp [hx]))
        dsimp only at hrest
        omega

theorem Inv.usable_of_active (hi : Inv rt w) (hv : v ∈ w.validatorList.validators)
    (hact : StakeStatus.fromU8 v.status.byte = some .active) :
    (w.accounts (rt.validatorStake v)).isUsable (w.usable rt) := by
  obtain ⟨s, hs, hok⟩ := (hi.core.entries v hv).status
  rw [hs, StakeStatus.fromU8_pod, Option.some.injEq] at hact
  subst hact
  obtain ⟨t, ht, m, hm, hp⟩ := Controlled.state hok
  rw [Account.isUsable_of_data ht hm, World.usable, stakeIsUsableByPool_iff, hi.pool.lockup]
  exact ⟨hp.authorized, hp.lockup⟩

/-! ## Updates of the list -/

theorem UpdateValidatorListBalanceAccounts.Ok.settled (hl : rt.Lawful) (hi : Inv rt w) {start : Nat}
    {pre slice post slice' : List (ValidatorStakeInfo Key)} (h : a.Ok rt w w' start noMerge pre slice post slice')
    {k : Nat} (hv : w.validatorList.validators[k]? = some v) :
    ∃ v', w'.validatorList.validators[k]? = some v' ∧ SameAccounts v v' ∧
      (Names rt a start k v ∨ SettledAt rt w v → SettledAt rt w' v') := by
  have hx := h.ctx hl hi.pool
  obtain ⟨v', hv', hbook⟩ := (h.rebooked hl (.of_inv hi)).2 k v hv
  have husable : w'.usable rt = w.usable rt := by rw [h.result]; rfl
  by_cases hn : Names rt a start k v
  · have hb := hbook.booked hn
    refine ⟨v', hv', hb.toSameAccounts, fun _ => ?_⟩
    rw [SettledAt, husable, rt.validatorStake_congr hb.vote hb.seed, rt.transientStake_congr hb.vote hb.transientSeed,
      ← usable_eq hx.authority]
    exact hb.to_settled
  · obtain ⟨rfl, hkeep⟩ := hbook.kept hn
    refine ⟨v', hv', .refl v', fun hs => ?_⟩
    rw [SettledAt, husable, hkeep _ (.inl rfl), hkeep _ (.inr rfl)]
    exact hs.resolve_left hn

theorem UpdateValidatorListBalanceAccounts.Ok.again (hl : rt.Lawful) (hi : Inv rt w) {start : Nat}
    {pre slice post slice' : List (ValidatorStakeInfo Key)} (h : a.Ok rt w w' start noMerge pre slice post slice')
    (hs : ∀ v ∈ w.validatorList.validators, SettledAt rt w v) :
    (w'.accounts w.stakePool.reserveStake).lamports + recordedLamports w'.validatorList.validators =
      (w.accounts w.stakePool.reserveStake).lamports + recordedLamports w.validatorList.validators := by
  have hx := h.ctx hl hi.pool
  have hmem : ∀ v ∈ slice, v ∈ w.validatorList.validators := fun v hv => by rw [h.list]; simp [hv]
  have hvotes := hi.core.votes
  rw [h.list, List.map_append, List.map_append, List.append_assoc, List.nodup_append', List.nodup_append'] at hvotes
  have hn : ¬ rt.StakePda a.reserveStakeInfo.key := h.reserveKey ▸ hi.core.reserve_pda
  have hsum := updateEntries_again hl h.poolKey hn hvotes.2.1.1 h.entries
    (fun v hv => by rw [usable_eq hx.authority]; exact hs v (hmem v hv))
    (fun v hv hact => by rw [usable_eq hx.authority]; exact hi.usable_of_active (hmem v hv) hact)
  rw [h.reserveKey] at hsum
  rw [congrArg World.validatorList h.result, h.list]
  simp only [recordedLamports_append]
  omega

/-! ## A pool after a full update -/

/-- The pool is up to date, and every entry is settled. -/
structure Still (rt : Runtime Key) (w : World Key) : Prop where
  settled : ∀ v ∈ w.validatorList.validators, SettledAt rt w v
  total : ∃ m, (w.accounts w.stakePool.reserveStake).data = .stakeState (.initialized m) ∧
    minimumReserveLamports m ≤ (w.accounts w.stakePool.reserveStake).lamports ∧
    w.stakePool.totalLamports + minimumReserveLamports m =
      (w.accounts w.stakePool.reserveStake).lamports + recordedLamports w.validatorList.validators
  supply : ∃ mint, (w.accounts w.stakePool.poolMint).data = .mint mint ∧ w.stakePool.poolTokenSupply = mint.supply
  epoch : w.sysvars.epoch ≤ w.stakePool.lastUpdateEpoch

theorem Still.updateList (hl : rt.Lawful) (hi : Inv rt w) (hw : Still rt w) {start : Nat}
    {pre slice post slice' : List (ValidatorStakeInfo Key)} (h : a.Ok rt w w' start noMerge pre slice post slice') :
    Still rt w' ∧ w'.stakePool = w.stakePool ∧ SameTokens w.accounts w'.accounts := by
  have hpool : w'.stakePool = w.stakePool := by rw [h.result]
  have hsys : w'.sysvars = w.sysvars := by rw [h.result]
  have htok := updateEntries_tokens hl h.entries
  have hlen : w'.validatorList.validators.length = w.validatorList.validators.length := by
    rw [congrArg World.validatorList h.result, h.list]
    simp only [List.length_append, updateEntries_length h.entries]
  refine ⟨⟨?_, ?_, ?_, ?_⟩, hpool, htok⟩
  · intro v' hv'
    obtain ⟨k, hk⟩ := List.getElem?_of_mem hv'
    have hlt := (List.getElem?_eq_some_iff.1 hk).1
    rw [hlen] at hlt
    obtain ⟨v, hv⟩ : ∃ v, w.validatorList.validators[k]? = some v := ⟨_, List.getElem?_eq_getElem hlt⟩
    obtain ⟨u, hu, -, hset⟩ := h.settled hl hi hv
    obtain rfl := Option.some.inj (hk.symm.trans hu)
    exact hset (.inr (hw.settled v (List.mem_of_getElem? hv)))
  · obtain ⟨m, hd, hle, ht⟩ := hw.total
    have hres := (Refresh.run hl (h.refreshes hl hi.pool hi.core) hi.core).2.1
    have hagain := h.again hl hi hw.settled
    have hle' := hres.reserve.state
    rw [hpool]
    refine ⟨m, hres.data.trans hd, ?_, by omega⟩
    obtain ⟨m', hd', -, hmin⟩ := hle'
    rw [hres.data, hd, AccountData.stakeState.injEq, StakeStateV2.initialized.injEq] at hd'
    subst hd'
    exact (minimumReserveLamports_le m).trans hmin
  · obtain ⟨mint, hm, hsup⟩ := hw.supply
    rw [hpool]
    refine ⟨mint, ?_, hsup⟩
    rw [← Account.mint?_eq_some, (htok _).1, Account.mint?_eq_some]
    exact hm
  · rw [hsys, hpool]
    exact hw.epoch

omit [Inhabited Key] in
theorem Still.updatePool (hw : Still rt w) {a : UpdateStakePoolBalanceAccounts Key} {m : Meta Key} {fee : Nat}
    {mint : Mint Key} (h : a.Ok rt w w' m fee mint) : w' = w := by
  obtain ⟨m', hd, hle, ht⟩ := hw.total
  have hres := h.reserve
  rw [h.reserveKey, hd, AccountData.stakeState.injEq, StakeStateV2.initialized.injEq] at hres
  subst hres
  have htotal : w'.stakePool.totalLamports = w.stakePool.totalLamports := by
    have := h.total
    rw [h.reserveKey] at this
    omega
  -- no reward, and no fee
  have hfee : fee = 0 := by
    have hf := h.fee_eq
    rw [htotal, Nat.sub_self, StakePool.epochFeeToMint] at hf
    split at hf
    · rw [StakePool.calcEpochFeeAmount, if_pos rfl] at hf
      cases hf
      rfl
    · cases hf
      rfl
  have hacc : w'.accounts = w.accounts := by
    rcases h.mintTo with ⟨hpos, -⟩ | ⟨-, he⟩
    · omega
    · exact he.symm
  have hsupply : mint.supply = w.stakePool.poolTokenSupply := by
    obtain ⟨mint', hm, hs⟩ := hw.supply
    have hm' := h.mint_eq
    rw [hacc, h.mintKey, hm, AccountData.mint.injEq] at hm'
    rw [hs, hm']
  have hepoch : w.stakePool.updateEpoch w.sysvars.epoch = w.stakePool :=
    if_neg (Nat.not_lt.2 hw.epoch)
  rw [h.result, hacc, htotal, hsupply, hepoch]

omit [Inhabited Key] in
theorem Still.of_updatePool (hl : rt.Lawful) {a : UpdateStakePoolBalanceAccounts Key} {m : Meta Key} {fee : Nat}
    {mint : Mint Key} (h : a.Ok rt w w' m fee mint)
    (hs : ∀ v ∈ w.validatorList.validators, SettledAt rt w v) : Still rt w' := by
  -- tokens are nothing to stake accounts
  have hstake : ∀ k, (w'.accounts k).lamports = (w.accounts k).lamports ∧
      (w'.accounts k).stakeState? = (w.accounts k).stakeState? := by
    intro k
    rcases h.mintTo with ⟨-, hm⟩ | ⟨-, he⟩
    · obtain ⟨-, mt, t, hmt, ht, -, -, -, hacc⟩ := tokenMintTo_ok hl hm
      rw [hacc]
      by_cases hkt : k = a.managerFeeInfo.key
      · subst hkt
        rw [Function.update_self]
        exact ⟨rfl, by rw [Account.stakeState?, Account.stakeState?, ht]⟩
      · rw [Function.update_of_ne hkt]
        by_cases hkm : k = a.poolMintInfo.key
        · subst hkm
          rw [Function.update_self]
          exact ⟨rfl, by rw [Account.stakeState?, Account.stakeState?, hmt]⟩
        · rw [Function.update_of_ne hkm]
          exact ⟨rfl, rfl⟩
    · rw [he]
      exact ⟨rfl, rfl⟩
  have hlist : w'.validatorList = w.validatorList := by rw [h.result]
  have hkeep : w'.stakePool.reserveStake = w.stakePool.reserveStake ∧ w'.stakePool.poolMint = w.stakePool.poolMint ∧
      w'.stakePool.lockup = w.stakePool.lockup ∧ w'.stakePool.poolTokenSupply = mint.supply ∧
      w.sysvars.epoch ≤ w'.stakePool.lastUpdateEpoch := by
    rw [h.result]
    unfold StakePool.updateEpoch
    split
    · exact ⟨rfl, rfl, rfl, rfl, le_rfl⟩
    · exact ⟨rfl, rfl, rfl, rfl, Nat.not_lt.1 ‹_›⟩
  obtain ⟨hres, hmint, hlock, hsup, hepoch⟩ := hkeep
  refine ⟨?_, ⟨m, ?_, ?_, ?_⟩, ⟨mint, ?_, hsup⟩, ?_⟩
  · intro v hv
    rw [hlist] at hv
    have husable : w'.usable rt = w.usable rt := by
      funext m
      rw [World.usable, World.usable, hlock]
    rw [SettledAt, husable]
    exact (hs v hv).congr (hstake _) (hstake _)
  · rw [hres, ← Account.stakeState?_eq_some, (hstake _).2, Account.stakeState?_eq_some, ← h.reserveKey]
    exact h.reserve
  · rw [hres, (hstake _).1, ← h.reserveKey]
    exact h.reserve_le
  · have ht := h.total
    have hle := h.reserve_le
    rw [h.reserveKey] at ht hle
    rw [hres, (hstake _).1, hlist]
    omega
  · rw [hmint, ← h.mintKey]
    exact h.mint_eq
  · have hsys : w'.sysvars = w.sysvars := by rw [h.result]
    rw [hsys]
    exact hepoch

/-- An update of a range of the list. -/
def Label.UpdatesList (l : Label Key) : Prop :=
  ∃ accounts start noMerge, l = .instruction accounts (.updateValidatorListBalance start noMerge)

/-- An update of the pool. -/
def Label.UpdatesPool (l : Label Key) : Prop := ∃ accounts, l = .instruction accounts .updateStakePoolBalance

/-- An update of the list that gives its own accounts for the entry at a place. -/
def Label.NamesEntry (rt : Runtime Key) (l : Label Key) (k : Nat) (v : ValidatorStakeInfo Key) : Prop :=
  ∃ accounts start noMerge a rest, l = .instruction accounts (.updateValidatorListBalance start noMerge) ∧
    (parse rt).run accounts = .ok (a, rest) ∧ Names rt a start k v

/-- A full update: updates of the list in which every entry is given with its accounts, and then an update of the
pool. -/
def FullUpdate (rt : Runtime Key) (w w' : World Key) : Prop :=
  ∃ events w₁ l, (poolSystem rt).Run w events w₁ ∧ (∀ e ∈ events, e.label.UpdatesList) ∧
    (∀ k v, w.validatorList.validators[k]? = some v → ∃ e ∈ events, e.label.NamesEntry rt k v) ∧
    l.UpdatesPool ∧ (poolSystem rt).step w₁ l w'

omit [DecidableEq Key] [Inhabited Key] in
theorem names_congr (h : SameAccounts v v') {start k : Nat} : Names rt a start k v' ↔ Names rt a start k v := by
  simp only [Names, Own, rt.validatorStake_congr h.vote h.seed, rt.transientStake_congr h.vote h.transientSeed]

/-- After updates of the list the entries given in them are settled. -/
theorem settled_of_run (hl : rt.Lawful) (hr : (poolSystem rt).Reachable w)
    {events : List (System.Event (World Key) (Label Key))} (h : (poolSystem rt).Run w events w₁)
    (hu : ∀ e ∈ events, e.label.UpdatesList) :
    w₁.validatorList.validators.length = w.validatorList.validators.length ∧
      ∀ k v, w.validatorList.validators[k]? = some v → ∃ v', w₁.validatorList.validators[k]? = some v' ∧
        SameAccounts v v' ∧ ((∃ e ∈ events, e.label.NamesEntry rt k v) → SettledAt rt w₁ v') := by
  induction h with
  | nil => exact ⟨rfl, fun k v hv => ⟨v, hv, .refl v, fun ⟨e, he, _⟩ => by cases he⟩⟩
  | @snoc es t u l hrun hs ih =>
    obtain ⟨hlen, hget⟩ := ih fun e he => hu e (by simp [he])
    obtain ⟨accounts, start, noMerge, rfl⟩ := hu ⟨t, l, u⟩ (by simp)
    have hi : Inv rt t := Inv.of_reach hl (hr.trans_path hrun.path)
    cases hs with
    | env he => cases he
    | instruction _ hp =>
      obtain ⟨a, rest, hparse, pre, slice, post, slice', hok⟩ := processUpdateValidatorListBalance_ok hp
      refine ⟨?_, ?_⟩
      · rw [← hlen, congrArg World.validatorList hok.result, hok.list]
        simp only [List.length_append, updateEntries_length hok.entries]
      · intro k v hv
        obtain ⟨v₁, hv₁, hsame, hset⟩ := hget k v hv
        obtain ⟨v₂, hv₂, hsame', hset'⟩ := hok.settled hl hi hv₁
        refine ⟨v₂, hv₂, hsame.trans hsame', ?_⟩
        rintro ⟨e, he, hn⟩
        rw [List.mem_append, List.mem_singleton] at he
        rcases he with he | rfl
        · exact hset' (.inr (hset ⟨e, he, hn⟩))
        · -- given in the last one
          obtain ⟨_, _, _, a', rest', hl', hparse', hn⟩ := hn
          cases hl'
          rw [hparse, Except.ok.injEq, Prod.mk.injEq] at hparse'
          obtain ⟨rfl, rfl⟩ := hparse'
          exact hset' (.inl ((names_congr hsame).2 hn))

theorem FullUpdate.still (hl : rt.Lawful) (hr : (poolSystem rt).Reachable w) (h : FullUpdate rt w w₂) :
    (poolSystem rt).Reachable w₂ ∧ Still rt w₂ := by
  obtain ⟨events, w₁, l, hrun, hu, hall, ⟨accounts, rfl⟩, hs⟩ := h
  have hr₁ := hr.trans_path hrun.path
  refine ⟨hr₁.step trivial hs, ?_⟩
  obtain ⟨hlen, hget⟩ := settled_of_run hl hr hrun hu
  cases hs with
  | env he => cases he
  | instruction _ hp =>
    obtain ⟨a, rest, -, m, fee, mint, hok⟩ := processUpdateStakePoolBalance_ok hp
    refine .of_updatePool hl hok fun v' hv' => ?_
    obtain ⟨k, hk⟩ := List.getElem?_of_mem hv'
    have hlt := (List.getElem?_eq_some_iff.1 hk).1
    rw [hlen] at hlt
    obtain ⟨v, hv⟩ : ∃ v, w.validatorList.validators[k]? = some v := ⟨_, List.getElem?_eq_getElem hlt⟩
    obtain ⟨u, hu, -, hset⟩ := hget k v hv
    obtain rfl := Option.some.inj (hk.symm.trans hu)
    exact hset (hall k v hv)

/-- After a full update, updates of the list and of the pool change nothing of the pool, and no token account and no
mint: in particular not the total, the supply, the fees and the statistics of the last epoch. -/
theorem rerun_mints_nothing (hl : rt.Lawful) (hr : (poolSystem rt).Reachable w) (hf : FullUpdate rt w w₂)
    (hp : (poolSystem rt).Path (fun _ l => l.UpdatesList ∨ l.UpdatesPool) w₂ w₃) :
    w₃.stakePool = w₂.stakePool ∧ SameTokens w₂.accounts w₃.accounts ∧
      (w₃.accounts w₂.stakePool.poolMint).mint? = (w₂.accounts w₂.stakePool.poolMint).mint? := by
  obtain ⟨hr₂, hstill⟩ := hf.still hl hr
  have hrun := hp.invariant (I := fun u => Still rt u ∧ u.stakePool = w₂.stakePool ∧ SameTokens w₂.accounts u.accounts)
    ⟨hstill, rfl, .refl _⟩ (by
      rintro t l u hpath ⟨ht, hpool, htok⟩ hu hs
      have hi : Inv rt t := Inv.of_reach hl (hr₂.trans_path hpath)
      rcases hu with ⟨accounts, start, noMerge, rfl⟩ | ⟨accounts, rfl⟩
      · cases hs with
        | env he => cases he
        | instruction _ h =>
          obtain ⟨a, rest, -, pre, slice, post, slice', hok⟩ := processUpdateValidatorListBalance_ok h
          obtain ⟨hu, hpool', htok'⟩ := ht.updateList hl hi hok
          exact ⟨hu, hpool'.trans hpool, htok.trans htok'⟩
      · cases hs with
        | env he => cases he
        | instruction _ h =>
          obtain ⟨a, rest, -, m, fee, mint, hok⟩ := processUpdateStakePoolBalance_ok h
          obtain rfl := ht.updatePool hok
          exact ⟨ht, hpool, htok⟩)
  obtain ⟨-, hpool, htok⟩ := hrun
  exact ⟨hpool, htok, (htok _).1⟩

section
open Reference

/-- The pool of `ripe` after an update that merges nothing, of the list and of the pool. -/
def counted : World Reference.Key := next (next ripe (updateList [(vote, 7)] true)) updatePool

theorem fullUpdate_counted : FullUpdate runtime ripe counted := by
  have hlen : ripe.validatorList.validators.length = 1 := by decide +kernel
  have hkeys : ∀ v ∈ ripe.validatorList.validators, Reference.validatorStake vote = runtime.validatorStake v ∧
      Reference.transientStake vote 7 = runtime.transientStake v := by decide +kernel
  refine ⟨[⟨ripe, updateList [(vote, 7)] true, next ripe (updateList [(vote, 7)] true)⟩], _, updatePool,
    .snoc .nil (next_step (by decide +kernel)), ?_, ?_, ⟨_, rfl⟩,
    next_step (by decide +kernel)⟩
  · intro e he
    rw [List.mem_singleton] at he
    subst he
    exact ⟨_, _, _, rfl⟩
  · intro k v hv
    have hk := (List.getElem?_eq_some_iff.1 hv).1
    obtain rfl : k = 0 := by omega
    exact ⟨_, List.mem_singleton_self _, _, 0, true, _, _, rfl, rfl, le_rfl, _, rfl,
      hkeys v (List.mem_of_getElem? hv)⟩

theorem rerun_mints_nothing_counted : ∃ w', w' = next (next counted (updateList [(vote, 7)] false)) updatePool ∧
    w'.stakePool = counted.stakePool ∧ w'.accounts (Reference.transientStake vote 7) ≠
      counted.accounts (Reference.transientStake vote 7) := by
  have hr : (poolSystem runtime).Reachable ripe :=
    reachable_after (initialized_opened (by decide +kernel)) (by decide +kernel)
  have hp : (poolSystem runtime).Path (fun _ l => l.UpdatesList ∨ l.UpdatesPool) counted
      (next (next counted (updateList [(vote, 7)] false)) updatePool) :=
    .step (.step .refl (.inl ⟨_, _, _, rfl⟩) (next_step (by decide +kernel))) (.inr ⟨_, rfl⟩)
      (next_step (by decide +kernel))
  exact ⟨_, rfl, (rerun_mints_nothing lawful hr fullUpdate_counted hp).1, by decide +kernel⟩

end

end SplStakePool
