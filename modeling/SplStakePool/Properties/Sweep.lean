import SplStakePool.Properties.UpdateAvailability

/-!
# Updates of the list, entry by entry

The update of an entry reads and writes the stake accounts of the entry and the reserve, and no two entries share a
stake account. What is known of the update of each entry in a condition on its own accounts is therefore known of all
instructions together, in any order, if no entry is updated twice.

`Handles` is what has to be known of one entry: a condition that only depends on its stakes, and what becomes of an
entry that meets it. From there the loop over a slice is an induction, with the condition carried along for the
entries that are not reached yet, and so is the run of the instructions.
-/

namespace SplStakePool
open Exec Machine System UpdateValidatorListBalanceAccounts

variable {Key : Type} [DecidableEq Key] [Inhabited Key] {rt : Runtime Key} {w w' w₁ : World Key}
  {acc acc' : Accounts Key} {v : ValidatorStakeInfo Key} {noMerge : Bool}
  {P : Accounts Key → ValidatorStakeInfo Key → Prop} {Q : ValidatorStakeInfo Key → ValidatorStakeInfo Key → Prop}

/-- The stake accounts of an entry are the same. -/
structure SameStakes (rt : Runtime Key) (acc acc' : Accounts Key) (v : ValidatorStakeInfo Key) : Prop where
  validator : acc' (rt.validatorStake v) = acc (rt.validatorStake v)
  transient : acc' (rt.transientStake v) = acc (rt.transientStake v)

omit [DecidableEq Key] [Inhabited Key] in
theorem SameStakes.trans {acc₁ : Accounts Key} (h : SameStakes rt acc acc₁ v) (h' : SameStakes rt acc₁ acc' v) :
    SameStakes rt acc acc' v :=
  ⟨h'.validator.trans h.validator, h'.transient.trans h.transient⟩

/-- In a pool and an epoch, the update of an entry succeeds if `P` holds of the entry and its stake accounts, and the
entry after it is related to the one before by `Q`. -/
structure Handles (rt : Runtime Key) (pool : StakePool Key) (sys : Sysvars) (noMerge : Bool)
    (P : Accounts Key → ValidatorStakeInfo Key → Prop) (Q : ValidatorStakeInfo Key → ValidatorStakeInfo Key → Prop) :
    Prop where
  congr : ∀ {acc acc' v}, SameStakes rt acc acc' v → P acc v → P acc' v
  entry : ∀ {w : World Key} {a : UpdateValidatorListBalanceAccounts Key} {va ta : AccountInfo Key}
    {acc : Accounts Key} {v : ValidatorStakeInfo Key}, w.stakePool = pool → w.sysvars = sys → Ctx rt w a →
    a.stakePoolInfo.key = rt.stakePoolAddress → Own rt v (va, ta) → EntryOk rt acc v →
    Reserve rt (acc pool.reserveStake) → ¬ rt.StakePda pool.reserveStake → PdaOk rt (acc (rt.validatorStake v)) →
    PdaOk rt (acc (rt.transientStake v)) → P acc v →
    ∃ acc' v', a.updateEntry rt w noMerge acc v va ta = .ok (acc', v') ∧ Q v v'

/-- The loop over a slice between two parts of the list, with the accounts of the entries. -/
theorem Handles.entries (hl : rt.Lawful) (h : Handles rt w.stakePool w.sysvars noMerge P Q)
    {a : UpdateValidatorListBalanceAccounts Key} (hx : Ctx rt w a) (hpool : a.stakePoolInfo.key = rt.stakePoolAddress)
    {pre post vs : List (ValidatorStakeInfo Key)} {infos : List (AccountInfo Key × AccountInfo Key)}
    (hc : Core rt w.stakePool.reserveStake (pre ++ vs ++ post) acc) (ho : List.Forall₂ (Own rt) vs infos)
    (hP : ∀ v ∈ vs, P acc v) :
    ∃ acc' vs', a.updateEntries rt w noMerge acc vs infos = .ok (acc', vs') ∧ List.Forall₂ Q vs vs' ∧
      ∀ v ∈ pre ++ post, SameStakes rt acc acc' v := by
  induction ho generalizing pre acc with
  | nil => exact ⟨acc, [], rfl, .nil, fun v _ => ⟨rfl, rfl⟩⟩
  | @cons v info vs infos ho _ ih =>
    have hlist : ∀ u, pre ++ u :: vs ++ post = pre ++ [u] ++ vs ++ post := by simp
    rw [List.append_assoc, List.cons_append] at hc
    have hpda := hc.pdas _ (.validator v)
    obtain ⟨acc₁, v', hv, hQ⟩ := h.entry rfl rfl hx hpool ho hc.mem hc.reserve_ok hc.reserve_pda hpda
      (hc.pdas _ (.transient v)) (hP v List.mem_cons_self)
    rcases updateEntry_spec hl hx hpool hv hc.mem hc.reserve_ok hc.reserve_pda hpda with ⟨hnot, -⟩ | ⟨-, -, hr⟩
    · exact absurd ho hnot
    -- the accounts of the other entries are as before
    have hother : ∀ u ∈ pre ++ (vs ++ post), SameStakes rt acc acc₁ u := fun u hu =>
      ⟨hr.other hl hc.reserve_pda (hc.vote_ne hu) _ (.inl rfl), hr.other hl hc.reserve_pda (hc.vote_ne hu) _ (.inr rfl)⟩
    have hc' := hc.entry hl hr.toEntryStep
    rw [← List.cons_append, ← List.append_assoc, hlist] at hc'
    obtain ⟨acc', vs', hvs, hQs, hsame⟩ := ih hc' fun u hu =>
      h.congr (hother u (by simp [hu])) (hP u (List.mem_cons_of_mem v hu))
    refine ⟨acc', v' :: vs', ?_, .cons hQ hQs, fun u hu => ?_⟩
    · simp only [updateEntries, hv, hvs, ok_bind]
      rfl
    · simp only [List.mem_append] at hu
      refine (hother u ?_).trans (hsame u ?_)
      · simp only [List.mem_append]
        tauto
      · simp only [List.mem_append]
        tauto

/-- An update of `n` entries from an index of the list on, with the accounts of the pool and the derived stake
accounts of the entries. -/
structure Instruction.UpdatesRange (rt : Runtime Key) (w : World Key) (noMerge : Bool) (ins : Instruction Key)
    (start n : Nat) : Prop where
  data : ins.data = .updateValidatorListBalance start noMerge
  within : start + n ≤ w.validatorList.validators.length
  keys : ∃ stakeHistory, ins.accounts.map (·.key) =
    [rt.stakePoolAddress, rt.withdrawAuthority, rt.validatorListAddress, w.stakePool.reserveStake, rt.clockId,
      stakeHistory, rt.stakeProgramId] ++
    (((rt.stakePairs w.validatorList.validators).drop start).take n).flatMap fun k => [k.1, k.2]

/-- What updates do that handle the entries with some indices. -/
structure Swept (rt : Runtime Key) (Q : ValidatorStakeInfo Key → ValidatorStakeInfo Key → Prop) (ks : List Nat)
    (w w' : World Key) : Prop where
  progress : Progress ks w w'
  pool : w'.stakePool = w.stakePool
  handled : ∀ k v, k ∈ ks → w.validatorList.validators[k]? = some v →
    ∃ v', w'.validatorList.validators[k]? = some v' ∧ Q v v'
  kept : ∀ k v, k ∉ ks → w.validatorList.validators[k]? = some v → SameStakes rt w.accounts w'.accounts v
  covered : (w.accounts w.stakePool.reserveStake).lamports + recordedLamports w.validatorList.validators ≤
    (w'.accounts w.stakePool.reserveStake).lamports + recordedLamports w'.validatorList.validators

namespace Swept
variable {ks ks' : List Nat}

omit [DecidableEq Key] [Inhabited Key] in
theorem refl (w : World Key) : Swept rt Q [] w w :=
  ⟨.refl w, rfl, fun _ _ hk => absurd hk List.not_mem_nil, fun _ _ _ _ => ⟨rfl, rfl⟩, Nat.le_refl _⟩

omit [DecidableEq Key] [Inhabited Key] in
theorem trans (h : Swept rt Q ks w w₁) (h' : Swept rt Q ks' w₁ w') (hd : ks.Disjoint ks') :
    Swept rt Q (ks ++ ks') w w' := by
  refine ⟨h.progress.trans h'.progress, h'.pool.trans h.pool, fun k v hk hv => ?_, fun k v hk hv => ?_, ?_⟩
  · rcases List.mem_append.1 hk with hk | hk
    · obtain ⟨v₁, hv₁, hQ⟩ := h.handled k v hk hv
      obtain ⟨v', hv', -, -, hout⟩ := h'.progress.entry k v₁ hv₁
      exact ⟨v', hv', hout (hd hk) ▸ hQ⟩
    · obtain ⟨v₁, hv₁, -, -, hout⟩ := h.progress.entry k v hv
      obtain rfl := hout fun hk' => hd hk' hk
      exact h'.handled k v₁ hk hv₁
  · rw [List.mem_append, not_or] at hk
    obtain ⟨v₁, hv₁, -, -, hout⟩ := h.progress.entry k v hv
    obtain rfl := hout hk.1
    exact (h.kept k v₁ hk.1 hv).trans (h'.kept k v₁ hk.2 hv₁)
  · have hc := h.covered
    have hc' := h'.covered
    rw [h.pool] at hc'
    exact hc.trans hc'

end Swept

namespace Instruction.UpdatesRange
variable {ins : Instruction Key} {start n : Nat}

section
omit [DecidableEq Key] [Inhabited Key]

theorem part (h : ins.UpdatesRange rt w noMerge start n) :
    ({ ins with data := .updateValidatorListBalance start true } : Instruction Key).UpdatesPart rt w start n :=
  ⟨rfl, h.within, h.keys⟩

theorem indices (h : ins.UpdatesRange rt w noMerge start n) : ins.indices = List.range' start n := by
  rw [← h.part.indices, Instruction.indices, h.data]
  rfl

theorem congr (h : ins.UpdatesRange rt w noMerge start n) {ks : List Nat} (hs : Swept rt Q ks w w') :
    ins.UpdatesRange rt w' noMerge start n :=
  have hpart := h.part.congr hs.pool hs.progress.length hs.progress.stakePairs
  ⟨h.data, hpart.within, hpart.keys⟩

end

/-- An update of entries whose accounts meet the condition succeeds, and can be followed by others. -/
theorem sweep (hl : rt.Lawful) (hh : Handles rt w.stakePool w.sysvars noMerge P Q) (hw : Updatable rt w)
    (h : ins.UpdatesRange rt w noMerge start n)
    (hP : ∀ k ∈ List.range' start n, ∀ v, w.validatorList.validators[k]? = some v → P w.accounts v) :
    ∃ w', ins.execute rt w = .ok w' ∧ Updatable rt w' ∧ Swept rt Q (List.range' start n) w w' := by
  have hi := hw.inv
  obtain ⟨_, hkeys⟩ := h.keys
  obtain ⟨a, rest, hparse, hpool, hauth, hlist, hreserve, hprogram, hks⟩ :=
    UpdateValidatorListBalanceAccounts.parse_of_keys hkeys
  have hle := h.within
  have hlen : a.validatorStakeAccounts.length = n * 2 := by
    rw [length_of_keys hks, List.length_take, List.length_drop, length_stakePairs]
    omega
  -- the checks
  have hadmits : Admits rt w.stakePool w.sysvars w.validatorList.header a := by
    refine ⟨hpool, hi.pool.valid, ensure_eq_ok.2 (hlist.trans hi.pool.list.symm), ?_, hreserve, ensure_eq_ok.2 hprogram,
      hw.rewards, by omega, hlist, hw.header⟩
    rw [hpool]
    exact (StakePool.checkAuthorityWithdraw_eq_ok hl hi.pool.bump).2 hauth
  have hslice : BigVec.deserializeSlice w.validatorList.validators start (a.validatorStakeAccounts.length / 2) =
      .ok ((w.validatorList.validators.drop start).take n) := by
    rw [BigVec.deserializeSlice_eq_ok, hlen, Nat.mul_div_cancel n (by omega)]
    exact ⟨hle, rfl⟩
  have hslices : ((w.validatorList.validators.drop start).take n).length = n := by
    rw [List.length_take, List.length_drop]
    omega
  have hget : ∀ k ∈ List.range' start n,
      ((w.validatorList.validators.drop start).take n)[k - start]? = w.validatorList.validators[k]? := by
    intro k hk
    rw [List.mem_range'_1] at hk
    rw [List.getElem?_take_of_lt (by omega), List.getElem?_drop]
    congr 1
    omega
  -- the loop
  obtain ⟨pre, post, hpre, hvs, -⟩ := BigVec.writeSlice_of_deserialize hslice rfl
  have hc := hi.core
  rw [hvs] at hc
  have hown : List.Forall₂ (Own rt) ((w.validatorList.validators.drop start).take n)
      (pairs a.validatorStakeAccounts) := by
    have hkeys := pairs_of_keys hks
    rw [Runtime.stakePairs, ← List.map_drop, ← List.map_take, eq_comm, ← List.forall₂_eq_eq_eq,
      List.forall₂_map_left_iff, List.forall₂_map_right_iff] at hkeys
    exact hkeys.imp fun v info he => ⟨(Prod.mk.inj he).1.symm, (Prod.mk.inj he).2.symm⟩
  obtain ⟨acc, slice, hu, hQ, hsame⟩ := hh.entries hl ⟨hauth, hi.pool.lockup, hreserve⟩ hpool hc hown fun v hv => by
    obtain ⟨j, hj⟩ := List.getElem?_of_mem hv
    have hjn := (List.getElem?_eq_some_iff.1 hj).1
    have hk : start + j ∈ List.range' start n := List.mem_range'_1.2 (by omega)
    refine hP _ hk v ?_
    rw [← hget _ hk, Nat.add_sub_cancel_left]
    exact hj
  have hprocess := process_eq_ok.2 ⟨hadmits, _, acc, slice, hslice, hu, rfl⟩
  obtain ⟨_, _, _, _, hok⟩ := process_ok hprocess
  have hprogress := hok.progress fun k v hv => names_iff (pairs_of_keys hks) hv
  have hexecute : ins.execute rt w = a.process rt w start noMerge := by
    rw [Instruction.execute, h.data]
    simp only [process, processUpdateValidatorListBalance, hparse, ok_bind]
  have hlenQ := hQ.length_eq
  refine ⟨_, hexecute.trans hprocess, hw.updateList hl hparse hok hprogress, hprogress, rfl, ?_, ?_, ?_⟩
  · intro k v hk hv
    have hkn := List.mem_range'_1.1 hk
    have hlt : k - start < slice.length := by omega
    refine ⟨slice[k - start], ?_, ?_⟩
    · rw [BigVec.getElem?_writeSlice (by omega), if_pos (by omega), List.getElem?_eq_getElem hlt]
    · have := hQ.get (i := k - start) (by omega) hlt
      rw [← hget k hk, List.getElem?_eq_some_iff] at hv
      obtain ⟨_, hv⟩ := hv
      rwa [List.get_eq_getElem, hv, List.get_eq_getElem] at this
  · intro k v hk hv
    refine hsame v (List.mem_append.2 ?_)
    rw [List.mem_range'_1] at hk
    rw [hvs, List.append_assoc] at hv
    by_cases hlt : k < start
    · rw [List.getElem?_append_left (by omega)] at hv
      exact .inl (List.mem_of_getElem? hv)
    · rw [List.getElem?_append_right (by omega), List.getElem?_append_right (by omega)] at hv
      exact .inr (List.mem_of_getElem? hv)
  · have hrun := (Refresh.run hl (hok.refreshes hl hi.pool hi.core) hi.core).2.2
    have hlist := congrArg (fun w => w.validatorList.validators) hok.result
    dsimp only at hlist hrun ⊢
    rwa [hlist]

end Instruction.UpdatesRange

/-- Updates of the list succeed one after the other, if no entry is updated twice. -/
theorem executeAll_sweep (hl : rt.Lawful) (hh : Handles rt w.stakePool w.sysvars noMerge P Q) (hw : Updatable rt w)
    {instrs : List (Instruction Key)} (h : ∀ ins ∈ instrs, ∃ start n, ins.UpdatesRange rt w noMerge start n)
    (hd : (instrs.flatMap Instruction.indices).Nodup)
    (hP : ∀ k ∈ instrs.flatMap Instruction.indices, ∀ v, w.validatorList.validators[k]? = some v → P w.accounts v) :
    ∃ w', executeAll rt w instrs = .ok w' ∧ Updatable rt w' ∧
      Swept rt Q (instrs.flatMap Instruction.indices) w w' := by
  induction instrs generalizing w with
  | nil => exact ⟨w, rfl, hw, .refl w⟩
  | cons ins instrs ih =>
    obtain ⟨start, n, hins⟩ := h ins List.mem_cons_self
    rw [List.flatMap_cons, List.nodup_append'] at hd
    obtain ⟨-, hd, hdisjoint⟩ := hd
    rw [hins.indices] at hdisjoint
    obtain ⟨w₁, h₁, hw₁, hs₁⟩ := hins.sweep hl hh hw fun k hk =>
      hP k (List.mem_append_left _ (hins.indices ▸ hk))
    -- the entries that follow, and their accounts, are as before
    obtain ⟨w', h', hw', hs'⟩ := ih (w := w₁) (by rw [hs₁.pool, hs₁.progress.sysvars]; exact hh) hw₁
      (fun ins' hins' => by
        obtain ⟨start', n', hpart⟩ := h ins' (List.mem_cons_of_mem ins hins')
        exact ⟨start', n', hpart.congr hs₁⟩) hd fun k hk v₁ hv₁ => by
        have hlt := (List.getElem?_eq_some_iff.1 hv₁).1
        rw [hs₁.progress.length] at hlt
        have hv := List.getElem?_eq_getElem hlt
        have hnot : k ∉ List.range' start n := fun hmem => hdisjoint hmem hk
        obtain ⟨u, hu, -, -, hout⟩ := hs₁.progress.entry k _ hv
        obtain rfl := Option.some.inj (hv₁.symm.trans hu)
        rw [← hout hnot] at hv
        exact hh.congr (hs₁.kept k v₁ hnot hv) (hP k (List.mem_append_right _ hk) v₁ hv)
    refine ⟨w', by rw [executeAll, h₁]; exact h', hw', ?_⟩
    rw [List.flatMap_cons, hins.indices]
    exact hs₁.trans hs' hdisjoint

end SplStakePool
