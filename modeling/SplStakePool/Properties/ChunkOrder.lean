import SplStakePool.Effect.Locality
import SplStakePool.Lib.Commute
import SplStakePool.Invariant.Run
import SplStakePool.Properties.UpdateCoverage

/-!
# The order of the chunks of an update

Clients send the updates of the chunks of the list without waiting. Updates of disjoint parts of the list
work on different stake accounts and share the reserve, which they only pay into, so the order in which
they are executed does not matter.

Two updates can be swapped because of the footprint of each (`Effect/Locality`) and because slices of the list that
have no index in common can be written in any order. The results for lists of updates are those of the library for
steps that can be swapped in pairs; the invariant that goes with them is that the update of one chunk leaves the
others as ready as they were.
-/

namespace SplStakePool
open Exec Footprint UpdateValidatorListBalanceAccounts

variable {Key : Type} [DecidableEq Key] {rt : Runtime Key} {w w₁ w₂ : World Key}

theorem disjoint_range' {s n s' n' : Nat} (h : (List.range' s n).Disjoint (List.range' s' n')) :
    s' + n' ≤ s ∨ s + n ≤ s' ∨ n = 0 ∨ n' = 0 := by
  by_contra hc
  refine h (a := max s s') ?_ ?_
  · rw [List.mem_range'_1]
    omega
  · rw [List.mem_range'_1]
    omega

omit [DecidableEq Key] in
theorem getElem?_of_mem_slice {vs slice : List (ValidatorStakeInfo Key)} {start n : Nat}
    (h : BigVec.deserializeSlice vs start n = .ok slice) {v : ValidatorStakeInfo Key} (hv : v ∈ slice) :
    ∃ k ∈ List.range' start n, vs[k]? = some v := by
  obtain ⟨hle, rfl⟩ := BigVec.deserializeSlice_eq_ok.1 h
  obtain ⟨i, hi⟩ := List.getElem?_of_mem hv
  have hlt : i < n := by
    have := (List.getElem?_eq_some_iff.1 hi).1
    rw [List.length_take] at this
    omega
  rw [List.getElem?_take_of_lt hlt, List.getElem?_drop] at hi
  exact ⟨start + i, List.mem_range'_1.2 ⟨by omega, by omega⟩, hi⟩

omit [DecidableEq Key] in
theorem vote_ne_of_slices {vs slice slice' : List (ValidatorStakeInfo Key)} {s n s' n' : Nat}
    (hn : (vs.map (·.voteAccountAddress)).Nodup) (hd : (List.range' s n).Disjoint (List.range' s' n'))
    (h : BigVec.deserializeSlice vs s n = .ok slice) (h' : BigVec.deserializeSlice vs s' n' = .ok slice') :
    ∀ v ∈ slice, ∀ u ∈ slice', v.voteAccountAddress ≠ u.voteAccountAddress := by
  intro v hv u hu he
  obtain ⟨i, hi, hvi⟩ := getElem?_of_mem_slice h hv
  obtain ⟨j, hj, huj⟩ := getElem?_of_mem_slice h' hu
  have hlt : i < (vs.map (·.voteAccountAddress)).length := by
    rw [List.length_map]
    exact (List.getElem?_eq_some_iff.1 hvi).1
  have hij : i = j := (List.getElem?_inj hlt hn).1 (by
    rw [List.getElem?_map, List.getElem?_map, hvi, huj, Option.map_some, Option.map_some, he])
  exact hd hi (hij ▸ hj)

/-! ## Two updates -/

/-- What updates of the list keep, and need in order to be independent. -/
structure Ready (rt : Runtime Key) (w : World Key) : Prop where
  reserve : ∃ m, (w.accounts w.stakePool.reserveStake).kind = reserveKind rt m
  pda : ¬ rt.StakePda w.stakePool.reserveStake
  votes : (w.validatorList.validators.map (·.voteAccountAddress)).Nodup

section
variable {a b : UpdateValidatorListBalanceAccounts Key} {s s' : Nat} {noMerge noMerge' : Bool}
  (hl : rt.Lawful) (hm : rt.MergeIgnoresBalance) (hw : Ready rt w)
  (hd : (List.range' s (a.validatorStakeAccounts.length / 2)).Disjoint
    (List.range' s' (b.validatorStakeAccounts.length / 2)))
include hl hm hw

theorem Ready.update (h : a.process rt w s noMerge = .ok w₁) : Ready rt w₁ := by
  obtain ⟨m, hr⟩ := hw.reserve
  obtain ⟨ha, slice, acc, slice', hs, hu, rfl⟩ := process_eq_ok.1 h
  obtain ⟨pre, post, -, hvs, hwrite⟩ := BigVec.writeSlice_of_deserialize hs (updateEntries_length hu)
  have hkind := Local.kind_pot Account.kind_vadd
    (updateEntries_local w noMerge hl hm ha.poolKey ha.reserveKey (not_mem_stakeAccounts hw.pda slice) _) hr hu
  refine ⟨⟨m, hkind⟩, hw.pda, ?_⟩
  have hn := hw.votes
  rw [hvs] at hn
  show ((BigVec.writeSlice w.validatorList.validators s slice').map (·.voteAccountAddress)).Nodup
  rw [hwrite]
  simpa only [List.map_append, updateEntries_votes hu] using hn

include hd

/-- An update that succeeds after another one succeeds before it. -/
theorem process_keeps (h : a.process rt w s noMerge = .ok w₁) (h' : b.process rt w₁ s' noMerge' = .ok w₂) :
    ∃ w₃, b.process rt w s' noMerge' = .ok w₃ := by
  obtain ⟨m, hr⟩ := hw.reserve
  obtain ⟨ha, slice, acc, slice', hs, hu, rfl⟩ := process_eq_ok.1 h
  obtain ⟨hb, part, acc', part', ht, hv, -⟩ := process_eq_ok.1 h'
  have hlen := updateEntries_length hu
  have hslice := BigVec.length_of_deserialize hs
  have hd' := disjoint_range' hd
  dsimp only at ht
  rw [BigVec.deserializeSlice_writeSlice (by omega) (by omega)] at ht
  have hboth := Local.keeps Account.kind_vadd
    (updateEntries_local w noMerge hl hm ha.poolKey ha.reserveKey (not_mem_stakeAccounts hw.pda slice) _)
    (updateEntries_local w noMerge' hl hm hb.poolKey hb.reserveKey (not_mem_stakeAccounts hw.pda part)
      (pairs b.validatorStakeAccounts))
    (disjoint_stakeAccounts hl (vote_ne_of_slices hw.votes hd hs ht)) (not_mem_stakeAccounts hw.pda part) hr hu
  rw [updateEntries_world] at hv
  rw [hv] at hboth
  cases hx : b.updateEntries rt w noMerge' w.accounts part (pairs b.validatorStakeAccounts) with
  | error e =>
    rw [hx] at hboth
    cases hboth
  | ok r => exact ⟨_, process_eq_ok.2 ⟨hb, part, r.1, r.2, ht, hx, rfl⟩⟩

/-- Two updates that succeed can be swapped. -/
theorem process_swap (h : a.process rt w s noMerge = .ok w₁) (h' : b.process rt w s' noMerge' = .ok w₂) :
    ∃ w₃, b.process rt w₁ s' noMerge' = .ok w₃ ∧ a.process rt w₂ s noMerge = .ok w₃ := by
  obtain ⟨m, hr⟩ := hw.reserve
  obtain ⟨ha, slice, acc, slice', hs, hu, rfl⟩ := process_eq_ok.1 h
  obtain ⟨hb, part, acc', part', ht, hv, rfl⟩ := process_eq_ok.1 h'
  have hlen := updateEntries_length hu
  have hlen' := updateEntries_length hv
  have hslice := BigVec.length_of_deserialize hs
  have hpart := BigVec.length_of_deserialize ht
  have hd' := disjoint_range' hd
  obtain ⟨acc₃, h₁, h₂⟩ := Local.swap Account.kind_vadd
    (updateEntries_local w noMerge hl hm ha.poolKey ha.reserveKey (not_mem_stakeAccounts hw.pda slice) _)
    (updateEntries_local w noMerge' hl hm hb.poolKey hb.reserveKey (not_mem_stakeAccounts hw.pda part) _)
    (disjoint_stakeAccounts hl (vote_ne_of_slices hw.votes hd hs ht)) (not_mem_stakeAccounts hw.pda slice)
    (not_mem_stakeAccounts hw.pda part) hr hu hv
  refine ⟨_, process_eq_ok.2 ⟨hb, part, acc₃, part', ?_, ?_, rfl⟩,
    process_eq_ok.2 ⟨ha, slice, acc₃, slice', ?_, ?_, ?_⟩⟩
  · rw [← ht]
    exact BigVec.deserializeSlice_writeSlice (by omega) (by omega)
  · rw [updateEntries_world]
    exact h₁
  · rw [← hs]
    exact BigVec.deserializeSlice_writeSlice (by omega) (by omega)
  · rw [updateEntries_world]
    exact h₂
  · dsimp only
    rw [BigVec.writeSlice_comm (by omega) (by omega) (by omega)]

end

/-! ## Instructions -/

variable [Inhabited Key]

omit [DecidableEq Key] in
theorem Ready.of_inv (hi : Inv rt w) : Ready rt w where
  reserve := by
    obtain ⟨m, hd, -⟩ := hi.core.reserve_ok.state
    exact ⟨m, Prod.ext hi.core.reserve_ok.owner hd⟩
  pda := hi.core.reserve_pda
  votes := hi.core.votes

/-- An instruction that updates a part of the list. -/
def Instruction.UpdatesList (ins : Instruction Key) : Prop :=
  ∃ start noMerge, ins.data = .updateValidatorListBalance start noMerge

/-- Executes an instruction if it succeeds. -/
def Instruction.execute? (rt : Runtime Key) (w : World Key) (ins : Instruction Key) : Option (World Key) :=
  (ins.execute rt w).toOption

/-- Sends instructions without waiting: one that fails does not keep the others from being executed. -/
def sendAll (rt : Runtime Key) (w : World Key) (instrs : List (Instruction Key)) : World Key :=
  System.attemptAll (Instruction.execute? rt) w instrs

omit [Inhabited Key] in
theorem parse_length {accounts rest : List (AccountInfo Key)} {a : UpdateValidatorListBalanceAccounts Key}
    (h : (parse rt).run accounts = .ok (a, rest)) : a.validatorStakeAccounts.length = accounts.length - 7 := by
  simp only [StateT.run, parse, nextAccountInfo_bind, nextSysvar_bind] at h
  obtain ⟨_, _, rfl, _, _, rfl, _, _, rfl, _, _, rfl, _, _, rfl, -, _, _, rfl, _, _, rfl, h⟩ := h
  cases h
  rfl

/-- An update of the list never succeeds, or it is the loop for its indices. -/
theorem Instruction.UpdatesList.execute (rt : Runtime Key) {ins : Instruction Key} (h : ins.UpdatesList) :
    (∀ w, ins.execute? rt w = none) ∨
      ∃ (a : UpdateValidatorListBalanceAccounts Key) (start : Nat) (noMerge : Bool),
        ins.indices = List.range' start (a.validatorStakeAccounts.length / 2) ∧
        ∀ w, ins.execute? rt w = (a.process rt w start noMerge).toOption := by
  obtain ⟨start, noMerge, hdata⟩ := h
  have hx : ∀ w, ins.execute? rt w = ((parse rt).run ins.accounts >>= fun r =>
      r.1.process rt w start noMerge).toOption := by
    intro w
    rw [Instruction.execute?, Instruction.execute, hdata]
    rfl
  cases hp : (parse rt).run ins.accounts with
  | error e =>
    refine .inl fun w => ?_
    rw [hx, hp]
    rfl
  | ok r =>
    refine .inr ⟨r.1, start, noMerge, ?_, fun w => ?_⟩
    · rw [parse_length hp, Instruction.indices, hdata]
    · rw [hx, hp]
      rfl

/-- Updates of disjoint parts of the list can be swapped. -/
theorem Ready.swaps (hl : rt.Lawful) (hm : rt.MergeIgnoresBalance) (hw : Ready rt w) {x y : Instruction Key}
    (hx : x.UpdatesList) (hy : y.UpdatesList) (hd : x.indices.Disjoint y.indices) :
    System.Swaps (Instruction.execute? rt) w x y := by
  rcases hx.execute rt with hx | ⟨a, s, noMerge, hxi, hx⟩
  · refine ⟨fun t u ht => ?_, fun t ht => ?_, fun u _ _ => hx u⟩
    · rw [hx] at ht
      cases ht
    · rw [hx] at ht
      cases ht
  rcases hy.execute rt with hy | ⟨b, s', noMerge', hyi, hy⟩
  · refine ⟨fun t u _ hu => ?_, fun t _ _ => hy t, fun u hu => ?_⟩
    · rw [hy] at hu
      cases hu
    · rw [hy] at hu
      cases hu
  rw [hxi, hyi] at hd
  refine ⟨fun t u ht hu => ?_, fun t ht hu => ?_, fun u hu ht => ?_⟩
  · rw [hx, toOption_eq_some] at ht
    rw [hy, toOption_eq_some] at hu
    obtain ⟨r, h₁, h₂⟩ := process_swap hl hm hw hd ht hu
    exact ⟨r, by rw [hy, toOption_eq_some, h₁], by rw [hx, toOption_eq_some, h₂]⟩
  · rw [hx, toOption_eq_some] at ht
    cases hn : y.execute? rt t with
    | none => rfl
    | some r =>
      rw [hy, toOption_eq_some] at hn
      obtain ⟨r', hr'⟩ := process_keeps hl hm hw hd ht hn
      rw [hy, hr'] at hu
      cases hu
  · rw [hy, toOption_eq_some] at hu
    cases hn : x.execute? rt u with
    | none => rfl
    | some r =>
      rw [hx, toOption_eq_some] at hn
      obtain ⟨r', hr'⟩ := process_keeps hl hm hw hd.symm hu hn
      rw [hx, hr'] at ht
      cases ht

theorem Ready.execute (hl : rt.Lawful) (hm : rt.MergeIgnoresBalance) (hw : Ready rt w) {x : Instruction Key}
    (hx : x.UpdatesList) (h : x.execute? rt w = some w₁) : Ready rt w₁ := by
  rcases hx.execute rt with hx | ⟨a, s, noMerge, -, hx⟩
  · rw [hx] at h
    cases h
  · rw [hx, toOption_eq_some] at h
    exact hw.update hl hm h

theorem executeAll_toOption (instrs : List (Instruction Key)) (w : World Key) :
    (executeAll rt w instrs).toOption = System.runList (Instruction.execute? rt) w instrs := by
  induction instrs generalizing w with
  | nil => rfl
  | cons ins instrs ih =>
    rw [executeAll, System.runList_cons, Instruction.execute?]
    cases h : ins.execute rt w with
    | error e => rfl
    | ok w' => exact ih w'

/-- Updates of disjoint parts of the list can be executed in any order: two of them, a list of them, and a list
of them of which some may fail. The worlds after them are the same, so the list, the reserve and all stake
accounts are. -/
theorem update_chunks_commute (hl : rt.Lawful) (hm : rt.MergeIgnoresBalance)
    (hr : (poolSystem rt).Reachable w) :
    (∀ x y : Instruction Key, x.UpdatesList → y.UpdatesList → x.indices.Disjoint y.indices →
      ∀ w', executeAll rt w [x, y] = .ok w' ↔ executeAll rt w [y, x] = .ok w') ∧
    ∀ instrs order : List (Instruction Key), (∀ ins ∈ instrs, ins.UpdatesList) →
      instrs.Pairwise (fun x y => x.indices.Disjoint y.indices) → instrs.Perm order →
      (∀ w', executeAll rt w instrs = .ok w' ↔ executeAll rt w order = .ok w') ∧
        sendAll rt w instrs = sendAll rt w order := by
  have hready : Ready rt w := .of_inv (Inv.of_reach hl hr)
  have hkeep : ∀ (u : World Key) (x : Instruction Key) t, Ready rt u → x.UpdatesList →
      x.execute? rt u = some t → Ready rt t := fun u x t hu hx h => hu.execute hl hm hx h
  have hswap : ∀ (u : World Key) (x y : Instruction Key), Ready rt u → x.UpdatesList → y.UpdatesList →
      x.indices.Disjoint y.indices → System.Swaps (Instruction.execute? rt) u x y :=
    fun u x y hu hx hy hd => hu.swaps hl hm hx hy hd
  have horder : ∀ instrs order : List (Instruction Key), (∀ ins ∈ instrs, ins.UpdatesList) →
      instrs.Pairwise (fun x y => x.indices.Disjoint y.indices) → instrs.Perm order →
      ∀ w', executeAll rt w instrs = .ok w' ↔ executeAll rt w order = .ok w' := by
    intro instrs order hu hd hp w'
    rw [← toOption_eq_some, ← toOption_eq_some, executeAll_toOption, executeAll_toOption,
      System.runList_perm hkeep hswap (fun x y h => h.symm) hp w hready hu hd]
  refine ⟨fun x y hx hy hd => ?_, fun instrs order hu hd hp => ⟨horder instrs order hu hd hp, ?_⟩⟩
  · refine horder [x, y] [y, x] ?_ (by simpa using hd) (.swap y x [])
    intro ins hins
    rcases List.mem_pair.1 hins with rfl | rfl
    · exact hx
    · exact hy
  · exact System.attemptAll_perm hkeep hswap (fun x y h => h.symm) hp w hready hu hd

section
open Reference

theorem merge_ignoresBalance : runtime.MergeIgnoresBalance := by
  intro sys auth kd ks src owner m n n' r h
  replace h : Reference.merge sys auth (kd, ⟨n, owner, .stakeState (.initialized m)⟩) (ks, src) = .ok r := h
  show ∃ r', Reference.merge sys auth (kd, ⟨n', owner, .stakeState (.initialized m)⟩) (ks, src) = .ok r'
  simp only [Reference.merge, bind_eq_ok, ensure_eq_ok, exists_unit, pure_eq_ok] at h ⊢
  obtain ⟨hk, ho, d, hd, s, hs, md, hmd, ms, hms, hauth, hst, pd, hpd, ps, hps, hph, g, hg, -⟩ := h
  exact ⟨_, hk, ho, d, hd, s, hs, md, hmd, ms, hms, hauth, hst, pd, hpd, ps, hps, hph, g, hg, rfl⟩

/-- A pool with two validators, in the next epoch. -/
def paired : World Reference.Key :=
  after (opened noFee noFee noFee) [depositSol 100000000 0, addValidator vote, addValidator vote',
    .advanceEpoch 11 false (fun _ => none)]

/-- The update of one entry. -/
def updateOne (vote : Reference.Key) (startIndex : Nat) : Instruction Reference.Key where
  programId := runtime.programId
  accounts := [poolInfo, authorityInfo, listInfo, reserveInfo, clock, Reference.unused, stakeInfo,
    Reference.writable (Reference.validatorStake vote), Reference.writable (Reference.transientStake vote 0)]
  data := .updateValidatorListBalance startIndex false

theorem update_chunks_commute_paired : ∃ w',
    executeAll runtime paired [updateOne vote 0, updateOne vote' 1] = .ok w' ∧
      executeAll runtime paired [updateOne vote' 1, updateOne vote 0] = .ok w' := by
  have hr : (poolSystem runtime).Reachable paired :=
    reachable_after (initialized_opened (by decide +kernel)) (by decide +kernel)
  have hx : (executeAll runtime paired [updateOne vote 0, updateOne vote' 1]).toOption.isSome := by decide +kernel
  obtain ⟨w', hw⟩ := Option.isSome_iff_exists.1 hx
  have hw := toOption_eq_some.1 hw
  have hd : (updateOne vote 0).indices.Disjoint (updateOne vote' 1).indices := by
    show ∀ k ∈ [0], k ∈ [1] → False
    decide
  exact ⟨w', hw, ((update_chunks_commute lawful merge_ignoresBalance hr).1 _ _ ⟨0, false, rfl⟩ ⟨1, false, rfl⟩ hd
    w').1 hw⟩

end

end SplStakePool
