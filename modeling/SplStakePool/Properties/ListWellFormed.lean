import SplStakePool.Invariant.Run
import SplStakePool.Layout
import SplStakePool.Runtime.Session

/-!
# The validator list is well formed

`Initialize` takes as many entries as the account has room for, and nothing changes that number. So the
list never outgrows the account, and no operation on the bytes of the account leaves them.

`Roomy` is the invariant, and only two instructions have to do with it: the one that adds an entry checks that there is
room, and the cleanup drops some. That the vote accounts are distinct is part of the invariant of runs.
-/

namespace SplStakePool
open Exec Machine System BigVec

variable {Key : Type} [DecidableEq Key] [Inhabited Key] {rt : Runtime Key} {s w w' : World Key}

/-- The list has room in its account for as many entries as its header says. -/
structure Roomy (w : World Key) : Prop where
  type : w.validatorList.header.accountType = .validatorList
  max_pos : 0 < w.validatorList.header.maxValidators
  max_le : w.validatorList.header.maxValidators ≤ maxValidatorsInPool
  fits : ValidatorList.calculateMaxValidators w.validatorListDataLen = w.validatorList.header.maxValidators
  length_le : w.validatorList.validators.length ≤ w.validatorList.header.maxValidators

omit [DecidableEq Key] [Inhabited Key] in
theorem Roomy.space (h : Roomy w) : ValidatorListHeader.len + vecSizeBytes +
    ValidatorStakeInfo.size * w.validatorList.header.maxValidators ≤ w.validatorListDataLen := by
  have hpos := h.max_pos
  have hfits := h.fits
  simp only [ValidatorList.calculateMaxValidators, ValidatorListHeader.len, ValidatorStakeInfo.size,
    vecSizeBytes] at hfits ⊢
  omega

omit [DecidableEq Key] [Inhabited Key] in
theorem Roomy.room (h : Roomy w)
    (hne : w.validatorList.header.maxValidators ≠ w.validatorList.validators.length) :
    vecSizeBytes + w.validatorList.validators.length * ValidatorStakeInfo.size + ValidatorStakeInfo.size ≤
      w.validatorListDataLen - ValidatorListHeader.len := by
  have hle := h.length_le
  have hspace := h.space
  have hroom := Nat.mul_le_mul_left ValidatorStakeInfo.size
    (show w.validatorList.validators.length + 1 ≤ w.validatorList.header.maxValidators by omega)
  rw [Nat.mul_succ, Nat.mul_comm] at hroom
  omega

omit [DecidableEq Key] [Inhabited Key] in
theorem length_votes (w : World Key) : w.votes.length = w.validatorList.validators.length := by
  rw [World.votes, List.length_map]

/-- A step keeps the header and the account, and only adds an entry where there is room. -/
theorem Step.roomy (hl : rt.Lawful) (hi : Inv rt w) {l : Label Key} (h : Step rt w l w') :
    w'.validatorList.header = w.validatorList.header ∧ (Roomy w → Roomy w') := by
  cases h with
  | instruction _ h =>
    have he := process_executed (not_isInitialize hl hi.pool.valid h) h
    have hs := he.statics
    refine ⟨hs.header, fun hr => ⟨?_, ?_, ?_, ?_, ?_⟩⟩
    · rw [hs.header]; exact hr.type
    · rw [hs.header]; exact hr.max_pos
    · rw [hs.header]; exact hr.max_le
    · rw [hs.header, hs.listLen]; exact hr.fits
    · have hle := hr.length_le
      rw [hs.header, ← length_votes]
      rw [← length_votes] at hle
      cases he.votes with
      | kept h => exact h.length_le.trans hle
      | pushed _ _ hroom h =>
        rw [← length_votes] at hroom
        rw [h, List.length_append, List.length_singleton]
        omega
  | env h =>
    have ha := h.ambient
    refine ⟨by rw [ha.list], fun hr => ⟨?_, ?_, ?_, ?_, ?_⟩⟩
    · rw [ha.list]; exact hr.type
    · rw [ha.list]; exact hr.max_pos
    · rw [ha.list]; exact hr.max_le
    · rw [ha.list, ha.listLen]; exact hr.fits
    · rw [ha.list]; exact hr.length_le

theorem Initialized.roomy (hl : rt.Lawful) (hs : Initialized rt s) : Roomy s := by
  obtain ⟨w₀, accounts, fee, withdrawalFee, depositFee, referralFee, maxValidators, -, h⟩ := hs
  obtain ⟨_, _, _, _, h⟩ := processInitialize_ok hl h
  obtain ⟨_, hw⟩ := h.result
  rw [hw]
  exact ⟨rfl, Nat.pos_of_ne_zero h.maxValidators_ne, h.maxValidators_le, h.maxValidators_eq, Nat.zero_le _⟩

theorem Roomy.of_reach (hl : rt.Lawful) {ok : World Key → Label Key → Prop} (h : (poolSystem rt).Reach ok w) :
    Roomy w :=
  h.invariant (fun _ hs => hs.roomy hl) fun _ _ _ ha hr _ hstep => (hstep.roomy hl (Inv.of_reach hl ha)).2 hr

/-- What the operations on the bytes of a stored list do: they stay inside of them, and find, change and
keep what their counterparts do in the list. -/
structure Accessible (keyBytes : Key → List UInt8) (w : World Key) (vec : List UInt8) : Prop where
  find : ∀ p, Raw.find ValidatorStakeInfo.size p vec =
    some ((w.validatorList.elements keyBytes).find? p)
  /-- Entries are found by comparing the bytes of their vote accounts. -/
  findVote : ∀ vote, (∀ v ∈ w.validatorList.validators,
      keyBytes v.voteAccountAddress = keyBytes vote → v.voteAccountAddress = vote) →
    Raw.find ValidatorStakeInfo.size (ValidatorStakeInfo.memcmpPubkeyBytes (keyBytes vote)) vec =
      some ((w.validatorList.find vote).map (·.bytes keyBytes))
  findMut : ∀ p e, (w.validatorList.elements keyBytes).find? p = some e →
    ∃ i, Raw.findMut ValidatorStakeInfo.size p vec = some (some (i, e)) ∧
      ∀ e' : List UInt8, e'.length = ValidatorStakeInfo.size → ∃ vec' tail, Buffer.write vec i e' = some vec' ∧
        Raw.Holds ValidatorStakeInfo.size (setFirst p e' (w.validatorList.elements keyBytes)) tail vec'
  findMut_none : ∀ p, (w.validatorList.elements keyBytes).find? p = none →
    Raw.findMut ValidatorStakeInfo.size p vec = some none
  slice : ∀ skip n, Raw.deserializeSlice ValidatorStakeInfo.size skip n vec =
    some ((deserializeSlice (w.validatorList.elements keyBytes) skip n).map List.flatten)
  writeSlice : ∀ skip (slice : List (List UInt8)), (∀ e ∈ slice, e.length = ValidatorStakeInfo.size) →
    skip + slice.length ≤ w.validatorList.validators.length →
    ∃ vec' tail, Raw.writeSlice ValidatorStakeInfo.size skip slice.flatten vec = some vec' ∧
      Raw.Holds ValidatorStakeInfo.size (writeSlice (w.validatorList.elements keyBytes) skip slice) tail vec'
  retain : ∀ p, ∃ vec' tail, Raw.retain ValidatorStakeInfo.size p vec = some (.ok (), vec') ∧
    Raw.Holds ValidatorStakeInfo.size ((w.validatorList.elements keyBytes).filter p) tail vec'
  push : w.validatorList.header.maxValidators ≠ w.validatorList.validators.length →
    ∀ e : List UInt8, e.length = ValidatorStakeInfo.size →
      ∃ vec' tail, Raw.push ValidatorStakeInfo.size e vec = some (.ok (), vec') ∧
        Raw.Holds ValidatorStakeInfo.size (w.validatorList.elements keyBytes ++ [e]) tail vec'

omit [Inhabited Key] in
/-- In a roomy account the operations stay inside. -/
theorem Roomy.accessible (hr : Roomy w) {keyBytes : Key → List UInt8} (hk : ∀ k, (keyBytes k).length = 32)
    {data vec : List UInt8} (h : Stores keyBytes w data vec) : Accessible keyBytes w vec := by
  obtain ⟨tail, hh⟩ := h.holds
  have hlen := hh.length
  have hle := hr.length_le
  have hcount : (w.validatorList.elements keyBytes).length = w.validatorList.validators.length :=
    List.length_map _
  have htotal : data.length = ValidatorListHeader.len + vec.length := by
    rw [h.split, List.length_append, ValidatorListHeader.length_bytes]
  have hdata := h.length
  refine ⟨fun p => hh.find, fun vote hinj => ?_, fun p e he => ?_, fun p hp => hh.findMut_none hp,
    hh.deserializeSlice, fun skip slice hs hle' => ?_, fun p => ?_, fun hne e he => ?_⟩
  · rw [hh.find, ValidatorList.find?_elements hk hinj]
  · obtain ⟨i, hi, hw⟩ := hh.findMut_some he
    refine ⟨i, hi, fun e' he' => ?_⟩
    obtain ⟨vec', hv, hh'⟩ := hw e' he'
    exact ⟨vec', tail, hv, hh'⟩
  · obtain ⟨vec', hv, hh'⟩ := hh.writeSlice hs (by rwa [hcount])
    exact ⟨vec', tail, hv, hh'⟩
  · obtain ⟨vec', gap, hv, hh', -⟩ := hh.retain (p := p) (by decide)
    exact ⟨vec', gap ++ tail, hv, hh'⟩
  · have hmax := hr.max_le
    have hroom := hr.room hne
    rw [hcount] at hlen
    obtain ⟨vec', hv, hh'⟩ := hh.push he (by omega) (by
      rw [hcount]
      simp only [maxValidatorsInPool] at hmax
      omega)
    exact ⟨vec', _, hv, hh'⟩

/-- In every run from an accepted `Initialize`: the vote accounts are distinct, the list never has more
entries than its header says nor the header more than the account has room for, pushing never runs out of
space, no operation on the bytes of the account leaves them, and the header stays as it is. -/
theorem validator_list_well_formed (hl : rt.Lawful) (hs : Initialized rt s)
    (h : (poolSystem rt).Path (fun _ _ => True) s w) :
    w.votes.Nodup ∧
    w.validatorList.validators.length ≤ w.validatorList.header.maxValidators ∧
    w.validatorList.header.maxValidators ≤ 20000 ∧
    9 + 73 * w.validatorList.header.maxValidators ≤ w.validatorListDataLen ∧
    (∀ v, w.validatorList.header.maxValidators ≠ w.validatorList.validators.length →
      BigVec.push ValidatorStakeInfo.size (w.validatorListDataLen - ValidatorListHeader.len)
        w.validatorList.validators v = .ok (w.validatorList.validators ++ [v])) ∧
    (∀ (keyBytes : Key → List UInt8) (data vec : List UInt8), (∀ k, (keyBytes k).length = 32) →
      Stores keyBytes w data vec → Accessible keyBytes w vec) ∧
    w.validatorList.header = s.validatorList.header ∧
    w.validatorList.header.accountType = .validatorList := by
  have hr : Roomy w := .of_reach hl ⟨s, hs, h⟩
  have hheader : w.validatorList.header = s.validatorList.header :=
    h.invariant (I := fun w => w.validatorList.header = s.validatorList.header) rfl
      fun _ _ _ ha hI _ hstep => (hstep.roomy hl (Inv.of_reach hl ⟨s, hs, ha⟩)).1.trans hI
  exact ⟨(Inv.of_reach hl ⟨s, hs, h⟩).core.votes, hr.length_le, hr.max_le, hr.space,
    fun v hne => push_eq_ok.2 ⟨hr.room hne, rfl⟩, fun keyBytes data vec hk hst => hr.accessible hk hst,
    hheader, hr.type⟩

open Reference in
theorem validator_list_well_formed_joined :
    joined.votes.Nodup ∧ joined.validatorList.header = (opened noFee noFee noFee).validatorList.header := by
  obtain ⟨h₁, -, -, -, -, -, h₂, -⟩ := validator_list_well_formed lawful
    (initialized_opened (by decide +kernel)) (after_path (fun _ _ _ _ => trivial) (by decide +kernel) :
      (poolSystem runtime).Path (fun _ _ => True) (opened noFee noFee noFee) joined)
  exact ⟨h₁, h₂⟩

end SplStakePool
