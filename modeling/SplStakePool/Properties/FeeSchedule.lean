import SplStakePool.Invariant.Backing
import SplStakePool.Runtime.Session

/-!
# The fee schedule

A fee that is requested in an epoch is not taken before two updates in two later epochs. The history of a
run says where a pending fee comes from: `Scheduled` is kept by every step.

A pending fee has one or two epochs to go. The history of the first kind ends with a request and no update in a later
epoch since; that of the second kind has such an update behind the request, with no other request after it. A step
that is neither a request nor an update of a new epoch extends both, and the epochs of updates never fall.
-/

namespace SplStakePool
open Exec Machine System

variable {Key : Type} [DecidableEq Key] {rt : Runtime Key} {w w' : World Key} {p p' : StakePool Key}
  {k : ScheduledFee}

/-- The scheduled fee that a step requests. -/
def Label.request : Label Key → Option (ScheduledFee × Fee)
  | .instruction _ (.setFee fee) => fee.request
  | _ => none

/-- An `UpdateStakePoolBalance` -/
def Label.isUpdate : Label Key → Bool
  | .instruction _ .updateStakePoolBalance => true
  | _ => false

variable (Key) in
/-- The steps of a run, in order. -/
abbrev History := List (Event (World Key) (Label Key))

/-- No step of a history requests the fee. -/
def Unrequested (k : ScheduledFee) (es : History Key) : Prop :=
  ∀ e ∈ es, ∀ fee, e.label.request ≠ some (k, fee)

/-- Where a pending fee comes from: the last request of it, in the epoch of the last update, or one
before an update in a later epoch. -/
def Scheduled (k : ScheduledFee) (es : History Key) (updated : Nat) : FutureEpoch Fee → Prop
  | .none => True
  | .two fee => ∃ es₁ set es₂, es = es₁ ++ set :: es₂ ∧ set.label.request = some (k, fee) ∧
      set.source.sysvars.epoch = updated ∧ Unrequested k es₂
  | .one fee => ∃ es₁ set es₂ upd es₃, es = es₁ ++ set :: es₂ ++ upd :: es₃ ∧
      set.label.request = some (k, fee) ∧ upd.label.isUpdate ∧
      set.source.sysvars.epoch < upd.source.sysvars.epoch ∧ upd.source.sysvars.epoch = updated ∧
      Unrequested k es₂ ∧ Unrequested k es₃

omit [DecidableEq Key] in
theorem Unrequested.snoc {es : History Key} {e : Event (World Key) (Label Key)} (h : Unrequested k es)
    (he : ∀ fee, e.label.request ≠ some (k, fee)) : Unrequested k (es ++ [e]) := by
  intro e' he'
  rcases List.mem_append.1 he' with he' | he'
  · exact h e' he'
  · rw [List.mem_singleton.1 he']
    exact he

omit [DecidableEq Key] in
theorem Scheduled.snoc {es : History Key} {e : Event (World Key) (Label Key)} {updated : Nat}
    {f : FutureEpoch Fee} (h : Scheduled k es updated f) (he : ∀ fee, e.label.request ≠ some (k, fee)) :
    Scheduled k (es ++ [e]) updated f := by
  cases f with
  | none => trivial
  | two fee =>
    obtain ⟨es₁, set, es₂, rfl, hs, hu, hn⟩ := h
    exact ⟨es₁, set, es₂ ++ [e], by simp, hs, hu, hn.snoc he⟩
  | one fee =>
    obtain ⟨es₁, set, es₂, upd, es₃, rfl, hs, hu, hlt, hup, hn₂, hn₃⟩ := h
    exact ⟨es₁, set, es₂, upd, es₃ ++ [e], by simp, hs, hu, hlt, hup, hn₂, hn₃.snoc he⟩

omit [DecidableEq Key] in
/-- An update in a later epoch advances the schedule. -/
theorem Scheduled.advance {es : History Key} {e : Event (World Key) (Label Key)} {updated : Nat}
    {f : FutureEpoch Fee} (h : Scheduled k es updated f) (hu : e.label.isUpdate)
    (hlt : updated < e.source.sysvars.epoch) :
    Scheduled k (es ++ [e]) e.source.sysvars.epoch f.updateEpoch := by
  cases f with
  | two fee =>
    obtain ⟨es₁, set, es₂, rfl, hs, rfl, hn⟩ := h
    exact ⟨es₁, set, es₂, e, [], by simp, hs, hu, hlt, rfl, hn, by simp [Unrequested]⟩
  | _ => trivial

/-- What a step has done to the fees: a step that does not set them keeps or, if it is an update, advances
them. -/
inductive Schedules (l : Label Key) (epoch : Nat) (p p' : StakePool Key) : Prop
  | kept (hl : l.request = none) (hn : ¬ l.isUpdate) (ha : ∀ k, p'.activeFee k = p.activeFee k)
      (hp : ∀ k, p'.pendingFee k = p.pendingFee k) (hu : p'.lastUpdateEpoch = p.lastUpdateEpoch)
  | requested {k : ScheduledFee} {fee : Fee} (hl : l.request = some (k, fee))
      (hf : epoch ≤ p.lastUpdateEpoch) (ha : ∀ k, p'.activeFee k = p.activeFee k)
      (hp : p'.pendingFee k = .two fee) (hn : ∀ j, j ≠ k → p'.pendingFee j = p.pendingFee j)
      (hu : p'.lastUpdateEpoch = p.lastUpdateEpoch)
  | updated (hl : l.isUpdate) (h : SameFees (p.updateEpoch epoch) p')

omit [DecidableEq Key] in
theorem FeeType.canOnlyChangeNextEpoch_of_request {fee : FeeType} {r : ScheduledFee × Fee}
    (h : fee.request = some r) : fee.canOnlyChangeNextEpoch := by
  cases fee <;> first | rfl | cases h

variable [Inhabited Key]

theorem process_schedules {accounts : List (AccountInfo Key)} {i : StakePoolInstruction Key}
    (hi : ¬ i.isInitialize) (h : process rt w accounts i = .ok w') :
    Schedules (.instruction accounts i) w.sysvars.epoch w.stakePool w'.stakePool := by
  by_cases hs : ∃ fee, i = .setFee fee
  · obtain ⟨fee, rfl⟩ := hs
    obtain ⟨hf, -, p, hp, rfl⟩ := processSetFee_ok h
    cases hr : fee.request with
    | none =>
      exact .kept hr Bool.false_ne_true (fun k => (StakePool.updateFee_active hp k).1) (StakePool.updateFee_pending hp hr)
        (StakePool.updateFee_active hp .epoch).2
    | some r =>
      obtain ⟨k, f⟩ := r
      obtain ⟨hk, hn⟩ := StakePool.updateFee_request hp hr
      exact .requested hr (hf (FeeType.canOnlyChangeNextEpoch_of_request hr))
        (fun k => (StakePool.updateFee_active hp k).1) hk hn (StakePool.updateFee_active hp .epoch).2
  by_cases hb : i = .updateStakePoolBalance
  · subst hb
    obtain ⟨_, _, -, _, _, _, h⟩ := processUpdateStakePoolBalance_ok h
    exact .updated rfl h.fees
  · have hr : (Label.instruction accounts i).request = none := by
      cases i with
      | setFee fee => exact absurd ⟨fee, rfl⟩ hs
      | _ => rfl
    have hn : ¬ (Label.instruction accounts i).isUpdate := by
      cases i with
      | updateStakePoolBalance => exact absurd rfl hb
      | _ => exact Bool.false_ne_true
    cases (process_executed hi h).fees with
    | kept h => exact .kept hr hn h.active h.pending h.lastUpdateEpoch
    | set hi => exact absurd ⟨_, hi⟩ hs
    | balanced hi => exact absurd hi hb

theorem Step.schedules (hl : rt.Lawful) (hi : Inv rt w) {l : Label Key} (h : Step rt w l w') :
    Schedules l w.sysvars.epoch w.stakePool w'.stakePool := by
  cases h with
  | instruction _ h => exact process_schedules (not_isInitialize hl hi.pool.valid h) h
  | env h =>
    rw [h.ambient.pool]
    have hl : l.request = none ∧ ¬ l.isUpdate := by cases h <;> exact ⟨rfl, Bool.false_ne_true⟩
    exact .kept hl.1 hl.2 (fun _ => rfl) (fun _ => rfl) rfl

/-- What an update has done to the fees. -/
theorem Step.updated (hl : rt.Lawful) (hi : Inv rt w) {l : Label Key} (h : Step rt w l w')
    (hu : l.isUpdate) : SameFees (w.stakePool.updateEpoch w.sysvars.epoch) w'.stakePool := by
  cases h.schedules hl hi with
  | kept _ hn => exact absurd hu hn
  | requested hr =>
    cases l with
    | instruction accounts i => cases i <;> first | cases hr | cases hu
    | _ => cases hu
  | updated _ h => exact h

theorem Step.epoch_le (hl : rt.Lawful) (hi : Inv rt w) {l : Label Key} (h : Step rt w l w') :
    w.sysvars.epoch ≤ w'.sysvars.epoch := by
  cases h with
  | instruction _ h =>
    rw [(process_executed (not_isInitialize hl hi.pool.valid h) h).statics.sysvars]
  | env h => exact h.ambient.epoch

/-- The epoch of the last update is not in the future, and does not fall. -/
theorem Step.lastUpdateEpoch (hl : rt.Lawful) (hi : Inv rt w) {l : Label Key} (h : Step rt w l w')
    (hle : w.stakePool.lastUpdateEpoch ≤ w.sysvars.epoch) :
    w.stakePool.lastUpdateEpoch ≤ w'.stakePool.lastUpdateEpoch ∧
      w'.stakePool.lastUpdateEpoch ≤ w'.sysvars.epoch := by
  have hepoch := h.epoch_le hl hi
  cases h.schedules hl hi with
  | kept _ _ _ _ hu | requested _ _ _ _ _ hu => omega
  | updated _ h =>
    have hu := h.lastUpdateEpoch
    rw [StakePool.lastUpdateEpoch_updateEpoch] at hu
    split at hu <;> omega

/-- The history of a run says where every pending fee comes from. -/
theorem Scheduled.of_run (hl : rt.Lawful) {s : World Key} {es : History Key} (hs : Initialized rt s)
    (h : (poolSystem rt).Run s es w) : w.stakePool.lastUpdateEpoch ≤ w.sysvars.epoch ∧
      ∀ k, Scheduled k es w.stakePool.lastUpdateEpoch (w.stakePool.pendingFee k) := by
  refine h.invariant (I := fun es w => w.stakePool.lastUpdateEpoch ≤ w.sysvars.epoch ∧
    ∀ k, Scheduled k es w.stakePool.lastUpdateEpoch (w.stakePool.pendingFee k)) ?_ ?_
  · obtain ⟨w₀, accounts, fee, withdrawalFee, depositFee, referralFee, maxValidators, -, h⟩ := hs
    obtain ⟨_, _, _, _, h⟩ := processInitialize_ok hl h
    obtain ⟨_, hw⟩ := h.result
    rw [hw]
    exact ⟨Nat.le_refl _, fun k => by cases k <;> trivial⟩
  · intro es t l u ht hI hstep
    have hi := Inv.of_reach hl (ht.reachable hs)
    obtain ⟨hle, hI⟩ := hI
    refine ⟨(hstep.lastUpdateEpoch hl hi hle).2, fun k => ?_⟩
    cases hstep.schedules hl hi with
    | kept hr _ _ hp hu =>
      rw [hp, hu]
      exact (hI k).snoc fun fee he => by rw [hr] at he; cases he
    | @requested j fee hr hf _ hp hn hu =>
      by_cases hk : k = j
      · subst hk
        rw [hp, hu]
        exact ⟨es, _, [], rfl, hr, le_antisymm hf hle, by simp [Unrequested]⟩
      · rw [hn k hk, hu]
        exact (hI k).snoc fun fee he => by rw [hr] at he; cases he; exact hk rfl
    | updated hl' h =>
      have hr : l.request = none := by
        cases l with
        | instruction accounts i => cases i <;> first | rfl | cases hl'
        | _ => cases hl'
      rw [h.pending, h.lastUpdateEpoch, StakePool.pendingFee_updateEpoch, StakePool.lastUpdateEpoch_updateEpoch]
      split
      · exact (hI k).advance (e := ⟨t, l, u⟩) hl' ‹_›
      · exact (hI k).snoc fun fee he => by rw [hr] at he; cases he

/-- A scheduled fee only changes at an update, to the last fee that was requested, two epochs after the
request and one after another update. A second update in an epoch changes nothing, and no fee is more than
one. -/
theorem fee_schedule (hl : rt.Lawful) {s : World Key} {es : History Key} (hs : Initialized rt s)
    (h : (poolSystem rt).Run s es w) :
    (∀ l w' k, Step rt w l w' → w'.stakePool.activeFee k ≠ w.stakePool.activeFee k →
      l.isUpdate ∧ ∃ es₁ set es₂ upd es₃, es = es₁ ++ set :: es₂ ++ upd :: es₃ ∧
        set.label.request = some (k, w'.stakePool.activeFee k) ∧ upd.label.isUpdate ∧
        set.source.sysvars.epoch < upd.source.sysvars.epoch ∧
        upd.source.sysvars.epoch < w.sysvars.epoch ∧
        set.source.sysvars.epoch + 2 ≤ w.sysvars.epoch ∧ Unrequested k es₂ ∧ Unrequested k es₃) ∧
    (∀ es₁ e es₂ e' es₃, es = es₁ ++ e :: es₂ ++ e' :: es₃ → e.label.isUpdate → e'.label.isUpdate →
      e'.source.sysvars.epoch = e.source.sysvars.epoch → ∀ k,
      e'.target.stakePool.activeFee k = e'.source.stakePool.activeFee k ∧
        e'.target.stakePool.pendingFee k = e'.source.stakePool.pendingFee k) ∧
    FeesOk w.stakePool := by
  refine ⟨fun l w' k hstep hne => ?_, fun es₁ e es₂ e' es₃ he hu hu' hepoch k => ?_,
    (Backing.of_reach hl (h.reachable hs)).fees⟩
  · have hi := Inv.of_reach hl (h.reachable hs)
    cases hstep.schedules hl hi with
    | kept _ _ ha => exact absurd (ha k) hne
    | requested _ _ ha => exact absurd (ha k) hne
    | updated hlu hsame =>
      rw [hsame.active, StakePool.activeFee_updateEpoch] at hne ⊢
      split at hne
      · rename_i hlt
        rw [if_pos hlt]
        obtain ⟨-, hsch⟩ := Scheduled.of_run hl hs h
        have hsch := hsch k
        cases hp : w.stakePool.pendingFee k with
        | none | two => rw [hp] at hne; exact absurd rfl hne
        | one fee =>
          rw [hp] at hsch
          obtain ⟨es₁, set, es₂, upd, es₃, rfl, hset, hupd, hlt', hlast, hn₂, hn₃⟩ := hsch
          exact ⟨hlu, es₁, set, es₂, upd, es₃, rfl, hset, hupd, hlt', by omega, by omega, hn₂, hn₃⟩
      · exact absurd rfl hne
  · -- the first update leaves the pool updated, and no step moves that back
    rw [List.append_assoc, List.cons_append] at he
    obtain ⟨h₁, hse, h₂⟩ := h.cut _ _ _ he
    obtain ⟨h₃, hse', -⟩ := h₂.cut _ _ _ rfl
    have hi := Inv.of_reach hl (h₁.reachable hs)
    have hle := (Scheduled.of_run hl hs h₁).1
    have hafter : e.source.sysvars.epoch ≤ e.target.stakePool.lastUpdateEpoch := by
      rw [(hse.updated hl hi hu).lastUpdateEpoch, StakePool.lastUpdateEpoch_updateEpoch]
      split <;> omega
    have hreach : (poolSystem rt).Reachable e.target := (Reach.step ⟨s, hs, h₁.path⟩ trivial hse)
    have hlater : ∀ {es u}, (poolSystem rt).Run e.target es u →
        e.source.sysvars.epoch ≤ u.stakePool.lastUpdateEpoch ∧
          u.stakePool.lastUpdateEpoch ≤ u.sysvars.epoch := by
      intro es u hr
      refine hr.invariant (I := fun _ u => e.source.sysvars.epoch ≤ u.stakePool.lastUpdateEpoch ∧
        u.stakePool.lastUpdateEpoch ≤ u.sysvars.epoch)
        ⟨hafter, (hse.lastUpdateEpoch hl hi hle).2⟩ fun es t l u ht hI hs' => ?_
      have := hs'.lastUpdateEpoch hl (Inv.of_reach hl (Reach.trans_path hreach ht.path)) hI.2
      omega
    have hi' := Inv.of_reach hl (Reach.trans_path hreach h₃.path)
    have hsame := hse'.updated hl hi' hu'
    have hnot : ¬ e'.source.stakePool.lastUpdateEpoch < e'.source.sysvars.epoch := by
      have := (hlater h₃).1
      omega
    rw [hsame.active, hsame.pending, StakePool.activeFee_updateEpoch, StakePool.pendingFee_updateEpoch,
      if_neg hnot, if_neg hnot]
    exact ⟨rfl, rfl⟩

section
open Reference

/-- The manager asks for another epoch fee, and the pool is updated in the next epoch. -/
def noticed : World Reference.Key :=
  after (opened ⟨10, 1⟩ ⟨3, 1⟩ ⟨7, 1⟩) [setFee (.epoch ⟨20, 1⟩), .advanceEpoch 11 false (fun _ => none),
    updatePool, .advanceEpoch 12 false (fun _ => none)]

theorem fee_schedule_noticed : ∃ es, (poolSystem runtime).Run (opened ⟨10, 1⟩ ⟨3, 1⟩ ⟨7, 1⟩) es noticed ∧
    ∃ es₁ set es₂ upd es₃, es = es₁ ++ set :: es₂ ++ upd :: es₃ ∧
      set.label.request = some (.epoch, ⟨20, 1⟩) ∧ upd.label.isUpdate ∧
      set.source.sysvars.epoch + 2 ≤ noticed.sysvars.epoch := by
  have hpath : (poolSystem runtime).Path (fun _ _ => True) _ noticed :=
    after_path (fun _ _ _ _ => trivial) (by decide +kernel)
  obtain ⟨es, hr⟩ := Run.of_path hpath
  obtain ⟨h, -, -⟩ := fee_schedule lawful (initialized_opened (by decide +kernel)) hr
  have hfee : (next noticed updatePool).stakePool.activeFee .epoch = ⟨20, 1⟩ := by decide +kernel
  have hne : (next noticed updatePool).stakePool.activeFee .epoch ≠ noticed.stakePool.activeFee .epoch := by
    decide +kernel
  obtain ⟨-, es₁, set, es₂, upd, es₃, he, hs, hu, -, -, h2, -⟩ := h _ _ .epoch (next_step (by decide +kernel)) hne
  rw [hfee] at hs
  exact ⟨es, hr, es₁, set, es₂, upd, es₃, he, hs, hu, h2⟩

end

end SplStakePool
