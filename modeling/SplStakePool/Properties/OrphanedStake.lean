import SplStakePool.Invariant.Books
import SplStakePool.Properties.PriceFreshness

/-!
# No orphaned stake

Without donations, every derived account that holds lamports is one of exactly one entry, under the seeds
that the entry has now, and the entry records it. The records that an instruction relies on were refreshed in
its epoch (`Dated`), so they are exact when stake is moved (`Books`), and when a record is zero the account is
empty.

An account can be lost in two ways, when an entry is dropped and when its transient seed is replaced; in both the
record was zero before (`Step.dropped`). Donations are what would make an account hold more than its record says, so
that a run with one is not a run of this kind.
-/

namespace SplStakePool
open System

variable {Key : Type} [DecidableEq Key] {rt : Runtime Key} {s w w' : World Key} {l : Label Key}
  {v : ValidatorStakeInfo Key} {k : Key}

/-- No transfer to a derived stake address: neither by a third party nor as what a withdrawal pays out. -/
def NoDonation (rt : Runtime Key) (_ : World Key) : Label Key → Prop
  | .donate k _ => ¬ rt.StakePda k
  | .instruction accounts i => ∀ k, i.recipient rt accounts = some k → ¬ rt.StakePda k
  | _ => True

/-- Nothing is dated in the future, and the entries of an up-to-date pool are up to date. -/
structure Dated (w : World Key) : Prop where
  pool : w.stakePool.lastUpdateEpoch ≤ w.sysvars.epoch
  entries : ∀ v ∈ w.validatorList.validators, v.lastUpdateEpoch ≤ w.sysvars.epoch
  current : w.sysvars.epoch ≤ w.stakePool.lastUpdateEpoch →
    ∀ v ∈ w.validatorList.validators, w.sysvars.epoch ≤ v.lastUpdateEpoch

variable [Inhabited Key]

theorem Initialized.dated (hl : rt.Lawful) (hs : Initialized rt s) : Dated s := by
  obtain ⟨w₀, accounts, fee, withdrawalFee, depositFee, referralFee, maxValidators, -, h⟩ := hs
  obtain ⟨_, _, _, _, h⟩ := processInitialize_ok hl h
  obtain ⟨_, hw⟩ := h.result
  rw [hw]
  exact ⟨Nat.le_refl _, by simp, by simp⟩

theorem Step.dated (hl : rt.Lawful) (hi : Inv rt w) (hd : Dated w) (h : Step rt w l w') : Dated w' := by
  have hepoch := h.epoch_le hl hi
  have hpool := h.lastUpdateEpoch hl hi hd.pool
  refine ⟨hpool.2, fun u hu => ?_, fun hf u hu => ?_⟩
  · rcases h.kept hl hi hu with ⟨v, hv, -, he⟩ | ⟨he, -⟩
    · have := hd.entries v hv
      omega
    · dsimp only at he
      omega
  · have hsame : w'.stakePool.lastUpdateEpoch = w.stakePool.lastUpdateEpoch →
        w'.sysvars.epoch ≤ u.lastUpdateEpoch := by
      intro hu'
      have hle := hd.pool
      have hf' : w.sysvars.epoch ≤ w.stakePool.lastUpdateEpoch := by omega
      rcases h.kept hl hi hu with ⟨v, hv, -, he⟩ | ⟨he, -⟩
      · have := hd.current hf' v hv
        omega
      · dsimp only at he
        omega
    cases h.schedules hl hi with
    | kept _ _ _ _ hu' | requested _ _ _ _ _ hu' => exact hsame hu'
    | updated hlu _ =>
      -- the update has checked every entry
      obtain ⟨_, _, _, _, hok⟩ := h.update_ok hlu
      rw [congrArg World.validatorList hok.result] at hu
      rw [congrArg World.sysvars hok.result]
      exact hok.updated u hu

theorem Step.books (hl : rt.Lawful) (hi : Inv rt w) (hd : Dated w) (hb : w.InBooks rt)
    (hno : NoDonation rt w l) (h : Step rt w l w') : w'.InBooks rt := by
  cases h with
  | instruction hs h =>
    exact (process_executed (not_isInitialize hl hi.pool.valid h) h).books hl hs hi hno hd.current hb
  | env h =>
    refine h.books hl hi hb hd.entries ?_
    rintro k n rfl
    exact hno

omit [DecidableEq Key] in
theorem Refresh.run_addresses {reserve : Key} {epoch : Nat}
    {p q : Accounts Key × List (ValidatorStakeInfo Key)}
    (h : Relation.ReflTransGen (Refresh rt reserve epoch) p q) :
    ∀ v ∈ p.2, ∃ u ∈ q.2, rt.validatorStake u = rt.validatorStake v ∧
      rt.transientStake u = rt.transientStake v := by
  induction h with
  | refl => exact fun v hv => ⟨v, hv, rfl, rfl⟩
  | tail _ h ih =>
    intro v hv
    obtain ⟨u, hu, hva, hta⟩ := ih v hv
    cases h with
    | @mk _ _ t t' pre post hr _ =>
      simp only [List.mem_append, List.mem_cons] at hu
      rcases hu with hu | rfl | hu
      · exact ⟨u, by simp [hu], hva, hta⟩
      · exact ⟨t', by simp, (rt.validatorStake_congr hr.vote hr.seed).trans hva,
          (rt.transientStake_congr hr.vote hr.transientSeed).trans hta⟩
      · exact ⟨u, by simp [hu], hva, hta⟩

/-- An account that no entry has any more was empty before the step: of a removed entry, or under the seed
that an entry had. -/
theorem Step.dropped (hl : rt.Lawful) (hi : Inv rt w) (hb : w.InBooks rt) (h : Step rt w l w')
    (hv : v ∈ w.validatorList.validators) (hk : k = rt.validatorStake v ∨ k = rt.transientStake v)
    (hn : ∀ u ∈ w'.validatorList.validators, k ≠ rt.validatorStake u ∧ k ≠ rt.transientStake u) :
    (w.accounts k).lamports = 0 := by
  have hstays : v ∉ w'.validatorList.validators := by
    intro hv'
    obtain ⟨hnv, hnt⟩ := hn v hv'
    exact hk.elim hnv hnt
  cases h with
  | env h => exact absurd (h.ambient.list ▸ hv) hstays
  | instruction hs h =>
    cases (process_executed (not_isInitialize hl hi.pool.valid h) h).effect hl hs hi.pool hi.core with
    | evolve h => exact absurd (h.list ▸ hv) hstays
    | balance h => exact absurd (congrArg World.validatorList h.result ▸ hv) hstays
    | push h => exact absurd (by rw [h.list']; exact List.mem_append_left _ hv) hstays
    | refresh h hw =>
      obtain ⟨u, hu, hva, hta⟩ := Refresh.run_addresses h v hv
      obtain ⟨hnv, hnt⟩ := hn u (by rw [congrArg World.validatorList hw]; exact hu)
      rw [hva] at hnv
      rw [hta] at hnt
      exact absurd hk (not_or.2 ⟨hnv, hnt⟩)
    | cleanup hlist ha ht =>
      have hr : v.isRemoved := by
        by_contra hr
        refine hstays ?_
        rw [hlist]
        exact List.mem_filter.2 ⟨hv, by simpa using hr⟩
      have hzero := ValidatorStakeInfo.recorded_of_removed hr
      rw [ValidatorStakeInfo.recorded] at hzero
      refine Nat.eq_zero_of_not_pos fun h0 => ?_
      rcases hk with rfl | rfl
      · have := (hb.entries v hv).active h0
        omega
      · have := (hb.entries v hv).transient h0
        omega
    | @entry pre t t' post h =>
      have hm := h.moved
      obtain rfl : v = t := by
        have hmem := hv
        rw [h.list] at hmem
        rw [h.list'] at hstays
        simp only [List.mem_append, List.mem_cons] at hmem hstays
        tauto
      obtain ⟨hnv, hnt⟩ := hn t' (by rw [h.list']; simp)
      rw [hm.same_validatorStake] at hnv
      obtain rfl := hk.resolve_left hnv
      exact (hm.transient_empty (hb.entries v hv)).resolve_left fun he => hnt he.symm

/-- The books are in order in every state of a run without donations. -/
theorem Books.of_path (hl : rt.Lawful) (hs : Initialized rt s)
    (hempty : ∀ k, rt.StakePda k → (s.accounts k).lamports = 0)
    (h : (poolSystem rt).Path (NoDonation rt) s w) : Dated w ∧ w.InBooks rt := by
  refine h.invariant (I := fun w => Dated w ∧ w.InBooks rt) ⟨hs.dated hl, ?_⟩ ?_
  · obtain ⟨w₀, accounts, fee, withdrawalFee, depositFee, referralFee, maxValidators, -, hp⟩ := hs
    obtain ⟨_, _, _, _, hp⟩ := processInitialize_ok hl hp
    obtain ⟨_, hw⟩ := hp.result
    have hnil := congrArg (fun w => w.validatorList.validators) hw
    rw [World.InBooks, hnil]
    refine ⟨by simp, fun k hk h0 => ?_⟩
    rw [hempty k hk] at h0
    exact absurd h0 (Nat.lt_irrefl 0)
  · rintro a l b ha ⟨hd, hb⟩ hno hstep
    have hi : Inv rt a := Inv.of_reach hl ⟨s, hs, ha⟩
    exact ⟨hstep.dated hl hi hd, hstep.books hl hi hd hb hno⟩

/-- Without donations, before the run or in it, every derived account that holds lamports is one of exactly
one entry, under the seeds of the entry now, with a record that is not zero. No ephemeral account holds
lamports after an instruction. In particular an account that a step takes from the list, as the cleanup does
and a new seed, was empty before the step and is empty after it. -/
theorem no_orphaned_stake (hl : rt.Lawful) (hs : Initialized rt s)
    (hempty : ∀ k, rt.StakePda k → (s.accounts k).lamports = 0)
    (h : (poolSystem rt).Path (NoDonation rt) s w) :
    (∀ k, rt.StakePda k → 0 < (w.accounts k).lamports → ∃ v,
      w.validatorList.validators.filter (fun v => k = rt.validatorStake v ∨ k = rt.transientStake v) = [v] ∧
      (k = rt.validatorStake v ∧ 0 < v.activeStakeLamports ∨
        k = rt.transientStake v ∧ 0 < v.transientStakeLamports)) ∧
    (∀ seed, (w.accounts (rt.ephemeralStake seed)).lamports = 0) ∧
    ∀ l w', NoDonation rt w l → Step rt w l w' → ∀ v ∈ w.validatorList.validators, ∀ k,
      k = rt.validatorStake v ∨ k = rt.transientStake v →
      (∀ u ∈ w'.validatorList.validators, k ≠ rt.validatorStake u ∧ k ≠ rt.transientStake u) →
      (w.accounts k).lamports = 0 ∧ (w'.accounts k).lamports = 0 := by
  obtain ⟨hd, hb⟩ := Books.of_path hl hs hempty h
  have hi : Inv rt w := Inv.of_reach hl ⟨s, hs, h⟩
  refine ⟨fun k hk h0 => ?_, hb.ephemerals hl, fun l w' hno hstep v hv k hk hn => ?_⟩
  · obtain ⟨v, hv, hkv⟩ := hb.listed k hk h0
    have hbv := hb.entries v hv
    refine ⟨v, ?_, ?_⟩
    · have hc := hi.core
      obtain ⟨pre, post, hlist⟩ := List.append_of_mem hv
      rw [hlist] at hc
      have hother : ∀ u ∈ pre ++ post, ¬ (k = rt.validatorStake u ∨ k = rt.transientStake u) := by
        intro u hu hku
        have hne := hc.vote_ne hu
        rcases hkv with rfl | rfl <;> rcases hku with he | he
        · exact hne (validatorStake_inj hl he).symm
        · exact validatorStake_ne_transientStake hl _ _ he
        · exact validatorStake_ne_transientStake hl _ _ he.symm
        · exact hne (transientStake_inj hl he).symm
      have hpre : pre.filter (fun v => k = rt.validatorStake v ∨ k = rt.transientStake v) = [] :=
        List.filter_eq_nil_iff.2 fun u hu => by simpa using hother u (List.mem_append_left _ hu)
      have hpost : post.filter (fun v => k = rt.validatorStake v ∨ k = rt.transientStake v) = [] :=
        List.filter_eq_nil_iff.2 fun u hu => by simpa using hother u (List.mem_append_right _ hu)
      rw [hlist, List.filter_append, List.filter_cons_of_pos (by simpa using hkv), hpre, hpost]
      rfl
    · rcases hkv with rfl | rfl
      · exact .inl ⟨rfl, hbv.active h0⟩
      · exact .inr ⟨rfl, hbv.transient h0⟩
  · refine ⟨hstep.dropped hl hi hb hv hk hn, Nat.eq_zero_of_not_pos fun h0 => ?_⟩
    obtain ⟨-, hb'⟩ := Books.of_path hl hs hempty (h.step hno hstep)
    have hp : rt.StakePda k := by
      rcases hk with rfl | rfl
      · exact .validator v
      · exact .transient v
    obtain ⟨u, hu, hku⟩ := hb'.listed k hp h0
    obtain ⟨hnv, hnt⟩ := hn u hu
    exact hku.elim hnv hnt

section
open Reference

theorem opened_empty {epochFee withdrawalFee depositFee : Fee}
    (h : (exec genesis (openPool epochFee withdrawalFee depositFee)).isSome) {k : Reference.Key}
    (hk : runtime.StakePda k) : ((opened epochFee withdrawalFee depositFee).accounts k).lamports = 0 := by
  obtain ⟨_, _, _, _, hok⟩ := processInitialize_ok lawful (next_process h)
  have hp : PdaOk runtime (genesis.accounts k) := .inl (genesis_ok.pdas k hk)
  have hsame : (opened epochFee withdrawalFee depositFee).accounts k = genesis.accounts k :=
    (hok.only lawful).eq hp.notToken
  rw [hsame]
  obtain ⟨seeds, hs⟩ := hk.isPda lawful
  cases hs
  rfl

theorem no_orphaned_stake_staked : ∃ v ∈ staked.validatorList.validators,
    0 < (staked.accounts (runtime.transientStake v)).lamports ∧
    ∃ u, staked.validatorList.validators.filter (fun u => runtime.transientStake v = runtime.validatorStake u ∨
      runtime.transientStake v = runtime.transientStake u) = [u] := by
  have hopen : (exec genesis (openPool noFee noFee noFee)).isSome := by decide +kernel
  have hpath : (poolSystem runtime).Path (NoDonation runtime) (opened noFee noFee noFee) staked := by
    refine after_path_of (fun l hl w => ?_) (by decide +kernel)
    simp only [List.mem_cons, List.not_mem_nil, or_false] at hl
    rcases hl with rfl | rfl | rfl <;> exact fun k hk => by cases hk
  obtain ⟨v, hv, h0⟩ : ∃ v ∈ staked.validatorList.validators,
      0 < (staked.accounts (runtime.transientStake v)).lamports := by decide +kernel
  obtain ⟨h, -, -⟩ := no_orphaned_stake lawful (initialized_opened hopen) (fun _ => opened_empty hopen) hpath
  obtain ⟨u, hu, -⟩ := h _ (.transient v) h0
  exact ⟨v, hv, h0, u, hu⟩

end

end SplStakePool
