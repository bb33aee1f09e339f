import SplStakePool.Invariant.Run

/-!
# The books of the pool

In a run without donations all lamports at derived addresses are in the list. `Books` says that an account
with lamports is one of an entry, under the seeds of the entry now, that it has a record, and that records
are exact once the entry is refreshed in an epoch. An instruction that works on one entry keeps the books of
that entry (`Moved.booked`, `Refreshed.booked`) and leaves those of the others alone.

Rewards are what makes records inexact, and they are only paid while no update of the list succeeds, to stake that is
older than the epoch. So an entry that was refreshed in the epoch and the stake that is moved after that are exact
until the epoch ends, which is why a transient seed can be given up when the record is zero.
-/

namespace SplStakePool
open Function

variable {Key : Type} [DecidableEq Key] [Inhabited Key] {rt : Runtime Key} {w w' : World Key}
  {acc acc' : Accounts Key} {vs pre post : List (ValidatorStakeInfo Key)} {u v v' : ValidatorStakeInfo Key}
  {epoch : Nat} {rewards : Bool} {out : Option Key} {k reserve : Key}

/-- The books of one entry. While rewards are distributed, a refreshed entry has no stake that is due for
them. -/
structure Booked (rt : Runtime Key) (epoch : Nat) (rewards : Bool) (acc : Accounts Key)
    (v : ValidatorStakeInfo Key) : Prop where
  synced : epoch ≤ v.lastUpdateEpoch → Synced rt acc v
  quiet : rewards → epoch ≤ v.lastUpdateEpoch →
    Quiet epoch (acc (rt.validatorStake v)) ∧ Quiet epoch (acc (rt.transientStake v))
  active : 0 < (acc (rt.validatorStake v)).lamports → 0 < v.activeStakeLamports
  transient : 0 < (acc (rt.transientStake v)).lamports → 0 < v.transientStakeLamports

/-- The books of all entries. No other derived account has lamports. -/
structure Books (rt : Runtime Key) (epoch : Nat) (rewards : Bool) (acc : Accounts Key)
    (vs : List (ValidatorStakeInfo Key)) : Prop where
  entries : ∀ v ∈ vs, Booked rt epoch rewards acc v
  listed : ∀ k, rt.StakePda k → 0 < (acc k).lamports →
    ∃ v ∈ vs, k = rt.validatorStake v ∨ k = rt.transientStake v

/-- An account keeps its lamports, and gets no stake that is due for rewards. -/
structure Untouched (epoch : Nat) (a a' : Account Key) : Prop where
  lamports : a'.lamports = a.lamports
  quiet : Quiet epoch a → Quiet epoch a'

omit [DecidableEq Key] [Inhabited Key] in
theorem Untouched.of_eq {a a' : Account Key} (h : a' = a) : Untouched epoch a a' := by
  subst h
  exact ⟨rfl, id⟩

omit [DecidableEq Key] [Inhabited Key] in
theorem Quiet.of_empty {a : Account Key} (h : a.lamports = 0) : Quiet epoch a :=
  fun hpos => by omega

omit [DecidableEq Key] [Inhabited Key] in
theorem Booked.untouched (h : Booked rt epoch rewards acc v)
    (hv : Untouched epoch (acc (rt.validatorStake v)) (acc' (rt.validatorStake v)))
    (ht : Untouched epoch (acc (rt.transientStake v)) (acc' (rt.transientStake v))) :
    Booked rt epoch rewards acc' v := by
  refine ⟨fun he => ⟨?_, ?_⟩, fun hr he => ?_, ?_, ?_⟩
  · rw [hv.lamports]
    exact (h.synced he).active
  · rw [ht.lamports]
    exact (h.synced he).transient
  · obtain ⟨hqv, hqt⟩ := h.quiet hr he
    exact ⟨hv.quiet hqv, ht.quiet hqt⟩
  · rw [hv.lamports]
    exact h.active
  · rw [ht.lamports]
    exact h.transient

namespace Books

omit [DecidableEq Key] [Inhabited Key] in
theorem owner (hl : rt.Lawful) (h : Books rt epoch rewards acc vs)
    (hn : (vs.map (·.voteAccountAddress)).Nodup) (hv : v ∈ vs)
    (hu : u.voteAccountAddress = v.voteAccountAddress)
    (hk : k = rt.validatorStake u ∨ k = rt.transientStake u) (h0 : 0 < (acc k).lamports) :
    k = rt.validatorStake v ∨ k = rt.transientStake v := by
  have hp : rt.StakePda k := by
    rcases hk with rfl | rfl
    · exact .validator u
    · exact .transient u
  obtain ⟨t, ht, hkt⟩ := h.listed k hp h0
  have hvote : t.voteAccountAddress = u.voteAccountAddress := by
    rcases hk with rfl | rfl <;> rcases hkt with he | he
    · exact (validatorStake_inj hl he).symm
    · exact absurd he (validatorStake_ne_transientStake hl _ _)
    · exact absurd he.symm (validatorStake_ne_transientStake hl _ _)
    · exact (transientStake_inj hl he).symm
  rwa [List.inj_on_of_nodup_map hn ht hv (hvote.trans hu)] at hkt

omit [DecidableEq Key] [Inhabited Key] in
/-- The accounts of a validator that is not in the list are empty. -/
theorem unlisted (hl : rt.Lawful) (h : Books rt epoch rewards acc vs)
    (hn : u.voteAccountAddress ∉ vs.map (·.voteAccountAddress)) :
    (acc (rt.validatorStake u)).lamports = 0 ∧ (acc (rt.transientStake u)).lamports = 0 := by
  constructor <;> refine Nat.eq_zero_of_not_pos fun h0 => hn ?_
  · obtain ⟨t, ht, he | he⟩ := h.listed _ (.validator u) h0
    · exact List.mem_map.2 ⟨t, ht, (validatorStake_inj hl he).symm⟩
    · exact absurd he (validatorStake_ne_transientStake hl _ _)
  · obtain ⟨t, ht, he | he⟩ := h.listed _ (.transient u) h0
    · exact absurd he.symm (validatorStake_ne_transientStake hl _ _)
    · exact List.mem_map.2 ⟨t, ht, (transientStake_inj hl he).symm⟩

omit [DecidableEq Key] [Inhabited Key] in
theorem ephemerals (hl : rt.Lawful) (h : Books rt epoch rewards acc vs) : EphemeralsEmpty rt acc := by
  intro seed
  refine Nat.eq_zero_of_not_pos fun h0 => ?_
  obtain ⟨t, -, he | he⟩ := h.listed _ (.ephemeral seed) h0
  · exact validatorStake_ne_ephemeralStake hl _ _ he.symm
  · exact transientStake_ne_ephemeralStake hl _ _ he.symm

omit [DecidableEq Key] in
theorem controlled (h : Books rt epoch rewards acc vs) (hc : ∀ v ∈ vs, EntryOk rt acc v) (hk : rt.StakePda k)
    (h0 : 0 < (acc k).lamports) : Controlled rt (acc k) := by
  obtain ⟨v, hv, rfl | rfl⟩ := h.listed k hk h0
  · exact (hc v hv).active ((h.entries v hv).active h0)
  · exact (hc v hv).transient ((h.entries v hv).transient h0)

omit [DecidableEq Key] [Inhabited Key] in
theorem untouched (h : Books rt epoch rewards acc vs)
    (hk : ∀ k, rt.StakePda k → Untouched epoch (acc k) (acc' k)) : Books rt epoch rewards acc' vs :=
  ⟨fun v hv => (h.entries v hv).untouched (hk _ (.validator v)) (hk _ (.transient v)),
    fun k hp h0 => h.listed k hp (by rwa [(hk k hp).lamports] at h0)⟩

omit [DecidableEq Key] [Inhabited Key] in
/-- Replacing one entry. Where it has another transient account now, the one it had is empty. -/
theorem replace (hl : rt.Lawful) (h : Books rt epoch rewards acc (pre ++ v :: post))
    (hn : ∀ u ∈ pre ++ post, u.voteAccountAddress ≠ v.voteAccountAddress)
    (hvote : v'.voteAccountAddress = v.voteAccountAddress)
    (hseed : v'.validatorSeedSuffix = v.validatorSeedSuffix)
    (hold : rt.transientStake v' = rt.transientStake v ∨ (acc (rt.transientStake v)).lamports = 0)
    (hother : ∀ k, rt.StakePda k → k ≠ rt.validatorStake v → k ≠ rt.transientStake v' →
      Untouched epoch (acc k) (acc' k))
    (hv : Booked rt epoch rewards acc' v') : Books rt epoch rewards acc' (pre ++ v' :: post) := by
  have hvs : rt.validatorStake v' = rt.validatorStake v := rt.validatorStake_congr hvote hseed
  refine ⟨fun u hu => ?_, fun k hk h0 => ?_⟩
  · have hentry : u ∈ pre ++ post → Booked rt epoch rewards acc' u := by
      intro hu
      have hne := hn u hu
      refine (h.entries u ?_).untouched (hother _ (.validator u) ?_ ?_) (hother _ (.transient u) ?_ ?_)
      · simp only [List.mem_append, List.mem_cons] at hu ⊢
        tauto
      · exact fun he => hne (validatorStake_inj hl he)
      · exact validatorStake_ne_transientStake hl _ _
      · exact (validatorStake_ne_transientStake hl _ _).symm
      · exact fun he => hne ((transientStake_inj hl he).trans hvote)
    simp only [List.mem_append, List.mem_cons] at hu hentry
    rcases hu with hu | rfl | hu
    · exact hentry (.inl hu)
    · exact hv
    · exact hentry (.inr hu)
  · by_cases hkv : k = rt.validatorStake v
    · exact ⟨v', by simp, .inl (hkv.trans hvs.symm)⟩
    by_cases hkt : k = rt.transientStake v'
    · exact ⟨v', by simp, .inr hkt⟩
    rw [(hother k hk hkv hkt).lamports] at h0
    obtain ⟨u, hu, hku⟩ := h.listed k hk h0
    simp only [List.mem_append, List.mem_cons] at hu
    rcases hu with hu | rfl | hu
    · exact ⟨u, by simp [hu], hku⟩
    · -- the account is the transient account that the entry had
      obtain rfl := hku.resolve_left hkv
      rcases hold with he | he
      · exact absurd he.symm hkt
      · omega
    · exact ⟨u, by simp [hu], hku⟩

omit [DecidableEq Key] in
/-- What an instruction has left alone that took from no account of the pool and gave to none. -/
theorem still (h : Books rt epoch rewards acc vs) (hc : ∀ v ∈ vs, EntryOk rt acc v) (hk : rt.StakePda k)
    (hev : Evolves rt (acc k) (acc' k)) (hs : 0 < (acc' k).lamports → acc' k = acc k) :
    Untouched epoch (acc k) (acc' k) := by
  by_cases h0 : 0 < (acc' k).lamports
  · exact .of_eq (hs h0)
  · have he : (acc k).lamports = 0 := by
      refine Nat.eq_zero_of_not_pos fun hpos => ?_
      obtain ⟨-, hle, -⟩ := hev (h.controlled hc hk hpos)
      omega
    exact ⟨by omega, fun _ => .of_empty (by omega)⟩

end Books

/-! ## What an instruction does to one entry -/

omit [DecidableEq Key] in
theorem Moved.same_validatorStake {fresh : Prop} (h : Moved rt epoch fresh reserve out acc acc' v v') :
    rt.validatorStake v' = rt.validatorStake v := rt.validatorStake_congr h.vote h.seed

omit [DecidableEq Key] in
theorem Moved.transient_empty {fresh : Prop} (h : Moved rt epoch fresh reserve out acc acc' v v')
    (hb : Booked rt epoch rewards acc v) :
    rt.transientStake v' = rt.transientStake v ∨ (acc (rt.transientStake v)).lamports = 0 := by
  by_cases h0 : v.transientStakeLamports = 0
  · refine .inr (Nat.eq_zero_of_not_pos fun hpos => ?_)
    have := hb.transient hpos
    omega
  · exact .inl (rt.transientStake_congr h.vote (h.transientSeed h0))

omit [DecidableEq Key] in
/-- Lamports only moved on an up-to-date pool, whose records were exact and stay so. -/
theorem Moved.booked {fresh : Prop} (h : Moved rt epoch fresh reserve out acc acc' v v')
    (hcl : Clean rt out acc) (hfresh : fresh → epoch ≤ v.lastUpdateEpoch) (hb : Booked rt epoch rewards acc v)
    (hnew : rt.transientStake v' = rt.transientStake v ∨
      (acc (rt.transientStake v)).lamports = 0 ∧ (acc (rt.transientStake v')).lamports = 0) :
    Booked rt epoch rewards acc' v' := by
  have hvs := h.same_validatorStake
  have hsynced : epoch ≤ v'.lastUpdateEpoch → Synced rt acc' v' := by
    intro he
    have hs := hb.synced (h.updated ▸ he)
    have ht : (acc (rt.transientStake v')).lamports = v.transientStakeLamports := by
      rcases hnew with hsame | ⟨hold, hnew⟩
      · rw [hsame, hs.transient]
      · rw [hnew, ← hs.transient, hold]
    exact ⟨by rw [hvs]; exact h.active.exact hcl hs.active, h.transient.exact hcl ht⟩
  refine ⟨hsynced, fun hr he => ?_, ?_, ?_⟩
  · obtain ⟨hqv, hqt⟩ := hb.quiet hr (h.updated ▸ he)
    rw [hvs]
    refine h.quiet hcl hqv ?_
    rcases hnew with hsame | ⟨-, hnew⟩
    · rwa [hsame]
    · exact .of_empty hnew
  · intro h0
    rcases h.still with hf | ⟨ha, -, -, hlam⟩
    · rw [← (hsynced (by rw [h.updated]; exact hfresh hf)).active]
      exact h0
    · rw [hvs, hlam] at h0
      rw [ha]
      exact hb.active h0
  · intro h0
    rcases h.still with hf | ⟨-, ht, hs, hlam⟩
    · rw [← (hsynced (by rw [h.updated]; exact hfresh hf)).transient]
      exact h0
    · rw [hlam, rt.transientStake_congr h.vote hs] at h0
      rw [ht]
      exact hb.transient h0

omit [DecidableEq Key] in
/-- A refresh makes the records exact: it skips no account with a record, and the others are empty. -/
theorem Refreshed.booked (h : Refreshed rt reserve acc acc' v v') (hb : Booked rt epoch rewards acc v) :
    Booked rt epoch false acc' v' := by
  have hvs : rt.validatorStake v' = rt.validatorStake v := rt.validatorStake_congr h.vote h.seed
  have hts : rt.transientStake v' = rt.transientStake v := rt.transientStake_congr h.vote h.transientSeed
  have hsynced : Synced rt acc' v' := by
    refine ⟨?_, ?_⟩
    · rw [hvs]
      rcases h.active with he | ⟨h0, h0', hle⟩
      · exact he
      · have hempty : ¬ 0 < (acc (rt.validatorStake v)).lamports := fun hpos => by
          have := hb.active hpos
          omega
        omega
    · rw [hts]
      rcases h.transient with he | ⟨h0, h0', he⟩
      · exact he
      · have hempty : ¬ 0 < (acc (rt.transientStake v)).lamports := fun hpos => by
          have := hb.transient hpos
          omega
        rw [he]
        omega
  refine ⟨fun _ => hsynced, fun hr => absurd hr Bool.false_ne_true, ?_, ?_⟩
  · rw [hsynced.active]
    exact id
  · rw [hsynced.transient]
    exact id

omit [DecidableEq Key] in
/-- A run of refreshes, which only succeeds while no rewards are distributed, keeps the books. -/
theorem Refresh.books (hl : rt.Lawful) {s s' : Accounts Key × List (ValidatorStakeInfo Key)}
    (h : Relation.ReflTransGen (Refresh rt reserve epoch) s s') (hc : Core rt reserve s.2 s.1)
    (hb : Books rt epoch false s.1 s.2) : Books rt epoch false s'.1 s'.2 := by
  induction h with
  | refl => exact hb
  | tail h₁ h ih =>
    obtain ⟨hc', -, -⟩ := Refresh.run hl h₁ hc
    cases h with
    | mk pre post hr _ =>
      have hts := rt.transientStake_congr hr.vote hr.transientSeed
      refine ih.replace hl (fun u hu => hc'.vote_ne hu) hr.vote hr.seed (.inl hts) (fun k hk hkv hkt => ?_)
        (hr.booked (ih.entries _ (by simp)))
      refine .of_eq (hr.frame k ?_)
      simp only [List.mem_cons, List.not_mem_nil, or_false, not_or]
      exact ⟨fun he => hc'.reserve_pda (he ▸ hk), hkv, fun he => hkt (he.trans hts.symm)⟩

/-! ## Effects -/

variable (rt w) in
/-- The books of a world. -/
def World.InBooks : Prop :=
  Books rt w.sysvars.epoch w.sysvars.epochRewardsActive w.accounts w.validatorList.validators

omit [DecidableEq Key] in
theorem EntryEffect.books (hl : rt.Lawful)
    (hc : Core rt w.stakePool.reserveStake w.validatorList.validators w.accounts)
    (hout : ∀ k, out = some k → ¬ rt.StakePda k) (hfresh : w.sysvars.epoch ≤ w.stakePool.lastUpdateEpoch →
      ∀ v ∈ w.validatorList.validators, w.sysvars.epoch ≤ v.lastUpdateEpoch)
    (hb : w.InBooks rt) (hs : w'.sysvars = w.sysvars) (h : EntryEffect rt out w w' pre v v' post) :
    w'.InBooks rt := by
  have hcl : Clean rt out w.accounts := ⟨hb.ephemerals hl, hout⟩
  have hm := h.moved
  have hv : v ∈ w.validatorList.validators := by rw [h.list]; simp
  have hbv := hb.entries v hv
  have hold := hm.transient_empty hbv
  have hnew : rt.transientStake v' = rt.transientStake v ∨
      (w.accounts (rt.transientStake v)).lamports = 0 ∧
        (w.accounts (rt.transientStake v')).lamports = 0 := by
    by_cases hsame : rt.transientStake v' = rt.transientStake v
    · exact .inl hsame
    refine .inr ⟨hold.resolve_left hsame, Nat.eq_zero_of_not_pos fun h0 => ?_⟩
    rcases hb.owner hl hc.votes hv hm.vote (.inr rfl) h0 with he | he
    · exact validatorStake_ne_transientStake hl _ _ he.symm
    · exact hsame he
  have hother : ∀ k, rt.StakePda k → k ≠ rt.validatorStake v → k ≠ rt.transientStake v' →
      Untouched w.sysvars.epoch (w.accounts k) (w'.accounts k) := fun k hk hkv hkt =>
    hb.still hc.entries hk (hm.evolves k hk hkv hkt) (hm.settled hcl k hk hkv hkt)
  have hbooked := hm.booked hcl (fun hf => hfresh hf v hv) hbv hnew
  rw [World.InBooks, h.list] at hb
  rw [h.list] at hc
  rw [World.InBooks, hs, h.list']
  exact hb.replace hl (fun u hu => hc.vote_ne hu) hm.vote hm.seed hold hother hbooked

omit [DecidableEq Key] in
theorem EvolveEffect.books (hout : ∀ k, out = some k → ¬ rt.StakePda k) (hb : w.InBooks rt)
    (hs : w'.sysvars = w.sysvars) (h : EvolveEffect rt out w w') : w'.InBooks rt := by
  rw [World.InBooks, hs, h.list]
  exact hb.untouched fun k hk => .of_eq (h.settled k hk fun he => hout k he hk)

omit [DecidableEq Key] in
/-- The accounts of a new entry were empty, as nobody had it in the list. -/
theorem PushEffect.books (hl : rt.Lawful)
    (hc : Core rt w.stakePool.reserveStake w.validatorList.validators w.accounts) (hb : w.InBooks rt)
    (hs : w'.sysvars = w.sysvars) (h : PushEffect rt w w' v) : w'.InBooks rt := by
  obtain ⟨hva, hta⟩ := hb.unlisted hl h.vote
  have hland := h.landed
  have hlam := hland.dst_lamports
  have hother : ∀ k, rt.StakePda k → k ≠ rt.validatorStake v → w'.accounts k = w.accounts k := by
    intro k hk hkv
    refine hland.frame k ?_
    simp only [List.mem_cons, List.not_mem_nil, or_false, not_or]
    exact ⟨fun he => hc.reserve_pda (he ▸ hk), hkv⟩
  have ht : w'.accounts (rt.transientStake v) = w.accounts (rt.transientStake v) :=
    hother _ (.transient v) (validatorStake_ne_transientStake hl _ _).symm
  have hrecord := h.transient
  have hv : Booked rt w.sysvars.epoch w.sysvars.epochRewardsActive w'.accounts v := by
    refine ⟨fun _ => ⟨by omega, by rw [ht]; omega⟩, fun _ _ => ⟨fun _ => h.young, ?_⟩, by omega,
      by rw [ht]; omega⟩
    exact .of_empty (by rw [ht]; omega)
  have hne : ∀ u ∈ w.validatorList.validators, u.voteAccountAddress ≠ v.voteAccountAddress :=
    fun u hu he => h.vote (he ▸ List.mem_map_of_mem hu)
  rw [World.InBooks, hs, h.list']
  refine ⟨fun u hu => ?_, fun k hk h0 => ?_⟩
  · rcases List.mem_append.1 hu with hu | hu
    · refine (hb.entries u hu).untouched (.of_eq (hother _ (.validator u) fun he => ?_))
        (.of_eq (hother _ (.transient u) (validatorStake_ne_transientStake hl _ _).symm))
      exact hne u hu (validatorStake_inj hl he)
    · rw [List.mem_singleton.1 hu]
      exact hv
  · by_cases hkv : k = rt.validatorStake v
    · exact ⟨v, by simp, .inl hkv⟩
    · rw [hother k hk hkv] at h0
      obtain ⟨u, hu, hku⟩ := hb.listed k hk h0
      exact ⟨u, List.mem_append_left _ hu, hku⟩

omit [DecidableEq Key] [Inhabited Key] in
theorem Books.cleanup (h : Books rt epoch rewards acc vs) :
    Books rt epoch rewards acc (vs.filter fun v => ¬ v.isRemoved) := by
  refine ⟨fun v hv => h.entries v (List.mem_of_mem_filter hv), fun k hk h0 => ?_⟩
  obtain ⟨v, hv, hkv⟩ := h.listed k hk h0
  refine ⟨v, List.mem_filter.2 ⟨hv, ?_⟩, hkv⟩
  rw [decide_eq_true_eq]
  intro hr
  have hzero := ValidatorStakeInfo.recorded_of_removed hr
  rw [ValidatorStakeInfo.recorded] at hzero
  rcases hkv with rfl | rfl
  · have := (h.entries v hv).active h0
    omega
  · have := (h.entries v hv).transient h0
    omega

/-- No successful instruction on an initialized pool takes an account with lamports out of the books. -/
theorem Executed.books {accounts : List (AccountInfo Key)} {i : StakePoolInstruction Key} (hl : rt.Lawful)
    (hs : NoPdaSigner rt accounts) (hi : Inv rt w) (hout : ∀ k, out = some k → ¬ rt.StakePda k)
    (hfresh : w.sysvars.epoch ≤ w.stakePool.lastUpdateEpoch →
      ∀ v ∈ w.validatorList.validators, w.sysvars.epoch ≤ v.lastUpdateEpoch)
    (hb : w.InBooks rt) (h : Executed rt w w' accounts i out) : w'.InBooks rt := by
  have hc := hi.core
  have hsys := h.statics.sysvars
  rcases h.effect_or_update hl hs hi.pool hc with ⟨_, _, _, _, _, _, _, h⟩ | h | ⟨_, _, _, _, h⟩ | ⟨_, h⟩ |
    ⟨hlist, ha, -⟩ | ⟨_, _, _, _, h⟩
  · rw [World.InBooks, h.rewards] at hb
    have := Refresh.books hl (h.refreshes hl hi.pool hc) hc hb
    rw [World.InBooks, hsys, h.rewards, congrArg World.validatorList h.result]
    exact this
  · exact h.books hout hb hsys
  · exact h.books hl hc hout hfresh hb hsys
  · exact h.books hl hc hb hsys
  · rw [World.InBooks, hsys, hlist, ha]
    exact hb.cleanup
  · rw [World.InBooks, hsys, congrArg World.validatorList h.result]
    exact hb.untouched fun k hk => .of_eq ((h.only hl).eq (hc.pdas k hk).notToken)

/-! ## The environment -/

omit [Inhabited Key] in
theorem World.InBooks.setAccount {a : Account Key} (hb : w.InBooks rt)
    (h : rt.StakePda k → Untouched w.sysvars.epoch (w.accounts k) a) : (w.setAccount k a).InBooks rt := by
  refine hb.untouched fun j hj => ?_
  by_cases hjk : j = k
  · subst hjk
    simp only [World.setAccount, update_self]
    exact h hj
  · simp only [World.setAccount, update_of_ne hjk]
    exact .of_eq rfl

omit [DecidableEq Key] [Inhabited Key] in
theorem Untouched.of_data {a : Account Key} {d : AccountData Key} (h : ∀ m s, d ≠ .stakeState (.stake m s)) :
    Untouched epoch a { a with data := d } :=
  ⟨rfl, fun _ _ m s hd => absurd hd (h m s)⟩

/-- A reward is paid to no entry that was refreshed in the epoch, and nobody else can use an account that holds
lamports. -/
theorem EnvStep.books {l : Label Key} (hl : rt.Lawful) (hi : Inv rt w) (hb : w.InBooks rt)
    (hpast : ∀ v ∈ w.validatorList.validators, v.lastUpdateEpoch ≤ w.sysvars.epoch)
    (hno : ∀ k n, l = .donate k n → ¬ rt.StakePda k) (h : EnvStep rt w l w') : w'.InBooks rt := by
  have hc := hi.core
  cases h with
  | donate k n => exact hb.setAccount fun hk => absurd hk (hno k n rfl)
  | reward k n credits m s hd ho hr ha h0 =>
    by_cases hk : rt.StakePda k
    swap
    · exact hb.setAccount fun h => absurd h hk
    obtain ⟨v, hv, hkv⟩ := hb.listed k hk h0
    have hbv := hb.entries v hv
    have hstale : ¬ w.sysvars.epoch ≤ v.lastUpdateEpoch := by
      intro hle
      obtain ⟨hqv, hqt⟩ := hbv.quiet hr hle
      have hyoung : Young w.sysvars.epoch (w.accounts k) := by
        rcases hkv with rfl | rfl
        · exact hqv h0
        · exact hqt h0
      have := hyoung m s hd
      omega
    have hpos : ∀ j, 0 < ((w.setAccount k ⟨(w.accounts k).lamports + n, rt.stakeProgramId,
        .stakeState (.stake m (s.addStake n credits))⟩).accounts j).lamports →
        0 < (w.accounts j).lamports := by
      intro j hj
      by_cases hjk : j = k
      · rw [hjk]; exact h0
      · simpa only [World.setAccount, update_of_ne hjk] using hj
    obtain ⟨pre, post, hlist⟩ := List.append_of_mem hv
    rw [World.InBooks, hlist] at hb
    rw [hlist] at hc
    have hbv' : Booked rt w.sysvars.epoch w.sysvars.epochRewardsActive (w.setAccount k
        ⟨(w.accounts k).lamports + n, rt.stakeProgramId,
          .stakeState (.stake m (s.addStake n credits))⟩).accounts v :=
      ⟨fun hle => absurd hle hstale, fun _ hle => absurd hle hstale, fun hj => hbv.active (hpos _ hj),
        fun hj => hbv.transient (hpos _ hj)⟩
    show Books rt w.sysvars.epoch w.sysvars.epochRewardsActive _ w.validatorList.validators
    rw [hlist]
    refine hb.replace hl (fun u hu => hc.vote_ne hu) rfl rfl (.inl rfl) (fun j hj hjv hjt => ?_) hbv'
    have hjk : j ≠ k := by
      rintro rfl
      exact hkv.elim hjv hjt
    simp only [World.setAccount, update_of_ne hjk]
    exact .of_eq rfl
  | advanceEpoch epoch active history h hlt =>
    refine ⟨fun v hv => ?_, hb.listed⟩
    have hstale : ¬ epoch ≤ v.lastUpdateEpoch := by
      have := hpast v hv
      omega
    exact ⟨fun hle => absurd hle hstale, fun _ hle => absurd hle hstale, (hb.entries v hv).active,
      (hb.entries v hv).transient⟩
  | completeRewards =>
    refine ⟨fun v hv => ?_, hb.listed⟩
    have hbv := hb.entries v hv
    exact ⟨hbv.synced, fun hr => absurd hr Bool.false_ne_true, hbv.active, hbv.transient⟩
  | setMinimumDelegation => exact hb
  | deactivateDelinquent k m s hd hde =>
    refine hb.setAccount fun _ => ⟨rfl, fun hq hpos m' s' hd' => ?_⟩
    cases hd'
    exact hq hpos m s hd
  | forceDestake k m s hd => exact hb.setAccount fun _ => .of_data fun m s hd => by cases hd
  | foreign k a hn hm hp =>
    refine hb.setAccount fun hk => absurd ?_ hn
    exact hb.controlled hc.entries hk (hp hk).2.1
  | purge k h0 hm => exact hb.setAccount fun _ => ⟨h0.symm, fun _ => .of_empty rfl⟩
  | burn k n t m ht hm hn hs =>
    have hne : w.stakePool.poolMint ≠ k := fun he => by rw [he, ht] at hm; cases hm
    refine World.InBooks.setAccount (hb.setAccount fun _ => .of_data fun m s hd => by cases hd) fun _ => ?_
    simp only [World.setAccount, update_of_ne hne]
    exact .of_data fun m s hd => by cases hd

end SplStakePool
