import SplStakePool.Invariant.Account

/-!
# Calls on the pool's own stake accounts

What split, merge, withdraw, delegate and deactivate do to the lamports and the control of the accounts
they name when the pool controls them. `Young` says that a stake is not old enough for rewards.

A call that the pool makes needs its authority, and it can have that only over accounts of the pool. Each lemma gives
the lamports that moved, that both accounts are still the pool's as far as they hold any, and that all others are the
same; the handlers are then sequences of these.
-/

namespace SplStakePool
open Function

variable {Key : Type} [DecidableEq Key] [Inhabited Key] {rt : Runtime Key} {sys : Sysvars}
  {acc acc' : Accounts Key} {src dst auth vote : AccountInfo Key} {n : Nat}

/-- No delegation from before an epoch. -/
def Young (epoch : Nat) (a : Account Key) : Prop :=
  ∀ m s, a.data = .stakeState (.stake m s) → epoch ≤ s.delegation.activationEpoch

/-- The reserve: initialized, controlled by the pool, with its minimum. -/
structure Reserve (rt : Runtime Key) (a : Account Key) : Prop where
  owner : a.owner = rt.stakeProgramId
  state : ∃ m, a.data = .stakeState (.initialized m) ∧ PoolMeta rt m ∧ m.rentExemptReserve ≤ a.lamports

/-- What happens to the reserve: its lamports change, above the minimum. -/
structure ReserveStep (rt : Runtime Key) (a a' : Account Key) : Prop where
  data : a'.data = a.data
  reserve : Reserve rt a'

/-- The accounts outside a list are unchanged. -/
def Frame (acc acc' : Accounts Key) (ks : List Key) : Prop := ∀ k, k ∉ ks → acc' k = acc k

/-- Accounts that may stand at a derived address still may. -/
def AllPda (rt : Runtime Key) (acc acc' : Accounts Key) : Prop := ∀ k, PdaOk rt (acc k) → PdaOk rt (acc' k)

omit [DecidableEq Key] in
theorem Reserve.controlled {a : Account Key} (h : Reserve rt a) : Controlled rt a := by
  obtain ⟨m, hd, hm, hle⟩ := h.state
  exact ⟨h.owner, hm.rent.trans_le hle, _, hd, m, rfl, hm⟩

omit [DecidableEq Key] in
theorem Reserve.evolves {a a' : Account Key} (h : Reserve rt a) (he : Evolves rt a a') :
    ReserveStep rt a a' ∧ a.lamports ≤ a'.lamports := by
  obtain ⟨m, hd, hm, hle⟩ := h.state
  obtain ⟨ho, hl, s, s', hs, hs', -, hn⟩ := he h.controlled
  rw [hd, AccountData.stakeState.injEq] at hs
  subst hs
  rw [hn rfl] at hs'
  exact ⟨⟨hs'.trans hd.symm, ho.trans h.owner, m, hs', hm, hle.trans hl⟩, hl⟩

namespace ReserveStep
variable {a b c : Account Key}
omit [DecidableEq Key]

theorem refl (h : Reserve rt a) : ReserveStep rt a a := ⟨rfl, h⟩

theorem trans (h₁ : ReserveStep rt a b) (h₂ : ReserveStep rt b c) : ReserveStep rt a c :=
  ⟨h₂.data.trans h₁.data, h₂.reserve⟩

end ReserveStep

namespace AllPda
variable {acc'' : Accounts Key} {k : Key} {a : Account Key}

omit [DecidableEq Key] [Inhabited Key] in
theorem refl (acc : Accounts Key) : AllPda rt acc acc := fun _ h => h

omit [DecidableEq Key] [Inhabited Key] in
theorem trans (h₁ : AllPda rt acc acc') (h₂ : AllPda rt acc' acc'') : AllPda rt acc acc'' :=
  fun k h => h₂ k (h₁ k h)

omit [Inhabited Key] in
theorem update (h : AllPda rt acc acc') (ha : PdaOk rt (acc k) → PdaOk rt a) :
    AllPda rt acc (update acc' k a) := by
  intro j hj
  by_cases hjk : j = k
  · subst hjk; simpa using ha hj
  · simpa [hjk] using h j hj

end AllPda

omit [DecidableEq Key] [Inhabited Key] in
theorem PdaOk.stake {l : Nat} {s : StakeStateV2 Key} (h : RentExempt s) :
    PdaOk rt ⟨l, rt.stakeProgramId, .stakeState s⟩ := .inr ⟨rfl, s, rfl, h⟩

omit [DecidableEq Key] [Inhabited Key] in
theorem RentExempt.uninitialized : RentExempt (.uninitialized : StakeStateV2 Key) := fun _ h => by cases h

omit [DecidableEq Key] [Inhabited Key] in
theorem RentExempt.of_meta {s t : StakeStateV2 Key} (h : RentExempt s) (hm : t.meta? = s.meta?) :
    RentExempt t := fun m ht => h m (hm ▸ ht)

omit [DecidableEq Key] [Inhabited Key] in
theorem PdaOk.rentExempt {a : Account Key} {s : StakeStateV2 Key} (h : PdaOk rt a)
    (hd : a.data = .stakeState s) : RentExempt s := by
  rcases h with ⟨-, hn⟩ | ⟨-, t, ht, hr⟩
  · rw [hd] at hn; cases hn
  · rw [hd, AccountData.stakeState.injEq] at ht
    exact ht ▸ hr

omit [DecidableEq Key] [Inhabited Key] in
theorem PdaOk.owner {a : Account Key} {s : StakeStateV2 Key} (h : PdaOk rt a)
    (hd : a.data = .stakeState s) : a.owner = rt.stakeProgramId := by
  rcases h with ⟨-, hn⟩ | ⟨ho, -⟩
  · rw [hd] at hn; cases hn
  · exact ho

omit [DecidableEq Key] [Inhabited Key] in
theorem PdaOk.credit {a : Account Key} (h : PdaOk rt a) (n : Nat) : PdaOk rt (a.credit n) := h

omit [DecidableEq Key] [Inhabited Key] in
theorem MergeState.meta {s t : StakeStateV2 Key} (h : MergeState s t) : t.meta? = s.meta? := by
  cases h <;> rfl

omit [DecidableEq Key] [Inhabited Key] in
theorem SplitState.meta_left {auth : Key} {rent : Nat} {s t u : StakeStateV2 Key}
    (h : SplitState auth rent s t u) : t.meta? = s.meta? := by cases h <;> rfl

omit [DecidableEq Key] [Inhabited Key] in
theorem SplitState.rentExempt {auth : Key} {rent : Nat} {s t u : StakeStateV2 Key}
    (h : SplitState auth rent s t u) (hr : 0 < rent) : RentExempt u := by
  cases h <;> exact fun m hm => by cases hm; exact hr

/-- Splitting off a controlled account. -/
structure SplitSpec (rt : Runtime Key) (acc acc' : Accounts Key) (src dst : Key) (n : Nat) : Prop where
  ne : src ≠ dst
  le : n ≤ (acc src).lamports
  src_lamports : (acc' src).lamports = (acc src).lamports - n
  src_controlled : n < (acc src).lamports → Controlled rt (acc' src)
  dst_lamports : (acc' dst).lamports = (acc dst).lamports + n
  dst_controlled : Controlled rt (acc' dst)
  dst_fresh : ¬ Controlled rt (acc dst)
  young : ∀ epoch, Young epoch (acc src) → Young epoch (acc' src) ∧ Young epoch (acc' dst)
  initialized : ∀ m, (acc src).data = .stakeState (.initialized m) →
    ∃ m', (acc' dst).data = .stakeState (.initialized m')
  delegated : ∀ m s, (acc src).data = .stakeState (.stake m s) → ∃ m' s',
    (acc' dst).data = .stakeState (.stake m' s') ∧
      s'.delegation.activationEpoch = s.delegation.activationEpoch ∧
      s'.delegation.deactivationEpoch = s.delegation.deactivationEpoch
  reserve : n < (acc src).lamports → Reserve rt (acc src) → ReserveStep rt (acc src) (acc' src)
  frame : Frame acc acc' [src, dst]
  pda : AllPda rt acc acc'

theorem stakeSplit_spec (hl : rt.Lawful) (h : stakeSplit rt sys acc src auth n dst = .ok acc')
    (hc : Controlled rt (acc src.key)) (hn : 0 < n) : SplitSpec rt acc acc' src.key dst.key n := by
  obtain ⟨hne, hso, hdo, hdd, hle, s, t, u, hs, hsp, hr, rfl⟩ := stakeSplit_ok hl h
  have hps := hc.poolState hs
  constructor
  · exact hne
  · exact hle
  · simp [hne]
  · intro hlt
    rw [update_of_ne hne, update_self, if_neg (Nat.ne_of_lt hlt)]
    exact .mk' (by omega) (hps.split_left hsp)
  · simp
  · rw [update_self]
    exact .mk' (by omega) (hps.split_child hl.rent_pos hsp)
  · intro hcd
    obtain ⟨m, hm, -⟩ := hcd.poolState hdd
    cases hm
  · intro epoch hy
    rw [update_of_ne hne, update_self, update_self]
    constructor
    · intro m' s' hd
      split at hd
      · cases hd
      · cases hsp with
        | initialized => cases hd
        | stake m st => cases hd; exact (hy _ st hs :)
    · intro m' s' hd
      cases hsp with
      | initialized => cases hd
      | stake m st => cases hd; exact (hy _ st hs :)
  · intro m hm
    rw [hs, AccountData.stakeState.injEq] at hm
    subst hm
    cases hsp
    exact ⟨_, by rw [update_self]⟩
  · intro m st hm
    rw [hs, AccountData.stakeState.injEq] at hm
    subst hm
    cases hsp with
    | stake _ _ left moved => exact ⟨_, st.setStake moved, by rw [update_self], rfl, rfl⟩
  · intro hlt hres
    obtain ⟨m, hd, hm, -⟩ := hres.state
    rw [update_of_ne hne, update_self, if_neg (Nat.ne_of_lt hlt)]
    rw [hs, AccountData.stakeState.injEq] at hd
    subst hd
    cases hsp
    exact ⟨hs.symm, rfl, m, rfl, hm, hr m rfl (Nat.ne_of_lt hlt)⟩
  · intro k hk
    simp only [List.mem_cons, List.not_mem_nil, or_false, not_or] at hk
    rw [update_of_ne hk.2, update_of_ne hk.1]
  · refine ((AllPda.refl acc).update fun hp => .stake ?_).update fun _ => .stake (hsp.rentExempt hl.rent_pos)
    split
    · exact .uninitialized
    · exact (hp.rentExempt hs).of_meta hsp.meta_left

/-- Merging into a controlled account. -/
structure MergeSpec (rt : Runtime Key) (acc acc' : Accounts Key) (src dst : Key) : Prop where
  ne : dst ≠ src
  src_lamports : (acc' src).lamports = 0
  dst_lamports : (acc' dst).lamports = (acc dst).lamports + (acc src).lamports
  dst_controlled : Controlled rt (acc dst) → Controlled rt (acc' dst)
  src_young : ∀ epoch, Young epoch (acc' src)
  dst_young : ∀ epoch, Young epoch (acc dst) → Young epoch (acc' dst)
  reserve : Reserve rt (acc dst) → ReserveStep rt (acc dst) (acc' dst)
  frame : Frame acc acc' [src, dst]
  pda : AllPda rt acc acc'

theorem stakeMerge_spec (hl : rt.Lawful) (h : stakeMerge rt sys acc src auth dst = .ok acc') :
    MergeSpec rt acc acc' src.key dst.key := by
  obtain ⟨hne, hdo, hso, d, s, d', md, ms, hd, hs, hmd, hms, hauth, hst, hm, rfl⟩ := stakeMerge_ok hl h
  constructor
  · exact hne
  · simp [hne.symm]
  · simp
  · intro hc
    rw [update_self]
    exact .mk' (Nat.add_pos_left hc.lamports _) ((hc.poolState hd).merge hm)
  · intro epoch m' s' hd'
    rw [update_of_ne hne.symm, update_self] at hd'
    cases hd'
  · intro epoch hy m' s' hd'
    rw [update_self, AccountData.stakeState.injEq] at hd'
    subst hd'
    cases hm with
    | stake m st => exact (hy _ st hd :)
  · intro hres
    obtain ⟨m, hd', hpm, hle⟩ := hres.state
    rw [update_self]
    rw [hd, AccountData.stakeState.injEq] at hd'
    subst hd'
    cases hm
    exact ⟨hd.symm, rfl, m, rfl, hpm, by dsimp only; omega⟩
  · intro k hk
    simp only [List.mem_cons, List.not_mem_nil, or_false, not_or] at hk
    rw [update_of_ne hk.2, update_of_ne hk.1]
  · exact ((AllPda.refl acc).update fun _ => .stake .uninitialized).update fun hp =>
      .stake ((hp.rentExempt hd).of_meta hm.meta)

/-- Withdrawing part of an account. -/
structure WithdrawSpec (rt : Runtime Key) (acc acc' : Accounts Key) (src dst : Key) (n : Nat) : Prop where
  le : n ≤ (acc src).lamports
  src_lamports : src ≠ dst → (acc' src).lamports = (acc src).lamports - n
  src_le : (acc src).lamports ≤ (acc' src).lamports + n
  src_controlled : n < (acc src).lamports → Controlled rt (acc src) → Controlled rt (acc' src)
  src_data : n < (acc src).lamports → (acc' src).data = (acc src).data
  reserve : n < (acc src).lamports → Reserve rt (acc src) → ReserveStep rt (acc src) (acc' src)
  dst_eq : src ≠ dst → acc' dst = (acc dst).credit n
  frame : Frame acc acc' [src, dst]
  pda : AllPda rt acc acc'

theorem stakeWithdraw_spec (hl : rt.Lawful) (h : stakeWithdraw rt sys acc src auth dst n = .ok acc') :
    WithdrawSpec rt acc acc' src.key dst.key n := by
  obtain ⟨ho, hle, s, m, hs, hm, hw, hr, a, ha, rfl⟩ := stakeWithdraw_ok hl h
  have hsrc : ∀ hlt : n < (acc src.key).lamports, a = ⟨(acc src.key).lamports - n, rt.stakeProgramId,
      .stakeState s⟩ := fun hlt => by rw [ha, if_neg (Nat.ne_of_lt hlt)]
  -- the source is credited again when it is its own destination
  have hself : update (update acc src.key a) dst.key ((update acc src.key a dst.key).credit n) src.key =
      if src.key = dst.key then a.credit n else a := by
    by_cases hk : src.key = dst.key
    · rw [hk]; simp
    · simp [hk]
  constructor
  · exact hle
  · intro hne; rw [hself, if_neg hne, ha]
  · rw [hself, ha]
    split <;> simp only [Account.credit_lamports] <;> omega
  · intro hlt hc
    rw [hself, hsrc hlt]
    split
    · exact .mk' (Nat.add_pos_left (Nat.sub_pos_of_lt hlt) _) (hc.poolState hs)
    · exact .mk' (Nat.sub_pos_of_lt hlt) (hc.poolState hs)
  · intro hlt; rw [hself, hsrc hlt, hs]; split <;> rfl
  · intro hlt hres
    obtain ⟨m', hd, hpm, -⟩ := hres.state
    rw [hs, AccountData.stakeState.injEq] at hd
    subst hd
    cases hm
    have hfl := hr rfl (Nat.ne_of_lt hlt)
    rw [hself, hsrc hlt]
    split
    · exact ⟨hs.symm, rfl, m, rfl, hpm, by simp only [Account.credit_lamports]; omega⟩
    · exact ⟨hs.symm, rfl, m, rfl, hpm, hfl⟩
  · intro hne; rw [update_self, update_of_ne hne.symm]
  · intro k hk
    simp only [List.mem_cons, List.not_mem_nil, or_false, not_or] at hk
    rw [update_of_ne hk.2, update_of_ne hk.1]
  · have h₁ : AllPda rt acc (update acc src.key a) := (AllPda.refl acc).update fun hp => by
      rw [ha]
      refine .stake ?_
      split
      · exact .uninitialized
      · exact hp.rentExempt hs
    exact h₁.update fun hp => (h₁ _ hp).credit n

/-- Delegating or deactivating: the lamports and the control stay. -/
structure DelegateSpec (rt : Runtime Key) (acc acc' : Accounts Key) (k : Key) : Prop where
  lamports : (acc' k).lamports = (acc k).lamports
  controlled : Controlled rt (acc k) → Controlled rt (acc' k)
  frame : Frame acc acc' [k]
  pda : AllPda rt acc acc'

theorem stakeDelegate_spec (hl : rt.Lawful) (h : stakeDelegate rt sys acc dst vote auth = .ok acc') :
    DelegateSpec rt acc acc' dst.key := by
  obtain ⟨ho, s, m, st, hd, hm, -, -, -, -, rfl⟩ := stakeDelegate_ok hl h
  refine ⟨by simp, fun hc => ?_, fun k hk => ?_, ?_⟩
  · rw [update_self, ho]
    exact .mk' hc.lamports ((hc.poolState hd).of_meta hm.symm)
  · simp only [List.mem_singleton] at hk
    rw [update_of_ne hk]
  · refine (AllPda.refl acc).update fun hp => ?_
    rw [ho]
    exact .stake ((hp.rentExempt hd).of_meta hm.symm)

omit [Inhabited Key] in
/-- Delegating an initialized account starts its activation. -/
theorem stakeDelegate_delegation (hl : rt.Lawful)
    (h : stakeDelegate rt sys acc dst vote auth = .ok acc') {m : Meta Key}
    (hd : (acc dst.key).data = .stakeState (.initialized m)) : ∃ m' s,
      (acc' dst.key).data = .stakeState (.stake m' s) ∧ s.delegation.activationEpoch = sys.epoch := by
  obtain ⟨-, s, m', st, hd', hm', -, -, -, ha, rfl⟩ := stakeDelegate_ok hl h
  rw [hd, AccountData.stakeState.injEq] at hd'
  subst hd'
  cases hm'
  exact ⟨_, _, by rw [update_self], ha rfl⟩

theorem stakeDeactivate_spec (hl : rt.Lawful) (h : stakeDeactivate rt sys acc dst auth = .ok acc') :
    DelegateSpec rt acc acc' dst.key := by
  obtain ⟨ho, m, s, hd, -, rfl⟩ := stakeDeactivate_ok hl h
  refine ⟨by simp, fun hc => ?_, fun k hk => ?_, ?_⟩
  · rw [update_self, ho]
    exact .mk' hc.lamports ((hc.poolState hd).of_meta rfl)
  · simp only [List.mem_singleton] at hk
    rw [update_of_ne hk]
  · refine (AllPda.refl acc).update fun hp => ?_
    rw [ho]
    exact .stake ((hp.rentExempt hd).of_meta rfl)

omit [Inhabited Key] in
/-- Deactivating keeps the activation. -/
theorem stakeDeactivate_young (hl : rt.Lawful) (h : stakeDeactivate rt sys acc dst auth = .ok acc')
    {epoch : Nat} (hy : Young epoch (acc dst.key)) : Young epoch (acc' dst.key) := by
  obtain ⟨-, m, s, hd, -, rfl⟩ := stakeDeactivate_ok hl h
  intro m' s' hd'
  rw [update_self] at hd'
  cases hd'
  exact (hy m s hd :)

/-- Giving an account away: only its withdrawer can, and nothing but the authorities changes. -/
structure AuthorizeSpec (rt : Runtime Key) (acc acc' : Accounts Key) (k auth : Key) : Prop where
  lamports : (acc' k).lamports = (acc k).lamports
  authority : Controlled rt (acc k) → auth = rt.withdrawAuthority
  frame : Frame acc acc' [k]
  pda : AllPda rt acc acc'

theorem stakeAuthorizeSigned_spec (hl : rt.Lawful) {new : Key}
    (h : stakeAuthorizeSigned rt sys acc dst auth new = .ok acc') :
    AuthorizeSpec rt acc acc' dst.key auth.key := by
  obtain ⟨ho, s, m, hd, hm, hw, rfl⟩ := stakeAuthorizeSigned_ok hl h
  refine ⟨by simp, fun hc => ?_, fun k hk => ?_, ?_⟩
  · have hp := (hc.poolState hd).poolMeta hm
    simp only [Meta.authorize, hp.authorized] at hw
    exact hw.symm
  · simp only [List.mem_singleton] at hk
    rw [update_of_ne hk]
  · refine (AllPda.refl acc).update fun hp => ?_
    rw [ho]
    refine .stake fun m' hm' => ?_
    have hrent := hp.rentExempt hd
    cases s with
    | initialized m₀ => cases hm'; exact (hrent m₀ rfl :)
    | stake m₀ st => cases hm'; exact (hrent m₀ rfl :)
    | _ => cases hm'

/-- Creating a stake account: it was not a stake account and keeps its lamports. -/
structure CreateSpec (rt : Runtime Key) (acc acc' : Accounts Key) (k : Key) : Prop where
  lamports : (acc' k).lamports = (acc k).lamports
  fresh : ¬ Controlled rt (acc k)
  young : ∀ epoch, Young epoch (acc' k)
  frame : Frame acc acc' [k]
  pda : AllPda rt acc acc'

theorem createStakeAccount_spec (hl : rt.Lawful) (h : createStakeAccount rt acc dst = .ok acc') :
    CreateSpec rt acc acc' dst.key := by
  obtain ⟨ho, hd, rfl⟩ := createStakeAccount_ok hl h
  refine ⟨by simp, not_controlled_of_none hd, fun epoch m s hd' => ?_, fun k hk => ?_, ?_⟩
  · rw [update_self] at hd'; cases hd'
  · simp only [List.mem_singleton] at hk
    rw [update_of_ne hk]
  · exact (AllPda.refl acc).update fun _ => .stake .uninitialized

end SplStakePool
