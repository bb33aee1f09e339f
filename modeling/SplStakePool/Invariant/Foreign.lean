import SplStakePool.Effect.Calls
import SplStakePool.Invariant.Mint

/-!
# What the instructions of one pool do to another

The calls of a pool are made with its own authorities or with ones that have signed, and neither is the withdraw
authority of another pool. So they do to the accounts of the other pool what everyone can do (`Harmless`). No call
gives a stake account a meta without a rent-exempt reserve (`Rented`).

There is one lemma for each call and none for a handler: an instruction is a run of calls (`Calls`), whatever handler
it was, and both relations are kept along it. That authorities of different pools differ is a matter of addresses.
-/

namespace SplStakePool
open Exec Machine Function Relation

variable {Key : Type} [DecidableEq Key] [Inhabited Key] {rt : Runtime Key} {sys : Sysvars}
  {accounts : List (AccountInfo Key)} {acc acc' acc'' : Accounts Key} {k : Key} {a b c : Account Key}

/-- The same chain and program, seen from another pool. -/
def Runtime.forPool (rt : Runtime Key) (stakePoolAddress validatorListAddress : Key) : Runtime Key :=
  { rt with stakePoolAddress, validatorListAddress }

omit [DecidableEq Key] [Inhabited Key] in
theorem Runtime.Lawful.forPool (hl : rt.Lawful) (stakePoolAddress validatorListAddress : Key) :
    (rt.forPool stakePoolAddress validatorListAddress).Lawful := by
  cases hl
  constructor <;> assumption

section
variable {pool list : Key}

omit [DecidableEq Key] [Inhabited Key]

/-- Different pools have different withdraw authorities. -/
theorem Runtime.forPool_withdrawAuthority_ne (hl : rt.Lawful) (hne : pool ≠ rt.stakePoolAddress) :
    rt.withdrawAuthority ≠ (rt.forPool pool list).withdrawAuthority := by
  intro h
  obtain ⟨⟨b, b', h⟩, -⟩ := hl.find_inj h
  simp only [preimage, Seed.symbols, List.flatMap_cons, List.cons_append, List.cons.injEq, Sum.inl.injEq] at h
  exact hne h.1.symm

theorem Runtime.forPool_depositAuthority_ne (hl : rt.Lawful) :
    rt.depositAuthority ≠ (rt.forPool pool list).withdrawAuthority := by
  intro h
  obtain ⟨⟨b, b', h⟩, -⟩ := hl.find_inj h
  simp [preimage, Seed.symbols, authorityDeposit, authorityWithdraw] at h

theorem Runtime.StakePda.forPool_ne (hl : rt.Lawful) (hne : pool ≠ rt.stakePoolAddress) (h : rt.StakePda k) :
    ¬ (rt.forPool pool list).StakePda k := by
  rintro h'
  cases h with
  | validator v =>
    generalize hk : rt.validatorStake v = k at h'
    cases h' with
    | validator u =>
      obtain ⟨⟨b, b', h⟩, -⟩ := hl.find_inj hk
      simp only [preimage, Seed.symbols, List.flatMap_cons, List.cons_append, List.cons.injEq, Sum.inl.injEq,
        List.nil_append] at h
      exact hne h.2.1.symm
    | transient u =>
      obtain ⟨⟨b, b', h⟩, -⟩ := hl.find_inj hk
      simp [preimage, Seed.symbols, transientStakeSeedPrefix] at h
    | ephemeral seed =>
      obtain ⟨⟨b, b', h⟩, -⟩ := hl.find_inj hk
      simp [preimage, Seed.symbols, ephemeralStakeSeedPrefix] at h
  | transient v =>
    generalize hk : rt.transientStake v = k at h'
    cases h' with
    | validator u =>
      obtain ⟨⟨b, b', h⟩, -⟩ := hl.find_inj hk
      simp [preimage, Seed.symbols, transientStakeSeedPrefix] at h
    | transient u =>
      obtain ⟨⟨b, b', h⟩, -⟩ := hl.find_inj hk
      simp only [preimage, Seed.symbols, List.flatMap_cons, List.append_assoc, List.append_cancel_left_eq,
        List.cons_append, List.cons.injEq, Sum.inl.injEq, List.nil_append] at h
      exact hne h.2.1.symm
    | ephemeral seed =>
      obtain ⟨⟨b, b', h⟩, -⟩ := hl.find_inj hk
      simp only [preimage, Seed.symbols, ephemeralStakeSeedPrefix, transientStakeSeedPrefix, List.flatMap_cons,
        List.map_cons, List.cons_append, List.cons.injEq, Sum.inr.injEq] at h
      exact absurd h.1 (by decide)
  | ephemeral seed =>
    generalize hk : rt.ephemeralStake seed = k at h'
    cases h' with
    | validator u =>
      obtain ⟨⟨b, b', h⟩, -⟩ := hl.find_inj hk
      simp [preimage, Seed.symbols, ephemeralStakeSeedPrefix] at h
    | transient u =>
      obtain ⟨⟨b, b', h⟩, -⟩ := hl.find_inj hk
      simp only [preimage, Seed.symbols, ephemeralStakeSeedPrefix, transientStakeSeedPrefix, List.flatMap_cons,
        List.map_cons, List.cons_append, List.cons.injEq, Sum.inr.injEq] at h
      exact absurd h.1 (by decide)
    | ephemeral seed' =>
      obtain ⟨⟨b, b', h⟩, -⟩ := hl.find_inj hk
      simp only [preimage, Seed.symbols, List.flatMap_cons, List.append_assoc, List.append_cancel_left_eq,
        List.cons_append, List.cons.injEq, Sum.inl.injEq, List.nil_append] at h
      exact hne h.1.symm

/-- An authority that a pool can use is not the withdraw authority of another. -/
theorem Runtime.SignsFor.ne (hl : rt.Lawful) (hne : pool ≠ rt.stakePoolAddress) (hs : NoPdaSigner rt accounts)
    (h : rt.SignsFor accounts k) : k ≠ (rt.forPool pool list).withdrawAuthority := by
  rcases h with rfl | rfl | ⟨info, hm, rfl, hsig⟩
  · exact Runtime.forPool_withdrawAuthority_ne hl hne
  · exact Runtime.forPool_depositAuthority_ne hl
  · intro he
    exact hs info hm hsig (he ▸ (hl.forPool pool list).isPda_withdrawAuthority)

end

/-- An account that was never used. -/
def Account.Unused (rt : Runtime Key) (a : Account Key) : Prop := a.owner = rt.systemProgramId ∧ a.data = .none

/-- What is done to an account without the withdraw authority of a pool and outside its derived addresses. -/
structure Harmless (rt : Runtime Key) (k : Key) (a b : Account Key) : Prop where
  evolves : Evolves rt a b
  pda : rt.StakePda k → PdaOk rt a → PdaOk rt b
  unused : rt.StakePda k → a.Unused rt → b.Unused rt
  /-- The mints of the pool can only lose tokens. -/
  mint : ∀ m, a.data = .mint m → m.mintAuthority = some rt.withdrawAuthority →
    ∃ n, n ≤ m.supply ∧ b.data = .mint { m with supply := n }

namespace Harmless

omit [DecidableEq Key]

theorem refl (rt : Runtime Key) (k : Key) (a : Account Key) : Harmless rt k a a :=
  ⟨.refl a, fun _ => id, fun _ => id, fun m hm _ => ⟨m.supply, le_rfl, hm⟩⟩

theorem trans (h₁ : Harmless rt k a b) (h₂ : Harmless rt k b c) : Harmless rt k a c := by
  refine ⟨h₁.evolves.trans h₂.evolves, fun hk => h₂.pda hk ∘ h₁.pda hk, fun hk => h₂.unused hk ∘ h₁.unused hk,
    fun m hm ha => ?_⟩
  obtain ⟨n, hn, hd⟩ := h₁.mint m hm ha
  obtain ⟨n', hn', hd'⟩ := h₂.mint _ hd ha
  exact ⟨n', hn'.trans hn, hd'⟩

theorem of_data (ho : b.owner = a.owner) (hd : b.data = a.data) (hle : Controlled rt a → a.lamports ≤ b.lamports) :
    Harmless rt k a b := by
  refine ⟨fun hc => ?_, fun _ h => ?_, fun _ h => ⟨ho.trans h.1, hd.trans h.2⟩,
    fun m hm _ => ⟨m.supply, le_rfl, hd.trans hm⟩⟩
  · obtain ⟨s, hs, -⟩ := hc.state
    exact ⟨ho, hle hc, s, s, hs, hd.trans hs, rfl, fun _ => rfl⟩
  · rwa [PdaOk, ho, hd]

theorem of_stake {s t : StakeStateV2 Key} (hs : a.data = .stakeState s) (ht : b.data = .stakeState t)
    (ho : b.owner = rt.stakeProgramId) (hr : RentExempt s → RentExempt t) (he : Evolves rt a b) :
    Harmless rt k a b := by
  refine ⟨he, fun _ h => ?_, fun _ h => ?_, fun m hm _ => ?_⟩
  · rcases h with ⟨-, h⟩ | ⟨-, s', hs', h⟩
    · rw [hs] at h
      cases h
    · rw [hs] at hs'
      cases hs'
      exact .inr ⟨ho, t, ht, hr h⟩
  · rw [Account.Unused, hs] at h
    cases h.2
  · rw [hs] at hm
    cases hm

theorem of_other (hs : ∀ s, a.data ≠ .stakeState s) (hn : a.data ≠ .none)
    (hmint : ∀ m, a.data = .mint m → m.mintAuthority = some rt.withdrawAuthority →
      ∃ n, n ≤ m.supply ∧ b.data = .mint { m with supply := n }) : Harmless rt k a b := by
  refine ⟨.of_not fun hc => ?_, fun _ h => ?_, fun _ h => absurd h.2 hn, hmint⟩
  · obtain ⟨s, hd, -⟩ := hc.state
    exact hs s hd
  · rcases h with ⟨-, h⟩ | ⟨-, s, h, -⟩
    · exact absurd h hn
    · exact absurd h (hs s)

theorem of_token {t : TokenAccount Key} (ht : a.data = .token t) : Harmless rt k a b :=
  .of_other (fun s => by rw [ht]; exact fun h => by cases h) (by rw [ht]; exact fun h => by cases h)
    (fun m hm => by rw [ht] at hm; cases hm)

theorem of_mint {m : Mint Key} {n : Nat} (hm : a.data = .mint m) (hb : b.data = .mint { m with supply := n })
    (hn : m.mintAuthority = some rt.withdrawAuthority → n ≤ m.supply) : Harmless rt k a b := by
  refine .of_other (fun s => by rw [hm]; exact fun h => by cases h) (by rw [hm]; exact fun h => by cases h)
    fun m' hm' ha => ?_
  rw [hm] at hm'
  cases hm'
  exact ⟨n, hn ha, hb⟩

end Harmless

/-- What is done to all accounts. -/
def AllHarmless (rt : Runtime Key) (acc acc' : Accounts Key) : Prop := ∀ k, Harmless rt k (acc k) (acc' k)

theorem AllHarmless.update (h : AllHarmless rt acc acc') (ha : Harmless rt k (acc k) a) :
    AllHarmless rt acc (update acc' k a) := by
  intro j
  by_cases hj : j = k
  · subst hj
    rw [update_self]
    exact ha
  · rw [update_of_ne hj]
    exact h j

theorem AllHarmless.credit {j : Key} {n : Nat} (h : AllHarmless rt acc acc') :
    AllHarmless rt acc (Function.update acc' j ((acc' j).credit n)) := by
  refine h.update ((h j).trans (.of_data rfl rfl fun _ => ?_))
  exact Nat.le_add_right _ _

omit [DecidableEq Key] in
theorem not_controlled_of_staker {s : StakeStateV2 Key} {m : Meta Key} (hd : a.data = .stakeState s)
    (hm : s.meta? = some m) (h : m.authorized.staker ≠ rt.withdrawAuthority) : ¬ Controlled rt a := by
  rintro hc
  exact h (congrArg Authorized.staker ((hc.poolState hd).poolMeta hm).authorized)

omit [DecidableEq Key] in
theorem not_controlled_of_withdrawer {s : StakeStateV2 Key} {m : Meta Key} (hd : a.data = .stakeState s)
    (hm : s.meta? = some m) (h : m.authorized.withdrawer ≠ rt.withdrawAuthority) : ¬ Controlled rt a := by
  rintro hc
  exact h (congrArg Authorized.withdrawer ((hc.poolState hd).poolMeta hm).authorized)

/-! ## Calls -/

section
variable {pool list : Key} {src dst auth vote mint : AccountInfo Key} {n : Nat}

omit [DecidableEq Key] in
theorem AllHarmless.refl (rt : Runtime Key) (acc : Accounts Key) : AllHarmless rt acc acc := fun k => .refl rt k (acc k)

theorem createStakeAccount_harmless (hl : rt.Lawful) (hne : pool ≠ rt.stakePoolAddress) (hk : rt.StakePda dst.key)
    (h : createStakeAccount rt acc dst = .ok acc') : AllHarmless (rt.forPool pool list) acc acc' := by
  obtain ⟨-, hd, rfl⟩ := createStakeAccount_ok hl h
  refine (AllHarmless.refl _ acc).update ⟨.of_not (not_controlled_of_none hd), fun _ _ => ?_, fun hk' => ?_,
    fun m hm => ?_⟩
  · exact .inr ⟨rfl, _, rfl, .uninitialized⟩
  · exact absurd hk' (hk.forPool_ne hl hne)
  · rw [hd] at hm
    cases hm

theorem stakeDelegate_harmless (hl : rt.Lawful) (ha : auth.key ≠ (rt.forPool pool list).withdrawAuthority)
    (h : stakeDelegate rt sys acc dst vote auth = .ok acc') : AllHarmless (rt.forPool pool list) acc acc' := by
  obtain ⟨ho, s, m, st, hd, hm, hst, -, -, -, rfl⟩ := stakeDelegate_ok hl h
  refine (AllHarmless.refl _ acc).update (.of_stake hd rfl ho (fun hr => hr.of_meta hm.symm) (.of_not ?_))
  exact not_controlled_of_staker hd hm (by rwa [hst])

theorem stakeDeactivate_harmless (hl : rt.Lawful) (h : stakeDeactivate rt sys acc dst auth = .ok acc') :
    AllHarmless (rt.forPool pool list) acc acc' := by
  obtain ⟨ho, m, s, hd, -, rfl⟩ := stakeDeactivate_ok hl h
  refine (AllHarmless.refl _ acc).update (.of_stake hd rfl ho (fun hr => hr.of_meta rfl) fun _ => ?_)
  exact ⟨rfl, le_rfl, _, _, hd, rfl, rfl, fun h => by cases h⟩

theorem stakeSplit_harmless (hl : rt.Lawful) (ha : auth.key ≠ (rt.forPool pool list).withdrawAuthority)
    (h : stakeSplit rt sys acc src auth n dst = .ok acc') : AllHarmless (rt.forPool pool list) acc acc' := by
  obtain ⟨-, -, -, hd, -, s, t, u, hs, hsp, -, rfl⟩ := stakeSplit_ok hl h
  have hsrc : ¬ Controlled (rt.forPool pool list) (acc src.key) := by
    cases hsp with
    | initialized m hst => exact not_controlled_of_staker hs rfl (by rwa [hst])
    | stake m st _ _ hst => exact not_controlled_of_staker hs rfl (by rwa [hst])
  have hdst : ¬ Controlled (rt.forPool pool list) (acc dst.key) := fun hc => by
    obtain ⟨m, hm, -⟩ := hc.poolState hd
    cases hm
  refine ((AllHarmless.refl _ acc).update (.of_stake hs rfl rfl (fun hr => ?_) (.of_not hsrc))).update
    (.of_stake hd rfl rfl (fun _ => ?_) (.of_not hdst))
  · split
    · exact .uninitialized
    · cases hsp <;> exact hr.of_meta rfl
  · cases hsp with
    | initialized m | stake m =>
      intro m' hm'
      cases hm'
      exact hl.rent_pos

theorem stakeMerge_harmless (hl : rt.Lawful) (ha : auth.key ≠ (rt.forPool pool list).withdrawAuthority)
    (h : stakeMerge rt sys acc src auth dst = .ok acc') : AllHarmless (rt.forPool pool list) acc acc' := by
  obtain ⟨-, -, -, d, s, d', md, ms, hd, hs, hmd, hms, hauth, hst, hm, rfl⟩ := stakeMerge_ok hl h
  have hsrc : ms.authorized.staker ≠ (rt.forPool pool list).withdrawAuthority := by rwa [← hauth, hst]
  refine ((AllHarmless.refl _ acc).update (.of_stake hs rfl rfl (fun _ => .uninitialized)
    (.of_not (not_controlled_of_staker hs hms hsrc)))).update (.of_stake hd rfl rfl (fun hr => ?_)
    (.of_not (not_controlled_of_staker hd hmd (by rwa [hst]))))
  cases hm <;> exact hr.of_meta rfl

theorem stakeWithdraw_harmless (hl : rt.Lawful) (ha : auth.key ≠ (rt.forPool pool list).withdrawAuthority)
    (h : stakeWithdraw rt sys acc src auth dst n = .ok acc') : AllHarmless (rt.forPool pool list) acc acc' := by
  obtain ⟨-, -, s, m, hs, hm, hw, -, a, ha', rfl⟩ := stakeWithdraw_ok hl h
  refine ((AllHarmless.refl _ acc).update ?_).credit
  subst ha'
  refine .of_stake hs rfl rfl (fun hr => ?_) (.of_not (not_controlled_of_withdrawer hs hm (by rwa [hw])))
  split
  · exact .uninitialized
  · exact hr

theorem stakeAuthorizeSigned_harmless (hl : rt.Lawful) {new : Key}
    (ha : auth.key ≠ (rt.forPool pool list).withdrawAuthority)
    (h : stakeAuthorizeSigned rt sys acc dst auth new = .ok acc') : AllHarmless (rt.forPool pool list) acc acc' := by
  obtain ⟨ho, s, m, hd, hm, hw, rfl⟩ := stakeAuthorizeSigned_ok hl h
  refine (AllHarmless.refl _ acc).update (.of_stake hd rfl ho (fun hr => ?_)
    (.of_not (not_controlled_of_withdrawer hd hm (by rwa [show m.authorized.withdrawer = auth.key from hw]))))
  cases s with
  | initialized m' | stake m' =>
    intro m'' hm''
    cases hm''
    exact hr m' rfl
  | _ => exact hr

theorem tokenMintTo_harmless (hl : rt.Lawful) (ha : auth.key ≠ (rt.forPool pool list).withdrawAuthority)
    (h : tokenMintTo rt acc mint dst auth n = .ok acc') : AllHarmless (rt.forPool pool list) acc acc' := by
  obtain ⟨-, m, t, hm, ht, -, hauth, -, rfl⟩ := tokenMintTo_ok hl h
  refine ((AllHarmless.refl _ acc).update (.of_mint hm rfl fun he => ?_)).update (.of_token ht)
  rw [hauth] at he
  exact absurd (Option.some.inj he) ha

theorem tokenBurn_harmless (hl : rt.Lawful) (h : tokenBurn rt acc src mint auth n = .ok acc') :
    AllHarmless (rt.forPool pool list) acc acc' := by
  obtain ⟨-, -, t, m, ht, hm, -, -, -, rfl⟩ := tokenBurn_ok hl h
  exact ((AllHarmless.refl _ acc).update (.of_token ht)).update (.of_mint hm rfl fun _ => Nat.sub_le _ _)

theorem tokenTransfer_harmless (hl : rt.Lawful) {decimals : Nat}
    (h : tokenTransfer rt acc src mint dst auth n decimals = .ok acc') :
    AllHarmless (rt.forPool pool list) acc acc' := by
  obtain ⟨-, t, u, r, ht, hu, -, -, -, -, rfl⟩ := tokenTransfer_ok hl h
  exact ((AllHarmless.refl _ acc).update (.of_token ht)).update (.of_token hu)

theorem solTransfer_harmless (hl : rt.Lawful) (h : solTransfer rt acc src dst n = .ok acc') :
    AllHarmless (rt.forPool pool list) acc acc' := by
  obtain ⟨-, -, hd, -, a, ha, rfl⟩ := solTransfer_ok hl h
  refine ((AllHarmless.refl _ acc).update ?_).credit
  subst ha
  exact .of_data rfl rfl fun hc => absurd hc (not_controlled_of_none hd)

/-- What a call of one pool does is harmless for every other pool. -/
theorem Call.harmless (hl : rt.Lawful) (hne : pool ≠ rt.stakePoolAddress) (hsystem : rt.programId ≠ rt.systemProgramId)
    (hs : NoPdaSigner rt accounts) (h : Call rt sys accounts acc acc') :
    AllHarmless (rt.forPool pool list) acc acc' := by
  have auth : ∀ {k : Key}, k = rt.withdrawAuthority → k ≠ (rt.forPool pool list).withdrawAuthority := by
    rintro k rfl
    exact Runtime.forPool_withdrawAuthority_ne hl hne
  cases h with
  | create hk h => exact createStakeAccount_harmless hl hne hk h
  | delegate ha h => exact stakeDelegate_harmless hl (auth ha) h
  | deactivate h => exact stakeDeactivate_harmless hl h
  | split ha h => exact stakeSplit_harmless hl (auth ha) h
  | merge ha h => exact stakeMerge_harmless hl (auth ha) h
  | withdraw ha h => exact stakeWithdraw_harmless hl (auth ha) h
  | authorize ha h => exact stakeAuthorizeSigned_harmless hl (ha.ne hl hne hs) h
  | mintTo ha h => exact tokenMintTo_harmless hl (auth ha) h
  | burn h => exact tokenBurn_harmless hl h
  | transfer h => exact tokenTransfer_harmless hl h
  | pay h => exact solTransfer_harmless hl h
  | @metadata _ _ _ payer key _ _ _ a b hsig ho hk h he =>
    subst he
    obtain ⟨hown, hd, hd', -, n, -, hb⟩ := hl.createMetadataAccountsV3_ok _ _ _ _ _ _ _ _ _ h
    have hpayer : Harmless (rt.forPool pool list) payer (acc payer) b := by
      subst hb
      refine .of_data rfl rfl fun hc => ?_
      rw [ownerOf] at ho
      split at ho
      · exact absurd ho.symm hsystem
      · exact absurd (ho.trans hc.owner) hl.system_ne_stake
    refine ((AllHarmless.refl _ acc).update hpayer).update ⟨.of_not (not_controlled_of_none hd), fun hk' => ?_,
      fun hk' => ?_, fun m hm => ?_⟩
    -- the metadata account is derived from another program
    iterate 2
      obtain ⟨seeds, hs⟩ := hk'.isPda (hl.forPool pool list)
      rw [hk] at hs
      exact absurd (hl.create_inj _ _ _ _ _ hs (hl.create_find _ rt.mplTokenMetadataId)).2 hl.program_ne_metadata
    rw [hd] at hm
    cases hm

/-- What an instruction of one pool does is harmless for every other pool. -/
theorem Calls.harmless (hl : rt.Lawful) (hne : pool ≠ rt.stakePoolAddress) (hsystem : rt.programId ≠ rt.systemProgramId)
    (hs : NoPdaSigner rt accounts) (h : Calls rt sys accounts acc acc') :
    AllHarmless (rt.forPool pool list) acc acc' := by
  induction h with
  | refl => exact .refl _ acc
  | tail _ h ih => exact fun k => (ih k).trans (h.harmless hl hne hsystem hs k)

end

/-! ## Rent -/

/-- A stake account that the stake program has initialized, with a rent-exempt reserve of 64 bits. -/
def Account.Rented (a : Account Key) : Prop :=
  ∀ s m, a.data = .stakeState s → s.meta? = some m → 0 < m.rentExemptReserve ∧ m.rentExemptReserve < 2 ^ 64

namespace Account.Rented

omit [DecidableEq Key] [Inhabited Key]

theorem of_data (h : a.Rented) (hd : b.data = a.data) : b.Rented := fun s m hs => h s m (hd ▸ hs)

theorem of_not (h : ∀ s m, a.data = .stakeState s → s.meta? ≠ some m) : a.Rented :=
  fun s m hs hm => absurd hm (h s m hs)

theorem of_stake {s t : StakeStateV2 Key} (hs : a.data = .stakeState s) (ht : b.data = .stakeState t)
    (he : t.meta?.map (·.rentExemptReserve) = s.meta?.map (·.rentExemptReserve)) (h : a.Rented) : b.Rented := by
  intro t' m ht' hm
  rw [ht] at ht'
  cases ht'
  rw [hm, Option.map_some] at he
  obtain ⟨m', hm', hr⟩ := Option.map_eq_some_iff.1 he.symm
  rw [← hr]
  exact h s m' hs hm'

end Account.Rented

/-- All accounts keep it. -/
def KeepsRent (acc acc' : Accounts Key) : Prop := ∀ k, (acc k).Rented → (acc' k).Rented

omit [DecidableEq Key] [Inhabited Key] in
theorem KeepsRent.refl (acc : Accounts Key) : KeepsRent acc acc := fun _ => id

omit [Inhabited Key] in
theorem KeepsRent.update (h : KeepsRent acc acc') (ha : (acc k).Rented → a.Rented) : KeepsRent acc (update acc' k a) := by
  intro j
  by_cases hj : j = k
  · subst hj
    rw [update_self]
    exact ha
  · rw [update_of_ne hj]
    exact h j

omit [Inhabited Key] in
/-- No call makes a stake account without a rent-exempt reserve. -/
theorem Call.rent (hl : rt.Lawful) (h : Call rt sys accounts acc acc') : KeepsRent acc acc' := by
  have notStake : ∀ {a : Account Key}, (∀ s, a.data ≠ .stakeState s) → a.Rented := fun h => .of_not fun s m hs =>
    absurd hs (h s)
  have hrefl := KeepsRent.refl acc
  cases h with
  | create hk h =>
    obtain ⟨-, hd, rfl⟩ := createStakeAccount_ok hl h
    refine hrefl.update fun _ => .of_not fun s m hs hm => ?_
    cases hs
    cases hm
  | delegate ha h =>
    obtain ⟨ho, s, m, st, hd, hm, hst, -, -, -, rfl⟩ := stakeDelegate_ok hl h
    exact hrefl.update (.of_stake hd rfl (by rw [hm]; rfl))
  | deactivate h =>
    obtain ⟨ho, m, s, hd, -, rfl⟩ := stakeDeactivate_ok hl h
    exact hrefl.update (.of_stake hd rfl rfl)
  | split ha h =>
    obtain ⟨-, -, -, hd, -, s, t, u, hs, hsp, -, rfl⟩ := stakeSplit_ok hl h
    refine (hrefl.update fun hr => ?_).update fun _ => ?_
    · split
      · exact .of_not fun s m hs hm => by
          cases hs
          cases hm
      · refine .of_stake hs rfl ?_ hr
        cases hsp <;> rfl
    · -- the new account has the rent of a stake account
      have hlt := hl.rent_lt
      have hpos := hl.rent_pos
      cases hsp with
      | initialized m | stake m =>
        intro t' m' ht' hm'
        cases ht'
        cases hm'
        exact ⟨hpos, by dsimp only; omega⟩
  | merge ha h =>
    obtain ⟨-, -, -, d, s, d', md, ms, hd, hs, -, -, -, -, hm, rfl⟩ := stakeMerge_ok hl h
    refine (hrefl.update fun _ => .of_not fun s m hs hm => ?_).update (.of_stake hd rfl ?_)
    · cases hs
      cases hm
    · cases hm <;> rfl
  | @withdraw src _ dst _ ha h =>
    obtain ⟨-, -, s, m, hs, -, -, -, a, ha', rfl⟩ := stakeWithdraw_ok hl h
    have h₁ : KeepsRent acc (Function.update acc src.key a) := hrefl.update fun hr => by
      subst ha'
      split
      · exact .of_not fun s m hs hm => by
          cases hs
          cases hm
      · exact .of_data hr hs.symm
    exact h₁.update fun hr => (h₁ dst.key hr).of_data rfl
  | authorize ha h =>
    obtain ⟨ho, s, m, hd, hm, hw, rfl⟩ := stakeAuthorizeSigned_ok hl h
    refine hrefl.update (.of_stake hd rfl ?_)
    cases s <;> rfl
  | mintTo ha h =>
    obtain ⟨-, m, t, hm, ht, -, hauth, -, rfl⟩ := tokenMintTo_ok hl h
    exact (hrefl.update fun _ => notStake fun _ h => by cases h).update fun _ => notStake fun _ h => by cases h
  | burn h =>
    obtain ⟨-, -, t, m, ht, hm, -, -, -, rfl⟩ := tokenBurn_ok hl h
    exact (hrefl.update fun _ => notStake fun _ h => by cases h).update fun _ => notStake fun _ h => by cases h
  | transfer h =>
    obtain ⟨-, t, u, r, ht, hu, -, -, -, -, rfl⟩ := tokenTransfer_ok hl h
    exact (hrefl.update fun _ => notStake fun _ h => by cases h).update fun _ => notStake fun _ h => by cases h
  | @pay src dst _ h =>
    obtain ⟨-, -, hd, -, a, ha, rfl⟩ := solTransfer_ok hl h
    have h₁ : KeepsRent acc (Function.update acc src.key a) := hrefl.update fun hr => hr.of_data (by rw [ha])
    exact h₁.update fun hr => (h₁ dst.key hr).of_data rfl
  | metadata hsig ho hk h he =>
    subst he
    obtain ⟨-, hd, hd', -, n, -, hb⟩ := hl.createMetadataAccountsV3_ok _ _ _ _ _ _ _ _ _ h
    refine (hrefl.update fun hr => hr.of_data (by rw [hb])).update fun _ => notStake fun s h => ?_
    rw [hd'] at h
    cases h

omit [Inhabited Key] in
theorem Calls.rent (hl : rt.Lawful) (h : Calls rt sys accounts acc acc') : KeepsRent acc acc' := by
  induction h with
  | refl => exact .refl acc
  | tail _ h ih => exact fun k hr => h.rent hl k (ih k hr)

end SplStakePool
