import SplStakePool.System

/-!
# What calls into other programs do

One lemma for each call of `Cpi.lean`, from the laws of the runtime: what a call that succeeds required
of the accounts it names, and the exact map of accounts after it.

These are the only places where a law of the runtime is unfolded for a call. Everything after them works with
updates of the map of accounts.
-/

namespace SplStakePool
open Exec Function

variable {Key : Type} [DecidableEq Key] {rt : Runtime Key} {sys : Sysvars}
  {acc acc' : Accounts Key} {src dst auth vote mint : AccountInfo Key} {n : Nat}

theorem createStakeAccount_ok (hl : rt.Lawful) (h : createStakeAccount rt acc dst = .ok acc') :
    (acc dst.key).owner = rt.systemProgramId ∧ (acc dst.key).data = .none ∧
      acc' = update acc dst.key
        ⟨(acc dst.key).lamports, rt.stakeProgramId, .stakeState .uninitialized⟩ := by
  simp only [createStakeAccount, bind_eq_ok, pure_eq_ok] at h
  obtain ⟨a, ha, b, hb, rfl⟩ := h
  obtain ⟨ho, hd, rfl⟩ := hl.allocate_ok _ _ _ ha
  obtain ⟨-, rfl⟩ := hl.assign_ok _ _ _ hb
  exact ⟨ho, hd, rfl⟩

theorem stakeDelegate_ok (hl : rt.Lawful) (h : stakeDelegate rt sys acc dst vote auth = .ok acc') :
    (acc dst.key).owner = rt.stakeProgramId ∧ ∃ s m st, (acc dst.key).data = .stakeState s ∧
      s.meta? = some m ∧ m.authorized.staker = auth.key ∧ st.delegation.voterPubkey = vote.key ∧
      st.delegation.deactivationEpoch = epochMax ∧
      (s = .initialized m → st.delegation.activationEpoch = sys.epoch) ∧
      acc' = update acc dst.key
        ⟨(acc dst.key).lamports, (acc dst.key).owner, .stakeState (.stake m st)⟩ := by
  simp only [stakeDelegate, bind_eq_ok, pure_eq_ok] at h
  obtain ⟨a, ha, rfl⟩ := h
  obtain ⟨ho, s, m, st, hd, hm, hst, rfl, hv, hde, hae⟩ := hl.delegate_ok _ _ _ _ _ ha
  exact ⟨ho, s, m, st, hd, hm, hst, hv, hde, hae, rfl⟩

theorem stakeDeactivate_ok (hl : rt.Lawful) (h : stakeDeactivate rt sys acc dst auth = .ok acc') :
    (acc dst.key).owner = rt.stakeProgramId ∧ ∃ m s, (acc dst.key).data = .stakeState (.stake m s) ∧
      m.authorized.staker = auth.key ∧
      acc' = update acc dst.key ⟨(acc dst.key).lamports, (acc dst.key).owner,
        .stakeState (.stake m (s.deactivateAt sys.epoch))⟩ := by
  simp only [stakeDeactivate, bind_eq_ok, pure_eq_ok] at h
  obtain ⟨a, ha, rfl⟩ := h
  obtain ⟨ho, m, s, hd, hst, -, rfl⟩ := hl.deactivate_ok _ _ _ _ ha
  exact ⟨ho, m, s, hd, hst, rfl⟩

theorem stakeSplit_ok (hl : rt.Lawful) (h : stakeSplit rt sys acc src auth n dst = .ok acc') :
    src.key ≠ dst.key ∧ (acc src.key).owner = rt.stakeProgramId ∧
    (acc dst.key).owner = rt.stakeProgramId ∧ (acc dst.key).data = .stakeState .uninitialized ∧
    n ≤ (acc src.key).lamports ∧
    ∃ s t u, (acc src.key).data = .stakeState s ∧
      SplitState auth.key (rt.rentMinimumBalance stakeSpace) s t u ∧
      (∀ m, s = .initialized m → n ≠ (acc src.key).lamports →
        m.rentExemptReserve ≤ (acc src.key).lamports - n) ∧
      acc' = update (update acc src.key ⟨(acc src.key).lamports - n, rt.stakeProgramId,
          .stakeState (if n = (acc src.key).lamports then .uninitialized else t)⟩) dst.key
        ⟨(acc dst.key).lamports + n, rt.stakeProgramId, .stakeState u⟩ := by
  simp only [stakeSplit, bind_eq_ok, pure_eq_ok] at h
  obtain ⟨⟨a, b⟩, hab, rfl⟩ := h
  obtain ⟨hso, hdo, hdd, hn, s, t, u, hs, hsp, rfl, rfl, hr⟩ := hl.split_ok _ _ _ _ _ _ _ hab
  refine ⟨?_, hso, hdo, hdd, hn, s, t, u, hs, hsp, hr, by rw [hso, hdo]⟩
  intro hk
  rw [hk, hdd, AccountData.stakeState.injEq] at hs
  subst hs; cases hsp

theorem stakeMerge_ok (hl : rt.Lawful) (h : stakeMerge rt sys acc src auth dst = .ok acc') :
    dst.key ≠ src.key ∧ (acc dst.key).owner = rt.stakeProgramId ∧
    (acc src.key).owner = rt.stakeProgramId ∧
    ∃ d s d' md ms, (acc dst.key).data = .stakeState d ∧ (acc src.key).data = .stakeState s ∧
      d.meta? = some md ∧ s.meta? = some ms ∧ md.authorized = ms.authorized ∧
      md.authorized.staker = auth.key ∧ MergeState d d' ∧
      acc' = update (update acc src.key ⟨0, rt.stakeProgramId, .stakeState .uninitialized⟩) dst.key
        ⟨(acc dst.key).lamports + (acc src.key).lamports, rt.stakeProgramId, .stakeState d'⟩ := by
  simp only [stakeMerge, bind_eq_ok, pure_eq_ok] at h
  obtain ⟨⟨a, b⟩, hab, rfl⟩ := h
  obtain ⟨hne, hdo, hso, d, s, d', md, ms, hd, hs, hmd, hms, hauth, hst, hm, rfl, rfl⟩ :=
    hl.merge_ok _ _ _ _ _ _ _ _ hab
  exact ⟨hne, hdo, hso, d, s, d', md, ms, hd, hs, hmd, hms, hauth, hst, hm, by rw [hdo, hso]⟩

theorem stakeWithdraw_ok (hl : rt.Lawful) (h : stakeWithdraw rt sys acc src auth dst n = .ok acc') :
    (acc src.key).owner = rt.stakeProgramId ∧ n ≤ (acc src.key).lamports ∧
    ∃ s m, (acc src.key).data = .stakeState s ∧ s.meta? = some m ∧ m.authorized.withdrawer = auth.key ∧
      (s = .initialized m → n ≠ (acc src.key).lamports →
        m.rentExemptReserve ≤ (acc src.key).lamports - n) ∧
      ∃ a, a = ⟨(acc src.key).lamports - n, rt.stakeProgramId,
          .stakeState (if n = (acc src.key).lamports then .uninitialized else s)⟩ ∧
        acc' = update (update acc src.key a) dst.key ((update acc src.key a dst.key).credit n) := by
  simp only [stakeWithdraw, bind_eq_ok, pure_eq_ok] at h
  obtain ⟨a, ha, rfl⟩ := h
  obtain ⟨ho, hn, s, m, hs, hm, hw, rfl, hr⟩ := hl.withdraw_ok _ _ _ _ _ ha
  exact ⟨ho, hn, s, m, hs, hm, hw, hr, _, by rw [ho], rfl⟩

theorem stakeAuthorizeSigned_ok (hl : rt.Lawful) {new : Key}
    (h : stakeAuthorizeSigned rt sys acc dst auth new = .ok acc') :
    (acc dst.key).owner = rt.stakeProgramId ∧ ∃ s m, (acc dst.key).data = .stakeState s ∧
      s.meta? = some m ∧ ((m.authorize new .staker).authorized.withdrawer = auth.key) ∧
      acc' = update acc dst.key ⟨(acc dst.key).lamports, (acc dst.key).owner,
        .stakeState ((s.authorize new .staker).authorize new .withdrawer)⟩ := by
  simp only [stakeAuthorizeSigned, bind_eq_ok, pure_eq_ok] at h
  obtain ⟨a, ha, b, hb, rfl⟩ := h
  obtain ⟨ho, s, m, hd, hm, -, rfl⟩ := hl.authorize_ok _ _ _ _ _ _ ha
  obtain ⟨-, s', m', hd', hm', hauth, rfl⟩ := hl.authorize_ok _ _ _ _ _ _ hb
  simp only [AccountData.stakeState.injEq] at hd'
  subst hd'
  refine ⟨ho, s, m, hd, hm, ?_, rfl⟩
  have : (s.authorize new .staker).meta? = some (m.authorize new .staker) := by
    cases s <;> simp_all [StakeStateV2.meta?, StakeStateV2.authorize]
  rw [this, Option.some.injEq] at hm'
  subst hm'
  simpa using hauth

theorem solTransfer_ok (hl : rt.Lawful) (h : solTransfer rt acc src dst n = .ok acc') :
    src.isSigner ∧ (acc src.key).owner = rt.systemProgramId ∧ (acc src.key).data = .none ∧
      n ≤ (acc src.key).lamports ∧
      ∃ a : Account Key, a = { acc src.key with lamports := (acc src.key).lamports - n } ∧
        acc' = update (update acc src.key a) dst.key ((update acc src.key a dst.key).credit n) := by
  simp only [solTransfer, bind_eq_ok, ensure_eq_ok, exists_unit, pure_eq_ok] at h
  obtain ⟨hs, a, ha, rfl⟩ := h
  obtain ⟨ho, hd, hn, rfl⟩ := hl.transfer_ok _ _ _ ha
  exact ⟨hs, ho, hd, hn, _, rfl, rfl⟩

theorem tokenMintTo_ok (hl : rt.Lawful) (h : tokenMintTo rt acc mint dst auth n = .ok acc') :
    mint.key ≠ dst.key ∧ ∃ m t, (acc mint.key).data = .mint m ∧ (acc dst.key).data = .token t ∧
      t.mint = mint.key ∧ m.mintAuthority = some auth.key ∧ m.supply + n < 2 ^ 64 ∧
      acc' = update (update acc mint.key
          { acc mint.key with data := .mint { m with supply := m.supply + n } }) dst.key
        { acc dst.key with data := .token { t with amount := t.amount + n } } := by
  simp only [tokenMintTo, bind_eq_ok, pure_eq_ok] at h
  obtain ⟨⟨a, b⟩, hab, rfl⟩ := h
  obtain ⟨m, t, hm, ht, hk, ha, hlt, rfl, rfl⟩ := hl.mintTo_ok _ _ _ _ _ _ _ hab
  refine ⟨?_, m, t, hm, ht, hk, ha, hlt, rfl⟩
  intro hk'; rw [hk', ht] at hm; cases hm

theorem tokenBurn_ok (hl : rt.Lawful) (h : tokenBurn rt acc src mint auth n = .ok acc') :
    src.key ≠ mint.key ∧ auth.isSigner ∧ ∃ t m, (acc src.key).data = .token t ∧
      (acc mint.key).data = .mint m ∧ t.mint = mint.key ∧ n ≤ t.amount ∧ n ≤ m.supply ∧
      acc' = update (update acc src.key
          { acc src.key with data := .token { t with amount := t.amount - n } }) mint.key
        { acc mint.key with data := .mint { m with supply := m.supply - n } } := by
  simp only [tokenBurn, bind_eq_ok, ensure_eq_ok, exists_unit, pure_eq_ok] at h
  obtain ⟨hs, ⟨a, b⟩, hab, rfl⟩ := h
  obtain ⟨t, m, ht, hm, hk, hn, hns, rfl, rfl⟩ := hl.burn_ok _ _ _ _ _ _ _ hab
  refine ⟨?_, hs, t, m, ht, hm, hk, hn, hns, rfl⟩
  intro hk'; rw [hk', hm] at ht; cases ht

theorem tokenTransfer_ok (hl : rt.Lawful) {decimals : Nat}
    (h : tokenTransfer rt acc src mint dst auth n decimals = .ok acc') :
    auth.isSigner ∧ ∃ t u r, (acc src.key).data = .token t ∧ (acc dst.key).data = .token u ∧
      t.mint = mint.key ∧ u.mint = mint.key ∧ n ≤ t.amount ∧ r ≤ n ∧
      acc' = update (update acc src.key
          { acc src.key with data := .token { t with amount := t.amount - n } }) dst.key
        { acc dst.key with data := .token { u with amount := u.amount + r } } := by
  simp only [tokenTransfer, bind_eq_ok, ensure_eq_ok, exists_unit, pure_eq_ok] at h
  obtain ⟨hs, ⟨a, b⟩, hab, rfl⟩ := h
  obtain ⟨t, u, r, ht, hu, hk, hk', hn, hr, rfl, rfl⟩ := hl.transferChecked_ok _ _ _ _ _ _ _ _ _ hab
  exact ⟨hs, t, u, r, ht, hu, hk, hk', hn, hr, rfl⟩

end SplStakePool
