import Mathlib.Tactic.Linarith
import SplStakePool.Invariant.Cpi

/-!
# Accounts of the pool over time

`Evolves` is what everyone but the pool's withdraw authority can do to an account of the pool: add
lamports, delegated or not, deactivate it or destake it. The calls that are not made with that authority
only do this, and so does the environment.

It is a preorder on accounts. An account that evolves stays under the control of the pool and keeps what it has, so
that an invariant that only asks for lamports and control survives whatever others do, and needs no argument for each
of their steps.
-/

namespace SplStakePool
open Function

variable {Key : Type} [DecidableEq Key] [Inhabited Key] {rt : Runtime Key} {sys : Sysvars}

namespace PoolState
variable {s t u : StakeStateV2 Key} {m : Meta Key} {st : Stake Key}

omit [DecidableEq Key]

theorem of_meta (h : PoolState rt s) (hm : t.meta? = s.meta?) : PoolState rt t := by
  obtain ⟨m, hs, hp⟩ := h; exact ⟨m, hm.trans hs, hp⟩

theorem poolMeta (h : PoolState rt s) (hm : s.meta? = some m) : PoolMeta rt m := by
  obtain ⟨m', hs, hp⟩ := h
  rw [hm, Option.some.injEq] at hs
  exact hs ▸ hp

theorem split_left {auth : Key} {rent : Nat} (h : PoolState rt s) (hs : SplitState auth rent s t u) :
    PoolState rt t := by
  cases hs <;> exact h.of_meta rfl

theorem split_child {auth : Key} {rent : Nat} (h : PoolState rt s) (hr : 0 < rent)
    (hs : SplitState auth rent s t u) : PoolState rt u := by
  cases hs with
  | initialized m _ =>
    have hm := h.poolMeta (m := m) rfl
    exact ⟨_, rfl, hm.authorized, hm.lockup, hr⟩
  | stake m _ _ _ _ =>
    have hm := h.poolMeta (m := m) rfl
    exact ⟨_, rfl, hm.authorized, hm.lockup, hr⟩

theorem merge (h : PoolState rt s) (hs : MergeState s t) : PoolState rt t := by
  cases hs <;> exact h.of_meta rfl

end PoolState

namespace Controlled
variable {a : Account Key} {s : StakeStateV2 Key}

omit [DecidableEq Key]

theorem mk' {l : Nat} (hl : 0 < l) (h : PoolState rt s) :
    Controlled rt ⟨l, rt.stakeProgramId, .stakeState s⟩ := ⟨rfl, hl, s, rfl, h⟩

theorem poolState (h : Controlled rt a) (hd : a.data = .stakeState s) : PoolState rt s := by
  obtain ⟨s', hs, hp⟩ := h.state
  rw [hd, AccountData.stakeState.injEq] at hs
  exact hs ▸ hp

end Controlled

/-- What others can do to an account of the pool. -/
def Evolves (rt : Runtime Key) (a a' : Account Key) : Prop :=
  Controlled rt a → a'.owner = a.owner ∧ a.lamports ≤ a'.lamports ∧
    ∃ s s', a.data = .stakeState s ∧ a'.data = .stakeState s' ∧ s'.meta? = s.meta? ∧
      (s.delegation? = none → s' = s)

namespace Evolves
variable {a b c : Account Key}

omit [DecidableEq Key]

theorem refl (a : Account Key) : Evolves rt a a := fun h => by
  obtain ⟨s, hs, -⟩ := h.state
  exact ⟨rfl, le_rfl, s, s, hs, hs, rfl, fun _ => rfl⟩

theorem controlled (h : Evolves rt a b) (ha : Controlled rt a) : Controlled rt b := by
  obtain ⟨ho, hl, s, s', hs, hs', hm, -⟩ := h ha
  exact ⟨ho.trans ha.owner, ha.lamports.trans_le hl, s', hs', (ha.poolState hs).of_meta hm⟩

theorem trans (h₁ : Evolves rt a b) (h₂ : Evolves rt b c) : Evolves rt a c := fun ha => by
  obtain ⟨ho, hl, s, s', hs, hs', hm, hd⟩ := h₁ ha
  obtain ⟨ho', hl', t, t', ht, ht', hm', hd'⟩ := h₂ (h₁.controlled ha)
  rw [hs', AccountData.stakeState.injEq] at ht
  subst ht
  refine ⟨ho'.trans ho, hl.trans hl', s, t', hs, ht', hm'.trans hm, fun hn => ?_⟩
  have := hd hn
  subst this
  exact hd' hn

theorem of_not (h : ¬ Controlled rt a) : Evolves rt a b := fun ha => absurd ha h

theorem credit (a : Account Key) (n : Nat) : Evolves rt a (a.credit n) := fun h => by
  obtain ⟨s, hs, -⟩ := h.state
  exact ⟨rfl, Nat.le_add_right _ _, s, s, hs, hs, rfl, fun _ => rfl⟩

end Evolves

/-- Every account evolves. -/
def AllEvolve (rt : Runtime Key) (acc acc' : Accounts Key) : Prop := ∀ k, Evolves rt (acc k) (acc' k)

namespace AllEvolve
variable {acc acc' acc'' : Accounts Key} {k : Key} {a : Account Key}

omit [DecidableEq Key] in
theorem refl (acc : Accounts Key) : AllEvolve rt acc acc := fun _ => .refl _

omit [DecidableEq Key] in
theorem trans (h₁ : AllEvolve rt acc acc') (h₂ : AllEvolve rt acc' acc'') : AllEvolve rt acc acc'' :=
  fun k => (h₁ k).trans (h₂ k)

theorem update (h : AllEvolve rt acc acc') (ha : Evolves rt (acc k) a) :
    AllEvolve rt acc (update acc' k a) := by
  intro j
  by_cases hj : j = k
  · subst hj; simpa using ha
  · simpa [hj] using h j

end AllEvolve

omit [DecidableEq Key] in
theorem not_controlled_of_mint {a : Account Key} {m : Mint Key} (h : a.data = .mint m) :
    ¬ Controlled rt a := fun hc => by
  obtain ⟨s, hs, -⟩ := hc.state
  rw [h] at hs; cases hs

omit [DecidableEq Key] in
theorem not_controlled_of_token {a : Account Key} {t : TokenAccount Key} (h : a.data = .token t) :
    ¬ Controlled rt a := fun hc => by
  obtain ⟨s, hs, -⟩ := hc.state
  rw [h] at hs; cases hs

omit [DecidableEq Key] in
theorem not_controlled_of_none {a : Account Key} (h : a.data = .none) : ¬ Controlled rt a := fun hc => by
  obtain ⟨s, hs, -⟩ := hc.state
  rw [h] at hs; cases hs

section
variable {acc acc' : Accounts Key} {src auth mint : AccountInfo Key} {n : Nat}

theorem tokenBurn_evolve (hl : rt.Lawful) (h : tokenBurn rt acc src mint auth n = .ok acc') :
    AllEvolve rt acc acc' := by
  obtain ⟨-, -, t, m, ht, hm, -, -, -, rfl⟩ := tokenBurn_ok hl h
  exact ((AllEvolve.refl acc).update (.of_not (not_controlled_of_token ht))).update
    (.of_not (not_controlled_of_mint hm))

end
end SplStakePool
