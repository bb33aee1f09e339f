import SplStakePool.Invariant.Backing

/-!
# What tokens are worth over a run

The pool refines the vault: whatever instructions are executed and whatever the environment does, the lamports
and the tokens of the pool change by moves of a vault or not at all. So tokens that are held do not lose value
as long as there are any.

The simulation is one lemma for a step and the rule of the library for a run. An instruction is a move by the case of
`Executed` that it is; the environment does not reach the two accounts of the pool, although it may burn tokens and
pay lamports that the pool does not count yet.
-/

namespace SplStakePool
open Exec Machine System ShareVault Relation

variable {Key : Type} [DecidableEq Key] {rt : Runtime Key} {w w' : World Key} {accounts : List (AccountInfo Key)}
  {i : StakePoolInstruction Key} {out : Option Key} {l : Label Key}

omit [DecidableEq Key] in
theorem StakePool.vault_eq {p : StakePool Key} {total supply : Nat} (ht : p.totalLamports = total)
    (hc : p.poolTokenSupply = supply) : p.vault = ⟨total, supply⟩ := by
  rw [StakePool.vault, ht, hc]

variable [Inhabited Key]

/-- An instruction on a pool with tokens is a move of the vault. -/
theorem Executed.vault (hl : rt.Lawful) (hi : Inv rt w) (hb : Backing w) (hS : 0 < w.stakePool.poolTokenSupply)
    (h : Executed rt w w' accounts i out) : w'.stakePool.vault = w.stakePool.vault ∨
      Move w.stakePool.vault w'.stakePool.vault := by
  obtain ⟨s, hs, hle⟩ := hb.supply
  have hT : 0 < w.stakePool.totalLamports := Nat.lt_of_lt_of_le hS hb.backed
  cases h.supply hl hs with
  | kept _ hc ht =>
    exact .inl (StakePool.vault_eq ht hc)
  | minted _ hc ht hn =>
    right
    rw [StakePool.vault_eq ht hc]
    exact StakePool.vault_enter hn hT hS
  | burnt _ _ hnc hc hlt ht hn =>
    right
    rw [StakePool.vault_eq ht hc]
    exact .leave hn hlt hnc
  | @balanced _ _ fee _ hu _ hc =>
    right
    -- the update finds at least what was counted, and takes its fee from the difference
    have htotal := hu.total_le hi
    obtain ⟨n, hn, hshares⟩ := StakePool.epochFeeToMint_le (hb.fees.active .epoch) hT hS hu.fee_eq
    have hm : Move w.stakePool.vault ⟨w.stakePool.totalLamports +
        (w'.stakePool.totalLamports - w.stakePool.totalLamports), s + fee⟩ := .gain hn hle hshares
    rw [Nat.add_sub_cancel' htotal] at hm
    rw [StakePool.vault_eq rfl hc]
    exact hm

/-- The environment does not reach what the pool counts. -/
theorem EnvStep.vault (h : EnvStep rt w l w') : w'.stakePool.vault = w.stakePool.vault := by
  rw [h.ambient.pool]

theorem Step.vault (hl : rt.Lawful) (hi : Inv rt w) (hb : Backing w) (hS : 0 < w.stakePool.poolTokenSupply)
    (h : Step rt w l w') : ReflTransGen LiveMove w.stakePool.vault w'.stakePool.vault := by
  cases h with
  | instruction _ h =>
    rcases (process_executed (not_isInitialize hl hi.pool.valid h) h).vault hl hi hb hS with he | hm
    · rw [he]
    · exact .single ⟨hS, hm⟩
  | env h => rw [h.vault]

/-- The pool has tokens. -/
def HasTokens (w : World Key) (_ : Label Key) : Prop := 0 < w.stakePool.poolTokenSupply

instance (w : World Key) (l : Label Key) : Decidable (HasTokens w l) := inferInstanceAs (Decidable (0 < _))

/-- While a pool has tokens, every run of it is a run of the vault. -/
theorem Path.vault (hl : rt.Lawful) (hr : (poolSystem rt).Reachable w) (h : (poolSystem rt).Path HasTokens w w') :
    ReflTransGen LiveMove w.stakePool.vault w'.stakePool.vault :=
  h.simulates fun _ _ _ ha hS hs =>
    have hr := hr.trans_path ha
    Step.vault hl (.of_reach hl hr) (.of_reach hl hr) hS hs

/-- In every run from a reachable pool with tokens, of any instructions of any users and any steps of the
environment, and as long as the pool has tokens, the pool makes moves of the vault only. So the price of a token does
not fall: however many tokens are held, they are worth at the end no less than at the start. -/
theorem held_tokens_keep_value (hl : rt.Lawful) (hr : (poolSystem rt).Reachable w)
    (h : (poolSystem rt).Path HasTokens w w') (hS : 0 < w.stakePool.poolTokenSupply) :
    ReflTransGen LiveMove w.stakePool.vault w'.stakePool.vault ∧
      w.stakePool.totalLamports * w'.stakePool.poolTokenSupply ≤
        w'.stakePool.totalLamports * w.stakePool.poolTokenSupply ∧
      (0 < w'.stakePool.poolTokenSupply → ∀ held,
        held * w.stakePool.totalLamports / w.stakePool.poolTokenSupply ≤
          held * w'.stakePool.totalLamports / w'.stakePool.poolTokenSupply) := by
  have hvault := Path.vault hl hr h
  have hprice := (PriceLe.of_moves (Backing.of_reach hl hr).backed hvault).1
  exact ⟨hvault, hprice, fun hS' held => hprice.worth_le hS hS' held⟩

section
open Reference

/-- The pool with a token that is worth more than a lamport, after a deposit, a donation and the update of the next
epoch. -/
def heldPool : World Reference.Key :=
  next (next (next (next gainedPool (depositSol 1000003 0)) (.donate reserve 5000000))
    (.advanceEpoch 11 false fun _ => none)) updatePool

theorem reachable_gainedPool : (poolSystem runtime).Reachable gainedPool :=
  ((Reach.of_init (initialized_opened (by decide +kernel))).step trivial (next_step (by decide +kernel))).step trivial
    (next_step (by decide +kernel))

theorem held_tokens_keep_value_heldPool :
    ReflTransGen LiveMove gainedPool.stakePool.vault heldPool.stakePool.vault ∧
      gainedPool.stakePool.totalLamports * heldPool.stakePool.poolTokenSupply ≤
        heldPool.stakePool.totalLamports * gainedPool.stakePool.poolTokenSupply ∧
      (0 < heldPool.stakePool.poolTokenSupply → ∀ held,
        held * gainedPool.stakePool.totalLamports / gainedPool.stakePool.poolTokenSupply ≤
          held * heldPool.stakePool.totalLamports / heldPool.stakePool.poolTokenSupply) :=
  held_tokens_keep_value lawful reachable_gainedPool
    ((((System.Path.refl.step (by decide +kernel) (next_step (by decide +kernel))).step (by decide +kernel)
      (next_step (by decide +kernel))).step (by decide +kernel) (next_step (by decide +kernel))).step
      (by decide +kernel) (next_step (by decide +kernel))) (by decide +kernel)

end

end SplStakePool
