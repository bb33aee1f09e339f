import SplStakePool.World

/-!
# What readers of accounts return

Every handler reads its accounts first. `Yields` is what holds of all that a reader can return, `Draws` that the
account which it returns is one of the instruction's.

A reader is a sequence of reads, so that both have a rule for a sequence; an account that is read early is one of the
instruction's because the reads behind it only take more off the list. An optional account at the end may be missing.
-/

namespace SplStakePool
open Exec

variable {Key α β : Type}

/-- Everything that a reader of accounts can return has a property. -/
def Yields (m : AccountIter Key α) (P : α → Prop) : Prop :=
  ∀ accounts a rest, m accounts = .ok (a, rest) → P a

namespace Yields
variable {m : AccountIter Key β} {f : β → AccountIter Key α} {P : α → Prop}

theorem pure {a : α} (h : P a) : Yields (pure a : AccountIter Key α) P := by
  intro accounts b rest he
  cases he
  exact h

theorem seq {Q : β → Prop} (hm : Yields m Q) (hf : ∀ b, Q b → Yields (f b) P) : Yields (m >>= f) P := by
  intro accounts a rest he
  simp only [Bind.bind, StateT.bind] at he
  obtain ⟨⟨b, rest'⟩, hb, he⟩ := bind_eq_ok.1 he
  exact hf b (hm _ _ _ hb) _ _ _ he

theorem bind (h : ∀ b, Yields (f b) P) : Yields (m >>= f) P :=
  seq (Q := fun _ => True) (fun _ _ _ _ => trivial) fun b _ => h b

theorem map {g : β → α} (h : ∀ b, P (g b)) : Yields (g <$> m) P := by
  intro accounts a rest he
  obtain ⟨⟨b, rest'⟩, -, he⟩ := bind_eq_ok.1 he
  cases he
  exact h b

end Yields

/-- The account that a reader returns, if it returns one, is one of those that it is given. -/
def Draws (m : AccountIter Key α) (g : α → Option (AccountInfo Key)) : Prop :=
  ∀ accounts a rest info, m accounts = .ok (a, rest) → g a = some info → info ∈ accounts

namespace Draws
variable {f : AccountInfo Key → AccountIter Key α} {g : α → Option (AccountInfo Key)}

theorem first (hf : ∀ x, Yields (f x) fun a => g a = some x) : Draws (nextAccountInfo >>= f) g := by
  intro accounts a rest info h hg
  obtain ⟨x, rest, rfl, h⟩ := nextAccountInfo_bind.1 h
  obtain rfl := Option.some.inj ((hf x _ _ _ h).symm.trans hg)
  exact List.mem_cons_self

theorem next (hf : ∀ x, Draws (f x) g) : Draws (nextAccountInfo >>= f) g := by
  intro accounts a rest info h hg
  obtain ⟨x, rest, rfl, h⟩ := nextAccountInfo_bind.1 h
  exact List.mem_cons_of_mem _ (hf x _ _ _ _ h hg)

theorem optional {f : Option (AccountInfo Key) → AccountIter Key α} (hf : ∀ x, Yields (f x) fun a => g a = x) :
    Draws (nextAccountInfo? >>= f) g := by
  intro accounts a rest info h hg
  exact List.mem_of_mem_head? ((hf _ _ _ _ h).symm.trans hg)

end Draws

end SplStakePool
