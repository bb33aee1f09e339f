import Mathlib.Data.List.Forall2

/-!
# Lists in chunks

A list is cut into chunks of `n` elements, numbered from 0, the last of which may be shorter. A function
that may fail is applied to a list one element after the other; where what it returns is known, so is what
the whole returns.

The chunks are ranges of indices, so that what is to be said of them is said of indices: together they are the range
of the list, in its order (`flatMap_ranges`), and each begins inside of it (`mul_lt_length`).
-/

namespace Chunks
variable {α β γ : Type}

/-- How many chunks there are. -/
def count (n : Nat) (l : List α) : Nat := (l.length + n - 1) / n

/-- The chunk with a number. -/
def chunk (n i : Nat) (l : List α) : List α := (l.drop (i * n)).take n

/-- The chunks with their numbers, `chunks(n).enumerate()`. -/
def enumerate (n : Nat) (l : List α) : List (Nat × List α) := (List.range (count n l)).map fun i => (i, chunk n i l)

theorem length_chunk (n i : Nat) (l : List α) : (chunk n i l).length = min n (l.length - i * n) := by
  rw [chunk, List.length_take, List.length_drop]

/-- The index ranges of the first chunks, one after the other. -/
theorem flatMap_ranges (n len c : Nat) :
    ((List.range c).flatMap fun i => List.range' (i * n) (min n (len - i * n))) =
      List.range (min (c * n) len) := by
  induction c with
  | zero => simp
  | succ c ih =>
    have hmul : (c + 1) * n = c * n + n := Nat.succ_mul c n
    rw [List.range_succ, List.flatMap_append, ih, List.flatMap_singleton, hmul]
    by_cases h : c * n ≤ len
    · rw [Nat.min_eq_left h, show min (c * n + n) len = c * n + min n (len - c * n) by omega, List.range_add,
        List.range'_eq_map_range]
    · rw [show len - c * n = 0 by omega, Nat.min_zero, List.range'_zero, List.append_nil,
        show min (c * n) len = min (c * n + n) len by omega]

theorem le_count_mul {n : Nat} (hn : 0 < n) (l : List α) : l.length ≤ count n l * n := by
  have := Nat.lt_div_mul_add (a := l.length + n - 1) hn
  rw [count]
  omega

theorem mul_lt_length {n i : Nat} {l : List α} (h : i < count n l) : i * n < l.length := by
  have hn : 0 < n := by
    rcases Nat.eq_zero_or_pos n with rfl | hn
    · rw [count, Nat.div_zero] at h
      omega
    · exact hn
  have := (Nat.le_div_iff_mul_le hn).1 (show i + 1 ≤ (l.length + n - 1) / n from h)
  rw [Nat.succ_mul] at this
  omega

theorem count_map (n : Nat) (f : α → β) (l : List α) : count n (l.map f) = count n l := by
  rw [count, List.length_map, count]

theorem chunk_map (n i : Nat) (f : α → β) (l : List α) : chunk n i (l.map f) = (chunk n i l).map f := by
  rw [chunk, ← List.map_drop, ← List.map_take, chunk]

/-- Every element is in one of the chunks. -/
theorem mem_iff {n : Nat} (hn : 0 < n) {l : List α} {a : α} : a ∈ l ↔ ∃ i < count n l, a ∈ chunk n i l := by
  constructor
  · intro h
    obtain ⟨k, hk, rfl⟩ := List.getElem_of_mem h
    have hdiv := Nat.div_add_mod k n
    have hmod := Nat.mod_lt k hn
    have hmul : k / n * n = n * (k / n) := Nat.mul_comm _ _
    refine ⟨k / n, (Nat.le_div_iff_mul_le hn).2 (by rw [Nat.succ_mul]; omega), ?_⟩
    refine List.mem_iff_getElem.2 ⟨k % n, by rw [length_chunk]; omega, ?_⟩
    simp only [chunk, List.getElem_take, List.getElem_drop]
    congr 1
    omega
  · rintro ⟨i, -, h⟩
    exact List.mem_of_mem_drop (List.mem_of_mem_take h)

theorem bind_pure_isSome {x : Option α} {g : α → β} (h : x.isSome) : (x >>= fun a => pure (g a)).isSome := by
  cases x with
  | some a => rfl
  | none => cases h

theorem mapM_isSome {f : α → Option β} {l : List α} (h : ∀ a ∈ l, (f a).isSome) : (l.mapM f).isSome := by
  induction l with
  | nil => rfl
  | cons a l ih =>
    obtain ⟨b, hb⟩ := Option.isSome_iff_exists.1 (h a (by simp))
    obtain ⟨r, hr⟩ := Option.isSome_iff_exists.1 (ih fun x hx => h x (by simp [hx]))
    rw [List.mapM_cons, hb, hr]
    rfl

theorem mapM_eq_some {f : α → Option β} {l : List α} {r : List β} (h : l.mapM f = some r) :
    List.Forall₂ (fun a b => f a = some b) l r := by
  induction l generalizing r with
  | nil =>
    rw [List.mapM_nil] at h
    cases h
    exact .nil
  | cons a l ih =>
    rw [List.mapM_cons, Option.bind_eq_bind, Option.bind_eq_some_iff] at h
    obtain ⟨b, hb, h⟩ := h
    rw [Option.bind_eq_bind, Option.bind_eq_some_iff] at h
    obtain ⟨r', hr', h⟩ := h
    cases h
    exact .cons hb (ih hr')

theorem map_of_forall₂ {f : α → Option β} {g : α → β} {l : List α} {r : List β}
    (h : List.Forall₂ (fun a b => f a = some b) l r) (hf : ∀ a ∈ l, ∀ b, f a = some b → b = g a) :
    r = l.map g := by
  induction h with
  | nil => rfl
  | @cons a b l r hb _ ih => rw [List.map_cons, hf a (by simp) b hb, ih fun x hx => hf x (by simp [hx])]

theorem filterMap_of_forall₂ {f : α → Option (Option γ)} {p : α → Bool} {g : α → γ} {l : List α}
    {r : List (Option γ)} (h : List.Forall₂ (fun a b => f a = some b) l r)
    (hf : ∀ a ∈ l, ∀ b, f a = some b → b = if p a then some (g a) else none) :
    r.filterMap id = (l.filter p).map g := by
  induction h with
  | nil => rfl
  | @cons a b l r hb _ ih =>
    have ha := hf a (by simp) b hb
    have hr := ih fun x hx => hf x (by simp [hx])
    cases hp : p a with
    | true =>
      rw [hp, if_pos rfl] at ha
      rw [ha, List.filterMap_cons_some (f := id) rfl, List.filter_cons_of_pos hp, List.map_cons, hr]
    | false =>
      rw [hp, if_neg Bool.false_ne_true] at ha
      rw [ha, List.filterMap_cons_none (f := id) rfl, List.filter_cons_of_neg (by simp [hp]), hr]

end Chunks
