import Mathlib.Algebra.BigOperators.Group.List.Lemmas
import Mathlib.Algebra.Order.Ring.Nat

/-!
# Greedy allocation

A demand is met from sources one after the other. Each gives what it has until the demand is met, so that the
first sources cover the demand together as far as they can.

What is allocated is fixed by the totals: as much as the demand and the sources together allow (`total_allocate`), and
from a source exactly if the ones before it do not meet the demand (`mem_map_allocate`). Sources can be dropped that
have nothing, and a list of sources can be taken in two parts with the demand that the first part leaves.
-/

namespace Greedy
variable {α : Type} {sources : List (α × ℕ)} {demand : ℕ}

/-- What the sources have, or what they give. -/
def total (sources : List (α × ℕ)) : ℕ := (sources.map Prod.snd).sum

/-- What each source gives. The ones that give nothing are left out. -/
def allocate : List (α × ℕ) → ℕ → List (α × ℕ)
  | [], _ => []
  | (a, capacity) :: sources, demand =>
    if min capacity demand = 0 then allocate sources demand
    else (a, min capacity demand) :: allocate sources (demand - min capacity demand)

@[simp] theorem total_nil : total ([] : List (α × ℕ)) = 0 := rfl

@[simp] theorem total_cons (s : α × ℕ) (sources : List (α × ℕ)) : total (s :: sources) = s.2 + total sources :=
  List.sum_cons

theorem total_append (l₁ l₂ : List (α × ℕ)) : total (l₁ ++ l₂) = total l₁ + total l₂ := by
  rw [total, List.map_append, List.sum_append, total, total]

@[simp] theorem allocate_nil (demand : ℕ) : allocate ([] : List (α × ℕ)) demand = [] := rfl

theorem allocate_skip {a : α} {capacity : ℕ} (h : min capacity demand = 0) :
    allocate ((a, capacity) :: sources) demand = allocate sources demand := by
  rw [allocate, if_pos h]

theorem allocate_give {a : α} {capacity : ℕ} (h : min capacity demand ≠ 0) :
    allocate ((a, capacity) :: sources) demand =
      (a, min capacity demand) :: allocate sources (demand - min capacity demand) := by
  rw [allocate, if_neg h]

@[simp] theorem allocate_zero (sources : List (α × ℕ)) : allocate sources 0 = [] := by
  induction sources with
  | nil => rfl
  | cons s sources ih => rw [allocate_skip (Nat.min_zero _), ih]

/-- The demand is met as far as the sources reach. -/
theorem total_allocate (sources : List (α × ℕ)) (demand : ℕ) :
    total (allocate sources demand) = min (total sources) demand := by
  induction sources generalizing demand with
  | nil => exact (Nat.zero_min demand).symm
  | cons s sources ih =>
    obtain ⟨a, capacity⟩ := s
    by_cases h : min capacity demand = 0
    · rw [allocate_skip h, ih, total_cons]
      dsimp only
      omega
    · rw [allocate_give h, total_cons, ih, total_cons]
      dsimp only
      omega

theorem allocate_filter (sources : List (α × ℕ)) (demand : ℕ) :
    allocate (sources.filter fun s => 0 < s.2) demand = allocate sources demand := by
  induction sources generalizing demand with
  | nil => rfl
  | cons s sources ih =>
    obtain ⟨a, capacity⟩ := s
    rcases Nat.eq_zero_or_pos capacity with rfl | hpos
    · rw [List.filter_cons_of_neg (by simp), ih, allocate_skip (Nat.zero_min demand)]
    · rw [List.filter_cons_of_pos (by simpa using hpos), allocate, allocate, ih, ih]

theorem allocate_append (l₁ l₂ : List (α × ℕ)) (demand : ℕ) :
    allocate (l₁ ++ l₂) demand = allocate l₁ demand ++ allocate l₂ (demand - total l₁) := by
  induction l₁ generalizing demand with
  | nil => rw [List.nil_append, allocate_nil, List.nil_append, total_nil, Nat.sub_zero]
  | cons s l₁ ih =>
    obtain ⟨a, capacity⟩ := s
    rw [List.cons_append, total_cons]
    by_cases h : min capacity demand = 0
    · rw [allocate_skip h, allocate_skip h, ih]
      rcases Nat.eq_zero_or_pos demand with rfl | hpos
      · rw [Nat.zero_sub, Nat.zero_sub]
      · rw [show capacity = 0 by omega, Nat.zero_add]
    · rw [allocate_give h, allocate_give h, ih, List.cons_append,
        show demand - min capacity demand - total l₁ = demand - (capacity + total l₁) by omega]

section
variable (hpos : ∀ s ∈ sources, 0 < s.2)
include hpos

theorem take_allocate (k : ℕ) : (allocate sources demand).take k = allocate (sources.take k) demand := by
  induction sources generalizing k demand with
  | nil => rw [List.take_nil, allocate_nil, List.take_nil]
  | cons s sources ih =>
    obtain ⟨a, capacity⟩ := s
    obtain ⟨hcap, hrest⟩ := List.forall_mem_cons.1 hpos
    cases k with
    | zero => rw [List.take_zero, List.take_zero, allocate_nil]
    | succ k =>
      rcases Nat.eq_zero_or_pos demand with rfl | hd
      · rw [allocate_zero, allocate_zero, List.take_nil]
      · have h : min capacity demand ≠ 0 := by
          dsimp only at hcap
          omega
        rw [List.take_succ_cons, allocate_give h, allocate_give h, List.take_succ_cons, ih hrest]

/-- A source is used exactly if the ones before it do not meet the demand. -/
theorem mem_map_allocate {a : α} :
    a ∈ (allocate sources demand).map Prod.fst ↔
      ∃ l s l', sources = l ++ s :: l' ∧ s.1 = a ∧ total l < demand := by
  induction sources generalizing demand with
  | nil =>
    constructor
    · rintro ⟨⟩
    · rintro ⟨l, s, l', h, -⟩
      cases l <;> cases h
  | cons s sources ih =>
    obtain ⟨b, capacity⟩ := s
    obtain ⟨hcap, hrest⟩ := List.forall_mem_cons.1 hpos
    dsimp only at hcap
    rcases Nat.eq_zero_or_pos demand with rfl | hd
    · rw [allocate_zero]
      constructor
      · rintro ⟨⟩
      · rintro ⟨l, s, l', -, -, h⟩
        exact absurd h (Nat.not_lt_zero _)
    · rw [allocate_give (by omega), List.map_cons, List.mem_cons, ih hrest]
      constructor
      · rintro (rfl | ⟨l, s, l', rfl, hs, hlt⟩)
        · exact ⟨[], _, sources, rfl, rfl, hd⟩
        · refine ⟨(b, capacity) :: l, s, l', rfl, hs, ?_⟩
          rw [total_cons]
          omega
      · rintro ⟨l, s, l', h, hs, hlt⟩
        cases l with
        | nil =>
          cases h
          exact .inl hs.symm
        | cons c l =>
          cases h
          rw [total_cons] at hlt
          refine .inr ⟨l, s, l', rfl, hs, ?_⟩
          omega

end
end Greedy
