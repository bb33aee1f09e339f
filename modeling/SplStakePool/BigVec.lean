import Mathlib.Data.List.Basic
import SplStakePool.Error

/-!
# Vectors in an account (`big_vec.rs`)

A `BigVec` is a length word and that many elements at the front of a buffer. Here it is the list of
its elements; the length of the buffer only matters to `push`.

An operation that returns references into the buffer returns what is written through them as well. Two slices that
have no element in common can then be written in any order, which is what makes the instructions of an update
independent of each other.
-/

namespace SplStakePool.BigVec
variable {α β : Type}

/-- `VEC_SIZE_BYTES` -/
def vecSizeBytes : Nat := 4

/-- Writes through the reference that `find_mut` returns: the first match is replaced. -/
def setFirst (p : α → Bool) (a : α) : List α → List α
  | [] => []
  | x :: l => if p x then a :: l else x :: setFirst p a l

/-- `push`, into a buffer of `dataLen` bytes with elements of `size` bytes. -/
def push (size dataLen : Nat) (l : List α) (a : α) : Except ProgramError (List α) :=
  let startIndex := vecSizeBytes + l.length * size
  let endIndex := startIndex + size
  if dataLen < endIndex then .error .accountDataTooSmall else .ok (l ++ [a])

/-- `deserialize_slice` and `deserialize_mut_slice` -/
def deserializeSlice (l : List α) (skip len : Nat) : Except ProgramError (List α) :=
  let lastItemIndex := skip + len
  if lastItemIndex > l.length then .error .accountDataTooSmall else .ok ((l.drop skip).take len)

/-- Writes a slice back that `deserialize_mut_slice` gave out. -/
def writeSlice (l : List α) (skip : Nat) (slice : List α) : List α :=
  l.take skip ++ slice ++ l.drop (skip + slice.length)

/-- The list around the first match, and what writing through it does. -/
theorem find?_split {p : α → Bool} {l : List α} {e : α} (h : l.find? p = some e) :
    p e ∧ ∃ pre post, l = pre ++ e :: post ∧ (∀ x ∈ pre, ¬ p x) ∧
      ∀ a, setFirst p a l = pre ++ a :: post := by
  induction l with
  | nil => simp at h
  | cons x l ih =>
    by_cases hp : p x
    · simp only [List.find?_cons, hp, Option.some.injEq] at h
      subst h
      exact ⟨hp, [], l, rfl, by simp, fun a => by simp [setFirst, hp]⟩
    · simp only [List.find?_cons, hp] at h
      obtain ⟨he, pre, post, rfl, hpre, hset⟩ := ih h
      refine ⟨he, x :: pre, post, rfl, ?_, fun a => ?_⟩
      · intro y hy
        rcases List.mem_cons.1 hy with rfl | hy
        · exact hp
        · exact hpre y hy
      · simp [setFirst, hp, hset]

theorem map_setFirst {p : α → Bool} {f : α → β} {a : α} (h : ∀ x, p x → f x = f a) (l : List α) :
    (setFirst p a l).map f = l.map f := by
  induction l with
  | nil => rfl
  | cons x l ih =>
    by_cases hp : p x
    · simp [setFirst, hp, h x hp]
    · simp [setFirst, hp, ih]

theorem push_eq_ok {size dataLen : Nat} {l l' : List α} {a : α} :
    push size dataLen l a = .ok l' ↔ vecSizeBytes + l.length * size + size ≤ dataLen ∧ l' = l ++ [a] := by
  simp only [push]
  split <;> rename_i h
  · simp only [reduceCtorEq, false_iff]; omega
  · simp only [Except.ok.injEq]
    exact ⟨fun hl => ⟨by omega, hl.symm⟩, fun hl => hl.2.symm⟩

theorem deserializeSlice_eq_ok {l s : List α} {skip len : Nat} :
    deserializeSlice l skip len = .ok s ↔ skip + len ≤ l.length ∧ s = (l.drop skip).take len := by
  simp only [deserializeSlice]
  split <;> rename_i h
  · simp only [reduceCtorEq, false_iff]; omega
  · simp only [Except.ok.injEq]
    exact ⟨fun hl => ⟨by omega, hl.symm⟩, fun hl => hl.2.symm⟩

theorem length_of_deserialize {l s : List α} {skip len : Nat} (h : deserializeSlice l skip len = .ok s) :
    s.length = len ∧ skip + s.length ≤ l.length := by
  obtain ⟨hle, rfl⟩ := deserializeSlice_eq_ok.1 h
  rw [List.length_take, List.length_drop]
  omega

theorem deserializeSlice_all (l : List α) : deserializeSlice l 0 l.length = .ok l := by
  rw [deserializeSlice_eq_ok]; simp

theorem writeSlice_of_deserialize {l s s' : List α} {skip len : Nat}
    (h : deserializeSlice l skip len = .ok s) (hlen : s'.length = s.length) :
    ∃ pre post, pre.length = skip ∧ l = pre ++ s ++ post ∧ writeSlice l skip s' = pre ++ s' ++ post := by
  obtain ⟨hle, rfl⟩ := deserializeSlice_eq_ok.1 h
  refine ⟨l.take skip, l.drop (skip + len), by simp; omega, ?_, ?_⟩
  · rw [List.append_assoc, ← List.drop_drop, List.take_append_drop, List.take_append_drop]
  · have : s'.length = len := by rw [hlen, List.length_take, List.length_drop]; omega
    simp only [writeSlice, this]

variable {l xs ys : List α} {start start' len : Nat}

theorem length_writeSlice (h : start + xs.length ≤ l.length) : (writeSlice l start xs).length = l.length := by
  simp only [writeSlice, List.length_append, List.length_take, List.length_drop]
  omega

theorem getElem?_writeSlice (h : start + xs.length ≤ l.length) (k : Nat) :
    (writeSlice l start xs)[k]? = if start ≤ k ∧ k < start + xs.length then xs[k - start]? else l[k]? := by
  have hlen : (l.take start).length = start := by
    rw [List.length_take]
    omega
  rw [writeSlice, List.append_assoc]
  by_cases h₁ : k < start
  · rw [List.getElem?_append_left (by omega), List.getElem?_take_of_lt h₁, if_neg (by omega)]
  by_cases h₂ : k < start + xs.length
  · rw [List.getElem?_append_right (by omega), List.getElem?_append_left (by omega), hlen, if_pos ⟨by omega, h₂⟩]
  · rw [List.getElem?_append_right (by omega), List.getElem?_append_right (by omega), hlen, List.getElem?_drop,
      if_neg (by omega)]
    congr 1
    omega

/-- Writing a slice does not change what is read of another one. -/
theorem deserializeSlice_writeSlice (h : start + xs.length ≤ l.length)
    (hd : start' + len ≤ start ∨ start + xs.length ≤ start' ∨ xs.length = 0 ∨ len = 0) :
    deserializeSlice (writeSlice l start xs) start' len = deserializeSlice l start' len := by
  simp only [deserializeSlice, length_writeSlice h]
  refine ite_congr rfl (fun _ => rfl) fun _ => congrArg _ ?_
  refine List.ext_getElem? fun k => ?_
  by_cases hk : k < len
  · rw [List.getElem?_take_of_lt hk, List.getElem?_take_of_lt hk, List.getElem?_drop, List.getElem?_drop,
      getElem?_writeSlice h, if_neg (by omega)]
  · rw [List.getElem?_take_eq_none (by omega), List.getElem?_take_eq_none (by omega)]

/-- Slices without common elements can be written in any order. -/
theorem writeSlice_comm (h : start + xs.length ≤ l.length) (h' : start' + ys.length ≤ l.length)
    (hd : start' + ys.length ≤ start ∨ start + xs.length ≤ start' ∨ xs.length = 0 ∨ ys.length = 0) :
    writeSlice (writeSlice l start xs) start' ys = writeSlice (writeSlice l start' ys) start xs := by
  refine List.ext_getElem? fun k => ?_
  rw [getElem?_writeSlice (by rwa [length_writeSlice h]), getElem?_writeSlice h,
    getElem?_writeSlice (by rwa [length_writeSlice h']), getElem?_writeSlice h']
  split
  · rw [if_neg (by omega)]
  · rfl

end SplStakePool.BigVec
