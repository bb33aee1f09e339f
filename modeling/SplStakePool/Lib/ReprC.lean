import Mathlib.Algebra.Order.Ring.Nat
import Mathlib.Data.List.Forall2
import Mathlib.Data.Option.Basic

/-!
# The memory of a `repr(C)` struct

Fields are placed in their order, each at the next multiple of its alignment, and the struct ends at a
multiple of its own one. What is between them is padding, which has no value: only a struct without padding
can be viewed as bytes. Fields that need no alignment stand one directly behind the other.
-/

namespace ReprC

structure FieldType where
  align : Nat
  size : Nat
deriving DecidableEq, Repr

def roundUp (n align : Nat) : Nat := (n + align - 1) / align * align

/-- Where the fields begin when the first one is placed behind `n` bytes. -/
def offsets : Nat → List FieldType → List Nat
  | _, [] => []
  | n, t :: ts => roundUp n t.align :: offsets (roundUp n t.align + t.size) ts

/-- Where the last field ends. -/
def fieldsEnd : Nat → List FieldType → Nat
  | n, [] => n
  | n, t :: ts => fieldsEnd (roundUp n t.align + t.size) ts

/-- `align_of` -/
def alignOf (ts : List FieldType) : Nat := ts.foldl (fun a t => max a t.align) 1

/-- `size_of` -/
def sizeOf (ts : List FieldType) : Nat := roundUp (fieldsEnd 0 ts) (alignOf ts)

/-- The memory of the fields, behind `n` bytes. Padding is `none`. -/
def memory : Nat → List FieldType → List (List UInt8) → List (Option UInt8)
  | n, t :: ts, b :: bs => List.replicate (roundUp n t.align - n) none ++ b.map some ++
      memory (roundUp n t.align + t.size) ts bs
  | _, _, _ => []

/-- The view of a struct as bytes, from the bytes of its fields. -/
def bytesOf (ts : List FieldType) (bs : List (List UInt8)) : Option (List UInt8) :=
  (memory 0 ts bs ++ List.replicate (sizeOf ts - fieldsEnd 0 ts) none).mapM id

/-- The view of bytes as a struct: the bytes of its fields. -/
def fromBytes (ts : List FieldType) (data : List UInt8) : Option (List (List UInt8)) :=
  if data.length = sizeOf ts then
    some (List.zipWith (fun offset t => (data.drop offset).take t.size) (offsets 0 ts) ts)
  else none

/-- The types of fields that need no alignment, and values of them. -/
def Packed (ts : List FieldType) (bs : List (List UInt8)) : Prop :=
  List.Forall₂ (fun t b => t.align = 1 ∧ b.length = t.size) ts bs

variable {ts : List FieldType} {bs : List (List UInt8)} {n : Nat}

@[simp] theorem roundUp_one (n : Nat) : roundUp n 1 = n := by simp [roundUp]

theorem Packed.memory (h : Packed ts bs) (n : Nat) : memory n ts bs = bs.flatten.map some := by
  induction h generalizing n with
  | nil => rfl
  | cons ht _ ih =>
    rw [ReprC.memory, ht.1, roundUp_one, Nat.sub_self, ih, List.flatten_cons, List.map_append]
    rfl

theorem Packed.fieldsEnd (h : Packed ts bs) (n : Nat) : fieldsEnd n ts = n + bs.flatten.length := by
  induction h generalizing n with
  | nil => rfl
  | cons ht _ ih => rw [ReprC.fieldsEnd, ht.1, roundUp_one, ih, List.flatten_cons, List.length_append, ht.2,
      Nat.add_assoc]

theorem Packed.alignOf (h : Packed ts bs) : alignOf ts = 1 := by
  rw [ReprC.alignOf]
  induction h with
  | nil => rfl
  | cons ht _ ih => rwa [List.foldl_cons, ht.1, Nat.max_self]

theorem Packed.sizeOf (h : Packed ts bs) : sizeOf ts = bs.flatten.length := by
  rw [ReprC.sizeOf, h.alignOf, roundUp_one, h.fieldsEnd, Nat.zero_add]

theorem Packed.bytesOf (h : Packed ts bs) : bytesOf ts bs = some bs.flatten := by
  rw [ReprC.bytesOf, h.memory, h.sizeOf, h.fieldsEnd, Nat.zero_add, Nat.sub_self, List.replicate_zero,
    List.append_nil, List.mapM_map]
  induction bs.flatten with
  | nil => rfl
  | cons b l ih =>
    rw [List.mapM_cons, ih]
    rfl

/-- The fields are found again in the bytes, whatever is in front of them. -/
theorem Packed.fields (h : Packed ts bs) (a : List UInt8) (ha : a.length = n) :
    List.zipWith (fun offset t => ((a ++ bs.flatten).drop offset).take t.size) (offsets n ts) ts = bs := by
  induction h generalizing a n with
  | nil => rfl
  | @cons t b ts bs ht _ ih =>
    rw [offsets, ht.1, roundUp_one, List.zipWith_cons_cons, List.flatten_cons, List.drop_left' ha, ← ht.2,
      List.take_left, ← List.append_assoc, ih (a ++ b) (by rw [List.length_append, ha])]

theorem Packed.fromBytes (h : Packed ts bs) : fromBytes ts bs.flatten = some bs := by
  rw [ReprC.fromBytes, if_pos h.sizeOf.symm]
  exact congrArg some (h.fields [] rfl)

theorem exists_packed (h : ∀ t ∈ ts, t.align = 1) {data : List UInt8}
    (hlen : data.length = (ts.map FieldType.size).sum) : ∃ bs, Packed ts bs ∧ bs.flatten = data := by
  induction ts generalizing data with
  | nil => exact ⟨[], .nil, (List.length_eq_zero_iff.1 hlen).symm⟩
  | cons t ts ih =>
    rw [List.map_cons, List.sum_cons] at hlen
    have hrest : (data.drop t.size).length = (ts.map FieldType.size).sum := by
      rw [List.length_drop]
      omega
    obtain ⟨bs, hbs, hdata⟩ := ih (fun t' ht' => h t' (by simp [ht'])) hrest
    refine ⟨data.take t.size :: bs, .cons ⟨h t (by simp), by rw [List.length_take]; omega⟩ hbs, ?_⟩
    rw [List.flatten_cons, hdata, List.take_append_drop]

end ReprC
