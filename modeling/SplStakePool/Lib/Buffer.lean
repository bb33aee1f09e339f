import Mathlib.Data.List.Basic
import Mathlib.Tactic.Ring

/-!
# Byte buffers

A buffer is the list of its bytes. Reading a range of indices and writing over one fail when the range
leaves the buffer. The laws are about buffers that are cut where the range begins and ends, so that a
proof only has to say what lies before, in and behind it. Numbers are stored with their low byte first.
-/

namespace Buffer

/-- `to_le_bytes` of a number of `count` bytes. -/
def toLeBytes : Nat → Nat → List UInt8
  | 0, _ => []
  | count + 1, n => UInt8.ofNat n :: toLeBytes count (n / 256)

/-- `from_le_bytes` -/
def fromLeBytes : List UInt8 → Nat
  | [] => 0
  | b :: l => b.toNat + 256 * fromLeBytes l

@[simp] theorem length_toLeBytes (count n : Nat) : (toLeBytes count n).length = count := by
  induction count generalizing n with
  | zero => rfl
  | succ count ih => rw [toLeBytes, List.length_cons, ih]

theorem fromLeBytes_toLeBytes {count n : Nat} (h : n < 256 ^ count) : fromLeBytes (toLeBytes count n) = n := by
  induction count generalizing n with
  | zero =>
    rw [Nat.pow_zero] at h
    rw [Nat.lt_one_iff.1 h]
    rfl
  | succ count ih =>
    have hn : n / 256 < 256 ^ count := Nat.div_lt_of_lt_mul (by rwa [Nat.pow_succ, Nat.mul_comm] at h)
    rw [toLeBytes, fromLeBytes, ih hn, UInt8.toNat_ofNat']
    omega

theorem toLeBytes_inj {count n m : Nat} (hn : n < 256 ^ count) (hm : m < 256 ^ count)
    (h : toLeBytes count n = toLeBytes count m) : n = m := by
  rw [← fromLeBytes_toLeBytes hn, h, fromLeBytes_toLeBytes hm]

/-- The low bytes of a number, then the high ones. -/
theorem toLeBytes_add (a b n : Nat) : toLeBytes (a + b) n = toLeBytes a n ++ toLeBytes b (n / 256 ^ a) := by
  induction a generalizing n with
  | zero =>
    rw [Nat.zero_add, Nat.pow_zero, Nat.div_one]
    rfl
  | succ a ih =>
    rw [Nat.succ_add, toLeBytes, toLeBytes, ih, Nat.div_div_eq_div_mul, Nat.pow_succ, Nat.mul_comm 256]
    rfl

theorem toLeBytes_mod (count n : Nat) : toLeBytes count (n % 256 ^ count) = toLeBytes count n := by
  induction count generalizing n with
  | zero => rfl
  | succ count ih =>
    have hlow : UInt8.ofNat (n % 256 ^ (count + 1)) = UInt8.ofNat n := by
      rw [UInt8.ofNat_eq_iff_mod_eq_toNat, UInt8.toNat_ofNat', Nat.pow_succ]
      exact Nat.mod_mod_of_dvd n (Nat.dvd_mul_left (2 ^ 8) _)
    have hhigh : n % 256 ^ (count + 1) / 256 = n / 256 % 256 ^ count := by
      rw [Nat.pow_succ, Nat.mul_comm]
      exact Nat.mod_mul_right_div_self n 256 _
    rw [toLeBytes, toLeBytes, hlow, hhigh, ih]

theorem fromLeBytes_lt (l : List UInt8) : fromLeBytes l < 256 ^ l.length := by
  induction l with
  | nil => exact Nat.one_pos
  | cons b l ih =>
    have hb := b.toNat_lt
    rw [fromLeBytes, List.length_cons, Nat.pow_succ]
    omega

theorem toLeBytes_fromLeBytes (l : List UInt8) : toLeBytes l.length (fromLeBytes l) = l := by
  induction l with
  | nil => rfl
  | cons b l ih =>
    have hb := b.toNat_lt
    have hlow : UInt8.ofNat (b.toNat + 256 * fromLeBytes l) = b := by
      rw [UInt8.ofNat_eq_iff_mod_eq_toNat]
      omega
    have hhigh : (b.toNat + 256 * fromLeBytes l) / 256 = fromLeBytes l := by omega
    rw [fromLeBytes, List.length_cons, toLeBytes, hlow, hhigh, ih]

variable {α : Type} {a b b' c data data' : List α} {n start stop : Nat}

/-- The elements from one index to another. -/
def slice (data : List α) (start stop : Nat) : Option (List α) :=
  if start ≤ stop ∧ stop ≤ data.length then some ((data.drop start).take (stop - start)) else none

/-- Writes over the elements from an index on. -/
def write (data : List α) (start : Nat) (l : List α) : Option (List α) :=
  if start + l.length ≤ data.length then some (data.take start ++ l ++ data.drop (start + l.length))
  else none

theorem slice_append (hstart : start = a.length) (hstop : stop = start + b.length) :
    slice (a ++ b ++ c) start stop = some b := by
  subst hstart hstop
  simp [slice]

theorem write_append (hstart : start = a.length) (hlen : b'.length = b.length) :
    write (a ++ b ++ c) start b' = some (a ++ b' ++ c) := by
  subst hstart
  simp [write, hlen]

theorem slice_front (hstop : stop = a.length) : slice (a ++ b) 0 stop = some a := by
  subst hstop
  simp [slice]

theorem write_front (hlen : a.length = b.length) : write (b ++ c) 0 a = some (a ++ c) := by
  simp [write, hlen]

theorem slice_isSome : (slice data start stop).isSome ↔ start ≤ stop ∧ stop ≤ data.length := by
  unfold slice
  split <;> simp [*]

theorem slice_eq_some :
    slice data start stop = some b ↔ ∃ a c, data = a ++ b ++ c ∧ a.length = start ∧ start + b.length = stop := by
  constructor
  · intro h
    unfold slice at h
    split at h
    · rename_i hle
      cases h
      refine ⟨data.take start, data.drop stop, ?_, ?_, ?_⟩
      · have hstop : data.drop stop = (data.drop start).drop (stop - start) := by
          rw [List.drop_drop]
          congr 1
          omega
        rw [hstop, List.append_assoc, List.take_append_drop, List.take_append_drop]
      · rw [List.length_take]
        omega
      · rw [List.length_take, List.length_drop]
        omega
    · cases h
  · rintro ⟨a, c, rfl, ha, hb⟩
    exact slice_append ha.symm hb.symm

theorem length_write (h : write data n b = some data') : data'.length = data.length := by
  unfold write at h
  split at h
  · cases h
    simp only [List.length_append, List.length_take, List.length_drop]
    omega
  · cases h

/-- Writing over a range keeps what is in front of it and behind it. -/
theorem write_outside (h : write data start b = some data') :
    data'.take start = data.take start ∧ data'.drop (start + b.length) = data.drop (start + b.length) := by
  unfold write at h
  split at h
  · rename_i hle
    cases h
    have hlen : (data.take start ++ b).length = start + b.length := by
      rw [List.length_append, List.length_take]
      omega
    constructor
    · rw [List.append_assoc, List.take_append_of_le_length (by rw [List.length_take]; omega), List.take_take,
        Nat.min_self]
    · rw [← hlen, List.drop_left]
  · cases h

end Buffer
