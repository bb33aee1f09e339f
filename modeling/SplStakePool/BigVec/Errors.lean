import SplStakePool.BigVec.Refinement

/-!
# Buffers after an error

The operations that can fail, for an element type with an alignment and a buffer at an address: a view of
the bytes as elements is refused where the address is not aligned. `push` writes the new length before it
finds out whether it can write the element, so that its errors leave a length word that counts one element
more. No other error changes the buffer.
-/

namespace SplStakePool.BigVec.Raw
open Buffer Machine

/-- A type of plain bytes, by `mem::size_of` and `mem::align_of`. -/
structure Pod where
  size : Nat
  align : Nat
  align_pos : 0 < align
  align_dvd : align ∣ size

/-- A value is its bytes. -/
structure Pod.Value (T : Pod) where
  bytes : List UInt8
  length_eq : bytes.length = T.size

/-- What the casts of `bytemuck` are refused for. -/
inductive PodCastError
  | targetAlignmentGreaterAndInputNotAligned
  | outputSliceWouldHaveSlop
  | sizeMismatch
  deriving DecidableEq, Repr

namespace Pod
variable (T : Pod) (address : Nat)

/-- `bytemuck::try_from_bytes_mut`, of bytes at an address -/
def tryFromBytesMut (bytes : List UInt8) : Except PodCastError Unit :=
  if bytes.length ≠ T.size then .error .sizeMismatch
  else if ¬ T.align ∣ address then .error .targetAlignmentGreaterAndInputNotAligned
  else .ok ()

/-- `bytemuck::try_cast_slice` and `try_cast_slice_mut`, from bytes at an address -/
def tryCastSlice (bytes : List UInt8) : Except PodCastError (List UInt8) :=
  if ¬ T.align ∣ address then .error .targetAlignmentGreaterAndInputNotAligned
  else if (T.size ≠ 0 ∧ bytes.length % T.size = 0) ∨ (T.size = 0 ∧ bytes.length = 0) then .ok bytes
  else .error .outputSliceWouldHaveSlop

/-- `push`, into a buffer at an address -/
def push (element : T.Value) (data : List UInt8) : Option (Except ProgramError Unit × List UInt8) := do
  let vecLen ← len data
  let startIndex := vecSizeBytes + vecLen * T.size
  let endIndex := startIndex + T.size
  let data ← write data 0 (toLeBytes vecSizeBytes (vecLen + 1))
  if data.length < endIndex then
    return (.error .accountDataTooSmall, data)
  match T.tryFromBytesMut (address + startIndex) (← slice data startIndex (startIndex + T.size)) with
  | .error _ => return (.error .invalidAccountData, data)
  | .ok () => return (.ok (), ← write data startIndex element.bytes)

/-- `deserialize_slice` and `deserialize_mut_slice`, of a buffer at an address -/
def deserializeSlice (skip n : Nat) (data : List UInt8) : Option (Except ProgramError (List UInt8)) := do
  match ← Raw.deserializeSlice T.size skip n data with
  | .error e => return .error e
  | .ok bytes =>
    return (T.tryCastSlice (address + (vecSizeBytes + skip * T.size)) bytes).mapError fun _ => .invalidAccountData

end Pod

/-- A call of an operation that can fail. -/
inductive Call (T : Pod)
  | push (element : T.Value)
  | retain (predicate : List UInt8 → Bool)
  | deserializeSlice (skip n : Nat)
  | deserializeMutSlice (skip n : Nat)

variable {T : Pod} {address n : Nat} {element : T.Value} {data data' : List UInt8} {e : ProgramError}

/-- Whether a call fails, and the buffer when it returns. A view of the elements writes nothing. -/
def Call.run (address : Nat) (data : List UInt8) : Call T → Option (Except ProgramError Unit × List UInt8)
  | .push element => T.push address element data
  | .retain predicate => Raw.retain T.size predicate data
  | .deserializeSlice skip n => do return ((← T.deserializeSlice address skip n data).map fun _ => (), data)
  | .deserializeMutSlice skip n => do return ((← T.deserializeSlice address skip n data).map fun _ => (), data)

/-- Where an element is pushed, it fits and is aligned. -/
def Call.HasPlace (address : Nat) (data : List UInt8) : Call T → Prop
  | .push _ => ∀ n, len data = some n →
    vecSizeBytes + (n + 1) * T.size ≤ data.length ∧ T.align ∣ address + (vecSizeBytes + n * T.size)
  | _ => True

/-! ## What an error leaves -/

theorem len_write {m : Nat} (h : write data 0 (toLeBytes vecSizeBytes m) = some data') :
    len data' = some (m % 2 ^ 32) := by
  unfold write at h
  split at h
  · cases h
    rw [List.take_zero, List.nil_append, len, slice_front (length_toLeBytes _ _).symm, Option.map_some,
      ← toLeBytes_mod, fromLeBytes_toLeBytes (Nat.mod_lt _ (by decide))]
    rfl
  · cases h

theorem len_lt (h : len data = some n) : n < 2 ^ 32 := by
  obtain ⟨word, hword, rfl⟩ := Option.map_eq_some_iff.1 h
  obtain ⟨a, c, -, ha, hlen⟩ := slice_eq_some.1 hword
  have := fromLeBytes_lt word
  rw [show word.length = 4 by rw [← Nat.zero_add word.length, hlen]; rfl] at this
  exact this

theorem write_next (h : len data = some n) :
    ∃ data', write data 0 (toLeBytes vecSizeBytes (n + 1)) = some data' ∧ data'.length = data.length := by
  obtain ⟨word, hword, rfl⟩ := Option.map_eq_some_iff.1 h
  obtain ⟨a, c, rfl, ha, hlen⟩ := slice_eq_some.1 hword
  obtain rfl := List.length_eq_zero_iff.1 ha
  rw [Nat.zero_add] at hlen
  refine ⟨_, by rw [List.nil_append]; exact write_front (by rw [length_toLeBytes, hlen]), ?_⟩
  simp [hlen]

namespace Pod

/-- What `push` does once the next length is written. -/
theorem push_eq (hn : len data = some n) (hw : write data 0 (toLeBytes vecSizeBytes (n + 1)) = some data')
    (hlen : data'.length = data.length) :
    T.push address element data =
      if data.length < vecSizeBytes + (n + 1) * T.size then some (.error .accountDataTooSmall, data')
      else if ¬ T.align ∣ address + (vecSizeBytes + n * T.size) then some (.error .invalidAccountData, data')
      else (write data' (vecSizeBytes + n * T.size) element.bytes).map fun data => (.ok (), data) := by
  have hend : vecSizeBytes + n * T.size + T.size = vecSizeBytes + (n + 1) * T.size := by ring
  simp only [push, hn, hw, hlen, hend, Option.bind_eq_bind, Option.bind_some]
  split
  · rfl
  rename_i hroom
  obtain ⟨bytes, hs⟩ := Option.isSome_iff_exists.1 (slice_isSome.2
    (show vecSizeBytes + n * T.size ≤ vecSizeBytes + (n + 1) * T.size ∧
      vecSizeBytes + (n + 1) * T.size ≤ data'.length by rw [← hend]; omega))
  obtain ⟨a, c, -, ha, hbytes⟩ := slice_eq_some.1 hs
  rw [hs, Option.bind_some, tryFromBytesMut, if_neg (by omega)]
  by_cases hal : T.align ∣ address + (vecSizeBytes + n * T.size)
  · rw [if_neg (not_not.2 hal), if_neg (not_not.2 hal)]
    cases write data' (vecSizeBytes + n * T.size) element.bytes <;> rfl
  · rw [if_pos hal, if_pos hal]
    rfl

theorem push_ok (element : T.Value) (hn : len data = some n) (hroom : vecSizeBytes + (n + 1) * T.size ≤ data.length)
    (hal : T.align ∣ address + (vecSizeBytes + n * T.size)) :
    ∃ data', T.push address element data = some (.ok (), data') := by
  obtain ⟨data', hw, hlen⟩ := write_next hn
  rw [push_eq hn hw hlen, if_neg (Nat.not_lt.2 hroom), if_neg (not_not.2 hal), write, if_pos]
  · exact ⟨_, rfl⟩
  · rw [element.length_eq, hlen, Nat.add_assoc, ← Nat.succ_mul]
    exact hroom

/-- An error of `push` leaves a length word that counts one element more. -/
theorem push_error (element : T.Value) (hn : len data = some n)
    (h : ¬ (vecSizeBytes + (n + 1) * T.size ≤ data.length ∧ T.align ∣ address + (vecSizeBytes + n * T.size))) :
    ∃ e data', T.push address element data = some (.error e, data') ∧ len data' = some ((n + 1) % 2 ^ 32) ∧
      data'.length = data.length := by
  obtain ⟨data', hw, hlen⟩ := write_next hn
  rw [push_eq hn hw hlen]
  by_cases hroom : data.length < vecSizeBytes + (n + 1) * T.size
  · exact ⟨_, data', if_pos hroom, len_write hw, hlen⟩
  · have hal : ¬ T.align ∣ address + (vecSizeBytes + n * T.size) := fun hal => h ⟨Nat.not_lt.1 hroom, hal⟩
    exact ⟨_, data', by rw [if_neg hroom, if_pos hal], len_write hw, hlen⟩

theorem push_of_len_none (h : len data = none) : T.push address element data = none := by
  rw [push, h]
  rfl

end Pod

/-- After a push that found no room, every `retain` panics. -/
theorem retain_after_push {predicate : List UInt8 → Bool} (hn : len data = some n) (hmax : n + 1 < 2 ^ 32)
    (hroom : data.length < vecSizeBytes + (n + 1) * T.size)
    (h : T.push address element data = some (.error e, data')) : Raw.retain T.size predicate data' = none := by
  obtain ⟨e', data₁, hp, hlen, hlength⟩ := @Pod.push_error T address n data element hn
    fun hc => absurd hc.1 (Nat.not_le.2 hroom)
  rw [h] at hp
  cases hp
  rw [Nat.mod_eq_of_lt hmax] at hlen
  cases hr : Raw.retain T.size predicate data' with
  | none => rfl
  | some r =>
    -- a buffer that is filtered has all the elements that its word counts
    obtain ⟨-, elems, tail, hh⟩ := holds_of_retain hr
    have hcount := hh.len
    rw [hlen, Option.some.injEq] at hcount
    have := hh.length
    rw [← hcount] at this
    omega

/-! ## When an error leaves the buffer -/

namespace Call

theorem retain_ne_error {predicate : List UInt8 → Bool} :
    Raw.retain T.size predicate data ≠ some (.error e, data') := by
  intro h
  obtain ⟨h0, elems, tail, hh⟩ := holds_of_retain h
  obtain ⟨data₁, gap, hr, -⟩ := hh.retain (p := predicate) h0
  rw [h] at hr
  cases hr

/-- No error changes the buffer but those of `push`. -/
theorem keeps_of_hasPlace {call : Call T} (hc : call.HasPlace address data)
    (h : call.run address data = some (.error e, data')) : data' = data := by
  cases call with
  | push element =>
    cases hn : len data with
    | none =>
      rw [run, Pod.push_of_len_none hn] at h
      cases h
    | some n =>
      obtain ⟨hroom, hal⟩ := hc n hn
      obtain ⟨data₁, hp⟩ := Pod.push_ok element hn hroom hal
      rw [run, hp] at h
      cases h
  | retain predicate => exact absurd h retain_ne_error
  | deserializeSlice skip n =>
    obtain ⟨r, -, h⟩ := Option.bind_eq_some_iff.1 h
    exact (congrArg Prod.snd (Option.some.inj h)).symm
  | deserializeMutSlice skip n =>
    obtain ⟨r, -, h⟩ := Option.bind_eq_some_iff.1 h
    exact (congrArg Prod.snd (Option.some.inj h)).symm

end Call

/-- The errors of a call leave the buffer as it was, exactly when no element is pushed that has no place. -/
theorem error_keeps_buffer_iff (T : Pod) (address : Nat) (data : List UInt8) (call : Call T) :
    (∀ e data', call.run address data = some (.error e, data') → data' = data) ↔ call.HasPlace address data := by
  refine ⟨fun hkeeps => ?_, fun hc e data' => call.keeps_of_hasPlace hc⟩
  cases call with
  | push element =>
    intro n hn
    by_contra hplace
    obtain ⟨e, data', hp, hlen, -⟩ := Pod.push_error element hn hplace
    rw [hkeeps e data' hp, hn, Option.some.injEq] at hlen
    have := len_lt hn
    omega
  | retain predicate => exact trivial
  | deserializeSlice skip n => exact trivial
  | deserializeMutSlice skip n => exact trivial

/-- The fourth push into a buffer with room for three elements of eight bytes. -/
theorem push_error_changes_buffer : ∃ (T : Pod) (element : T.Value) (data data' : List UInt8),
    Call.run 0 data (.push element) = some (.error .accountDataTooSmall, data') ∧ data' ≠ data := by
  refine ⟨⟨8, 1, by decide, by decide⟩, ⟨[4, 0, 0, 0, 0, 0, 0, 0], rfl⟩,
    [3, 0, 0, 0, 1, 0, 0, 0, 0, 0, 0, 0, 2, 0, 0, 0, 0, 0, 0, 0, 3, 0, 0, 0, 0, 0, 0, 0],
    [4, 0, 0, 0, 1, 0, 0, 0, 0, 0, 0, 0, 2, 0, 0, 0, 0, 0, 0, 0, 3, 0, 0, 0, 0, 0, 0, 0], rfl, by decide⟩

end SplStakePool.BigVec.Raw
