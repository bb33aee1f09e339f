import SplStakePool.BigVec.Raw

/-!
# A buffer as a list

`decode` reads the list that a buffer holds: as many elements as the length word says, where these fit into
the buffer. Each operation on the bytes is its counterpart on this list, and so is a sequence of them, for
elements of at least one byte and a length word that counts the elements.

The bytes behind the elements are carried along: an operation may change how many there are, but never what later
operations return. A sequence of operations is an induction over the operations with the list generalized. The
conditions on the size and on the length word are needed, as two buffers at the end show.
-/

namespace SplStakePool.BigVec.Raw
open Buffer Machine

/-- The elements that bytes are cut into. -/
def chunks (size : Nat) : Nat → List UInt8 → List (List UInt8)
  | 0, _ => []
  | n + 1, bytes => bytes.take size :: chunks size n (bytes.drop size)

/-- The list that a buffer holds. -/
def decode (size : Nat) (data : List UInt8) : Option (List (List UInt8)) := do
  let n ← len data
  return chunks size n (← slice data vecSizeBytes (vecSizeBytes + n * size))

/-- Where the elements of a list end. -/
def dataEndIndex (size : Nat) (elems : List (List UInt8)) : Nat := vecSizeBytes + elems.length * size

variable {size n : Nat} {elems : List (List UInt8)} {bytes tail data : List UInt8}

@[simp] theorem length_chunks : (chunks size n bytes).length = n := by
  induction n generalizing bytes with
  | zero => rfl
  | succ n ih => rw [chunks, List.length_cons, ih]

theorem chunks_flatten (h : ∀ e ∈ elems, e.length = size) : chunks size elems.length elems.flatten = elems := by
  induction elems with
  | nil => rfl
  | cons e elems ih =>
    have he := h e (by simp)
    rw [List.length_cons, List.flatten_cons, chunks, List.take_left' he, List.drop_left' he,
      ih fun x hx => h x (by simp [hx])]

theorem chunks_sizes (h : bytes.length = n * size) : ∀ e ∈ chunks size n bytes, e.length = size := by
  induction n generalizing bytes with
  | zero => simp [chunks]
  | succ n ih =>
    rw [Nat.succ_mul] at h
    intro e he
    rcases List.mem_cons.1 he with rfl | he
    · rw [List.length_take]
      omega
    · exact ih (by rw [List.length_drop]; omega) e he

theorem flatten_chunks (h : bytes.length = n * size) : (chunks size n bytes).flatten = bytes := by
  induction n generalizing bytes with
  | zero =>
    rw [Nat.zero_mul] at h
    rw [List.length_eq_zero_iff.1 h]
    rfl
  | succ n ih =>
    rw [Nat.succ_mul] at h
    rw [chunks, List.flatten_cons, ih (by rw [List.length_drop]; omega), List.take_append_drop]

/-- Buffers whose elements fit are those that hold a list. -/
theorem holds_of_fits (hn : len data = some n) (hfit : vecSizeBytes + n * size ≤ data.length) :
    ∃ elems tail, elems.length = n ∧ Holds size elems tail data := by
  obtain ⟨word, hword, rfl⟩ := Option.map_eq_some_iff.1 hn
  obtain ⟨a, rest, rfl, ha, hlen⟩ := slice_eq_some.1 hword
  obtain rfl := List.length_eq_zero_iff.1 ha
  rw [Nat.zero_add] at hlen
  rw [List.nil_append, List.length_append, hlen] at hfit
  have hbytes : (rest.take (fromLeBytes word * size)).length = fromLeBytes word * size := by
    rw [List.length_take]
    omega
  refine ⟨chunks size (fromLeBytes word) (rest.take (fromLeBytes word * size)),
    rest.drop (fromLeBytes word * size), length_chunks, chunks_sizes hbytes, ?_, ?_⟩
  · have := fromLeBytes_lt word
    rw [hlen] at this
    rw [length_chunks]
    exact this
  · rw [length_chunks, flatten_chunks hbytes, ← hlen, toLeBytes_fromLeBytes, List.nil_append,
      List.append_assoc, List.take_append_drop]

theorem Holds.decode (h : Holds size elems tail data) : decode size data = some elems := by
  have hs : Buffer.slice data vecSizeBytes (vecSizeBytes + elems.length * size) = some elems.flatten := by
    rw [h.layout]
    refine slice_append (length_toLeBytes _ _).symm ?_
    rw [length_flatten h.sizes]
  rw [Raw.decode, h.len, Option.bind_eq_bind, Option.bind_some, hs, Option.bind_eq_bind, Option.bind_some,
    chunks_flatten h.sizes]
  rfl

theorem decode_eq_some : decode size data = some elems ↔ ∃ tail, Holds size elems tail data := by
  constructor
  · intro h
    obtain ⟨n, hn, h'⟩ := Option.bind_eq_some_iff.1 h
    obtain ⟨bytes, hs, -⟩ := Option.bind_eq_some_iff.1 h'
    have hle := (slice_isSome.1 (Option.isSome_iff_exists.2 ⟨_, hs⟩)).2
    obtain ⟨elems', tail, -, ht⟩ := holds_of_fits hn hle
    rw [ht.decode] at h
    cases h
    exact ⟨tail, ht⟩
  · rintro ⟨tail, h⟩
    exact h.decode

theorem Holds.drop (h : Holds size elems tail data) : data.drop (dataEndIndex size elems) = tail := by
  have hlen : (toLeBytes vecSizeBytes elems.length ++ elems.flatten).length = dataEndIndex size elems := by
    rw [List.length_append, length_toLeBytes, length_flatten h.sizes, dataEndIndex]
  rw [h.layout, ← hlen, List.drop_left]

/-- Where the first match is, when the search starts at an index. -/
def findElem (size : Nat) (p : List UInt8 → Bool) : List (List UInt8) → Nat → Option (Nat × List UInt8)
  | [], _ => none
  | e :: elems, i => if p e then some (i, e) else findElem size p elems (i + size)

theorem findElem_congr {p q : List UInt8 → Bool} (h : ∀ e ∈ elems, q e = p e) (i : Nat) :
    findElem size q elems i = findElem size p elems i := by
  induction elems generalizing i with
  | nil => rfl
  | cons e elems ih => rw [findElem, findElem, h e (by simp), ih fun x hx => h x (by simp [hx])]

/-- A search reads the elements and nothing else of the buffer. -/
theorem Holds.findMut (h : Holds size elems tail data) (p : List UInt8 → Bool) :
    findMut size p data = some (findElem size p elems vecSizeBytes) := by
  have hloop : ∀ pre post, elems = pre ++ post →
      findLoop size p data post.length (vecSizeBytes + pre.length * size) =
        some (findElem size p post (vecSizeBytes + pre.length * size)) := by
    intro pre post heq
    induction post generalizing pre with
    | nil => rfl
    | cons e post ih =>
      have hs := (heq ▸ h).slice
      have hnext := ih (pre ++ [e]) (by rw [heq, List.append_assoc]; rfl)
      rw [← next_index pre e] at hnext
      rw [List.length_cons, findLoop, hs, Option.bind_eq_bind, Option.bind_some, findElem, hnext]
      split <;> rfl
  rw [Raw.findMut, h.len, Option.bind_eq_bind, Option.bind_some]
  have := hloop [] elems rfl
  rwa [List.length_nil, Nat.zero_mul, Nat.add_zero] at this

/-! ## The operations on the list in a buffer -/

/-- What the operations do on a buffer, said of the list that it holds. -/
structure RefinesList (size : Nat) (data : List UInt8) (elems : List (List UInt8)) : Prop where
  /-- `retain` filters, and leaves the bytes behind the old end. -/
  retain : ∀ p, ∃ data', retain size p data = some (.ok (), data') ∧
    decode size data' = some (elems.filter p) ∧ data'.length = data.length ∧
    data'.drop (dataEndIndex size elems) = data.drop (dataEndIndex size elems)
  /-- `push` appends when space remains. -/
  push : ∀ e : List UInt8, e.length = size → dataEndIndex size elems + size ≤ data.length →
    elems.length + 1 < 2 ^ 32 → ∃ data', push size e data = some (.ok (), data') ∧
    decode size data' = some (elems ++ [e]) ∧ data'.length = data.length ∧
    data'.drop (dataEndIndex size elems + size) = data.drop (dataEndIndex size elems + size)
  find : ∀ p, find size p data = some (elems.find? p)
  /-- A search depends on no byte but those of the elements, and tests nothing but the elements. -/
  visits : ∀ p q other, decode size other = some elems → (∀ e ∈ elems, q e = p e) →
    findMut size q other = findMut size p data
  /-- `find_mut` finds what `find` finds. Writing through it changes the element that was found. -/
  findMut : ∀ p, ∃ r, findMut size p data = some r ∧ r.map Prod.snd = elems.find? p ∧
    ∀ i e, r = some (i, e) → ∀ e' : List UInt8, e'.length = size → ∃ data', write data i e' = some data' ∧
      decode size data' = some (setFirst p e' elems) ∧ data'.take i = data.take i ∧
      data'.drop (i + size) = data.drop (i + size)
  /-- A slice is read when it lies in the list, and refused when it does not. -/
  deserializeSlice : ∀ skip n, (deserializeSlice size skip n data).map (Except.map (chunks size n)) =
    some (if skip + n ≤ elems.length then .ok ((elems.drop skip).take n) else .error .accountDataTooSmall)
  /-- Writing through a slice changes the elements of the slice. -/
  writeSlice : ∀ skip (slice : List (List UInt8)), (∀ e ∈ slice, e.length = size) →
    skip + slice.length ≤ elems.length → ∃ data', writeSlice size skip slice.flatten data = some data' ∧
      decode size data' = some (elems.take skip ++ slice ++ elems.drop (skip + slice.length)) ∧
      data'.take (vecSizeBytes + skip * size) = data.take (vecSizeBytes + skip * size) ∧
      data'.drop (vecSizeBytes + (skip + slice.length) * size) =
        data.drop (vecSizeBytes + (skip + slice.length) * size)

theorem Holds.findMut_write {p : List UInt8 → Bool} {i : Nat} {e e' : List UInt8} (h : Holds size elems tail data)
    (hf : Raw.findMut size p data = some (some (i, e))) (he' : e'.length = size) :
    ∃ data', Buffer.write data i e' = some data' ∧ Holds size (setFirst p e' elems) tail data' := by
  cases hfind : elems.find? p with
  | none =>
    rw [h.findMut_none hfind] at hf
    cases hf
  | some x =>
    obtain ⟨j, hj, hw⟩ := h.findMut_some hfind
    rw [hf] at hj
    cases hj
    exact hw e' he'

theorem Holds.deserializeSlice_chunks (h : Holds size elems tail data) (skip n : Nat) :
    (Raw.deserializeSlice size skip n data).map (Except.map (chunks size n)) =
      some (BigVec.deserializeSlice elems skip n) := by
  rw [h.deserializeSlice, Option.map_some, BigVec.deserializeSlice]
  split <;> rename_i hle
  · rfl
  · have hlen : ((elems.drop skip).take n).length = n := by
      rw [List.length_take, List.length_drop]
      omega
    have hcut := chunks_flatten fun e (he : e ∈ (elems.drop skip).take n) =>
      h.sizes e (List.mem_of_mem_drop (List.mem_of_mem_take he))
    rw [hlen] at hcut
    exact congrArg (fun l => some (Except.ok l)) hcut

theorem Holds.refinesList (h : Holds size elems tail data) (hsize : 0 < size) : RefinesList size data elems where
  retain p := by
    obtain ⟨data', gap, hr, ht, hgap⟩ := h.retain (p := p) (by omega)
    have hlen : data'.length = data.length := by
      rw [ht.length, h.length, List.length_append]
      omega
    refine ⟨data', hr, ht.decode, hlen, ?_⟩
    -- the gap reaches from the new end to the old one
    have hold : dataEndIndex size elems = dataEndIndex size (elems.filter p) + gap.length := by
      rw [dataEndIndex, dataEndIndex]
      omega
    rw [h.drop, hold, ← List.drop_drop, ht.drop, List.drop_left]
  push e he hroom hcount := by
    have hlen := h.length
    rw [dataEndIndex] at hroom
    obtain ⟨data', hp, ht⟩ := h.push he (by omega) hcount
    have hlen' := ht.length
    rw [List.length_append, List.length_singleton, List.length_drop, Nat.add_mul, Nat.one_mul] at hlen'
    refine ⟨data', hp, ht.decode, by omega, ?_⟩
    have hend : dataEndIndex size elems + size = dataEndIndex size (elems ++ [e]) := by
      rw [dataEndIndex, dataEndIndex, List.length_append, List.length_singleton]
      ring
    rw [hend, ht.drop, ← hend, ← List.drop_drop, h.drop]
  find p := h.find
  visits p q other ho hpq := by
    obtain ⟨tail', h'⟩ := decode_eq_some.1 ho
    rw [h'.findMut, h.findMut, findElem_congr hpq]
  findMut p := by
    have hfind := h.find (p := p)
    obtain ⟨r, hr, hr'⟩ := Option.map_eq_some_iff.1 hfind
    refine ⟨r, hr, hr', fun i e hie e' he' => ?_⟩
    rw [hie] at hr
    obtain ⟨data', hw, ht⟩ := h.findMut_write hr he'
    obtain ⟨htake, hdrop⟩ := write_outside hw
    rw [he'] at hdrop
    exact ⟨data', hw, ht.decode, htake, hdrop⟩
  deserializeSlice skip n := by
    rw [h.deserializeSlice_chunks, BigVec.deserializeSlice]
    by_cases hle : skip + n ≤ elems.length
    · rw [if_pos hle, if_neg (by omega)]
    · rw [if_neg hle, if_pos (by omega)]
  writeSlice skip slice hsizes hle := by
    obtain ⟨data', hw, ht⟩ := h.writeSlice hsizes hle
    obtain ⟨htake, hdrop⟩ := write_outside hw
    rw [length_flatten hsizes, Nat.add_assoc, ← Nat.add_mul] at hdrop
    exact ⟨data', hw, ht.decode, htake, hdrop⟩

theorem RetainState.length_compact {s : RetainState} {stop : Nat} (h : s.compact size stop = some bytes) :
    bytes.length = s.data.length := by
  unfold RetainState.compact at h
  split at h
  · obtain ⟨dst, -, h⟩ := Option.bind_eq_some_iff.1 h
    obtain ⟨src, -, h⟩ := Option.bind_eq_some_iff.1 h
    exact length_write h
  · cases h
    rfl

theorem retainLoop_fits {p : List UInt8 → Bool} {start : Nat} {s s' : RetainState}
    (h : retainLoop size p n start s = some s') : n = 0 ∨ start + n * size ≤ s.data.length := by
  induction n generalizing start s with
  | zero => exact .inl rfl
  | succ n ih =>
    have hlast : ∀ {t : RetainState}, t.data.length = s.data.length →
        retainLoop size p n (start + size) t = some s' → start + size ≤ s.data.length →
        start + (n + 1) * size ≤ s.data.length := by
      intro t ht hloop hle
      rcases ih hloop with rfl | hrest
      · rwa [Nat.zero_add, Nat.one_mul]
      · rw [ht] at hrest
        rw [Nat.succ_mul]
        omega
    rw [retainLoop] at h
    obtain ⟨element, he, h⟩ := Option.bind_eq_some_iff.1 h
    have hle := (slice_isSome.1 (Option.isSome_iff_exists.2 ⟨_, he⟩)).2
    refine .inr ?_
    split at h
    · exact hlast rfl h hle
    · obtain ⟨data, hd, h⟩ := Option.bind_eq_some_iff.1 h
      exact hlast (RetainState.length_compact hd) h hle

/-- `retain` succeeds on no buffer but those that hold a list. -/
theorem holds_of_retain {p : List UInt8 → Bool} {r : Except ProgramError Unit × List UInt8}
    (h : retain size p data = some r) : size ≠ 0 ∧ ∃ elems tail, Holds size elems tail data := by
  by_cases h0 : size = 0
  · rw [retain, if_pos h0] at h
    cases h
  refine ⟨h0, ?_⟩
  rw [retain, if_neg h0] at h
  obtain ⟨n, hn, h⟩ := Option.bind_eq_some_iff.1 h
  obtain ⟨s, hs, -⟩ := Option.bind_eq_some_iff.1 h
  have hfit : vecSizeBytes + n * size ≤ data.length := by
    rcases retainLoop_fits hs with rfl | hfit
    · obtain ⟨word, hword, -⟩ := Option.map_eq_some_iff.1 hn
      have := (slice_isSome.1 (Option.isSome_iff_exists.2 ⟨_, hword⟩)).2
      omega
    · exact hfit
  obtain ⟨elems, tail, -, ht⟩ := holds_of_fits hn hfit
  exact ⟨elems, tail, ht⟩

theorem Holds.retain_of_forall {p : List UInt8 → Bool} (h : Holds size elems tail data) (hsize : size ≠ 0)
    (hp : ∀ e ∈ elems, p e) : Raw.retain size p data = some (.ok (), data) := by
  obtain ⟨data', gap, hr, ht, hgap⟩ := h.retain (p := p) hsize
  have hall : elems.filter p = elems := List.filter_eq_self.2 hp
  rw [hall] at ht hgap
  have hnil : gap = [] := List.length_eq_zero_iff.1 (by omega)
  rw [hnil, List.nil_append] at ht
  rw [hr, ht.layout, ← h.layout]

/-! ## Sequences of operations -/

/-- An operation, with what is written through the references that it returns. -/
inductive Op
  | retain (predicate : List UInt8 → Bool)
  | push (element : List UInt8)
  | find (predicate : List UInt8 → Bool)
  | findMut (predicate : List UInt8 → Bool) (modify : List UInt8 → List UInt8)
  | deserializeSlice (skip len : Nat)
  | deserializeMutSlice (skip len : Nat) (modify : List (List UInt8) → List (List UInt8))

/-- What an operation returns. -/
inductive Answer
  | done (r : Except ProgramError Unit)
  | element (e : Option (List UInt8))
  | slice (r : Except ProgramError (List (List UInt8)))

namespace Op

/-- An operation on the bytes. -/
def runRaw (size : Nat) (data : List UInt8) : Op → Option (Answer × List UInt8)
  | retain p => (Raw.retain size p data).map fun r => (.done r.1, r.2)
  | push e => (Raw.push size e data).map fun r => (.done r.1, r.2)
  | find p => (Raw.find size p data).map fun e => (.element e, data)
  | findMut p modify => do
    match ← Raw.findMut size p data with
    | none => return (.element none, data)
    | some (i, e) => return (.element (some e), ← write data i (modify e))
  | deserializeSlice skip len => do
    let r ← Raw.deserializeSlice size skip len data
    return (.slice (r.map (chunks size len)), data)
  | deserializeMutSlice skip len modify => do
    match (← Raw.deserializeSlice size skip len data).map (chunks size len) with
    | .error e => return (.slice (.error e), data)
    | .ok l => return (.slice (.ok l), ← writeSlice size skip (modify l).flatten data)

/-- The operation on a list. -/
def run (elems : List (List UInt8)) : Op → Answer × List (List UInt8)
  | retain p => (.done (.ok ()), elems.filter p)
  | push e => (.done (.ok ()), elems ++ [e])
  | find p => (.element (elems.find? p), elems)
  | findMut p modify =>
    match elems.find? p with
    | none => (.element none, elems)
    | some e => (.element (some e), setFirst p (modify e) elems)
  | deserializeSlice skip len => (.slice (BigVec.deserializeSlice elems skip len), elems)
  | deserializeMutSlice skip len modify =>
    match BigVec.deserializeSlice elems skip len with
    | .error e => (.slice (.error e), elems)
    | .ok l => (.slice (.ok l), BigVec.writeSlice elems skip (modify l))

/-- What is written are elements, as many as there were. -/
def Fits (size : Nat) : Op → Prop
  | push e => e.length = size
  | findMut _ modify => ∀ e, e.length = size → (modify e).length = size
  | deserializeMutSlice _ _ modify => ∀ l, (∀ e ∈ l, e.length = size) →
    (modify l).length = l.length ∧ ∀ e ∈ modify l, e.length = size
  | _ => True

/-- There is space for what is pushed, and the length word can count it. -/
def HasRoom (size dataLen : Nat) (elems : List (List UInt8)) : Op → Prop
  | push _ => dataEndIndex size elems + size ≤ dataLen ∧ elems.length + 1 < 2 ^ 32
  | _ => True

/-- A sequence of operations on the bytes, with what they return. -/
def runRawAll (size : Nat) : List Op → List UInt8 → Option (List Answer × List UInt8)
  | [], data => some ([], data)
  | op :: ops, data => do
    let (a, data) ← op.runRaw size data
    let (as, data) ← runRawAll size ops data
    return (a :: as, data)

/-- The sequence on a list. -/
def runAll : List Op → List (List UInt8) → List Answer × List (List UInt8)
  | [], elems => ([], elems)
  | op :: ops, elems =>
    let r := op.run elems
    let rs := runAll ops r.2
    (r.1 :: rs.1, rs.2)

/-- Each push of a sequence has space. -/
def AllHaveRoom (size dataLen : Nat) : List Op → List (List UInt8) → Prop
  | [], _ => True
  | op :: ops, elems => op.HasRoom size dataLen elems ∧ AllHaveRoom size dataLen ops (op.run elems).2

end Op

/-- One operation on the bytes is the operation on the list. -/
theorem Holds.runRaw (h : Holds size elems tail data) (hsize : 0 < size) {op : Op} (hfit : op.Fits size)
    (hroom : op.HasRoom size data.length elems) : ∃ data' tail', op.runRaw size data = some ((op.run elems).1, data') ∧
      Holds size (op.run elems).2 tail' data' ∧ data'.length = data.length := by
  cases op with
  | retain p =>
    obtain ⟨data', gap, hr, ht, -⟩ := h.retain (p := p) (by omega)
    obtain ⟨data₁, hr₁, -, hlen, -⟩ := (h.refinesList hsize).retain p
    rw [hr] at hr₁
    cases hr₁
    exact ⟨data', gap ++ tail, by rw [Op.runRaw, hr]; rfl, ht, hlen⟩
  | push e =>
    obtain ⟨hspace, hcount⟩ := hroom
    obtain ⟨data', hp, hd, hlen, -⟩ := (h.refinesList hsize).push e hfit hspace hcount
    obtain ⟨tail', ht⟩ := decode_eq_some.1 hd
    exact ⟨data', tail', by rw [Op.runRaw, hp]; rfl, ht, hlen⟩
  | find p => exact ⟨data, tail, by rw [Op.runRaw, h.find]; rfl, h, rfl⟩
  | findMut p modify =>
    rw [Op.run]
    cases hfind : elems.find? p with
    | none => exact ⟨data, tail, by rw [Op.runRaw, h.findMut_none hfind]; rfl, h, rfl⟩
    | some e =>
      obtain ⟨i, hi, hw⟩ := h.findMut_some hfind
      obtain ⟨data', hw, ht⟩ := hw (modify e) (hfit e (h.sizes e (List.mem_of_find?_eq_some hfind)))
      refine ⟨data', tail, ?_, ht, length_write hw⟩
      simp only [Op.runRaw, hi, hw, Option.bind_eq_bind, Option.bind_some]
      rfl
  | deserializeSlice skip n =>
    refine ⟨data, tail, ?_, h, rfl⟩
    obtain ⟨r, hr, hr'⟩ := Option.map_eq_some_iff.1 (h.deserializeSlice_chunks skip n)
    rw [Op.runRaw, hr, Option.bind_eq_bind, Option.bind_some, hr']
    rfl
  | deserializeMutSlice skip n modify =>
    obtain ⟨r, hr, hr'⟩ := Option.map_eq_some_iff.1 (h.deserializeSlice_chunks skip n)
    rw [Op.runRaw, hr, Option.bind_eq_bind, Option.bind_some, hr', Op.run]
    cases hl : BigVec.deserializeSlice elems skip n with
    | error e => exact ⟨data, tail, rfl, h, rfl⟩
    | ok l =>
      obtain ⟨hle, rfl⟩ := deserializeSlice_eq_ok.1 hl
      obtain ⟨hlen, hsizes⟩ := hfit _ fun e he => h.sizes e (List.mem_of_mem_drop (List.mem_of_mem_take he))
      have hin : skip + (modify ((elems.drop skip).take n)).length ≤ elems.length := by
        rw [hlen, List.length_take, List.length_drop, Nat.min_eq_left (by omega)]
        exact hle
      obtain ⟨data', hw, ht⟩ := h.writeSlice hsizes hin
      refine ⟨data', tail, ?_, ht, length_write hw⟩
      show (Raw.writeSlice size skip _ data >>= fun data => some (Answer.slice (.ok _), data)) = _
      rw [hw]
      rfl

theorem Holds.runRawAll (h : Holds size elems tail data) (hsize : 0 < size) {ops : List Op}
    (hfit : ∀ op ∈ ops, op.Fits size) (hroom : Op.AllHaveRoom size data.length ops elems) :
    ∃ data', Op.runRawAll size ops data = some ((Op.runAll ops elems).1, data') ∧
      Raw.decode size data' = some (Op.runAll ops elems).2 := by
  induction ops generalizing elems tail data with
  | nil => exact ⟨data, rfl, h.decode⟩
  | cons op ops ih =>
    obtain ⟨data₁, tail₁, hr, h₁, hlen⟩ := h.runRaw hsize (hfit op (by simp)) hroom.1
    obtain ⟨data', hrs, hd⟩ := ih h₁ (fun o ho => hfit o (by simp [ho])) (hlen ▸ hroom.2)
    refine ⟨data', ?_, hd⟩
    rw [Op.runRawAll, hr, Option.bind_eq_bind, Option.bind_some]
    simp only [hrs, Option.bind_eq_bind, Option.bind_some]
    rfl

/-- A buffer with a length word and the elements that it counts refines the list of these elements: each
operation on the bytes is the one on the list, and so is every sequence of them. -/
theorem big_vec_refines_list (hsize : 0 < size) (hn : len data = some n)
    (hfit : vecSizeBytes + n * size ≤ data.length) : ∃ elems, decode size data = some elems ∧ elems.length = n ∧
      RefinesList size data elems ∧
      ∀ ops : List Op, (∀ op ∈ ops, op.Fits size) → Op.AllHaveRoom size data.length ops elems →
        ∃ data', Op.runRawAll size ops data = some ((Op.runAll ops elems).1, data') ∧
          decode size data' = some (Op.runAll ops elems).2 := by
  obtain ⟨elems, tail, hlen, h⟩ := holds_of_fits hn hfit
  exact ⟨elems, h.decode, hlen, h.refinesList hsize, fun ops hops hroom => h.runRawAll hsize hops hroom⟩

/-- Of two elements, the first one is dropped, and another one takes its space. -/
def dropAndPush : List Op := [.retain fun e => e != [1, 2], .push [5, 6]]

theorem big_vec_refines_list_two : RefinesList 2 [2, 0, 0, 0, 1, 2, 3, 4, 9] [[1, 2], [3, 4]] ∧
    ∃ data', Op.runRawAll 2 dropAndPush [2, 0, 0, 0, 1, 2, 3, 4, 9] =
        some ([.done (.ok ()), .done (.ok ())], data') ∧ decode 2 data' = some [[3, 4], [5, 6]] := by
  obtain ⟨elems, hd, -, h, hops⟩ :=
    @big_vec_refines_list 2 2 [2, 0, 0, 0, 1, 2, 3, 4, 9] (by decide) rfl (by decide)
  have he : decode 2 [2, 0, 0, 0, 1, 2, 3, 4, 9] = some [[1, 2], [3, 4]] := rfl
  rw [he] at hd
  cases hd
  refine ⟨h, hops dropAndPush (fun op hop => ?_) ⟨trivial, ⟨by decide, by decide⟩, trivial⟩⟩
  rcases List.mem_pair.1 hop with rfl | rfl
  · trivial
  · rfl

/-- A vector that is as long as the length word can say is empty after a push. -/
theorem Holds.push_full {e : List UInt8} (h : Holds size elems tail data) (he : e.length = size)
    (hroom : size ≤ tail.length) (hfull : elems.length + 1 = 2 ^ 32) :
    ∃ data', Raw.push size e data = some (.ok (), data') ∧ Raw.decode size data' = some [] := by
  refine ⟨_, h.push_layout he hroom, decode_eq_some.2 ⟨(elems ++ [e]).flatten ++ tail.drop size, ?_, ?_, ?_⟩⟩
  · simp
  · simp
  · rw [hfull, List.append_assoc]
    rfl

/-- Elements of no bytes cannot be filtered, and a push over the range of the length word loses the list. -/
theorem big_vec_limits :
    (∃ data elems, decode 0 data = some elems ∧ ∀ p, retain 0 p data = none) ∧
      ∃ data elems e data', decode 1 data = some elems ∧ e.length = 1 ∧
        dataEndIndex 1 elems + 1 ≤ data.length ∧ push 1 e data = some (.ok (), data') ∧
        decode 1 data' ≠ some (elems ++ [e]) := by
  refine ⟨⟨[0, 0, 0, 0], [], rfl, fun p => rfl⟩, ?_⟩
  obtain ⟨n, hn⟩ : ∃ n, n + 1 = 2 ^ 32 := ⟨2 ^ 32 - 1, rfl⟩
  have h : Holds 1 (List.replicate n [0]) [0]
      (toLeBytes vecSizeBytes (List.replicate n [(0 : UInt8)]).length ++ (List.replicate n [0]).flatten ++ [0]) := by
    refine ⟨fun e he => ?_, ?_, rfl⟩
    · rw [List.eq_of_mem_replicate he]
      rfl
    · rw [List.length_replicate]
      omega
  obtain ⟨data', hp, hd⟩ := h.push_full (e := [0]) rfl le_rfl (by rw [List.length_replicate, hn])
  refine ⟨_, _, [0], data', h.decode, rfl, ?_, hp, by simp [hd]⟩
  rw [h.length, dataEndIndex]
  exact le_rfl

end SplStakePool.BigVec.Raw
