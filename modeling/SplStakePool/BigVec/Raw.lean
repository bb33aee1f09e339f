import SplStakePool.BigVec
import SplStakePool.Lib.Buffer
import SplStakePool.Lib.Checked

/-!
# Vectors as bytes (`big_vec.rs`)

The operations of a `BigVec` on its bytes: a length word of four bytes, the elements of `size` bytes each,
and whatever is behind them. An operation is `none` where the source panics on an index outside of the
buffer; an error is returned with the buffer as it is then. `Holds` ties a buffer to the list of its
elements, and every operation does on such a buffer what its counterpart does on the list.

The loop of `retain` is the hard one. It compacts in place and keeps two indices and the number of elements dropped
since the last move. Its invariant is that the buffer is the elements kept so far, a gap, the elements that are kept
but not moved yet, and the rest; a move closes the gap, and the end of the loop is one more move.
-/

namespace SplStakePool.BigVec.Raw
open Buffer Machine

/-- `len` -/
def len (data : List UInt8) : Option Nat := (slice data 0 vecSizeBytes).map fromLeBytes

/-- Moves the bytes between a gap and an end to where the gap begins. Both slices are taken first. -/
def closeGap (data : List UInt8) (dstStartIndex gap stop : Nat) : Option (List UInt8) := do
  let _ ← slice data dstStartIndex (stop - gap)
  let src ← slice data (dstStartIndex + gap) stop
  write data dstStartIndex src

structure RetainState where
  data : List UInt8
  vecLen : Nat
  removalsFound : Nat
  dstStartIndex : Nat

/-- The move when something is removed, and the last one: none before the first removal. -/
def RetainState.compact (size : Nat) (s : RetainState) (stop : Nat) : Option (List UInt8) :=
  if s.removalsFound > 0 then closeGap s.data s.dstStartIndex (s.removalsFound * size) stop else some s.data

/-- The loop over the elements that are left, from the start of the next one on. -/
def retainLoop (size : Nat) (predicate : List UInt8 → Bool) : Nat → Nat → RetainState → Option RetainState
  | 0, _, s => some s
  | n + 1, startIndex, s => do
    let element ← slice s.data startIndex (startIndex + size)
    if predicate element then
      retainLoop size predicate n (startIndex + size) s
    else
      let data ← s.compact size startIndex
      retainLoop size predicate n (startIndex + size)
        { data, vecLen := s.vecLen - 1, removalsFound := s.removalsFound + 1
          dstStartIndex := startIndex - s.removalsFound * size }

/-- `retain`. A step of 0 bytes panics. -/
def retain (size : Nat) (predicate : List UInt8 → Bool) (data : List UInt8) :
    Option (Except ProgramError Unit × List UInt8) := do
  if size = 0 then none
  let vecLen ← len data
  let s ← retainLoop size predicate vecLen vecSizeBytes
    { data, vecLen, removalsFound := 0, dstStartIndex := 0 }
  let data ← s.compact size (vecSizeBytes + vecLen * size)
  return (.ok (), ← write data 0 (toLeBytes vecSizeBytes s.vecLen))

/-- `push`. The new length is written before it is checked that there is room. -/
def push (size : Nat) (element data : List UInt8) : Option (Except ProgramError Unit × List UInt8) := do
  let vecLen ← len data
  let startIndex := vecSizeBytes + vecLen * size
  let endIndex := startIndex + size
  let data ← write data 0 (toLeBytes vecSizeBytes (vecLen + 1))
  if data.length < endIndex then
    return (.error .accountDataTooSmall, data)
  return (.ok (), ← write data startIndex element)

/-- The bytes of a slice of elements, which `deserialize_slice` and `deserialize_mut_slice` return. -/
def deserializeSlice (size skip n : Nat) (data : List UInt8) :
    Option (Except ProgramError (List UInt8)) := do
  let vecLen ← len data
  match checkedAdd 64 skip n with
  | none => return .error .accountDataTooSmall
  | some lastItemIndex =>
    if lastItemIndex > vecLen then
      return .error .accountDataTooSmall
    let startIndex := vecSizeBytes + skip * size
    let endIndex := startIndex + n * size
    return .ok (← slice data startIndex endIndex)

/-- Writes through the slice that `deserialize_mut_slice` returns. -/
def writeSlice (size skip : Nat) (bytes data : List UInt8) : Option (List UInt8) :=
  write data (vecSizeBytes + skip * size) bytes

/-- The loop of `find` over the elements that are left: where the first match is, and its bytes. -/
def findLoop (size : Nat) (predicate : List UInt8 → Bool) (data : List UInt8) :
    Nat → Nat → Option (Option (Nat × List UInt8))
  | 0, _ => some none
  | n + 1, currentIndex => do
    let currentSlice ← slice data currentIndex (currentIndex + size)
    if predicate currentSlice then
      return some (currentIndex, currentSlice)
    findLoop size predicate data n (currentIndex + size)

/-- `find_mut`: the first match with its place, which can be written through. -/
def findMut (size : Nat) (predicate : List UInt8 → Bool) (data : List UInt8) :
    Option (Option (Nat × List UInt8)) := do
  findLoop size predicate data (← len data) vecSizeBytes

/-- `find` -/
def find (size : Nat) (predicate : List UInt8 → Bool) (data : List UInt8) : Option (Option (List UInt8)) :=
  (findMut size predicate data).map fun r => r.map Prod.snd

/-! ## Buffers that hold a list -/

/-- A buffer with a length word and elements in front of other bytes. -/
structure Holds (size : Nat) (elems : List (List UInt8)) (tail data : List UInt8) : Prop where
  sizes : ∀ e ∈ elems, e.length = size
  count : elems.length < 2 ^ 32
  layout : data = toLeBytes vecSizeBytes elems.length ++ elems.flatten ++ tail

variable {size : Nat} {elems pre post : List (List UInt8)} {e e' tail data : List UInt8}
  {p : List UInt8 → Bool}

theorem length_flatten (h : ∀ e ∈ elems, e.length = size) : elems.flatten.length = elems.length * size := by
  induction elems with
  | nil => simp
  | cons e elems ih =>
    rw [List.flatten_cons, List.length_append, h e (by simp), ih fun e he => h e (by simp [he]),
      List.length_cons, Nat.succ_mul, Nat.add_comm]

namespace Holds

theorem length (h : Holds size elems tail data) :
    data.length = vecSizeBytes + elems.length * size + tail.length := by
  rw [h.layout, List.length_append, List.length_append, length_toLeBytes, length_flatten h.sizes]

theorem around (h : Holds size (pre ++ e :: post) tail data) :
    data = (toLeBytes vecSizeBytes (pre ++ e :: post).length ++ pre.flatten) ++ e ++ (post.flatten ++ tail) ∧
      (toLeBytes vecSizeBytes (pre ++ e :: post).length ++ pre.flatten).length =
        vecSizeBytes + pre.length * size := by
  refine ⟨by simp [h.layout], ?_⟩
  rw [List.length_append, length_toLeBytes, length_flatten fun x hx => h.sizes x (by simp [hx])]

theorem len (h : Holds size elems tail data) : len data = some elems.length := by
  have hs : slice data 0 vecSizeBytes = some (toLeBytes vecSizeBytes elems.length) := by
    rw [h.layout, List.append_assoc]
    exact slice_front (length_toLeBytes _ _).symm
  rw [Raw.len, hs, Option.map_some, fromLeBytes_toLeBytes]
  exact h.count

theorem slice (h : Holds size (pre ++ e :: post) tail data) :
    slice data (vecSizeBytes + pre.length * size) (vecSizeBytes + pre.length * size + size) = some e := by
  obtain ⟨hd, hlen⟩ := h.around
  rw [hd]
  exact slice_append hlen.symm (by rw [h.sizes e (by simp)])

theorem write (h : Holds size (pre ++ e :: post) tail data) (he : e'.length = size) :
    ∃ data', write data (vecSizeBytes + pre.length * size) e' = some data' ∧
      Holds size (pre ++ e' :: post) tail data' := by
  obtain ⟨hd, hlen⟩ := h.around
  refine ⟨_, by rw [hd]; exact write_append hlen.symm (he.trans (h.sizes e (by simp)).symm), ?_, ?_, ?_⟩
  · intro x hx
    rcases List.mem_append.1 hx with hx | hx
    · exact h.sizes x (by simp [hx])
    rcases List.mem_cons.1 hx with rfl | hx
    · exact he
    · exact h.sizes x (by simp [hx])
  · have := h.count
    simpa using this
  · simp

theorem next_index (pre : List (List UInt8)) (e : List UInt8) :
    vecSizeBytes + pre.length * size + size = vecSizeBytes + (pre ++ [e]).length * size := by
  rw [List.length_append, List.length_singleton, Nat.add_mul, Nat.one_mul, Nat.add_assoc]

variable (pre) in
theorem findLoop_none (h : Holds size (pre ++ post) tail data) (hp : ∀ x ∈ post, ¬ p x) :
    findLoop size p data post.length (vecSizeBytes + pre.length * size) = some none := by
  induction post generalizing pre with
  | nil => rfl
  | cons x post ih =>
    have hx : p x = false := by simpa using hp x (by simp)
    have hs := h.slice
    rw [List.append_cons] at h
    rw [List.length_cons, findLoop, hs, Option.bind_eq_bind, Option.bind_some, hx, next_index pre x]
    exact ih _ h fun y hy => hp y (by simp [hy])

variable (pre) in
theorem findLoop_some {mid : List (List UInt8)} (h : Holds size (pre ++ (mid ++ e :: post)) tail data)
    (hp : ∀ x ∈ mid, ¬ p x) (he : p e) :
    findLoop size p data (mid ++ e :: post).length (vecSizeBytes + pre.length * size) =
      some (some (vecSizeBytes + (pre ++ mid).length * size, e)) := by
  induction mid generalizing pre with
  | nil =>
    rw [List.nil_append] at h ⊢
    rw [List.length_cons, findLoop, h.slice, Option.bind_eq_bind, Option.bind_some, he, List.append_nil]
    rfl
  | cons x mid ih =>
    have hx : p x = false := by simpa using hp x (by simp)
    rw [List.cons_append] at h
    have hs := h.slice
    rw [List.append_cons] at h
    rw [List.cons_append, List.length_cons, findLoop, hs, Option.bind_eq_bind, Option.bind_some, hx,
      next_index pre x, ih _ h fun y hy => hp y (by simp [hy]), List.append_assoc]
    rfl

/-- The first match and where it is: writing through it replaces the first match in the list. -/
theorem findMut_some (h : Holds size elems tail data) (he : elems.find? p = some e) :
    ∃ i, findMut size p data = some (some (i, e)) ∧ ∀ e' : List UInt8, e'.length = size →
      ∃ data', Buffer.write data i e' = some data' ∧ Holds size (setFirst p e' elems) tail data' := by
  obtain ⟨hp, pre, post, rfl, hpre, hset⟩ := find?_split he
  refine ⟨vecSizeBytes + pre.length * size, ?_, fun e' he' => ?_⟩
  · rw [findMut, h.len, Option.bind_eq_bind, Option.bind_some]
    have := findLoop_some [] h hpre hp
    rwa [List.nil_append, List.length_nil, Nat.zero_mul, Nat.add_zero] at this
  · rw [hset]
    exact h.write he'

theorem findMut_none (h : Holds size elems tail data) (he : elems.find? p = none) :
    findMut size p data = some none := by
  rw [findMut, h.len, Option.bind_eq_bind, Option.bind_some]
  have := findLoop_none [] h (List.find?_eq_none.1 he)
  rwa [List.length_nil, Nat.zero_mul, Nat.add_zero] at this

theorem find (h : Holds size elems tail data) : find size p data = some (elems.find? p) := by
  cases he : elems.find? p with
  | none => rw [Raw.find, h.findMut_none he]; rfl
  | some e =>
    obtain ⟨i, hi, -⟩ := h.findMut_some he
    rw [Raw.find, hi]
    rfl

theorem around_slice {mid : List (List UInt8)} (h : Holds size (pre ++ mid ++ post) tail data) :
    data = (toLeBytes vecSizeBytes (pre ++ mid ++ post).length ++ pre.flatten) ++ mid.flatten ++
        (post.flatten ++ tail) ∧
      (toLeBytes vecSizeBytes (pre ++ mid ++ post).length ++ pre.flatten).length =
        vecSizeBytes + pre.length * size ∧ mid.flatten.length = mid.length * size := by
  refine ⟨by simp [h.layout], ?_, length_flatten fun x hx => h.sizes x (by simp [hx])⟩
  rw [List.length_append, length_toLeBytes, length_flatten fun x hx => h.sizes x (by simp [hx])]

theorem deserializeSlice (h : Holds size elems tail data) (skip n : Nat) :
    deserializeSlice size skip n data =
      some ((BigVec.deserializeSlice elems skip n).map List.flatten) := by
  have hcount := h.count
  rw [Raw.deserializeSlice, h.len, Option.bind_eq_bind, Option.bind_some, BigVec.deserializeSlice]
  by_cases hle : skip + n ≤ elems.length
  · have hs : checkedAdd 64 skip n = some (skip + n) := checkedAdd_of_lt (by omega)
    have hcut : elems = elems.take skip ++ (elems.drop skip).take n ++ elems.drop (skip + n) := by
      rw [List.append_assoc, ← List.drop_drop, List.take_append_drop, List.take_append_drop]
    rw [hcut] at h
    obtain ⟨hd, hlen, hmid⟩ := h.around_slice
    rw [List.length_take, Nat.min_eq_left (by omega)] at hlen
    rw [List.length_take, List.length_drop, Nat.min_eq_left (by omega)] at hmid
    have hslice : Buffer.slice data (vecSizeBytes + skip * size) (vecSizeBytes + skip * size + n * size) =
        some ((elems.drop skip).take n).flatten := by
      rw [hd]
      exact slice_append hlen.symm (by rw [hmid])
    simp only [hs, if_neg (Nat.not_lt.2 hle), hslice, gt_iff_lt]
    rfl
  · simp only [gt_iff_lt, if_pos (Nat.lt_of_not_le hle)]
    cases hs : checkedAdd 64 skip n with
    | none => rfl
    | some m =>
      obtain ⟨-, rfl⟩ := checkedAdd_eq_some.1 hs
      simp only [if_pos (Nat.lt_of_not_le hle)]
      rfl

theorem writeSlice {slice : List (List UInt8)} {skip : Nat} (h : Holds size elems tail data)
    (hsizes : ∀ e ∈ slice, e.length = size) (hle : skip + slice.length ≤ elems.length) :
    ∃ data', writeSlice size skip slice.flatten data = some data' ∧
      Holds size (BigVec.writeSlice elems skip slice) tail data' := by
  have hcut : elems = elems.take skip ++ (elems.drop skip).take slice.length ++
      elems.drop (skip + slice.length) := by
    rw [List.append_assoc, ← List.drop_drop, List.take_append_drop, List.take_append_drop]
  have hlength : (BigVec.writeSlice elems skip slice).length = elems.length := by
    simp only [BigVec.writeSlice, List.length_append, List.length_take, List.length_drop]
    omega
  have hall := h.sizes
  have hcount := h.count
  rw [hcut] at h
  obtain ⟨hd, hlen, hmid⟩ := h.around_slice
  rw [← hcut] at hd hlen
  rw [List.length_take, Nat.min_eq_left (by omega)] at hlen
  rw [List.length_take, List.length_drop, Nat.min_eq_left (by omega)] at hmid
  have hwrite := write_append (c := (elems.drop (skip + slice.length)).flatten ++ tail) hlen.symm
    ((length_flatten hsizes).trans hmid.symm)
  rw [← hd] at hwrite
  refine ⟨_, hwrite, fun e he => ?_, by omega, ?_⟩
  · rcases List.mem_append.1 he with he | he
    · rcases List.mem_append.1 he with he | he
      · exact hall e (List.mem_of_mem_take he)
      · exact hsizes e he
    · exact hall e (List.mem_of_mem_drop he)
  · rw [hlength]
    simp [BigVec.writeSlice]

theorem push_layout (h : Holds size elems tail data) (he : e.length = size) (hroom : size ≤ tail.length) :
    push size e data = some (.ok (), toLeBytes vecSizeBytes (elems.length + 1) ++ (elems ++ [e]).flatten ++
      tail.drop size) := by
  have hword : Buffer.write data 0 (toLeBytes vecSizeBytes (elems.length + 1)) =
      some (toLeBytes vecSizeBytes (elems.length + 1) ++ (elems.flatten ++ tail)) := by
    rw [h.layout, List.append_assoc]
    exact write_front (by rw [length_toLeBytes, length_toLeBytes])
  have hend : ¬ (toLeBytes vecSizeBytes (elems.length + 1) ++ (elems.flatten ++ tail)).length <
      vecSizeBytes + elems.length * size + size := by
    rw [List.length_append, length_toLeBytes, List.length_append, length_flatten h.sizes]
    omega
  have hcut : toLeBytes vecSizeBytes (elems.length + 1) ++ (elems.flatten ++ tail) =
      (toLeBytes vecSizeBytes (elems.length + 1) ++ elems.flatten) ++ tail.take size ++ tail.drop size := by
    simp
  have hstart : (toLeBytes vecSizeBytes (elems.length + 1) ++ elems.flatten).length =
      vecSizeBytes + elems.length * size := by
    rw [List.length_append, length_toLeBytes, length_flatten h.sizes]
  have hwrite := write_append (c := tail.drop size) hstart.symm
    (show e.length = (tail.take size).length by rw [List.length_take, he, Nat.min_eq_left hroom])
  simp only [Raw.push, h.len, Option.bind_eq_bind, Option.bind_some, hword, if_neg hend]
  rw [hcut, hwrite]
  simp

/-- Pushing an element for which there is room, while the length word can count it. -/
theorem push (h : Holds size elems tail data) (he : e.length = size) (hroom : size ≤ tail.length)
    (hcount : elems.length + 1 < 2 ^ 32) : ∃ data', push size e data = some (.ok (), data') ∧
      Holds size (elems ++ [e]) (tail.drop size) data' := by
  refine ⟨_, h.push_layout he hroom, ?_, by simpa using hcount, by simp⟩
  intro x hx
  rcases List.mem_append.1 hx with hx | hx
  · exact h.sizes x hx
  · rw [List.mem_singleton.1 hx]
    exact he

end Holds

/-! ## Retaining -/

/-- The state of `retain`: the length word, the elements that have been moved down, a gap for those that
were removed, the elements that were retained since, and those that are left. -/
structure Compacting (size : Nat) (word : List UInt8) (done : List (List UInt8)) (gap : List UInt8)
    (kept rest : List (List UInt8)) (tail : List UInt8) (start : Nat) (s : RetainState) : Prop where
  sizes : ∀ e ∈ done ++ kept ++ rest, e.length = size
  word_len : word.length = vecSizeBytes
  gap_len : gap.length = s.removalsFound * size
  start_eq : start = vecSizeBytes + (done.length + kept.length) * size + gap.length
  dst : 0 < s.removalsFound → s.dstStartIndex = vecSizeBytes + done.length * size
  idle : s.removalsFound = 0 → done = []
  layout : s.data = word ++ done.flatten ++ gap ++ kept.flatten ++ (rest.flatten ++ tail)

namespace Compacting
variable {word gap : List UInt8} {done kept rest : List (List UInt8)} {start : Nat} {s : RetainState}

theorem slice (h : Compacting size word done gap kept (e :: rest) tail start s) :
    slice s.data start (start + size) = some e := by
  have hd : done.flatten.length = done.length * size := length_flatten fun x hx => h.sizes x (by simp [hx])
  have hk : kept.flatten.length = kept.length * size := length_flatten fun x hx => h.sizes x (by simp [hx])
  have he := h.sizes e (by simp)
  have hcut : s.data = (word ++ done.flatten ++ gap ++ kept.flatten) ++ e ++ (rest.flatten ++ tail) := by
    simp [h.layout]
  rw [hcut]
  refine slice_append ?_ (by rw [he])
  simp only [List.length_append, h.start_eq, h.word_len, hd, hk, Nat.add_mul]
  omega

/-- Moving the elements behind the gap down to it leaves the gap behind them. -/
theorem compact (h : Compacting size word done gap kept rest tail start s) :
    ∃ data' gap', s.compact size start = some data' ∧ gap'.length = gap.length ∧
      data' = word ++ (done ++ kept).flatten ++ gap' ++ (rest.flatten ++ tail) := by
  have hd : done.flatten.length = done.length * size := length_flatten fun x hx => h.sizes x (by simp [hx])
  have hk : kept.flatten.length = kept.length * size := length_flatten fun x hx => h.sizes x (by simp [hx])
  have hstart := h.start_eq
  rw [Nat.add_mul] at hstart
  by_cases h0 : s.removalsFound > 0
  · have hlen : s.data.length = start + (rest.flatten ++ tail).length := by
      rw [h.layout]
      simp only [List.length_append, h.word_len, hd, hk]
      omega
    -- the bytes that are written covered, and the gap that is left
    obtain ⟨covered, left, hcut, hcovered, hleft⟩ : ∃ covered left, gap ++ kept.flatten = covered ++ left ∧
        covered.length = kept.flatten.length ∧ left.length = gap.length :=
      ⟨_, _, (List.take_append_drop kept.flatten.length _).symm, by simp, by simp⟩
    obtain ⟨dst, hdst⟩ := Option.isSome_iff_exists.1 (slice_isSome.2
      (show vecSizeBytes + done.length * size ≤ start - gap.length ∧ start - gap.length ≤ s.data.length by
        omega))
    have hsrc : Buffer.slice s.data (vecSizeBytes + done.length * size + gap.length) start =
        some kept.flatten := by
      rw [h.layout]
      refine slice_append ?_ ?_
      · simp only [List.length_append, h.word_len, hd]
      · omega
    have hwrite : Buffer.write s.data (vecSizeBytes + done.length * size) kept.flatten =
        some (word ++ done.flatten ++ kept.flatten ++ (left ++ (rest.flatten ++ tail))) := by
      have hdata : s.data = (word ++ done.flatten) ++ covered ++ (left ++ (rest.flatten ++ tail)) := by
        rw [h.layout, List.append_assoc _ gap, hcut]
        simp
      rw [hdata]
      refine write_append ?_ hcovered.symm
      simp only [List.length_append, h.word_len, hd]
    refine ⟨word ++ (done ++ kept).flatten ++ left ++ (rest.flatten ++ tail), left, ?_, hleft, rfl⟩
    rw [RetainState.compact, if_pos h0, closeGap, h.dst h0, ← h.gap_len, hdst, Option.bind_eq_bind,
      Option.bind_some, hsrc, Option.bind_some, hwrite]
    simp
  · have hz : s.removalsFound = 0 := by omega
    have hg : gap = [] := List.length_eq_zero_iff.1 (by rw [h.gap_len, hz, Nat.zero_mul])
    refine ⟨s.data, [], if_neg h0, by rw [hg], ?_⟩
    rw [h.layout, h.idle hz, hg]
    simp

/-- The loop covered the elements that are left. -/
theorem loop (h : Compacting size word done gap kept rest tail start s) (hlen : rest.length ≤ s.vecLen) :
    ∃ done' gap' kept' s', retainLoop size p rest.length start s = some s' ∧
      Compacting size word done' gap' kept' [] tail (start + rest.length * size) s' ∧
      done' ++ kept' = done ++ kept ++ rest.filter p ∧
      s'.vecLen + rest.length = s.vecLen + (rest.filter p).length := by
  induction rest generalizing done gap kept start s with
  | nil => exact ⟨done, gap, kept, s, rfl, by simpa using h, by simp, by simp⟩
  | cons e rest ih =>
    have he := h.sizes e (by simp)
    have hstart := h.start_eq
    rw [List.length_cons] at hlen ⊢
    have hmul : start + (rest.length + 1) * size = start + size + rest.length * size := by ring
    rw [hmul, retainLoop, h.slice, Option.bind_eq_bind, Option.bind_some]
    cases hp : p e with
    | true =>
      have hkeep : Compacting size word done gap (kept ++ [e]) rest tail (start + size) s := by
        refine ⟨by simpa using h.sizes, h.word_len, h.gap_len, ?_, h.dst, h.idle, by simp [h.layout]⟩
        rw [hstart, List.length_append, List.length_singleton]
        ring
      obtain ⟨done', gap', kept', s', hs', hc, heq, hvec⟩ := ih hkeep (by omega)
      refine ⟨done', gap', kept', s', hs', hc, ?_, ?_⟩
      · rw [heq, List.filter_cons_of_pos hp]
        simp
      · rw [List.filter_cons_of_pos hp, List.length_cons]
        omega
    | false =>
      obtain ⟨data', gap', hd, hgap, hdata⟩ := h.compact
      have hdrop : Compacting size word (done ++ kept) (gap' ++ e) [] rest tail (start + size)
          ⟨data', s.vecLen - 1, s.removalsFound + 1, start - s.removalsFound * size⟩ := by
        refine ⟨fun x hx => h.sizes x ?_, h.word_len, ?_, ?_, fun _ => ?_, fun h0 => absurd h0 (by simp), ?_⟩
        · simp only [List.mem_append, List.mem_cons, List.not_mem_nil, or_false] at hx ⊢
          tauto
        · rw [List.length_append, hgap, h.gap_len, he, Nat.add_mul, Nat.one_mul]
        · rw [List.length_append, List.length_append, List.length_nil, hgap, he, hstart]
          ring
        · show start - s.removalsFound * size = _
          rw [← h.gap_len, hstart, List.length_append, Nat.add_sub_cancel]
        · simp [hdata]
      have hvec : rest.length ≤ s.vecLen - 1 := by omega
      obtain ⟨done', gap'', kept', s', hs', hc, heq, hvec'⟩ := ih hdrop hvec
      refine ⟨done', gap'', kept', s', ?_, hc, ?_, ?_⟩
      · simp only [hd, Option.bind_some, Bool.false_eq_true, if_false]
        exact hs'
      · rw [heq, List.filter_cons_of_neg (by simp [hp])]
        simp
      · rw [List.filter_cons_of_neg (by simp [hp])]
        dsimp only at hvec'
        omega

end Compacting

/-- `retain` filters the list; the bytes behind it stay. -/
theorem Holds.retain (h : Holds size elems tail data) (hsize : size ≠ 0) : ∃ data' gap,
    retain size p data = some (.ok (), data') ∧ Holds size (elems.filter p) (gap ++ tail) data' ∧
      gap.length + (elems.filter p).length * size = elems.length * size := by
  have hinit : Compacting size (toLeBytes vecSizeBytes elems.length) [] [] [] elems tail vecSizeBytes
      ⟨data, elems.length, 0, 0⟩ :=
    ⟨by simpa using h.sizes, length_toLeBytes _ _, by simp, by simp, fun h0 => absurd h0 (by simp),
      fun _ => rfl, by simp [h.layout]⟩
  obtain ⟨done, gap, kept, s, hs, hc, heq, hvec⟩ := hinit.loop (p := p) le_rfl
  obtain ⟨data', gap', hd, hgap, hdata⟩ := hc.compact
  have hcount := h.count
  have hfilter := List.length_filter_le p elems
  rw [List.nil_append, List.nil_append] at heq
  dsimp only at hvec
  rw [heq, List.flatten_nil, List.nil_append] at hdata
  have hwrite : Buffer.write data' 0 (toLeBytes vecSizeBytes s.vecLen) =
      some (toLeBytes vecSizeBytes s.vecLen ++ ((elems.filter p).flatten ++ gap' ++ tail)) := by
    rw [hdata]
    simp only [List.append_assoc]
    exact write_front (by rw [length_toLeBytes, length_toLeBytes])
  refine ⟨toLeBytes vecSizeBytes s.vecLen ++ ((elems.filter p).flatten ++ gap' ++ tail), gap', ?_,
    ⟨fun x hx => h.sizes x (List.mem_of_mem_filter hx), by omega, ?_⟩, ?_⟩
  · simp only [Raw.retain, if_neg hsize, h.len, Option.bind_eq_bind, Option.bind_some, hs, hd, hwrite]
    rfl
  · rw [show s.vecLen = (elems.filter p).length by omega]
    simp
  · have hlen := congrArg List.length heq
    have hst := hc.start_eq
    rw [List.length_append] at hlen
    rw [hgap]
    rw [hlen] at hst
    omega

end SplStakePool.BigVec.Raw
