/-
This file models how Orca cuts an object into chunks: the length of a chunk, the chunks of a byte
range and the slice of each that is served, and the origin request of a fill for a peer. Its
numbers are signed 64-bit integers, so every result wraps.

The slices of a range lie between successive cuts, and so make it up.
-/

import Mathlib

namespace Unbounded.Orca

open List

/-! ### Chunks -/

/-- The signed 64-bit integer of a result. -/
def int64 (value : Int) : Int := value.bmod (2 ^ 64)

/-- The identifier of a chunk. -/
structure Key where
  originId : String
  bucket : String
  objectKey : String
  etag : String
  chunkSize : Int
  index : Int

/-- How many bytes a chunk has; none if it is past the end of the object. -/
def Key.expectedLen (key : Key) (objectSize : Int) : Int :=
  if objectSize ≤ 0 then key.chunkSize
  else
    let off := int64 (key.index * key.chunkSize)
    if off ≥ objectSize then 0
    else
      let remaining := int64 (objectSize - off)
      if remaining < key.chunkSize then remaining else key.chunkSize

/-- The first and the last chunk of a range. -/
def indexRange (start stop chunkSize objectSize : Int) : Int × Int :=
  let stop := if stop ≥ objectSize then int64 (objectSize - 1) else stop
  let stop := if stop < 0 then 0 else stop
  (start.tdiv chunkSize, stop.tdiv chunkSize)

/-- The offset and the length of what a range takes from a chunk. -/
def chunkSlice (chunkIdx chunkSize start stop objectSize : Int) : Int × Int :=
  let chunkStart := int64 (chunkIdx * chunkSize)
  let chunkEnd := int64 (int64 (chunkStart + chunkSize) - 1)
  let chunkEnd := if chunkEnd ≥ objectSize then int64 (objectSize - 1) else chunkEnd
  let off := if start > chunkStart then int64 (start - chunkStart) else 0
  let sliceEnd := if stop < chunkEnd then stop else chunkEnd
  (off, int64 (int64 (int64 (sliceEnd - chunkStart) - off) + 1))

variable {Byte : Type*}

/-- Skip to an offset and copy a number of bytes. A body that ends before is an error. -/
def streamSlice (body : List Byte) (slice : Int × Int) : Option (List Byte) :=
  if slice.1.toNat + slice.2.toNat ≤ body.length then
    some ((body.drop slice.1.toNat).take slice.2.toNat)
  else none

variable (start stop chunkSize objectSize : Int) (getChunk : Int → List Byte)

/-- Stream what a range takes from a number of chunks, one after the other. -/
def streamRemainingChunks : Nat → Int → Option (List Byte)
  | 0, _ => some []
  | count + 1, chunkIdx => do
    let slice := chunkSlice chunkIdx chunkSize start stop objectSize
    let bytes ← streamSlice (getChunk chunkIdx) slice
    let rest ← streamRemainingChunks count (chunkIdx + 1)
    return bytes ++ rest

/-- Serve a range: its first chunk and the remaining ones. -/
def handleGet : Option (List Byte) := do
  let chunks := indexRange start stop chunkSize objectSize
  let slice := chunkSlice chunks.1 chunkSize start stop objectSize
  let bytes ← streamSlice (getChunk chunks.1) slice
  let rest ← streamRemainingChunks start stop chunkSize objectSize getChunk
    (chunks.2 - chunks.1).toNat (chunks.1 + 1)
  return bytes ++ rest

/-- The bytes of an object from one position up to another. -/
def bytes (object : List Byte) (low high : Int) : List Byte :=
  (object.drop low.toNat).take (high - low).toNat

/-- The bytes of an object that a chunk holds. -/
def Key.chunk (key : Key) (object : List Byte) : List Byte :=
  bytes object (key.index * key.chunkSize)
    (key.index * key.chunkSize + key.expectedLen object.length)

/-! ### Ranges -/

variable {object : List Byte} {low middle high : Int}

theorem bytes_append (begins : 0 ≤ low) (first : low ≤ middle) (second : middle ≤ high) :
    bytes object low middle ++ bytes object middle high = bytes object low high := by
  have whole : (high - low).toNat = (middle - low).toNat + (high - middle).toNat := by omega
  have place : middle.toNat = low.toNat + (middle - low).toNat := by omega
  simp only [bytes]
  rw [whole, take_add, drop_drop, place]

theorem streamSlice_bytes {off length : Int} (begins : 0 ≤ low) (skips : 0 ≤ off)
    (copies : 0 ≤ length) (fits : low + off + length ≤ high) (inside : high ≤ object.length) :
    streamSlice (bytes object low high) (off, length) =
      some (bytes object (low + off) (low + off + length)) := by
  have place : (low + off).toNat = low.toNat + off.toNat := by omega
  unfold streamSlice bytes
  rw [if_pos (by rw [length_take, length_drop]; omega), drop_take, drop_drop, take_take,
    min_eq_left (by omega), place, add_sub_cancel_left]

theorem int64_eq {value : Int} (low : -2 ^ 63 ≤ value) (high : value < 2 ^ 63) :
    int64 value = value :=
  Int.bmod_eq_of_le (by omega) (by omega)

/-- Where the start of a chunk cuts a range. -/
def cut (chunkIdx : Int) : Int := max start (min (stop + 1) (chunkIdx * chunkSize))

section

variable {start stop chunkSize size index : Int} {getChunk : Int → List Byte}
  (positive : 0 < chunkSize)

include positive

/-- Slices between successive cuts are streamed as one piece. -/
theorem streamRemainingChunks_eq (begins : 0 ≤ start) {count : Nat}
    (slices : ∀ later, index ≤ later → later < index + count →
      streamSlice (getChunk later) (chunkSlice later chunkSize start stop size) = some (bytes object
        (cut start stop chunkSize later) (cut start stop chunkSize (later + 1)))) :
    streamRemainingChunks start stop chunkSize size getChunk count index = some (bytes object
      (cut start stop chunkSize index) (cut start stop chunkSize (index + count))) := by
  have grows : Monotone (cut start stop chunkSize) := fun _ _ less => max_le_max_left _
    (min_le_min_left _ (mul_le_mul_of_nonneg_right less positive.le))
  induction count generalizing index with
  | zero => simp [streamRemainingChunks, bytes]
  | succ count ih =>
    rw [streamRemainingChunks, slices index le_rfl (by omega),
      ih fun later above below => slices later (by omega) (by omega),
      Nat.cast_succ, add_comm (count : Int), ← add_assoc]
    exact congrArg some (bytes_append (begins.trans (le_max_left _ _))
      (grows (Int.le_add_one le_rfl))
      (grows (Int.le_add_of_nonneg_right (Int.natCast_nonneg count))))

variable {key : Key} (sized : key.chunkSize = chunkSize) (placed : key.index = index)

include sized placed

/-- A chunk that starts inside the object ends where the next one cuts it. -/
theorem expectedLen_eq (small : size < 2 ^ 63) (natural : 0 ≤ index)
    (inside : index * chunkSize < size) :
    index * chunkSize + key.expectedLen size = cut 0 (size - 1) chunkSize (index + 1) := by
  have begins := mul_nonneg natural positive.le
  rw [Key.expectedLen, cut, add_mul, sized, placed]
  simp (disch := omega) only [int64_eq]
  split_ifs <;> omega

/-- The slice of a chunk of a range is not empty, lies in the chunk and is the part of the range
up to the next cut. -/
theorem slice_spec (small : (object.length : Int) ≤ 2 ^ 62) (narrow : chunkSize < 2 ^ 63)
    (begins : 0 ≤ start) (ordered : start ≤ stop) (inside : stop < object.length)
    (above : start / chunkSize ≤ index) (below : index ≤ stop / chunkSize)
    {off length : Int}
    (slice : chunkSlice index chunkSize start stop object.length = (off, length)) :
    (0 ≤ off ∧ 0 < length ∧ off + length ≤ key.expectedLen object.length) ∧
      streamSlice (key.chunk object) (off, length) = some (bytes object
        (cut start stop chunkSize index) (cut start stop chunkSize (index + 1))) := by
  have natural := (Int.ediv_nonneg begins positive.le).trans above
  have early := Int.mul_le_of_le_ediv positive below
  have late := (Int.ediv_lt_iff_lt_mul positive).mp (Int.lt_add_one_of_le above)
  have low := mul_nonneg natural positive.le
  have expected := expectedLen_eq positive sized placed (by omega) natural (early.trans_lt inside)
  -- Only the first chunk can be longer than the object.
  have fits : index * chunkSize + chunkSize < 2 ^ 63 := by
    rcases natural.eq_or_lt with first | later
    · rw [← first]
      omega
    · have := le_mul_of_one_le_left positive.le (Int.add_one_le_of_lt later)
      omega
  rw [Key.chunk, sized, placed]
  simp only [cut, add_mul, one_mul] at expected late ⊢
  unfold chunkSlice at slice
  generalize index * chunkSize = chunkStart at *
  simp (disch := omega) only [int64_eq, Prod.mk.injEq] at slice
  have bounds : chunkStart + off = max start (min (stop + 1) chunkStart) ∧
      chunkStart + off + length = max start (min (stop + 1) (chunkStart + chunkSize)) := by
    split_ifs at slice <;> omega
  rw [streamSlice_bytes low (by omega) (by omega) (by omega) (by omega), bounds.2, bounds.1]
  exact ⟨by omega, rfl⟩

end

/-- The slices of a range are not empty, lie in their chunks and are served as the bytes of the
range; the lengths of all chunks add up to the size of the object. -/
theorem range_served (object : List Byte) (key : Key) {start stop : Int}
    (small : (object.length : Int) ≤ 2 ^ 62) (positive : 0 < key.chunkSize)
    (narrow : key.chunkSize < 2 ^ 63) (begins : 0 ≤ start) (ordered : start ≤ stop)
    (inside : stop < object.length) :
    (∀ index off length, (indexRange start stop key.chunkSize object.length).1 ≤ index →
      index ≤ (indexRange start stop key.chunkSize object.length).2 →
      chunkSlice index key.chunkSize start stop object.length = (off, length) →
      0 ≤ off ∧ 0 < length ∧ off + length ≤ { key with index }.expectedLen object.length) ∧
    handleGet start stop key.chunkSize object.length (fun index => { key with index }.chunk object)
      = some (bytes object start (stop + 1)) ∧
    ∑ index ∈ Finset.range ((object.length + key.chunkSize - 1) / key.chunkSize).toNat,
      { key with index := index }.expectedLen object.length = (object.length : Int) := by
  have indices : indexRange start stop key.chunkSize object.length =
      (start / key.chunkSize, stop / key.chunkSize) := by
    unfold indexRange
    simp only [if_neg (show ¬ stop ≥ object.length by omega), if_neg (show ¬ stop < 0 by omega),
      Int.tdiv_eq_ediv_of_nonneg begins, Int.tdiv_eq_ediv_of_nonneg (begins.trans ordered)]
  have spec {index : Int} := @slice_spec _ object start stop key.chunkSize index positive
    { key with index } rfl rfl small narrow begins ordered inside
  rw [handleGet, indices]
  refine ⟨fun index off length above below slice => (spec above below slice).1, ?_, ?_⟩
  · have counted := Int.ediv_le_ediv positive ordered
    have least := Int.ediv_mul_le start positive.ne'
    have most := Int.lt_ediv_add_one_mul_self stop positive
    show streamRemainingChunks start stop key.chunkSize object.length
      (fun index => { key with index }.chunk object)
      ((stop / key.chunkSize - start / key.chunkSize).toNat + 1) (start / key.chunkSize) = _
    rw [streamRemainingChunks_eq positive begins fun later above below =>
      (spec above (by omega) rfl).2, cut, cut]
    rw [Nat.cast_succ, Int.toNat_of_nonneg (by omega), ← add_assoc, add_sub_cancel]
    congr 2 <;> omega
  · have total := Int.lt_ediv_add_one_mul_self (object.length + key.chunkSize - 1) positive
    have natural : 0 ≤ (object.length + key.chunkSize - 1) / key.chunkSize :=
      Int.ediv_nonneg (by omega) positive.le
    have steps (index : Nat) (listed : index ∈ Finset.range
        ((object.length + key.chunkSize - 1) / key.chunkSize).toNat) :
        { key with index := index }.expectedLen object.length =
          cut 0 (object.length - 1) key.chunkSize (index + 1 : Nat) -
            cut 0 (object.length - 1) key.chunkSize index := by
      have within := Int.mul_le_of_le_ediv positive
        (Int.add_one_le_of_lt (Int.lt_toNat.mp (Finset.mem_range.mp listed)))
      rw [add_mul, one_mul] at within
      have low := mul_nonneg (Int.natCast_nonneg index) positive.le
      have expected := @expectedLen_eq _ object.length index positive { key with index := index }
        rfl rfl (by omega) (Int.natCast_nonneg _) (show index * key.chunkSize < _ by omega)
      rw [Nat.cast_succ, ← expected, cut]
      omega
    rw [Finset.sum_congr rfl steps, Finset.sum_range_sub
      (fun index : Nat => cut 0 (object.length - 1) key.chunkSize index), cut, cut,
      Int.toNat_of_nonneg natural]
    rw [add_mul, one_mul] at total
    omega

/-- The two bytes in the middle of four come from two chunks. -/
theorem range_served_middle :
    handleGet 1 2 2 4 (fun index => Key.chunk ⟨"", "", "", "", 2, index⟩ [5, 6, 7, 8]) =
      some [6, 7] :=
  (@range_served _ [5, 6, 7, 8] ⟨"", "", "", "", 2, 0⟩ 1 2 (by decide) (by decide) (by decide)
    (by decide) (by decide) (by decide)).2.1

/-! ### Fills for peers -/

/-- The decimal number of a text, if it has 64 bits. -/
def parseInt (text : String) : Option Int :=
  let (negative, digits) := match text.toList with
    | '-' :: digits => (true, digits)
    | '+' :: digits => (false, digits)
    | digits => (false, digits)
  if digits ≠ [] ∧ digits.all Char.isDigit then
    let natural : Int := digits.foldl (fun value digit => 10 * value + (digit.toNat - 48)) 0
    let value := if negative then -natural else natural
    if -2 ^ 63 ≤ value ∧ value < 2 ^ 63 then some value else none
  else none

/-- Why a query is refused. -/
inductive DecodeError
  | invalid (field : String)
  | tooSmall (field : String) (got : Int)
  | missingRequiredKeyFields

/-- The number in a field of a query, which is at least `least`. -/
def decodeInt (values : String → String) (field : String) (least : Int) : Except DecodeError Int :=
  match parseInt (values field) with
  | none => .error (.invalid field)
  | some value => if value < least then .error (.tooSmall field value) else .ok value

/-- The chunk and the size of the object that a query names. -/
def decodeChunkKey (values : String → String) : Except DecodeError (Key × Int) := do
  let chunkSize ← decodeInt values "chunk_size" 1
  let index ← decodeInt values "index" 0
  let objectSize ← decodeInt values "object_size" 1
  let originId := values "origin_id"
  let objectKey := values "key"
  if originId = "" ∨ objectKey = "" then .error .missingRequiredKeyFields
  else .ok (⟨originId, values "bucket", objectKey, values "etag", chunkSize, index⟩, objectSize)

/-- A request to the origin for a range of an object. -/
structure Request where
  bucket : String
  objectKey : String
  etag : String
  off : Int
  length : Int

/-- How the origin answers a request. -/
inductive Answer
  | body
  | etagChanged
  | notFound
  | retryable

/-- The requests of a fill whose attempts are answered so; no answer when the time is over. -/
def fetchWithRetry (request : Request) : List (Option Answer) → List Request
  | some .retryable :: later => request :: fetchWithRetry request later
  | some _ :: _ => [request]
  | _ => []

/-- What a fill meets: whether the chunk is missing in the store, whether it is being filled,
whether there is a slot for the origin, and the answers to its attempts. -/
structure Encounter where
  missing : Bool
  inflight : Bool
  slot : Bool
  answers : List (Option Answer)

/-- The requests of a fill. -/
def runFill (key : Key) (objectSize : Int) (encounter : Encounter) : List Request :=
  if encounter.slot then
    let expectedLen := key.expectedLen objectSize
    let off := int64 (key.index * key.chunkSize)
    fetchWithRetry ⟨key.bucket, key.objectKey, key.etag, off, expectedLen⟩ encounter.answers
  else []

/-- The requests of a fill for a peer, which may find the chunk or join another fill. -/
def fillForPeer (key : Key) (objectSize : Int) (encounter : Encounter) : List Request :=
  if encounter.missing ∧ ¬ encounter.inflight then runFill key objectSize encounter else []

theorem eq_of_mem_fetchWithRetry {request other : Request} {answers : List (Option Answer)}
    (made : other ∈ fetchWithRetry request answers) : other = request := by
  fun_induction fetchWithRetry request answers with
  | case1 _ ih => exact (mem_cons.mp made).elim id ih
  | case2 => exact mem_singleton.mp made
  | case3 => cases made

theorem decodeInt_bounds {values : String → String} {field : String} {least value : Int}
    (decoded : decodeInt values field least = .ok value) : least ≤ value ∧ value < 2 ^ 63 := by
  unfold decodeInt parseInt at decoded
  grind

theorem decodeChunkKey_bounds {values : String → String} {key : Key} {objectSize : Int}
    (accepted : decodeChunkKey values = .ok (key, objectSize)) :
    0 < key.chunkSize ∧ 0 ≤ key.index ∧ objectSize < 2 ^ 63 := by
  unfold decodeChunkKey at accepted
  rcases size : decodeInt values "chunk_size" 1 with _ | _
  · simp [size, bind, Except.bind] at accepted
  rcases place : decodeInt values "index" 0 with _ | _
  · simp [size, place, bind, Except.bind] at accepted
  rcases whole : decodeInt values "object_size" 1 with _ | _
  · simp [size, place, whole, bind, Except.bind] at accepted
  simp only [size, place, whole, bind, Except.bind] at accepted
  split at accepted
  · cases accepted
  · cases accepted
    exact ⟨(decodeInt_bounds size).1, (decodeInt_bounds place).1, (decodeInt_bounds whole).2⟩

/-- The positions of an object that a chunk covers. -/
def Key.covered (key : Key) (objectSize : Int) : Set Int :=
  {position | key.index * key.chunkSize ≤ position ∧
    position < key.index * key.chunkSize + key.chunkSize ∧ 0 ≤ position ∧ position < objectSize}

/-- The requests of the fills for an accepted query ask for what the chunk covers of the object,
and for something, exactly if the chunk starts inside the object: the others are made too. -/
theorem fill_requests_covered {values : String → String} {key : Key} {objectSize : Int}
    (accepted : decodeChunkKey values = .ok (key, objectSize)) :
    (∀ encounter, ∀ request ∈ fillForPeer key objectSize encounter,
      0 ≤ request.off ∧ request.off = key.index * key.chunkSize ∧
      request.length = (key.covered objectSize).ncard ∧ (key.covered objectSize).Nonempty) ↔
    key.index * key.chunkSize < objectSize := by
  obtain ⟨positive, natural, small⟩ := decodeChunkKey_bounds accepted
  constructor
  · intro right
    obtain ⟨-, -, -, _, after, -, -, inside⟩ := right ⟨true, false, true, [some .body]⟩ _
      (mem_singleton.mpr rfl)
    exact after.trans_lt inside
  · intro inside encounter request made
    have begins := mul_nonneg natural positive.le
    have expected := expectedLen_eq positive rfl rfl small natural inside
    unfold fillForPeer runFill at made
    split_ifs at made
    · rw [eq_of_mem_fetchWithRetry made, Key.covered]
      rw [cut, add_mul, one_mul] at expected
      generalize key.index * key.chunkSize = chunkStart at *
      have covered : {position | chunkStart ≤ position ∧ position < chunkStart + key.chunkSize ∧
          0 ≤ position ∧ position < objectSize} =
          Finset.Ico chunkStart (chunkStart + key.expectedLen objectSize) := by
        ext position
        rw [Finset.coe_Ico, Set.mem_Ico, Set.mem_ofPred_eq]
        omega
      rw [int64_eq (by omega) (by omega), covered, Set.ncard_coe_finset, Int.card_Ico]
      refine ⟨begins, rfl, ?_, chunkStart, Finset.mem_coe.mpr (Finset.mem_Ico.mpr ⟨le_rfl, ?_⟩)⟩
      · show key.expectedLen objectSize = _
        omega
      · omega
    · cases made
    · cases made

/-- The query for the second chunk of four bytes of an object of five. -/
def secondQuery : String → String
  | "chunk_size" => "4"
  | "index" => "1"
  | "object_size" => "5"
  | _ => "a"

theorem fill_requests_covered_second :
    decodeChunkKey secondQuery = .ok (⟨"a", "a", "a", "a", 4, 1⟩, 5) ∧
    (1 : Int) = ((Key.mk "a" "a" "a" "a" 4 1).covered 5).ncard :=
  ⟨rfl, ((@fill_requests_covered secondQuery _ _ rfl).mpr (by decide)
    ⟨true, false, true, [some .body]⟩ ⟨"a", "a", "a", 4, 1⟩ (mem_singleton.mpr rfl)).2.2.1⟩

/-- A query for the third chunk is accepted, and the origin is asked for no byte. -/
theorem empty_chunk_requested :
    decodeChunkKey (fun field => if field = "index" then "2" else secondQuery field) =
      .ok (⟨"a", "a", "a", "a", 4, 2⟩, 5) ∧
    (Key.mk "a" "a" "a" "a" 4 2).covered 5 = ∅ ∧
    fillForPeer ⟨"a", "a", "a", "a", 4, 2⟩ 5 ⟨true, false, true, [some .body]⟩ =
      [⟨"a", "a", "a", 8, 0⟩] :=
  ⟨rfl, Set.eq_empty_of_forall_notMem fun _ ⟨after, _, _, inside⟩ =>
    absurd (after.trans_lt inside) (by decide), rfl⟩

end Unbounded.Orca
