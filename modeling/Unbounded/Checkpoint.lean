/-
This file models the cuts a checkpoint stores: the image of one shard with its
mappings, its standalone descriptors and its segments, the check each image
passes before it is published or installed, and the two filters that drop what
is no longer available. The filter of recovery prunes the hold records of the
mappings it drops; the filter of the final cut at shutdown does not. A mapping
that the slot table itself validates still names the bytes it was stored for.

Every refusal of an image is the same error, so the checks of a loop are
gathered into one condition; a set that refuses a repeated item is a list
without repetitions. An instant is counted in nanoseconds from the earliest one
a system time holds.
-/

import Unbounded.SegmentsRuns

namespace Unbounded

open List Word

namespace Alloc

/-- Install an entirely free table of a geometry. -/
def Segments.fromGeometry (geometry : SegmentGeometry) : Except Error Segments :=
  match (Segments.new geometry.segmentBytes).configureTable geometry.slabBytes
      geometry.segmentCount geometry.alignment with
  | (_, .error error) => .error error
  | (segments, .ok ()) => .ok segments

/-- Validate a stored mapping against current readable state and used bytes. -/
def Segments.validate (segments : Segments) (id generation : Nat) (extent : Extent) :
    Except Error Unit := do
  let some slot := segments.slots[id]? | .error .corrupt
  let some start := checkedMul 64 id segments.segmentBytes | .error .corrupt
  let some stop := checkedAdd 64 extent.offset extent.length | .error .corrupt
  if slot.image.generation ≠ generation ∨
      ¬(slot.image.state = .opened ∨ slot.image.state = .sealed) then .error .stale
  let some used := checkedAdd 64 start slot.image.usedBytes | .error .corrupt
  if extent.offset < start ∨ stop > used then .error .corrupt
  let some geometry := segments.geometry | .error .unavailable
  let .ok aligned := geometry.alignment.extent extent.offset extent.length | .error .corrupt
  if aligned ≠ extent then .error .corrupt

/-- An image with those of its retained records whose offset passes a test. -/
def SegmentSnapshot.keeping (test : Nat → Bool) (image : SegmentSnapshot) : SegmentSnapshot :=
  { image with retainedRecords := image.retainedRecords.filter (test ·.1) }

end Alloc

namespace Checkpoint

open Alloc

/-! ### Images -/

inductive Error
  | invalidRequest
  | corruptRecord
  deriving DecidableEq

abbrev Bytes := List UInt8

def maxItems : Nat := 1000000

def maxStringBytes : Nat := 8192

def maxFieldBytes : Nat := 8192

def maxWireInteger : Nat := 2 ^ 63 - 1

def pageBytes : Nat := 16 * 1024 * 1024

/-- The Unix epoch: a system time reaches 2 ^ 63 seconds before it. -/
def unixEpoch : Nat := 2 ^ 63 * 10 ^ 9

/-- Quoted ASCII version identifier. -/
structure StrongEtag where
  bytes : Bytes
  deriving DecidableEq

/-- Parse the quoted strong-tag grammar, preserving exact bytes. -/
def StrongEtag.parse (value : Bytes) : Except Error StrongEtag :=
  if ¬(2 ≤ value.length ∧ value.length ≤ maxFieldBytes) ∨ value.head? ≠ some 0x22 ∨
      value.getLast? ≠ some 0x22 ∨
      ¬ ∀ byte ∈ value.tail.dropLast, byte = 0x21 ∨ 0x23 ≤ byte ∧ byte ≤ 0x7e then
    .error .invalidRequest
  else .ok ⟨value⟩

structure ObjectId where
  cache : Bytes
  key : Bytes
  deriving DecidableEq

structure ObjectVersion where
  object : ObjectId
  etag : StrongEtag
  deriving DecidableEq

structure PageId where
  version : ObjectVersion
  number : Nat
  deriving DecidableEq

/-- Immutable descriptor of a version. -/
structure VersionMetadata where
  contentType : Option Bytes
  version : ObjectVersion
  length : Nat

def VersionMetadata.compatible (metadata other : VersionMetadata) : Bool :=
  metadata.version = other.version ∧ metadata.length = other.length ∧
    metadata.contentType = other.contentType

/-- Resolve a page's exact length, rejecting another version or an absent page. -/
def VersionMetadata.pageLength (metadata : VersionMetadata) (page : PageId) : Except Error Nat :=
  match checkedMul 64 page.number pageBytes with
  | none => .error .corruptRecord
  | some start =>
    if metadata.length > maxWireInteger ∨ page.version ≠ metadata.version ∨
        start ≥ metadata.length then .error .corruptRecord
    else .ok (min (metadata.length - start) pageBytes)

structure RecordLocation where
  segment : Nat
  generation : Nat
  extent : Extent

structure IndexedPage where
  location : RecordLocation
  metadata : VersionMetadata
  keyId : Bytes

/-- The mappings and the standalone descriptors of one shard. -/
structure IndexSnapshot where
  entries : List (PageId × IndexedPage)
  metadata : List VersionMetadata

/-- The dimensions of a slab as they are stored. -/
structure CheckpointGeometry where
  slabBytes : Nat
  segmentBytes : Nat
  segmentCount : Nat
  memoryAlignment : Nat
  offsetAlignment : Nat
  lengthAlignment : Nat

structure ShardImage where
  geometry : CheckpointGeometry
  index : IndexSnapshot
  segments : List SegmentSnapshot

/-! ### Validation -/

/-- The geometry of stored dimensions; validating them is building it. -/
def CheckpointGeometry.allocationGeometry (geometry : CheckpointGeometry) :
    Except Error SegmentGeometry := do
  let .ok alignment := Alignment.new geometry.memoryAlignment geometry.offsetAlignment
    geometry.lengthAlignment | .error .corruptRecord
  if geometry.segmentCount > maxItems then .error .corruptRecord
  let .ok allocation := SegmentGeometry.new geometry.slabBytes geometry.segmentBytes
    geometry.segmentCount alignment | .error .corruptRecord
  return allocation

/-- Each descriptor is compatible with the last one of its version among those passed. -/
def agree : List VersionMetadata → List VersionMetadata → Bool
  | _, [] => true
  | passed, metadata :: rest =>
    (passed.find? (·.version = metadata.version)).all (·.compatible metadata) &&
      agree (metadata :: passed) rest

def IndexSnapshot.validateMetadata (index : IndexSnapshot) : Except Error Unit :=
  if agree [] (index.metadata ++ index.entries.map (·.2.metadata)) ∧
      ∀ entry ∈ index.entries, (entry.2.metadata.pageLength entry.1).isOk then .ok ()
  else .error .corruptRecord

def validateDescriptor (metadata : VersionMetadata) : Except Error Unit :=
  let version := metadata.version
  if version.object.cache = [] ∨ version.object.cache.length > maxStringBytes ∨
      version.etag.bytes.length > maxStringBytes ∨ metadata.length > maxWireInteger then
    .error .corruptRecord
  else match StrongEtag.parse version.etag.bytes with
    | .error _ => .error .corruptRecord
    | .ok _ => .ok ()

/-- The segment of the mapping at an offset; a later mapping replaces an earlier one. -/
def IndexSnapshot.location (index : IndexSnapshot) (offset : Nat) : Option Nat :=
  (index.entries.reverse.find? (·.2.location.extent.offset = offset)).map (·.2.location.segment)

/-- The hold records, each with its segment. -/
def ShardImage.records (image : ShardImage) : List (Nat × Nat × Nat) :=
  image.segments.flatMap fun segment => segment.retainedRecords.map (segment.id, ·)

/-- The first byte of each mapping and the one past its last, in order. -/
def IndexSnapshot.extents (index : IndexSnapshot) : List (Nat ×ₗ Nat) :=
  (index.entries.map fun entry => toLex (entry.2.location.extent.offset,
    entry.2.location.extent.offset + entry.2.location.extent.length)).insertionSort (· ≤ ·)

/-- The first extent does not reach past the start of the second. -/
abbrev Apart (first second : Nat ×ₗ Nat) : Prop := (ofLex first).2 ≤ (ofLex second).1

/-- The checks of an image against its restored table. -/
abbrev ShardImage.Checks (image : ShardImage) (segments : Segments) : Prop :=
  (∀ metadata ∈ image.index.metadata, (validateDescriptor metadata).isOk) ∧
  (image.index.metadata.map (·.version)).Nodup ∧
  (∀ entry ∈ image.index.entries, (validateDescriptor entry.2.metadata).isOk ∧
    (segments.validate entry.2.location.segment entry.2.location.generation
      entry.2.location.extent).isOk ∧
    (checkedAdd 64 entry.2.location.extent.offset entry.2.location.extent.length).isSome) ∧
  (image.index.entries.map (·.1)).Nodup ∧
  (image.records.map (·.2.1)).Nodup ∧
  (∀ record ∈ image.records, ¬ record.2.2 < unixEpoch ∧
    image.index.location record.2.1 = some record.1) ∧
  image.index.extents.IsChain Apart

/-- The segments are not those of the geometry, or a list is too long. -/
abbrev ShardImage.Miscounted (image : ShardImage) : Prop :=
  image.segments.length > maxItems ∨ image.segments.length ≠ image.geometry.segmentCount ∨
    image.index.entries.length > maxItems ∨ image.index.metadata.length > maxItems

/-- Validate an image against an isolated table. -/
def ShardImage.validate (image : ShardImage) : Option (Except Error Unit) :=
  match image.geometry.allocationGeometry, image.index.validateMetadata with
  | .error error, _ => some (.error error)
  | .ok _, .error error => some (.error error)
  | .ok geometry, .ok () =>
    if image.Miscounted then some (.error .corruptRecord)
    else match Segments.fromGeometry geometry with
      | .error _ => some (.error .corruptRecord)
      | .ok segments =>
        (segments.restore image.segments).map fun
          | (_, .error _) => .error .corruptRecord
          | (restored, .ok ()) => if image.Checks restored then .ok () else .error .corruptRecord

/-! ### Filters -/

variable (image : ShardImage)

/-- Keep the entries and the standalone descriptors that pass a test. -/
def ShardImage.retain (entry : PageId × IndexedPage → Bool) (metadata : VersionMetadata → Bool) :
    ShardImage :=
  { image with
    index := ⟨image.index.entries.filter entry, image.index.metadata.filter metadata⟩ }

/-- Drop the hold records that have no mapping. -/
def ShardImage.pruneHolds : ShardImage :=
  { image with
    segments := image.segments.map (·.keeping fun offset =>
      offset ∈ image.index.entries.map (·.2.location.extent.offset)) }

/-- The filter of recovery, applied to each shard. -/
def ShardImage.filterAvailable (metadataAvailable : Bytes → Bool)
    (available : Bytes → Bytes → Bool) : ShardImage :=
  (image.retain (fun entry => available entry.1.version.object.cache entry.2.keyId)
    (fun metadata => metadataAvailable metadata.version.object.cache)).pruneHolds

/-- The filter of the final cut: it keeps what is of a configured cache and of a key that
`lease`, or `active` for a standalone descriptor, finds. -/
def ShardImage.retainConfigured (caches : List Bytes) (lease : Bytes → Bytes → Bool)
    (active : Bytes → Bool) : ShardImage :=
  image.retain
    (fun entry => caches.any (· = entry.1.version.object.cache) &&
      lease entry.1.version.object.cache entry.2.keyId)
    (fun metadata => caches.any (· = metadata.version.object.cache) &&
      active metadata.version.object.cache)

/-! ### Descriptors -/

/-- One version has one descriptor. -/
def Agreeing (passed : List VersionMetadata) : Prop :=
  ∀ first ∈ passed, ∀ second ∈ passed, first.version = second.version → first = second

variable {passed rest : List VersionMetadata} {metadata : VersionMetadata}

theorem Agreeing.subset (agreeing : Agreeing passed) (subset : rest ⊆ passed) : Agreeing rest :=
  fun first member second member' => agreeing first (subset member) second (subset member')

theorem compatible_iff {other : VersionMetadata} :
    metadata.compatible other = true ↔ metadata = other := by
  obtain ⟨_, _⟩ := metadata
  obtain ⟨_, _⟩ := other
  simp only [VersionMetadata.compatible, decide_eq_true_eq, VersionMetadata.mk.injEq]
  tauto

theorem Agreeing.cons_iff (agreeing : Agreeing passed) : Agreeing (metadata :: passed) ↔
    ∀ old ∈ passed, old.version = metadata.version → old = metadata := by
  unfold Agreeing at *
  grind

theorem find?_compatible_iff (agreeing : Agreeing passed) :
    (passed.find? (·.version = metadata.version)).all (·.compatible metadata) = true ↔
      Agreeing (metadata :: passed) := by
  rw [agreeing.cons_iff]
  cases found : passed.find? (·.version = metadata.version) with
  | none =>
    have absent : ∀ old ∈ passed, old.version ≠ metadata.version := by simpa using found
    exact iff_of_true rfl fun old member version => absurd version (absent old member)
  | some first =>
    have member := mem_of_find?_eq_some found
    have version : first.version = metadata.version := by simpa using find?_some found
    rw [Option.all_some, compatible_iff]
    constructor
    · rintro rfl old listed
      exact agreeing old listed first member
    · exact fun alone => alone first member version

theorem agree_iff (agreeing : Agreeing passed) :
    agree passed rest = true ↔ Agreeing (passed ++ rest) := by
  induction rest generalizing passed with
  | nil => simpa [agree] using agreeing
  | cons metadata rest ih =>
    have moved : passed ++ metadata :: rest ~ metadata :: passed ++ rest := perm_middle
    rw [agree, Bool.and_eq_true, find?_compatible_iff agreeing]
    constructor
    · rintro ⟨wider, agrees⟩
      exact ((ih wider).mp agrees).subset moved.subset
    · intro whole
      have wider : Agreeing (metadata :: passed) :=
        whole.subset fun _ member => moved.symm.subset (mem_append_left _ member)
      exact ⟨wider, (ih wider).mpr (whole.subset moved.symm.subset)⟩

/-! ### Restoring fewer records -/

section

variable (test : Nat → Bool) (images : List SegmentSnapshot)

theorem imagesWellFormed_keeping (segmentBytes : Nat) (alignment : Alloc.Alignment)
    (position : Nat) (opened : Bool) :
    imagesWellFormed segmentBytes alignment position opened (images.map (·.keeping test)) =
      imagesWellFormed segmentBytes alignment position opened images := by
  induction images generalizing position opened with
  | nil => rfl
  | cons _ _ ih =>
    simp only [map_cons, imagesWellFormed, ih]
    rfl

theorem unpublishable_keeping (slots : List Slot) :
    unpublishable (images.map (·.keeping test)) slots = unpublishable images slots := by
  induction images generalizing slots with
  | nil => rfl
  | cons _ _ ih =>
    cases slots with
    | nil => rfl
    | cons =>
      simp only [map_cons, unpublishable, ih]
      rfl

theorem restoreSlots_keeping (segments : Segments) (slots : List Slot) :
    segments.restoreSlots slots (images.map (·.keeping test)) =
      segments.restoreSlots slots images := by
  induction images generalizing segments slots with
  | nil => rfl
  | cons _ _ ih =>
    cases slots with
    | nil => rfl
    | cons =>
      simp only [map_cons, Segments.restoreSlots, ih]
      rfl

theorem restore_keeping (segments : Segments) :
    segments.restore (images.map (·.keeping test)) = segments.restore images := by
  have validated : segments.validateRestoreEpoch (images.map (·.keeping test)) =
      segments.validateRestoreEpoch images := by
    simp only [Segments.validateRestoreEpoch, length_map, imagesWellFormed_keeping, zip_map_left,
      any_map, unpublishable_keeping]
    rfl
  simp only [Segments.restore, validated, restoreSlots_keeping]

end

/-! ### Mappings apart -/

section

variable {index fewer : IndexSnapshot}

theorem pairwise_apart {extents : List (Nat ×ₗ Nat)} (chain : extents.IsChain Apart)
    (filled : ∀ extent ∈ extents, (ofLex extent).1 < (ofLex extent).2) :
    extents.Pairwise Apart := by
  induction chain with
  | nil => exact .nil
  | singleton => exact pairwise_singleton _ _
  | cons_cons near _ ih =>
    obtain ⟨-, filled⟩ := forall_mem_cons.mp filled
    have later := ih filled
    refine pairwise_cons.mpr ⟨forall_mem_cons.mpr ⟨near, fun extent member => ?_⟩, later⟩
    have next := (pairwise_cons.mp later).1 extent member
    exact near.trans ((forall_mem_cons.mp filled).1.le.trans next)

theorem extents_sublist (sublist : fewer.entries <+ index.entries) :
    fewer.extents <+ index.extents :=
  sublist_insertionSort' (pairwise_insertionSort _ _)
    ((perm_insertionSort _ _).subperm.trans (sublist.map _).subperm)

variable (chain : index.extents.IsChain Apart)
include chain

/-- The extents are apart, and so start at distinct offsets. -/
theorem extents_apart : index.extents.Pairwise Apart ∧
    (index.entries.map (·.2.location.extent.offset)).Nodup := by
  have filled {extent : Nat ×ₗ Nat} (member : extent ∈ index.extents) :
      (ofLex extent).1 < (ofLex extent).2 := by
    obtain ⟨entry, _, rfl⟩ := mem_map.mp ((mem_insertionSort _).mp member)
    exact Nat.lt_add_of_pos_right entry.2.location.extent.length_pos
  have whole := pairwise_apart chain fun _ => filled
  have starts : (index.extents.map fun extent => (ofLex extent).1).Nodup :=
    pairwise_map.mpr (whole.imp_of_mem fun member _ near => ((filled member).trans_le near).ne)
  rw [IndexSnapshot.extents, ((perm_insertionSort _ _).map _).nodup_iff, map_map] at starts
  exact ⟨whole, starts⟩

theorem location_eq_some {entry : PageId × IndexedPage} (member : entry ∈ index.entries) :
    index.location entry.2.location.extent.offset = some entry.2.location.segment := by
  unfold IndexSnapshot.location
  cases found : index.entries.reverse.find?
      (·.2.location.extent.offset = entry.2.location.extent.offset) with
  | none =>
    exact absurd (decide_eq_true rfl) (find?_eq_none.mp found entry (mem_reverse.mpr member))
  | some other =>
    have same : other = entry := inj_on_of_nodup_map (extents_apart chain).2
      (mem_reverse.mp (mem_of_find?_eq_some found)) member (by simpa using find?_some found)
    rw [same]
    rfl

end

/-! ### Cuts that lose entries -/

section

variable {image : ShardImage} (entry : PageId × IndexedPage → Bool)
  (metadata : VersionMetadata → Bool) (test : Nat → Bool)

/-- An image with fewer entries, descriptors and hold records. -/
def ShardImage.narrowed (image : ShardImage) : ShardImage :=
  { image.retain entry metadata with segments := image.segments.map (·.keeping test) }

theorem retain_eq_narrowed (image : ShardImage) :
    image.retain entry metadata = image.narrowed entry metadata fun _ => true := by
  simp [ShardImage.narrowed, ShardImage.retain, SegmentSnapshot.keeping]

/-- The records kept have mappings that are kept. -/
def ShardImage.Covered (image : ShardImage) : Prop :=
  ∀ record ∈ image.records, test record.2.1 = true →
    ∃ kept ∈ image.index.entries, entry kept = true ∧ kept.2.location.extent.offset = record.2.1

theorem records_narrowed (image : ShardImage) :
    (image.narrowed entry metadata test).records = image.records.filter (test ·.2.1) := by
  simp only [ShardImage.records, ShardImage.narrowed, filter_flatMap, flatMap_map,
    SegmentSnapshot.keeping, filter_map]
  rfl

theorem validateMetadata_narrowed (checked : image.index.validateMetadata = .ok ()) :
    (image.narrowed entry metadata test).index.validateMetadata = .ok () := by
  have nothing : Agreeing [] := by simp [Agreeing]
  unfold IndexSnapshot.validateMetadata at checked ⊢
  split at checked
  · rename_i holds
    refine if_pos ⟨(agree_iff nothing).mpr (((agree_iff nothing).mp holds.1).subset ?_),
      fun kept member => holds.2 kept (mem_of_mem_filter member)⟩
    exact (filter_sublist.append (filter_sublist.map _)).subset
  · cases checked

theorem checks_narrowed {segments : Segments} (checks : image.Checks segments) :
    (image.narrowed entry metadata test).Checks segments ↔ image.Covered entry test := by
  obtain ⟨descriptors, versions, entries, pages, offsets, records, chain⟩ := checks
  have fewer : (image.narrowed entry metadata test).index.entries <+ image.index.entries :=
    filter_sublist
  have apart := ((extents_apart chain).1.sublist (extents_sublist fewer)).isChain
  unfold ShardImage.Checks
  rw [records_narrowed]
  constructor
  · rintro ⟨-, -, -, -, -, kept, -⟩ record member passes
    obtain ⟨mapping, found, -⟩ := Option.map_eq_some_iff.mp
      (kept record (mem_filter.mpr ⟨member, passes⟩)).2
    obtain ⟨whole, passed⟩ := mem_filter.mp (mem_reverse.mp (mem_of_find?_eq_some found))
    exact ⟨mapping, whole, passed, by simpa using find?_some found⟩
  · intro covered
    refine ⟨fun _ member => descriptors _ (mem_of_mem_filter member),
      versions.sublist (filter_sublist.map _), fun _ member => entries _ (fewer.subset member),
      pages.sublist (fewer.map _), offsets.sublist (filter_sublist.map _), ?_, apart⟩
    intro record member
    obtain ⟨listed, passes⟩ := mem_filter.mp member
    obtain ⟨_, whole, kept, offset⟩ := covered record listed passes
    refine ⟨(records record listed).1, ?_⟩
    rw [← (records record listed).2, ← offset, location_eq_some chain whole]
    exact location_eq_some apart (mem_filter.mpr ⟨whole, kept⟩)

theorem validate_eq_ok : image.validate = some (.ok ()) ↔ ∃ geometry segments restored,
    image.geometry.allocationGeometry = .ok geometry ∧ image.index.validateMetadata = .ok () ∧
      ¬ image.Miscounted ∧ Segments.fromGeometry geometry = .ok segments ∧
      segments.restore image.segments = some (restored, .ok ()) ∧ image.Checks restored := by
  unfold ShardImage.validate
  constructor
  · intro valid
    split at valid
    · cases valid
    · cases valid
    split at valid
    · cases valid
    split at valid
    · cases valid
    obtain ⟨⟨restored, _ | _⟩, restores, checks⟩ := Option.map_eq_some_iff.mp valid
    · cases checks
    dsimp only at checks
    split at checks
    · exact ⟨_, _, restored, by assumption, by assumption, by assumption, by assumption,
        restores, by assumption⟩
    · cases checks
  · rintro ⟨_, _, _, made, agrees, counted, fresh, restores, checks⟩
    simp only [made, agrees, if_neg counted, fresh, restores, Option.map_some, if_pos checks]

theorem miscounted_narrowed (counted : ¬ image.Miscounted) :
    ¬ (image.narrowed entry metadata test).Miscounted := by
  have segments : (image.narrowed entry metadata test).segments.length = image.segments.length :=
    length_map _
  have entries := length_filter_le entry image.index.entries
  have descriptors := length_filter_le metadata image.index.metadata
  unfold ShardImage.Miscounted at *
  rw [segments]
  refine mt (.imp_right (.imp_right (.imp ?_ ?_))) counted
  · exact entries.trans_lt'
  · exact descriptors.trans_lt'

/-- What is left of a valid image is valid exactly if its records are covered. -/
theorem validate_narrowed (valid : image.validate = some (.ok ())) :
    (image.narrowed entry metadata test).validate = some (.ok ()) ↔ image.Covered entry test := by
  obtain ⟨geometry, segments, restored, made, agrees, counted, fresh, restores, checks⟩ :=
    validate_eq_ok.mp valid
  rw [← checks_narrowed entry metadata test checks, validate_eq_ok]
  constructor
  · rintro ⟨_, _, _, made', -, -, fresh', restores', checks'⟩
    cases made.symm.trans made'
    cases fresh.symm.trans fresh'
    cases restores.symm.trans ((restore_keeping test _ segments).symm.trans restores')
    exact checks'
  · intro checks'
    exact ⟨geometry, segments, restored, made, validateMetadata_narrowed entry metadata test agrees,
      miscounted_narrowed entry metadata test counted, fresh,
      (restore_keeping test _ segments).trans restores, checks'⟩

end

/-- What the filter of recovery leaves of a valid image is valid. What the filter of the final
cut leaves is valid exactly if it keeps the mapping of every hold record. -/
theorem retained_cuts_validate (image : ShardImage) (valid : image.validate = some (.ok ())) :
    (∀ metadataAvailable available,
      (image.filterAvailable metadataAvailable available).validate = some (.ok ())) ∧
    ∀ caches lease active,
      (image.retainConfigured caches lease active).validate = some (.ok ()) ↔
        ∀ record ∈ image.records, ∃ entry ∈ image.index.entries,
          (entry.1.version.object.cache ∈ caches ∧
            lease entry.1.version.object.cache entry.2.keyId = true) ∧
          entry.2.location.extent.offset = record.2.1 := by
  constructor
  · intro metadataAvailable available
    refine (validate_narrowed _ _ _ valid).mpr fun record _ kept => ?_
    obtain ⟨entry, listed, offset⟩ := mem_map.mp (of_decide_eq_true kept)
    obtain ⟨whole, passes⟩ := mem_filter.mp listed
    exact ⟨entry, whole, passes, offset⟩
  · intro caches lease active
    rw [ShardImage.retainConfigured, retain_eq_narrowed, validate_narrowed _ _ _ valid]
    simp [ShardImage.Covered]

/-- A version of an object: a cache, a key of 32 bytes and an empty tag. -/
def heldVersion : ObjectVersion := ⟨⟨[1], replicate 32 5⟩, ⟨[0x22, 0x22]⟩⟩

/-- A page of a cache under a hold. -/
def heldImage : ShardImage where
  geometry := ⟨8, 8, 1, 1, 4, 4⟩
  index :=
    { entries := [(⟨heldVersion, 0⟩, ⟨⟨0, 1, ⟨0, 4, by decide, by decide, by decide⟩⟩,
        ⟨none, heldVersion, 1⟩, replicate 16 7⟩)]
      metadata := [] }
  segments := [⟨0, 1, .sealed, 4, [(0, unixEpoch)]⟩]

theorem heldImage_valid : heldImage.validate = some (.ok ()) := by decide +kernel

theorem retained_cuts_validate_held :
    heldImage.validate = some (.ok ()) ∧
      (heldImage.retainConfigured [[1]] (fun _ _ => true) fun _ => true).validate =
        some (.ok ()) := by
  refine ⟨heldImage_valid, ((retained_cuts_validate heldImage heldImage_valid).2 _ _ _).mpr ?_⟩
  decide +kernel

/-- The cache is gone at shutdown: its page is dropped, the hold record is not, and the cut is
refused. -/
theorem dropped_hold_refused :
    heldImage.validate = some (.ok ()) ∧
      (heldImage.retainConfigured [] (fun _ _ => true) fun _ => true).validate =
        some (.error .corruptRecord) := by decide +kernel

end Checkpoint

namespace Alloc

/-! ### Stored mappings -/

open Segments Option Transition

theorem validate_generation {segments : Segments} {id generation : Nat} {extent : Extent}
    (valid : segments.validate id generation extent = .ok ()) {slot : Slot}
    (found : segments.slots[id]? = some slot) : slot.image.generation = generation := by
  by_contra moved
  unfold validate at valid
  simp only [found, if_pos (Or.inl moved)] at valid
  split at valid
  · split at valid <;> cases valid
  · cases valid

variable {geometry : SegmentGeometry} {lease : SegmentLease} {first last : World}

/-- A mapping that validates names bytes that nothing has overwritten: if the extent of an append
validates at the end of a run, every later append to its slot returned other bytes. -/
theorem validated_bytes_intact {earlier later call extent} (consistent : first.Consistent geometry)
    (run : Run World.Performs first (earlier ++ (call, .appended lease extent) :: later) last)
    (valid : last.table.validate lease.id lease.generation extent = .ok ()) :
    ∀ step ∈ later, ∀ other written, step.2 = .appended other written → other.id = lease.id →
      extent.Disjoint written := by
  intro step member other written appended sameId
  obtain ⟨slot, found, reached, -⟩ := (run_appends run consistent).1 step
    (mem_append_right _ (mem_cons_of_mem _ member)) _ _ appended
  -- The slot still has the mapping's generation, so the later append's is no higher.
  have current := validate_generation valid (sameId ▸ found)
  obtain ⟨between, rest, rfl⟩ := append_of_mem member
  rw [← cons_append, ← append_assoc] at run
  obtain ⟨_, opening, closing⟩ := run.between
  obtain ⟨_, performs, -⟩ := closing.uncons
  have remembers := (run_appends opening consistent).1 _ (mem_append_right _ mem_cons_self) _ _ rfl
  obtain ⟨_, _, appends⟩ :=
    (performs.stepsTo (run_consistent opening consistent)).appended _ _ appended
  refine remembers.disjoint appends sameId.symm ?_
  -- Nor is it lower: the slot had reached the mapping's generation before it.
  obtain ⟨_, held, older, -⟩ := remembers
  rw [← sameId] at held
  obtain rfl := mem_unique held appends.found
  rw [appends.generation] at reached ⊢
  exact older.antisymm (current ▸ reached)

/-- Of two appends to one slot the first still validates. -/
theorem validated_bytes_intact_two_appends :
    ∃ table first second extent written world,
      (new 8).configureTable 16 2 ⟨1, 4, 4, rfl, by decide, by decide⟩ = (table, .ok ()) ∧
      Run World.Performs ⟨table, []⟩
        [(.append 4, .appended first extent), (.append 4, .appended second written)] world ∧
      world.table.validate first.id first.generation extent = .ok () ∧ extent.Disjoint written := by
  have configured := Eq.refl ((new 8).configureTable 16 2 ⟨1, 4, 4, rfl, by decide, by decide⟩)
  obtain ⟨_, consistent⟩ := configureTable_consistent configured
  refine ⟨_, _, _, _, _, _, configured, Run.cons rfl (Run.single rfl), rfl, ?_⟩
  exact @validated_bytes_intact _ _ _ _ [] [(.append 4, _)] (.append 4) _ consistent
    (Run.cons rfl (Run.single rfl)) rfl _ (mem_singleton.mpr rfl) _ _ rfl rfl

end Alloc

end Unbounded
