/-
This file models the slot table of a slab: the slots with their lifecycle, the
indexes kept beside them (the open tail, the free slots, the number of evicting
slots, the usage of each group), and the calls that change them.

A call that could panic returns an outer `Option`, and `none` is the panic: an
index out of range, a subtraction below zero or an addition past the word. An
error is a result, and the table it left behind is returned with it.

The worker's shared cells are one state here. A lease names the slot whose
counter it holds; the slots are built once, so a counter never moves to another
slot. The nominal identity of a table is left out, since there is one table.
-/

import Unbounded.Geometry

namespace Unbounded.Alloc

open Word

/-! ### Slots and leases -/

/-- Persisted segment lifecycle. -/
inductive SegmentState
  | free
  | opened
  | sealed
  | evicting
  deriving DecidableEq, Repr

/-- Recovery image of one slot. A retained record is an offset with its deadline. -/
structure SegmentSnapshot where
  id : Nat
  generation : Nat
  state : SegmentState
  usedBytes : Nat
  retainedRecords : List (Nat × Nat) := []
  deriving DecidableEq, Repr

/-- A lease on the used prefix of a slot at its acquisition. `count` is the position of the
slot whose lease counter it holds; it covers the bytes from `start` to `stop`. -/
structure SegmentLease where
  id : Nat
  generation : Nat
  count : Nat
  geometry : SegmentGeometry
  start : Nat
  stop : Nat
  deriving DecidableEq, Repr

/-- Mutable recovery image paired with its lease counter. -/
structure Slot where
  image : SegmentSnapshot
  usageGroup : Nat
  leases : Nat
  deriving DecidableEq, Repr

/-- A free slot of the first generation. -/
def Slot.blank (id : Nat) : Slot where
  image := { id, generation := 1, state := .free, usedBytes := 0 }
  usageGroup := 0
  leases := 0

def Slot.withState (slot : Slot) (state : SegmentState) : Slot :=
  { slot with image := { slot.image with state } }

/-! ### The table -/

/-- The allocation table. `usage` holds the capacity and the reserved bytes of each group. -/
structure Segments where
  segmentBytes : Nat
  geometry : Option SegmentGeometry
  slots : List Slot
  frozen : Bool
  restoreEpoch : Nat
  openSlot : Option Nat
  free : Finset Nat
  evicting : Nat
  usage : List (Nat × Nat)
  deriving DecidableEq

/-- An unconfigured table. -/
def Segments.new (segmentBytes : Nat) : Segments where
  segmentBytes := segmentBytes
  geometry := none
  slots := []
  frozen := false
  restoreEpoch := 0
  openSlot := none
  free := ∅
  evicting := 0
  usage := []

variable (segments : Segments)

/-- Install validated geometry and an entirely free table. -/
def Segments.configureTable (capacity count : Nat) (alignment : Alignment) :
    Segments × Except Error Unit :=
  if segments.frozen then (segments, .error .busy)
  else if segments.geometry.isSome ∨ count > maxSegments then
    (segments, .error .invalidConfiguration)
  else match SegmentGeometry.new capacity segments.segmentBytes count alignment with
    | .error _ => (segments, .error .invalidConfiguration)
    | .ok geometry =>
      ({ segments with
          geometry := some geometry
          slots := (List.range count).map Slot.blank
          free := Finset.range count
          usage := [(count * segments.segmentBytes, 0)] }, .ok ())

/-- The least free slot. -/
def Segments.firstFree : Option Nat :=
  if available : segments.free.Nonempty then some (segments.free.min' available) else none

/-- Add bytes to a group's usage. -/
def addUsage (usage : List (Nat × Nat)) (group bytes : Nat) : Option (List (Nat × Nat)) := do
  let (assigned, used) ← usage[group]?
  let raised ← checkedAdd 64 used bytes
  some (usage.set group (assigned, raised))

/-- Take bytes from a group's usage. -/
def subtractUsage (usage : List (Nat × Nat)) (group bytes : Nat) :
    Option (List (Nat × Nat)) := do
  let (assigned, used) ← usage[group]?
  let lowered ← checkedSub used bytes
  some (usage.set group (assigned, lowered))

/-- Capture a checked prefix and increment the slot's counter before publishing a lease. -/
def Segments.takeLease (position : Nat) (slot : Slot) (usedBytes : Nat) :
    Except Error (Slot × SegmentLease) :=
  match checkedMul 64 slot.image.id segments.segmentBytes with
  | none => .error .corrupt
  | some start =>
    match checkedAdd 64 start usedBytes with
    | none => .error .corrupt
    | some stop =>
      match segments.geometry with
      | none => .error .unavailable
      | some geometry =>
        match checkedAdd 64 slot.leases 1 with
        | none => .error .busy
        | some leases =>
          .ok ({ slot with leases },
            { id := slot.image.id, generation := slot.image.generation, count := position,
              geometry, start, stop })

/-! ### Append -/

/-- The open tail, if it has room for the request. -/
def Segments.usableOpen (length : Nat) : Option (Option Nat) :=
  match segments.openSlot with
  | none => some none
  | some position => do
    let slot ← segments.slots[position]?
    let room ← checkedSub segments.segmentBytes slot.image.usedBytes
    some (if length ≤ room then some position else none)

/-- Seal the open tail, if there is one. -/
def Segments.sealTail : Option Segments :=
  match segments.openSlot with
  | none => some segments
  | some previous => do
    let slot ← segments.slots[previous]?
    some { segments with
      slots := segments.slots.set previous (slot.withState .sealed)
      openSlot := none }

/-- Make room for a tail at `position`: without a usable one, the old tail is sealed and the
slot is taken from the free ones. -/
def Segments.rotate (usableOpen : Option Nat) (position : Nat) : Option Segments :=
  if usableOpen.isNone then do
    let rotated ← segments.sealTail
    some { rotated with free := rotated.free.erase position }
  else some segments

/-- Make the leased slot at `position` the open tail and charge it; a full slot is sealed at
once. -/
def Segments.place (position : Nat) (leased : Slot) (usedBytes length : Nat) : Option Segments := do
  let usage ← addUsage segments.usage leased.usageGroup length
  let full := usedBytes = segments.segmentBytes
  let image := { leased.image with state := if full then .sealed else .opened, usedBytes }
  some { segments with
    slots := segments.slots.set position { leased with image }
    openSlot := if full then none else some position
    usage }

/-- Reserve a valid request in the open tail or, when that has no room, in the first free slot.
The checks and the lease counter come before any change. -/
def Segments.reserve (alignment : Alignment) (length : Nat) :
    Option (Segments × Except Error (SegmentLease × Extent)) := do
  let usableOpen ← segments.usableOpen length
  match usableOpen.or segments.firstFree with
  | none =>
    -- A valid rollover without a free slot seals the tail, so that it can be reclaimed.
    let rotated ← segments.sealTail
    some (rotated, .error .busy)
  | some position =>
    let slot ← segments.slots[position]?
    match (checkedMul 64 slot.image.id segments.segmentBytes).bind fun start =>
        checkedAdd 64 start slot.image.usedBytes with
    | none => some (segments, .error .invalidConfiguration)
    | some offset =>
      match alignment.extent offset length with
      | .error error => some (segments, .error error)
      | .ok extent =>
        match checkedAdd 64 slot.image.usedBytes length with
        | none => some (segments, .error .invalidConfiguration)
        | some usedBytes =>
          match segments.takeLease position slot usedBytes with
          | .error error => some (segments, .error error)
          | .ok (leased, lease) =>
            let rotated ← segments.rotate usableOpen position
            let placed ← rotated.place position leased usedBytes length
            some (placed, .ok (lease, extent))

/-- Reserve an aligned used range. -/
def Segments.append (length : Nat) : Option (Segments × Except Error (SegmentLease × Extent)) :=
  if segments.frozen then some (segments, .error .busy)
  else match segments.geometry with
    | none => some (segments, .error .unavailable)
    | some geometry =>
      if length = 0 ∨ length > segments.segmentBytes then
        some (segments, .error .invalidConfiguration)
      else match geometry.alignment.extent 0 length with
        | .error error => some (segments, .error error)
        | .ok whole =>
          if whole.length ≠ length then some (segments, .error .invalidConfiguration)
          else segments.reserve geometry.alignment length

/-! ### Leases, eviction and reuse -/

/-- Lease the current used prefix of an open or sealed slot at a matching generation. -/
def Segments.lease (id generation : Nat) : Segments × Except Error SegmentLease :=
  match segments.slots[id]? with
  | none => (segments, .error .corrupt)
  | some slot =>
    if slot.image.generation ≠ generation ∨
        ¬(slot.image.state = .opened ∨ slot.image.state = .sealed) then
      (segments, .error .stale)
    else match segments.takeLease id slot slot.image.usedBytes with
      | .error error => (segments, .error error)
      | .ok (leased, lease) => ({ segments with slots := segments.slots.set id leased }, .ok lease)

/-- Dropping a lease releases exactly the one count it acquired. -/
def Segments.dropLease (lease : SegmentLease) : Option Segments := do
  let slot ← segments.slots[lease.count]?
  let leases ← checkedSub slot.leases 1
  some { segments with slots := segments.slots.set lease.count { slot with leases } }

/-- Stop new leases for a sealed slot; repeating eviction is harmless. -/
def Segments.beginEviction (id : Nat) : Segments × Except Error Unit :=
  if segments.frozen then (segments, .error .busy)
  else match segments.slots[id]? with
    | none => (segments, .error .corrupt)
    | some slot =>
      if ¬(slot.image.state = .sealed ∨ slot.image.state = .evicting) then
        (segments, .error .busy)
      else if slot.image.state ≠ .evicting then
        ({ segments with
            evicting := segments.evicting + 1
            slots := segments.slots.set id (slot.withState .evicting) }, .ok ())
      else (segments, .ok ())

/-- Reuse an evicting slot without leases at the next generation. -/
def Segments.recycleEvicted (id : Nat) : Option (Segments × Except Error Unit) :=
  if segments.frozen then some (segments, .error .busy)
  else match segments.slots[id]? with
    | none => some (segments, .error .corrupt)
    | some slot =>
      if slot.image.state ≠ .evicting ∨ slot.leases ≠ 0 then some (segments, .error .busy)
      else match checkedAdd 64 slot.image.generation 1 with
        | none => some (segments, .error .unavailable)
        | some generation => do
          let evicting ← checkedSub segments.evicting 1
          let usage ← subtractUsage segments.usage slot.usageGroup slot.image.usedBytes
          let image := { slot.image with generation, state := .free, usedBytes := 0 }
          some ({ segments with
              slots := segments.slots.set id { slot with image }
              evicting, usage
              free := insert id segments.free }, .ok ())

/-! ### Freeze, snapshot and restore -/

/-- Copy the complete ordered image. -/
def Segments.snapshot : List SegmentSnapshot := segments.slots.map (·.image)

/-- Block allocation, eviction, recycling and restore until the guard drops. -/
def Segments.freeze : Segments × Except Error Unit :=
  ({ segments with frozen := true }, if segments.frozen then .error .busy else .ok ())

/-- Dropping the freeze guard thaws the table. -/
def Segments.thaw : Segments := { segments with frozen := false }

/-- Generation published for one restored slot. Turning an occupied slot free at its live
generation advances it, so bytes are never reissued under a generation that earlier mappings
carry. -/
def restoredGeneration (image live : SegmentSnapshot) : Except Error Nat :=
  if image.state = .free ∧ image.generation = live.generation ∧ live.state ≠ .free then
    match checkedAdd 64 live.generation 1 with
    | none => .error .unavailable
    | some generation => .ok generation
  else .ok image.generation

/-- One image is well formed at its position. -/
def SegmentSnapshot.wellFormed (image : SegmentSnapshot) (segmentBytes : Nat)
    (alignment : Alignment) (position : Nat) : Bool :=
  ¬(image.id ≠ position ∨ image.generation = 0 ∨ image.usedBytes > segmentBytes ∨
    ¬ alignment.offset ∣ image.usedBytes ∨ ¬ alignment.length ∣ image.usedBytes ∨
    (image.state = .free ∧ image.usedBytes ≠ 0) ∨ (image.state ≠ .free ∧ image.usedBytes = 0))

/-- The images from `position` on are well formed, with at most one open tail among them and
the earlier ones, and no full one. -/
def imagesWellFormed (segmentBytes : Nat) (alignment : Alignment) :
    Nat → Bool → List SegmentSnapshot → Bool
  | _, _, [] => true
  | position, opened, image :: images =>
    if ¬ image.wellFormed segmentBytes alignment position then false
    else if image.state = .opened then
      if opened ∨ image.usedBytes = segmentBytes then false
      else imagesWellFormed segmentBytes alignment (position + 1) true images
    else imagesWellFormed segmentBytes alignment (position + 1) opened images

/-- The first image whose restored generation would wrap. -/
def unpublishable : List SegmentSnapshot → List Slot → Option Error
  | image :: images, slot :: slots =>
    match restoredGeneration image slot.image with
    | .error error => some error
    | .ok _ => unpublishable images slots
  | _, _ => none

/-- Validate recovery invariants and reserve the next epoch. -/
def Segments.validateRestoreEpoch (images : List SegmentSnapshot) : Except Error Nat :=
  if segments.frozen then .error .busy
  else if segments.slots.any fun slot => slot.leases ≠ 0 then .error .busy
  else if images.length ≠ segments.slots.length then .error .corrupt
  else match segments.geometry with
    | none => .error .unavailable
    | some geometry =>
      if ¬ imagesWellFormed segments.segmentBytes geometry.alignment 0 false images then
        .error .corrupt
      -- An image older than the live table could revalidate mappings to reissued bytes.
      else if (images.zip segments.slots).any fun pair =>
          pair.1.generation < pair.2.image.generation then .error .stale
      else match unpublishable images segments.slots with
        | some error => .error error
        | none =>
          match checkedAdd 64 segments.restoreEpoch 1 with
          | none => .error .unavailable
          | some epoch => .ok epoch

/-- The image a slot takes: an open tail comes back sealed, without checkpoint hints. -/
def SegmentSnapshot.restored (image : SegmentSnapshot) (generation : Nat) : SegmentSnapshot :=
  { image with
    generation
    state := if image.state = .opened then .sealed else image.state
    retainedRecords := [] }

/-- Publish the images slot by slot, rebuilding the indexes in `segments`. A generation that
would wrap stops the loop, with the slots before it already replaced. -/
def Segments.restoreSlots (segments : Segments) :
    List Slot → List SegmentSnapshot → Option (Segments × List Slot × Except Error Unit)
  | slot :: slots, image :: images =>
    match restoredGeneration image slot.image with
    | .error error => some (segments, slot :: slots, .error error)
    | .ok generation => do
      let restored := image.restored generation
      let usage ← addUsage segments.usage slot.usageGroup restored.usedBytes
      let (rebuilt, rest, result) ← Segments.restoreSlots
        { segments with
          free := if restored.state = .free then insert restored.id segments.free
            else segments.free
          evicting := if restored.state = .evicting then segments.evicting + 1
            else segments.evicting
          usage }
        slots images
      some (rebuilt, { slot with image := restored } :: rest, result)
  | slots, _ => some (segments, slots, .ok ())

/-- The table with its indexes cleared, before the images are published. -/
def Segments.cleared : Segments :=
  { segments with
    openSlot := none
    free := ∅
    evicting := 0
    usage := segments.usage.map fun group => (group.1, 0) }

/-- Validate the complete image before publishing it, sealing its open tail. -/
def Segments.restore (images : List SegmentSnapshot) : Option (Segments × Except Error Unit) :=
  match segments.validateRestoreEpoch images with
  | .error error => some (segments, .error error)
  | .ok epoch => do
    let (rebuilt, slots, result) ← segments.cleared.restoreSlots segments.slots images
    match result with
    | .error error => some ({ rebuilt with slots }, .error error)
    | .ok () => some ({ rebuilt with slots, restoreEpoch := epoch }, .ok ())

/-! ### Usage groups -/

/-- Sum of the used bytes of some slots. -/
def sumUsed (slots : List Slot) : Option Nat :=
  slots.foldlM (fun used slot => checkedAdd 64 used slot.image.usedBytes) 0

/-- Assign consecutive slots to the groups from `group` on. -/
def groupSlots (segmentBytes : Nat) :
    Nat → List Nat → List Slot → Option (List Slot × List (Nat × Nat))
  | _, [], slots => some (slots, [])
  | group, count :: counts, slots =>
    if slots.length < count then none
    else do
      let used ← sumUsed (slots.take count)
      let (rest, usage) ← groupSlots segmentBytes (group + 1) counts (slots.drop count)
      some ((slots.take count).map (fun slot => { slot with usageGroup := group }) ++ rest,
        (count * segmentBytes, used) :: usage)

/-- Group consecutive slots for storage metrics. Counts must cover every slot. -/
def Segments.configureUsageGroups (counts : List Nat) : Option (Segments × Except Error Unit) :=
  if segments.geometry.isNone ∨ counts = [] ∨ 0 ∈ counts ∨
      counts.foldlM (checkedAdd 64) 0 ≠ some segments.slots.length then
    some (segments, .error .invalidConfiguration)
  else do
    let (slots, usage) ← groupSlots segments.segmentBytes 0 counts segments.slots
    some ({ segments with slots, usage }, .ok ())

/-! ### The table and its callers -/

/-- The table together with the leases its callers hold. -/
structure World where
  table : Segments
  leases : List SegmentLease
  deriving DecidableEq

/-- One call on the table. A drop names a held lease by its place in the callers' list. -/
inductive Call
  | append (length : Nat)
  | lease (id generation : Nat)
  | dropLease (index : Nat)
  | beginEviction (id : Nat)
  | recycleEvicted (id : Nat)
  | configureUsageGroups (counts : List Nat)
  | freeze
  | thaw
  | snapshot
  | restore (images : List SegmentSnapshot)
  deriving DecidableEq

/-- What a call answers. -/
inductive Reply
  | appended (lease : SegmentLease) (extent : Extent)
  | leased (lease : SegmentLease)
  | image (images : List SegmentSnapshot)
  | done
  | failed (error : Error)
  deriving DecidableEq

/-- A call without a value answers `done` or its error. -/
def World.answer (world : World) (outcome : Segments × Except Error Unit) : World × Reply :=
  ({ world with table := outcome.1 },
    match outcome.2 with
    | .ok () => .done
    | .error error => .failed error)

/-- Perform one call; `none` is a panic. Every lease handed out is held until it is dropped. -/
def World.perform (world : World) : Call → Option (World × Reply)
  | .append length => (world.table.append length).map fun outcome =>
    match outcome with
    | (table, .ok (lease, extent)) =>
      (⟨table, lease :: world.leases⟩, .appended lease extent)
    | (table, .error error) => ({ world with table }, .failed error)
  | .lease id generation =>
    match world.table.lease id generation with
    | (table, .ok lease) => some (⟨table, lease :: world.leases⟩, .leased lease)
    | (table, .error error) => some ({ world with table }, .failed error)
  | .dropLease index =>
    match world.leases[index]? with
    | none => some (world, .done)
    | some lease => (world.table.dropLease lease).map fun table =>
      (⟨table, world.leases.eraseIdx index⟩, .done)
  | .beginEviction id => some (world.answer (world.table.beginEviction id))
  | .recycleEvicted id => (world.table.recycleEvicted id).map world.answer
  | .configureUsageGroups counts => (world.table.configureUsageGroups counts).map world.answer
  | .freeze => some (world.answer world.table.freeze)
  | .thaw => some ({ world with table := world.table.thaw }, .done)
  | .snapshot => some (world, .image world.table.snapshot)
  | .restore images => (world.table.restore images).map world.answer

/-- One step of the callers: a call with its answer. -/
def World.Performs (world : World) (step : Call × Reply) (next : World) : Prop :=
  world.perform step.1 = some (next, step.2)

end Unbounded.Alloc
