/-
This file proves the two calls that rebuild the indexes of the slot table from
its slots: restore, which publishes a validated image, and the regrouping of the
usage counters. Both run a loop over the slots that carries the indexes as
accumulators; each loop is first given in closed form.
-/

import Unbounded.SegmentsInvariant

namespace Unbounded.Alloc

open Segments List Word ListUpdate

/-! ### Validated images -/

variable {position segmentBytes : Nat} {alignment : Alignment}

theorem SegmentSnapshot.wellFormed_eq_true {image : SegmentSnapshot}
    (valid : image.wellFormed segmentBytes alignment position = true) :
    image.id = position ∧ image.usedBytes ≤ segmentBytes ∧ alignment.offset ∣ image.usedBytes ∧
      alignment.length ∣ image.usedBytes ∧ (image.usedBytes = 0 ↔ image.state = .free) := by
  unfold SegmentSnapshot.wellFormed at valid
  simp only [decide_eq_true_eq, not_or, not_not, not_and, Nat.not_lt] at valid
  obtain ⟨identified, -, fits, offsetAligned, lengthAligned, freeEmpty, emptyFree⟩ := valid
  refine ⟨identified, fits, offsetAligned, lengthAligned, fun empty => ?_, freeEmpty⟩
  by_contra occupied
  exact emptyFree occupied empty

/-- Each validated image is well formed at its own position. -/
theorem imagesWellFormed_getElem? (images : List SegmentSnapshot) (position : Nat) (opened : Bool)
    (valid : imagesWellFormed segmentBytes alignment position opened images = true) (index : Nat)
    (image : SegmentSnapshot) (found : images[index]? = some image) :
    image.wellFormed segmentBytes alignment (position + index) = true := by
  induction images generalizing position opened index with
  | nil => simp at found
  | cons _ images ih =>
    unfold imagesWellFormed at valid
    split at valid
    · cases valid
    rename_i headValid
    rw [not_not] at headValid
    have rest : ∃ opened, imagesWellFormed segmentBytes alignment (position + 1) opened images := by
      split at valid
      · split at valid
        · cases valid
        · exact ⟨_, valid⟩
      · exact ⟨_, valid⟩
    obtain ⟨laterOpened, restValid⟩ := rest
    cases index with
    | zero =>
      rw [getElem?_cons_zero, Option.some_inj] at found
      rw [← found]
      exact headValid
    | succ index =>
      have later := ih (position + 1) laterOpened restValid index found
      rwa [Nat.add_right_comm] at later

/-- The generation a slot takes when its publication succeeds. -/
def publishedGeneration (image live : SegmentSnapshot) : Nat :=
  if image.state = .free ∧ image.generation = live.generation ∧ live.state ≠ .free then
    live.generation + 1
  else image.generation

theorem restoredGeneration_eq_ok {image live : SegmentSnapshot} {generation : Nat}
    (published : restoredGeneration image live = .ok generation) :
    generation = publishedGeneration image live := by
  unfold restoredGeneration at published
  unfold publishedGeneration
  split at published
  · rename_i freed
    rw [if_pos freed]
    split at published
    · cases published
    rename_i advanced
    cases published
    exact (checkedAdd_eq_some.mp advanced).2
  · rename_i kept
    rw [if_neg kept]
    cases published
    rfl

/-- A slot once an image is published in it. -/
def Slot.publish (slot : Slot) (image : SegmentSnapshot) : Slot :=
  { slot with image := image.restored (publishedGeneration image slot.image) }

theorem Slot.publish_free (slot : Slot) (image : SegmentSnapshot) :
    (slot.publish image).image.state = .free ↔ image.state = .free := by
  show (if image.state = .opened then SegmentState.sealed else image.state) = .free ↔ _
  split
  · rename_i opened
    rw [opened]
    decide
  · exact Iff.rfl

theorem Slot.publish_not_opened (slot : Slot) (image : SegmentSnapshot) :
    (slot.publish image).image.state ≠ .opened := by
  show (if image.state = .opened then SegmentState.sealed else image.state) ≠ .opened
  split
  · decide
  · assumption

variable {slot : Slot}

/-- A published image no older than an unleased slot is a legal evolution of it: an occupied
slot that becomes free leaves its generation behind. -/
theorem Slot.Evolves.publish {image : SegmentSnapshot}
    (current : slot.image.generation ≤ image.generation) (unleased : slot.leases = 0) :
    slot.Evolves (slot.publish image) where
  monotone := by
    show _ ≤ publishedGeneration image slot.image
    unfold publishedGeneration
    split
    · exact Nat.le_succ _
    · exact current
  occupied same occupied := by
    intro freed
    have imageFree := (slot.publish_free image).mp freed
    change publishedGeneration image slot.image = _ at same
    unfold publishedGeneration at same
    split at same
    · exact absurd same (Nat.succ_ne_self _)
    · rename_i kept
      exact kept ⟨imageFree, same, occupied⟩
  tail _ opened := absurd opened (slot.publish_not_opened image)
  leased counted := absurd unleased counted

variable {geometry : SegmentGeometry} {segments : Segments}

theorem Slot.Sound.publish {image : SegmentSnapshot}
    (valid : image.wellFormed geometry.segmentBytes geometry.alignment position = true) :
    (slot.publish image).Sound geometry position := by
  obtain ⟨identified, fits, offsetAligned, lengthAligned, emptyExact⟩ :=
    SegmentSnapshot.wellFormed_eq_true valid
  exact ⟨identified, emptyExact.trans (slot.publish_free image).symm, fits, offsetAligned,
    lengthAligned, fun opened => absurd opened (slot.publish_not_opened image)⟩

/-! ### The publishing loop -/

/-- Every group's usage grows by the used bytes of its slots among `slots`. -/
structure Accrued (usage accrued : List (Nat × Nat)) (slots : List Slot) : Prop where
  sameLength : accrued.length = usage.length
  entry : ∀ group assigned used, usage[group]? = some (assigned, used) →
    accrued[group]? = some (assigned, used + groupUsed slots group)

variable {slots : List Slot} {usage : List (Nat × Nat)}

theorem Accrued.cons {raised accrued : List (Nat × Nat)} {bytes : Nat}
    (added : addUsage usage slot.usageGroup bytes = some raised)
    (used : slot.image.usedBytes = bytes) (rest : Accrued raised accrued slots) :
    Accrued usage accrued (slot :: slots) := by
  obtain ⟨_, _, found, -, rfl⟩ := addUsage_eq_some.mp added
  refine ⟨rest.sameLength.trans length_set, fun group otherAssigned otherUsed other => ?_⟩
  rw [groupUsed_cons, Slot.usedIn, used, ← Nat.add_assoc]
  refine rest.entry group otherAssigned _ ?_
  rw [getElem?_set_found found]
  by_cases same : group = slot.usageGroup
  · rw [same, found, Option.some_inj, Prod.mk.injEq] at other
    rw [if_pos same, if_pos same.symm, other.1, other.2]
  · rw [if_neg same, if_neg (Ne.symm same), Nat.add_zero, other]

/-- The indexes after a loop over `slots` that started from those of `before`. -/
structure Rebuilt (before after : Segments) (slots : List Slot) : Prop where
  frame : after.segmentBytes = before.segmentBytes ∧ after.geometry = before.geometry ∧
    after.openSlot = before.openSlot
  free : ∀ position, position ∈ after.free ↔ position ∈ before.free ∨
    ∃ slot ∈ slots, slot.image.state = .free ∧ slot.image.id = position
  evicting : after.evicting = before.evicting + slots.countP (·.image.state = .evicting)
  usage : Accrued before.usage after.usage slots

/-- The indexes once one more slot is published. -/
def Segments.account (segments : Segments) (slot : Slot) (usage : List (Nat × Nat)) : Segments :=
  { segments with
    free := if slot.image.state = .free then insert slot.image.id segments.free
      else segments.free
    evicting := if slot.image.state = .evicting then segments.evicting + 1
      else segments.evicting
    usage }

theorem Rebuilt.nil (segments : Segments) : Rebuilt segments segments [] where
  frame := ⟨rfl, rfl, rfl⟩
  free position := by simp
  evicting := rfl
  usage := ⟨rfl, fun _ _ _ found => found⟩

theorem Rebuilt.cons {before after : Segments}
    (added : addUsage before.usage slot.usageGroup slot.image.usedBytes = some usage)
    (rest : Rebuilt (before.account slot usage) after slots) :
    Rebuilt before after (slot :: slots) where
  frame := rest.frame
  free position := by
    rw [rest.free, exists_mem_cons_iff, ← or_assoc]
    refine or_congr_left ?_
    show position ∈ (if slot.image.state = .free then _ else _) ↔ _
    by_cases free : slot.image.state = .free
    · rw [if_pos free, Finset.mem_insert, and_iff_right free, or_comm, eq_comm]
    · rw [if_neg free]
      exact (or_iff_left fun both => free both.1).symm
  evicting := by
    rw [rest.evicting, countP_cons]
    show (if slot.image.state = .evicting then _ else _) + _ = _
    by_cases evicting : slot.image.state = .evicting
    · rw [if_pos evicting, if_pos (by simpa using evicting)]
      omega
    · rw [if_neg evicting, if_neg (by simpa using evicting), Nat.add_zero]
  usage := rest.usage.cons added rfl

/-- After validation the publishing loop neither stops at a generation nor panics: it publishes
every image and rebuilds the indexes for the published slots. -/
theorem restoreSlots_spec (segments : Segments) (slots : List Slot) (images : List SegmentSnapshot)
    (sameLength : images.length = slots.length) (publishable : unpublishable images slots = none)
    (grouped : ∀ slot ∈ slots, slot.usageGroup < segments.usage.length)
    (room : ∀ group assigned used, segments.usage[group]? = some (assigned, used) →
      used + groupUsed (List.zipWith Slot.publish slots images) group < 2 ^ 64) :
    ∃ rebuilt, segments.restoreSlots slots images =
        some (rebuilt, List.zipWith Slot.publish slots images, .ok ()) ∧
      Rebuilt segments rebuilt (List.zipWith Slot.publish slots images) := by
  induction slots generalizing segments images with
  | nil => exact ⟨segments, rfl, .nil segments⟩
  | cons slot slots ih =>
    cases images with
    | nil => cases sameLength
    | cons image images =>
      unfold unpublishable at publishable
      cases published : restoredGeneration image slot.image with
      | error => rw [published] at publishable; cases publishable
      | ok =>
        rw [published] at publishable
        obtain rfl := restoredGeneration_eq_ok published
        obtain ⟨⟨assigned, used⟩, entry⟩ : ∃ entry, segments.usage[slot.usageGroup]? = some entry :=
          ⟨_, getElem?_eq_getElem (grouped slot mem_cons_self)⟩
        rw [zipWith_cons_cons] at room ⊢
        have usedHere : (slot.publish image).usedIn slot.usageGroup = image.usedBytes := if_pos rfl
        have headRoom := room slot.usageGroup assigned used entry
        rw [groupUsed_cons, usedHere] at headRoom
        have added : addUsage segments.usage slot.usageGroup image.usedBytes =
            some (segments.usage.set slot.usageGroup (assigned, used + image.usedBytes)) :=
          addUsage_eq_some.mpr ⟨assigned, used, entry, by omega, rfl⟩
        have restRoom : ∀ group groupAssigned before,
            (segments.usage.set slot.usageGroup (assigned, used + image.usedBytes))[group]? =
              some (groupAssigned, before) →
            before + groupUsed (zipWith Slot.publish slots images) group < 2 ^ 64 := by
          intro group groupAssigned before found
          rw [getElem?_set_found entry] at found
          by_cases same : group = slot.usageGroup
          · rw [if_pos same, Option.some_inj, Prod.mk.injEq] at found
            rw [same, ← found.2, Nat.add_assoc]
            exact headRoom
          · rw [if_neg same] at found
            have later := room group groupAssigned before found
            exact lt_of_le_of_lt (Nat.add_le_add_left (Nat.le_add_left _ _) _) later
        have restGrouped : ∀ other ∈ slots, other.usageGroup <
            (segments.usage.set slot.usageGroup (assigned, used + image.usedBytes)).length := by
          intro other member
          rw [length_set]
          exact grouped other (mem_cons_of_mem _ member)
        obtain ⟨rebuilt, looped, restRebuilt⟩ := ih
          (segments.account (slot.publish image) _) images (Nat.succ_inj.mp sameLength)
          publishable restGrouped restRoom
        refine ⟨rebuilt, ?_, restRebuilt.cons added⟩
        unfold restoreSlots
        simp only [published, SegmentSnapshot.restored, added, Option.bind_eq_bind,
          Option.bind_some]
        exact congrArg (Option.bind · _) looped

/-! ### Restore -/

/-- What a validated image has passed. -/
structure Restorable (segments : Segments) (geometry : SegmentGeometry)
    (images : List SegmentSnapshot) : Prop where
  unleased : ∀ slot ∈ segments.slots, slot.leases = 0
  sameLength : images.length = segments.slots.length
  wellFormed : imagesWellFormed segments.segmentBytes geometry.alignment 0 false images = true
  current : ∀ pair ∈ images.zip segments.slots, pair.2.image.generation ≤ pair.1.generation
  publishable : unpublishable images segments.slots = none

variable {images : List SegmentSnapshot}

theorem validateRestoreEpoch_eq_ok {epoch : Nat} (configured : segments.geometry = some geometry)
    (validated : segments.validateRestoreEpoch images = .ok epoch) :
    Restorable segments geometry images := by
  unfold validateRestoreEpoch at validated
  simp only [configured] at validated
  split at validated
  · cases validated
  split at validated
  · cases validated
  rename_i unleased
  split at validated
  · cases validated
  rename_i sameLength
  split at validated
  · cases validated
  rename_i wellFormed
  split at validated
  · cases validated
  rename_i current
  split at validated
  · cases validated
  rename_i publishable
  refine ⟨fun slot member => ?_, not_not.mp sameLength, not_not.mp wellFormed,
    fun pair member => ?_, publishable⟩
  · by_contra leased
    exact unleased (any_eq_true.mpr ⟨slot, member, decide_eq_true leased⟩)
  · by_contra stale
    exact current (any_eq_true.mpr ⟨pair, member, decide_eq_true (Nat.not_le.mp stale)⟩)

theorem groupCount_eq_countP (slots : List Slot) (group : Nat) :
    groupCount slots group = (slots.map (·.usageGroup)).countP (· = group) := by
  rw [countP_map]
  rfl

theorem cleared_usage_length : segments.cleared.usage.length = segments.usage.length := length_map _

/-- Rebuilt indexes of sound slots without an open tail agree with them. -/
theorem Rebuilt.agrees {rebuilt : Segments} (agrees : segments.Agrees geometry)
    (sameGroups : slots.map (·.usageGroup) = segments.slots.map (·.usageGroup))
    (sound : ∀ position (slot : Slot), slots[position]? = some slot →
      slot.Sound geometry position ∧ slot.image.state ≠ .opened)
    (result : Rebuilt segments.cleared rebuilt slots) (epoch : Nat) :
    Segments.Agrees { rebuilt with slots, restoreEpoch := epoch } geometry where
  configured := result.frame.2.1.trans agrees.configured
  sized := agrees.sized.trans result.frame.1.symm
  counted := by
    have sameLength := congrArg length sameGroups
    rw [length_map, length_map] at sameLength
    exact sameLength.trans agrees.counted
  openExact position := by
    have noTail : rebuilt.openSlot = none := result.frame.2.2
    refine iff_of_false (by rw [noTail]; simp) fun opened => ?_
    obtain ⟨slot, found, state⟩ := Option.map_eq_some_iff.mp opened
    exact (sound position slot found).2 state
  freeExact position := by
    show position ∈ rebuilt.free ↔ slots[position]?.map _ = _
    rw [result.free, Option.map_eq_some_iff]
    constructor
    · rintro (none | ⟨slot, member, free, rfl⟩)
      · cases none
      · obtain ⟨index, found⟩ := mem_iff_getElem?.mp member
        rw [(sound index slot found).1.identified]
        exact ⟨slot, found, free⟩
    · rintro ⟨slot, found, free⟩
      exact .inr ⟨slot, mem_of_getElem? found, free, (sound position slot found).1.identified⟩
  evictingExact := by
    have counted := result.evicting
    rw [cleared, Nat.zero_add] at counted
    exact counted
  usageExact group inside := by
    have sameLength := result.usage.sameLength.trans cleared_usage_length
    have before := agrees.usageExact group (sameLength ▸ inside)
    have emptied : segments.cleared.usage[group]? =
        some (groupCount segments.slots group * segments.segmentBytes, 0) := by
      show (segments.usage.map _)[group]? = _
      rw [getElem?_map, before]
      rfl
    have sameSize : rebuilt.segmentBytes = segments.segmentBytes := result.frame.1
    rw [result.usage.entry group _ _ emptied, Nat.zero_add, sameSize, groupCount_eq_countP slots,
      sameGroups, ← groupCount_eq_countP]
  grouped slot member := by
    have inGroups : slot.usageGroup ∈ segments.slots.map (·.usageGroup) :=
      sameGroups ▸ mem_map_of_mem member
    obtain ⟨old, oldMember, sameGroup⟩ := mem_map.mp inGroups
    rw [result.usage.sameLength, cleared_usage_length, ← sameGroup]
    exact agrees.grouped old oldMember
  sound position slot found := (sound position slot found).1

/-- Restore keeps the agreement and does not panic; it either changes nothing or publishes
every image. -/
theorem restore_spec (agrees : segments.Agrees geometry) (images : List SegmentSnapshot) :
    ∃ next result, segments.restore images = some (next, result) ∧ next.Agrees geometry ∧
      segments.Advances next unmoved := by
  unfold restore
  cases validated : segments.validateRestoreEpoch images with
  | error => exact ⟨_, _, rfl, agrees, .ofSlots rfl⟩
  | ok epoch =>
    have restorable := validateRestoreEpoch_eq_ok agrees.configured validated
    have sound : ∀ position (slot : Slot),
        (zipWith Slot.publish segments.slots images)[position]? = some slot →
          slot.Sound geometry position ∧ slot.image.state ≠ .opened := by
      intro position _ found
      obtain ⟨slot, image, -, imageFound, rfl⟩ := getElem?_zipWith_eq_some.mp found
      have wellFormed := imagesWellFormed_getElem? images 0 false restorable.wellFormed position
        image imageFound
      rw [Nat.zero_add, ← agrees.sized] at wellFormed
      exact ⟨.publish wellFormed, slot.publish_not_opened image⟩
    have sameGroups : (zipWith Slot.publish segments.slots images).map (·.usageGroup) =
        segments.slots.map (·.usageGroup) := by
      rw [← map_uncurry_zip_eq_zipWith, map_map]
      show (segments.slots.zip images).map ((·.usageGroup) ∘ Prod.fst) = _
      rw [← map_map, map_fst_zip (le_of_eq restorable.sameLength.symm)]
    have room : ∀ group assigned used, segments.cleared.usage[group]? = some (assigned, used) →
        used + groupUsed (zipWith Slot.publish segments.slots images) group < 2 ^ 64 := by
      intro group assigned used found
      change (segments.usage.map _)[group]? = _ at found
      rw [getElem?_map, Option.map_eq_some_iff] at found
      obtain ⟨_, -, emptied⟩ := found
      rw [Prod.mk.injEq] at emptied
      rw [← emptied.2, Nat.zero_add]
      refine groupUsed_lt _ geometry group ?_ fun slot member => ?_
      · rw [length_zipWith, restorable.sameLength, Nat.min_self]
        exact agrees.counted
      · obtain ⟨position, found⟩ := mem_iff_getElem?.mp member
        exact (sound position slot found).1.fits
    have grouped : ∀ slot ∈ segments.slots, slot.usageGroup < segments.cleared.usage.length := by
      rw [cleared_usage_length]
      exact agrees.grouped
    obtain ⟨rebuilt, looped, result⟩ := restoreSlots_spec segments.cleared segments.slots images
      restorable.sameLength restorable.publishable grouped room
    refine ⟨{ rebuilt with slots := _, restoreEpoch := epoch }, .ok (), ?_,
      result.agrees agrees sameGroups sound epoch, ?_⟩
    · simp only [looped, Option.bind_eq_bind, Option.bind_some]
    · intro position slot found
      have inside : position < images.length := by
        rw [restorable.sameLength]
        exact (List.getElem?_eq_some_iff.mp found).1
      obtain ⟨image, imageFound⟩ : ∃ image, images[position]? = some image :=
        ⟨_, List.getElem?_eq_getElem inside⟩
      refine ⟨slot.publish image, ?_, .publish ?_ ?_, rfl⟩
      · rw [getElem?_zipWith, found, imageFound]
      · refine restorable.current (image, slot) (mem_of_getElem? (i := position) ?_)
        rw [getElem?_zip_eq_some]
        exact ⟨imageFound, found⟩
      · exact restorable.unleased slot (mem_of_getElem? found)

/-! ### Regrouping -/

/-- A slot assigned to another usage group. -/
def Slot.regrouped (slot : Slot) (group : Nat) : Slot := { slot with usageGroup := group }

/-- The slots of a regrouped table hold the same images and lease counts, in groups from
`first` on. -/
structure Regrouped (slots regrouped : List Slot) (usage : List (Nat × Nat))
    (segmentBytes first : Nat) : Prop where
  kept : regrouped.map (fun slot => (slot.image, slot.leases)) =
    slots.map fun slot => (slot.image, slot.leases)
  grouped : ∀ slot ∈ regrouped, first ≤ slot.usageGroup ∧ slot.usageGroup < first + usage.length
  entry : ∀ index, index < usage.length → usage[index]? =
    some (groupCount regrouped (first + index) * segmentBytes, groupUsed regrouped (first + index))

theorem group_empty (slots : List Slot) (group : Nat)
    (outside : ∀ slot ∈ slots, slot.usageGroup ≠ group) :
    groupCount slots group = 0 ∧ groupUsed slots group = 0 := by
  constructor
  · exact countP_eq_zero.mpr fun slot member => by simpa using outside slot member
  · refine sum_eq_zero fun used member => ?_
    obtain ⟨slot, slotMember, rfl⟩ := mem_map.mp member
    exact if_neg (outside slot slotMember)

/-- Slots inside a group all count, and use the sum of their bytes. -/
theorem group_whole (slots : List Slot) (group : Nat)
    (inside : ∀ slot ∈ slots, slot.usageGroup = group) :
    groupCount slots group = slots.length ∧
      groupUsed slots group = (slots.map (·.image.usedBytes)).sum := by
  constructor
  · exact countP_eq_length.mpr fun slot member => by simpa using inside slot member
  · refine congrArg sum (map_congr_left fun slot member => ?_)
    exact if_pos (inside slot member)

/-- One more group in front of the regrouped ones. -/
theorem Regrouped.cons {first rest : List Slot}
    {group count used : Nat} (here : ∀ slot ∈ first, slot.usageGroup = group)
    (counted : first.length = count) (summed : (first.map (·.image.usedBytes)).sum = used)
    (kept : first.map (fun slot => (slot.image, slot.leases)) =
      (slots.map fun slot => (slot.image, slot.leases)).take count)
    (regrouped : Regrouped (slots.drop count) rest usage segmentBytes (group + 1)) :
    Regrouped slots (first ++ rest) ((count * segmentBytes, used) :: usage) segmentBytes group where
  kept := by
    rw [map_append, kept, regrouped.kept, map_drop, take_append_drop]
  grouped slot member := by
    rw [length_cons]
    rcases mem_append.mp member with mine | later
    · rw [here slot mine]
      omega
    · have bounds := regrouped.grouped slot later
      omega
  entry index inside := by
    rw [groupCount, countP_append, groupUsed, map_append, sum_append, ← groupUsed, ← groupUsed]
    cases index with
    | zero =>
      have laterEmpty := group_empty rest group fun slot member =>
        Nat.ne_of_gt (regrouped.grouped slot member).1
      have whole := group_whole first group here
      rw [Nat.add_zero, laterEmpty.2, whole.2, summed, ← groupCount, ← groupCount, whole.1,
        laterEmpty.1, counted]
      rfl
    | succ index =>
      have mineEmpty := group_empty first (group + (index + 1)) fun slot member => by
        rw [here slot member]
        omega
      have later := regrouped.entry index (Nat.lt_of_succ_lt_succ inside)
      rw [getElem?_cons_succ, mineEmpty.2, Nat.zero_add, ← groupCount, ← groupCount,
        mineEmpty.1, Nat.zero_add, later, Nat.add_right_comm, Nat.add_assoc]

theorem groupSlots_spec (segmentBytes : Nat) (counts : List Nat) (first : Nat) (slots : List Slot)
    (covered : counts.sum = slots.length) (room : (slots.map (·.image.usedBytes)).sum < 2 ^ 64) :
    ∃ regrouped usage, groupSlots segmentBytes first counts slots = some (regrouped, usage) ∧
      Regrouped slots regrouped usage segmentBytes first := by
  induction counts generalizing first slots with
  | nil =>
    rw [eq_nil_of_length_eq_zero covered.symm]
    exact ⟨[], [], rfl, rfl, nofun, fun index inside => absurd inside (Nat.not_lt_zero _)⟩
  | cons count _ ih =>
    rw [sum_cons] at covered
    have sums : ((slots.take count).map (·.image.usedBytes)).sum +
        ((slots.drop count).map (·.image.usedBytes)).sum = (slots.map (·.image.usedBytes)).sum := by
      rw [← sum_append, ← map_append, take_append_drop]
    obtain ⟨rest, usage, looped, restRegrouped⟩ := ih (first + 1)
      (slots.drop count) (by rw [length_drop]; omega) (by omega)
    have counted : sumUsed (slots.take count) =
        some ((slots.take count).map (·.image.usedBytes)).sum := by
      have total := foldlM_checkedAdd 64 (fun slot : Slot => slot.image.usedBytes)
        (slots.take count) 0 (by omega)
      rwa [Nat.zero_add] at total
    have enough : ¬ slots.length < count := by omega
    refine ⟨(slots.take count).map (·.regrouped first) ++ rest,
      (count * segmentBytes, ((slots.take count).map (·.image.usedBytes)).sum) :: usage, ?_, ?_⟩
    · unfold groupSlots
      simp only [if_neg enough, counted, looped, Option.bind_eq_bind, Option.bind_some]
      rfl
    · have here : ∀ slot ∈ (slots.take count).map (·.regrouped first), slot.usageGroup = first := by
        intro slot member
        obtain ⟨_, -, rfl⟩ := mem_map.mp member
        rfl
      exact .cons here (by rw [length_map, length_take]; omega) (by rw [map_map]; rfl)
        (by rw [map_map, map_take]; rfl) restRegrouped

theorem Regrouped.lookup {regrouped : List Slot} {first : Nat}
    (result : Regrouped slots regrouped usage segmentBytes first) (position : Nat) :
    regrouped[position]?.map (fun slot => (slot.image, slot.leases)) =
      slots[position]?.map fun slot => (slot.image, slot.leases) := by
  rw [← getElem?_map, result.kept, getElem?_map]

/-- Regrouped usage agrees with the regrouped slots; the other indexes do not see groups. -/
theorem Regrouped.agrees (agrees : segments.Agrees geometry)
    (result : Regrouped segments.slots slots usage segments.segmentBytes 0) :
    Segments.Agrees { segments with slots, usage } geometry := by
  have states : ∀ position, slots[position]?.map (·.image.state) = segments.stateAt position := by
    intro position
    have same := congrArg (Option.map fun pair => pair.1.state) (result.lookup position)
    rwa [Option.map_map, Option.map_map] at same
  refine ⟨agrees.configured, agrees.sized, ?_, fun position => ?_, fun position => ?_, ?_, ?_,
    fun slot member => ?_, fun position slot found => ?_⟩
  · have sameLength := congrArg length result.kept
    rw [length_map, length_map] at sameLength
    exact sameLength.trans agrees.counted
  · rw [stateAt, states]
    exact agrees.openExact position
  · rw [stateAt, states]
    exact agrees.freeExact position
  · have same := congrArg (countP fun pair => decide (pair.1.state = .evicting)) result.kept
    rw [countP_map, countP_map] at same
    exact agrees.evictingExact.trans same.symm
  · intro group inside
    have entry := result.entry group inside
    rwa [Nat.zero_add] at entry
  · have bounds := (result.grouped slot member).2
    rwa [Nat.zero_add] at bounds
  · have same := result.lookup position
    rw [found] at same
    obtain ⟨old, oldFound, equal⟩ := Option.map_eq_some_iff.mp same.symm
    exact (agrees.sound position old oldFound).ofImage (congrArg Prod.fst equal).symm

theorem configureUsageGroups_spec (agrees : segments.Agrees geometry) (counts : List Nat) :
    ∃ next result, segments.configureUsageGroups counts = some (next, result) ∧
      next.Agrees geometry ∧ segments.Advances next unmoved := by
  unfold configureUsageGroups
  split
  · exact ⟨_, _, rfl, agrees, .ofSlots rfl⟩
  rename_i valid
  simp only [not_or, not_not] at valid
  have covered : counts.sum = segments.slots.length := by
    have total := foldlM_checkedAdd_eq_some id valid.2.2.2
    rw [map_id, Nat.zero_add] at total
    exact total.symm
  have room : (segments.slots.map (·.image.usedBytes)).sum < 2 ^ 64 := by
    have bound := sum_map_le (fun slot : Slot => slot.image.usedBytes) geometry.segmentBytes
      fun slot member => by
        obtain ⟨position, found⟩ := mem_iff_getElem?.mp member
        exact (agrees.sound position slot found).fits
    rw [agrees.counted] at bound
    exact lt_of_le_of_lt bound geometry.addressable
  obtain ⟨slots, usage, looped, result⟩ :=
    groupSlots_spec segments.segmentBytes counts 0 segments.slots covered room
  refine ⟨{ segments with slots, usage }, .ok (), ?_, result.agrees agrees, ?_⟩
  · simp only [looped, Option.bind_eq_bind, Option.bind_some]
  · intro position _ found
    have same := result.lookup position
    rw [found] at same
    obtain ⟨new, newFound, equal⟩ := Option.map_eq_some_iff.mp same
    rw [Prod.mk.injEq] at equal
    exact ⟨new, newFound, .ofImage equal.1, equal.2⟩

end Unbounded.Alloc
