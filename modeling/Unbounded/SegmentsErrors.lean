/-
This file says what a call on the slot table leaves behind when it fails, for any
table. A reservation makes all its checks before it changes a slot, with one exception
that is meant: a valid request that finds no free slot seals the open tail, so that
the tail can be reclaimed. A restore clears the indexes before it publishes the images
slot by slot; the validation makes every check of that loop beforehand, so the loop
cannot stop half way.
-/

import Unbounded.SegmentsRebuild

namespace Unbounded.Alloc

open Segments Option Word

/-! ### Append -/

/-- The request is one the table could serve: it is thawed and configured, and the length is
aligned and fits a slot. -/
def Segments.ValidRequest (segments : Segments) (length : Nat) : Prop :=
  segments.frozen = false ∧ ∃ geometry whole, segments.geometry = some geometry ∧
    ¬ (length = 0 ∨ length > segments.segmentBytes) ∧
    geometry.alignment.extent 0 length = .ok whole ∧ whole.length = length

/-- Neither the open tail nor a free slot can take the request. -/
def Segments.Exhausted (segments : Segments) (length : Nat) : Prop :=
  segments.usableOpen length = some none ∧ segments.free = ∅

theorem firstFree_eq_none {segments : Segments} :
    segments.firstFree = none ↔ segments.free = ∅ := by
  unfold firstFree
  split
  · rename_i available
    exact iff_of_false (by simp) (Finset.nonempty_iff_ne_empty.mp available)
  · rename_i none
    exact iff_of_true rfl (Finset.not_nonempty_iff_eq_empty.mp none)

variable {segments next : Segments} {length : Nat} {error : Error}

theorem append_eq_reserve (valid : segments.ValidRequest length) :
    ∃ geometry, segments.append length = segments.reserve geometry length := by
  obtain ⟨thawed, geometry, _, configured, fits, extent, same⟩ := valid
  refine ⟨geometry.alignment, ?_⟩
  simp only [append, thawed, Bool.false_eq_true, if_false, configured, if_neg fits, extent,
    ne_eq, same, not_true_eq_false]

/-- A reservation that fails changes nothing, unless no slot could take it. -/
theorem reserve_error {alignment : Alignment}
    (failed : segments.reserve alignment length = some (next, .error error)) :
    next = segments ∨
      error = .busy ∧ segments.Exhausted length ∧ segments.sealTail = some next := by
  obtain ⟨_, tail, failed⟩ := bind_eq_some_iff.mp failed
  split at failed
  · rename_i nowhere
    obtain ⟨rotated, sealed, outcome⟩ := bind_eq_some_iff.mp failed
    cases outcome
    obtain ⟨rfl, none⟩ := or_eq_none_iff.mp nowhere
    exact .inr ⟨rfl, ⟨tail, firstFree_eq_none.mp none⟩, sealed⟩
  · obtain ⟨_, -, failed⟩ := bind_eq_some_iff.mp failed
    split at failed
    · cases failed
      exact .inl rfl
    split at failed
    · cases failed
      exact .inl rfl
    split at failed
    · cases failed
      exact .inl rfl
    split at failed
    · cases failed
      exact .inl rfl
    · -- From here on the reservation can only succeed.
      obtain ⟨rotated, -, failed⟩ := bind_eq_some_iff.mp failed
      obtain ⟨_, -, failed⟩ := bind_eq_some_iff.mp failed
      cases failed

theorem append_error (failed : segments.append length = some (next, .error error)) :
    next = segments ∨ error = .busy ∧ segments.ValidRequest length ∧
      segments.Exhausted length ∧ segments.sealTail = some next := by
  unfold append at failed
  split at failed
  · cases failed
    exact .inl rfl
  rename_i thawed
  split at failed
  · cases failed
    exact .inl rfl
  rename_i geometry configured
  split at failed
  · cases failed
    exact .inl rfl
  rename_i fits
  split at failed
  · cases failed
    exact .inl rfl
  rename_i whole extent
  split at failed
  · cases failed
    exact .inl rfl
  rename_i same
  rcases reserve_error failed with unchanged | ⟨busy, exhausted, sealed⟩
  · exact .inl unchanged
  · exact .inr ⟨busy, ⟨Bool.eq_false_iff.mpr thawed, geometry, whole, configured, fits, extent,
      not_not.mp same⟩, exhausted, sealed⟩

theorem append_exhausted (valid : segments.ValidRequest length)
    (exhausted : segments.Exhausted length) :
    segments.append length = segments.sealTail.map fun rotated => (rotated, .error .busy) := by
  obtain ⟨_, reserved⟩ := append_eq_reserve valid
  rw [reserved, reserve, exhausted.1, firstFree_eq_none.mpr exhausted.2]
  cases segments.sealTail <;> rfl

/-! ### Leases, eviction, reuse and grouping -/

theorem lease_error {id generation : Nat}
    (failed : segments.lease id generation = (next, .error error)) : next = segments := by
  unfold lease at failed
  split at failed
  · cases failed
    rfl
  split at failed
  · cases failed
    rfl
  split at failed <;> cases failed
  rfl

theorem beginEviction_error {id : Nat}
    (failed : segments.beginEviction id = (next, .error error)) : next = segments := by
  unfold beginEviction at failed
  split at failed
  · cases failed
    rfl
  split at failed
  · cases failed
    rfl
  split at failed
  · cases failed
    rfl
  split at failed <;> cases failed

theorem recycleEvicted_error {id : Nat}
    (failed : segments.recycleEvicted id = some (next, .error error)) : next = segments := by
  unfold recycleEvicted at failed
  split at failed
  · cases failed
    rfl
  split at failed
  · cases failed
    rfl
  split at failed
  · cases failed
    rfl
  split at failed
  · cases failed
    rfl
  · obtain ⟨_, -, failed⟩ := bind_eq_some_iff.mp failed
    obtain ⟨_, -, failed⟩ := bind_eq_some_iff.mp failed
    cases failed

theorem configureUsageGroups_error {counts : List Nat}
    (failed : segments.configureUsageGroups counts = some (next, .error error)) :
    next = segments := by
  unfold configureUsageGroups at failed
  split at failed
  · cases failed
    rfl
  · obtain ⟨_, -, failed⟩ := bind_eq_some_iff.mp failed
    cases failed

/-! ### Restore -/

variable {images : List SegmentSnapshot}

theorem configured_of_validated {epoch : Nat}
    (validated : segments.validateRestoreEpoch images = .ok epoch) :
    ∃ geometry, segments.geometry = some geometry := by
  cases configured : segments.geometry with
  | some geometry => exact ⟨geometry, rfl⟩
  | none =>
    unfold validateRestoreEpoch at validated
    simp only [configured] at validated
    split at validated
    · cases validated
    split at validated
    · cases validated
    split at validated <;> cases validated

variable {result : Except Error Unit}

/-- The loop that publishes validated images reaches its end. -/
theorem restoreSlots_published {slots new : List Slot} {rebuilt : Segments}
    (publishable : unpublishable images slots = none) (sameLength : images.length = slots.length)
    (looped : segments.restoreSlots slots images = some (rebuilt, new, result)) :
    result = .ok () ∧ new = List.zipWith Slot.publish slots images := by
  induction slots generalizing images segments new rebuilt result with
  | nil =>
    cases looped
    exact ⟨rfl, rfl⟩
  | cons _ slots ih =>
    cases images with
    | nil => cases sameLength
    | cons =>
      rw [unpublishable] at publishable
      rw [restoreSlots] at looped
      split at publishable
      · cases publishable
      rename_i published
      simp only [published] at looped
      obtain ⟨_, -, looped⟩ := bind_eq_some_iff.mp looped
      obtain ⟨⟨rebuilt, _, result⟩, further, outcome⟩ := bind_eq_some_iff.mp looped
      cases outcome
      obtain ⟨rfl, rfl⟩ := ih publishable (Nat.succ.inj sameLength) further
      refine ⟨rfl, ?_⟩
      rw [List.zipWith_cons_cons, Slot.publish, restoredGeneration_eq_ok published]

theorem restore_cases (restored : segments.restore images = some (next, result)) :
    (next = segments ∧ ∃ error, result = .error error) ∨
      result = .ok () ∧ next.slots = List.zipWith Slot.publish segments.slots images ∧
        images.length = segments.slots.length ∧
        ∀ pair ∈ images.zip segments.slots, pair.2.image.generation ≤ pair.1.generation := by
  unfold restore at restored
  split at restored
  · rename_i error _
    cases restored
    exact .inl ⟨rfl, error, rfl⟩
  · rename_i validated
    obtain ⟨_, configured⟩ := configured_of_validated validated
    have restorable := validateRestoreEpoch_eq_ok configured validated
    obtain ⟨⟨_, slots, _⟩, looped, restored⟩ := bind_eq_some_iff.mp restored
    obtain ⟨rfl, rfl⟩ := restoreSlots_published restorable.publishable restorable.sameLength looped
    cases restored
    exact .inr ⟨rfl, rfl, restorable.sameLength, restorable.current⟩

/-- A restore that succeeds lowers no generation. -/
theorem restore_monotone (restored : segments.restore images = some (next, .ok ())) {position : Nat}
    {slot : Slot} (found : segments.slots[position]? = some slot) :
    ∃ new, next.slots[position]? = some new ∧ slot.image.generation ≤ new.image.generation := by
  rcases restore_cases restored with ⟨-, _, absurd⟩ | ⟨-, slots, sameLength, current⟩
  · cases absurd
  obtain ⟨inside, rfl⟩ := List.getElem?_eq_some_iff.mp found
  have covered : position < images.length := sameLength ▸ inside
  refine ⟨segments.slots[position].publish images[position], ?_, ?_⟩
  · rw [slots, List.getElem?_zipWith, List.getElem?_eq_getElem inside,
      List.getElem?_eq_getElem covered]
  · have pair : (images[position], segments.slots[position]) ∈ images.zip segments.slots :=
      List.mem_iff_getElem.mpr ⟨position, by rw [List.length_zip]; omega, List.getElem_zip⟩
    have newer := current _ pair
    show _ ≤ publishedGeneration _ _
    unfold publishedGeneration
    split
    · exact Nat.le_succ _
    · exact newer

/-! ### Failed calls -/

/-- Whatever the table, a call that fails leaves it as it was, but for a valid request to append
that no slot can take: that one seals the open tail, and nothing else. The loop of a restore
never fails after the validation, and a restore that succeeds lowers no generation. -/
theorem failed_calls_change_nothing (segments : Segments) :
    (∀ length next error, segments.append length = some (next, .error error) →
      next = segments ∨ error = .busy ∧ segments.ValidRequest length ∧
        segments.Exhausted length ∧ segments.sealTail = some next) ∧
    (∀ length, segments.ValidRequest length → segments.Exhausted length →
      segments.append length = segments.sealTail.map fun rotated => (rotated, .error .busy)) ∧
    (∀ next, segments.sealTail = some next →
      next = segments ∧ segments.openSlot = none ∨
        ∃ tail slot, segments.openSlot = some tail ∧ segments.slots[tail]? = some slot ∧
          next = { segments with
            slots := segments.slots.set tail (slot.withState .sealed), openSlot := none }) ∧
    (∀ images next error, segments.restore images = some (next, .error error) → next = segments) ∧
    (∀ images epoch rebuilt slots result, segments.validateRestoreEpoch images = .ok epoch →
      segments.cleared.restoreSlots segments.slots images = some (rebuilt, slots, result) →
      result = .ok ()) ∧
    (∀ id generation next error, segments.lease id generation = (next, .error error) →
      next = segments) ∧
    (∀ id next error, segments.beginEviction id = (next, .error error) → next = segments) ∧
    (∀ id next error, segments.recycleEvicted id = some (next, .error error) → next = segments) ∧
    (∀ counts next error, segments.configureUsageGroups counts = some (next, .error error) →
      next = segments) ∧
    ∀ images next, segments.restore images = some (next, .ok ()) →
      next.slots.length = segments.slots.length ∧
      ∀ (position : Nat) (slot : Slot), segments.slots[position]? = some slot →
        ∃ new : Slot, next.slots[position]? = some new ∧
          slot.image.generation ≤ new.image.generation := by
  refine ⟨fun _ _ _ => append_error, fun _ => append_exhausted, fun next sealed => ?_,
    fun images next error failed => ?_,
    fun images epoch rebuilt slots result validated looped => ?_,
    fun _ _ _ _ => lease_error, fun _ _ _ => beginEviction_error,
    fun _ _ _ => recycleEvicted_error, fun _ _ _ => configureUsageGroups_error,
    fun images next restored => ⟨?_, fun position slot => restore_monotone restored⟩⟩
  · unfold sealTail at sealed
    split at sealed
    · rename_i none
      cases sealed
      exact .inl ⟨rfl, none⟩
    · rename_i tail opened
      obtain ⟨slot, found, sealed⟩ := bind_eq_some_iff.mp sealed
      cases sealed
      exact .inr ⟨tail, slot, opened, found, rfl⟩
  · rcases restore_cases failed with ⟨same, -⟩ | ⟨absurd, -⟩
    · exact same
    · cases absurd
  · obtain ⟨_, configured⟩ := configured_of_validated validated
    have restorable := validateRestoreEpoch_eq_ok configured validated
    exact (restoreSlots_published restorable.publishable restorable.sameLength looped).1
  · rcases restore_cases restored with ⟨-, error, absurd⟩ | ⟨-, slots, sameLength, -⟩
    · cases absurd
    · rw [slots, List.length_zipWith, sameLength, Nat.min_self]

/-- A slab of so many segments of eight bytes. -/
def slabOf (count : Nat) : Option SegmentGeometry :=
  ((Alignment.new 1 4 4).bind (SegmentGeometry.new (8 * count) 8 count)).toOption

/-- A table whose only slot is a half full tail. -/
def oneTail : Segments where
  segmentBytes := 8
  geometry := slabOf 1
  slots := [⟨{ id := 0, generation := 1, state := .opened, usedBytes := 4 }, 0, 0⟩]
  frozen := false
  restoreEpoch := 0
  openSlot := some 0
  free := ∅
  evicting := 0
  usage := [(8, 4)]

theorem failed_calls_oneTail :
    oneTail.append 8 = some ({ oneTail with
        slots := [⟨{ id := 0, generation := 1, state := .sealed, usedBytes := 4 }, 0, 0⟩]
        openSlot := none }, .error .busy) ∧
      ∀ next error, oneTail.restore [] = some (next, .error error) → next = oneTail :=
  ⟨(failed_calls_change_nothing oneTail).2.1 8
      ⟨rfl, _, _, rfl, by decide, rfl, rfl⟩ ⟨rfl, rfl⟩,
    fun next error => (failed_calls_change_nothing oneTail).2.2.2.1 [] next error⟩

end Unbounded.Alloc
