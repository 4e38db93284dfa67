/-
This file proves that the indexes of the slot table agree with its slots in
every state the callers can reach, and that no call panics there.

A call replaces one slot at a time and adjusts the indexes for it, so one lemma
(`Agrees.replace`) says what an index adjustment has to do and each call cites
it. Restore and regrouping rebuild the indexes by a loop over the slots; each
loop has a lemma that gives its result in closed form.
-/

import Unbounded.ListUpdate
import Unbounded.Segments
import Unbounded.Transition

namespace Unbounded.Alloc

open Segments Option List Word ListUpdate

/-! ### What the indexes mean -/

/-- The state of the slot at a position. -/
def Segments.stateAt (segments : Segments) (position : Nat) : Option SegmentState :=
  segments.slots[position]?.map (·.image.state)

variable (slots : List Slot)

/-- Number of slots in a usage group. -/
def groupCount (group : Nat) : Nat := slots.countP (·.usageGroup = group)

/-- A slot's contribution to the used bytes of a group. -/
def Slot.usedIn (slot : Slot) (group : Nat) : Nat :=
  if slot.usageGroup = group then slot.image.usedBytes else 0

/-- Used bytes of the slots in a usage group. -/
def groupUsed (group : Nat) : Nat := (slots.map (·.usedIn group)).sum

/-- What holds of the slot at a position, whatever the indexes say. -/
structure Slot.Sound (slot : Slot) (geometry : SegmentGeometry) (position : Nat) : Prop where
  identified : slot.image.id = position
  emptyExact : slot.image.usedBytes = 0 ↔ slot.image.state = .free
  fits : slot.image.usedBytes ≤ geometry.segmentBytes
  offsetAligned : geometry.alignment.offset ∣ slot.image.usedBytes
  lengthAligned : geometry.alignment.length ∣ slot.image.usedBytes
  openNotFull : slot.image.state = .opened → slot.image.usedBytes < geometry.segmentBytes

/-- The cached indexes agree with the slots. -/
structure Segments.Agrees (segments : Segments) (geometry : SegmentGeometry) : Prop where
  configured : segments.geometry = some geometry
  sized : geometry.segmentBytes = segments.segmentBytes
  counted : segments.slots.length = geometry.segmentCount
  openExact : ∀ position,
    segments.openSlot = some position ↔ segments.stateAt position = some .opened
  freeExact : ∀ position, position ∈ segments.free ↔ segments.stateAt position = some .free
  evictingExact : segments.evicting = segments.slots.countP (·.image.state = .evicting)
  usageExact : ∀ group, group < segments.usage.length → segments.usage[group]? =
    some (groupCount segments.slots group * segments.segmentBytes, groupUsed segments.slots group)
  grouped : ∀ slot ∈ segments.slots, slot.usageGroup < segments.usage.length
  sound : ∀ position (slot : Slot),
    segments.slots[position]? = some slot → slot.Sound geometry position

/-! ### Usage of the groups -/

theorem groupUsed_cons (slot : Slot) (slots : List Slot) (group : Nat) :
    groupUsed (slot :: slots) group = slot.usedIn group + groupUsed slots group :=
  rfl

/-- Slots that fit their segment use no more than the group's capacity. -/
theorem groupUsed_le (bytes group : Nat) (fits : ∀ slot ∈ slots, slot.image.usedBytes ≤ bytes) :
    groupUsed slots group ≤ groupCount slots group * bytes := by
  induction slots with
  | nil => simp [groupUsed]
  | cons slot _ ih =>
    have rest := ih fun other member => fits other (mem_cons_of_mem _ member)
    have head := fits slot mem_cons_self
    rw [groupUsed_cons, groupCount, countP_cons]
    by_cases same : slot.usageGroup = group
    · rw [Slot.usedIn, if_pos same, if_pos (by simpa using same), Nat.add_mul, Nat.one_mul,
        Nat.add_comm]
      exact Nat.add_le_add rest head
    · rw [Slot.usedIn, if_neg same, if_neg (by simpa using same), Nat.zero_add]
      exact rest

/-- The used bytes of a group of an addressable table fit a word. -/
theorem groupUsed_lt (geometry : SegmentGeometry) (group : Nat)
    (counted : slots.length = geometry.segmentCount)
    (fits : ∀ slot ∈ slots, slot.image.usedBytes ≤ geometry.segmentBytes) :
    groupUsed slots group < 2 ^ 64 := by
  calc groupUsed slots group
      ≤ groupCount slots group * geometry.segmentBytes := groupUsed_le _ _ _ fits
    _ ≤ slots.length * geometry.segmentBytes := Nat.mul_le_mul_right _ countP_le_length
    _ = geometry.segmentCount * geometry.segmentBytes := by rw [counted]
    _ < 2 ^ 64 := geometry.addressable

theorem addUsage_eq_some {usage raised : List (Nat × Nat)} {group bytes : Nat} :
    addUsage usage group bytes = some raised ↔ ∃ assigned used,
      usage[group]? = some (assigned, used) ∧ used + bytes < 2 ^ 64 ∧
        raised = usage.set group (assigned, used + bytes) := by
  simp only [addUsage, bind_eq_bind, bind_eq_some_iff, checkedAdd_eq_some, Prod.exists, some.injEq,
    and_assoc, exists_and_left, exists_eq_left, eq_comm (a := raised)]

theorem subtractUsage_eq_some {usage lowered : List (Nat × Nat)} {group bytes : Nat} :
    subtractUsage usage group bytes = some lowered ↔ ∃ assigned used,
      usage[group]? = some (assigned, used) ∧ bytes ≤ used ∧
        lowered = usage.set group (assigned, used - bytes) := by
  simp only [subtractUsage, bind_eq_bind, bind_eq_some_iff, checkedSub_eq_some, Prod.exists,
    some.injEq, and_assoc, exists_and_left, exists_eq_left, eq_comm (a := lowered)]

/-- One group's usage moves from counting `before` bytes of a slot to counting `after`. -/
structure Recharged (usage recharged : List (Nat × Nat)) (group before after : Nat) : Prop where
  sameLength : recharged.length = usage.length
  entry : ∀ other assigned used, usage[other]? = some (assigned, used) →
    ∃ moved, recharged[other]? = some (assigned, moved) ∧
      moved + (if group = other then before else 0) = used + (if group = other then after else 0)

theorem Recharged.refl (usage : List (Nat × Nat)) (group bytes : Nat) :
    Recharged usage usage group bytes bytes :=
  ⟨rfl, fun _ _ used found => ⟨used, found, rfl⟩⟩

theorem Recharged.set {usage : List (Nat × Nat)} {group assigned used moved before after : Nat}
    (found : usage[group]? = some (assigned, used)) (balance : moved + before = used + after) :
    Recharged usage (usage.set group (assigned, moved)) group before after := by
  refine ⟨length_set, fun other otherAssigned otherUsed otherFound => ?_⟩
  by_cases same : group = other
  · subst same
    rw [found] at otherFound
    obtain ⟨rfl, rfl⟩ := otherFound
    refine ⟨moved, by rw [getElem?_set_found found, if_pos rfl], ?_⟩
    rw [if_pos rfl, if_pos rfl]
    exact balance
  · refine ⟨otherUsed, by rw [getElem?_set_found found, if_neg (Ne.symm same), otherFound], ?_⟩
    rw [if_neg same, if_neg same]

/-! ### Replacing one slot -/

variable {segments : Segments} {position : Nat} {slot : Slot} {geometry : SegmentGeometry}

theorem stateAt_set {new : Slot} (found : segments.slots[position]? = some slot) (other : Nat) :
    ((segments.slots.set position new)[other]?).map (·.image.state) =
      if other = position then some new.image.state else segments.stateAt other := by
  rw [getElem?_set_found found]
  by_cases same : other = position
  · rw [if_pos same, if_pos same, map_some]
  · rw [if_neg same, if_neg same, stateAt]

/-- Replacing a slot keeps the agreement if the new slot is sound in the same group and every
index moves by what the slot's change asks for. -/
theorem Segments.Agrees.replace (agrees : segments.Agrees geometry)
    (found : segments.slots[position]? = some slot) (new : Slot)
    (sound : new.Sound geometry position) (sameGroup : new.usageGroup = slot.usageGroup)
    (openSlot : Option Nat) (free : Finset Nat) (evicting : Nat) (usage : List (Nat × Nat))
    (openMoved : ∀ other, openSlot = some other ↔
      if other = position then new.image.state = .opened else segments.openSlot = some other)
    (freeMoved : ∀ other, other ∈ free ↔
      if other = position then new.image.state = .free else other ∈ segments.free)
    (evictingMoved : evicting + (if slot.image.state = .evicting then 1 else 0) =
      segments.evicting + if new.image.state = .evicting then 1 else 0)
    (recharged : Recharged segments.usage usage slot.usageGroup slot.image.usedBytes
      new.image.usedBytes) :
    Segments.Agrees { segments with
      slots := segments.slots.set position new, openSlot, free, evicting, usage } geometry where
  __ := agrees
  counted := by rw [length_set]; exact agrees.counted
  openExact other := by
    rw [openMoved, stateAt, stateAt_set found]
    split
    · rw [some_inj]
    · exact agrees.openExact other
  freeExact other := by
    rw [freeMoved, stateAt, stateAt_set found]
    split
    · rw [some_inj]
    · exact agrees.freeExact other
  evictingExact := by
    have counts := countP_set_add (fun slot : Slot => decide (slot.image.state = .evicting))
      found new
    simp only [decide_eq_true_eq] at counts
    have before := agrees.evictingExact
    show evicting = (segments.slots.set position new).countP _
    omega
  usageExact group inside := by
    rw [recharged.sameLength] at inside
    obtain ⟨moved, entry, balance⟩ := recharged.entry group _ _ (agrees.usageExact group inside)
    have sums := sum_map_set (fun slot : Slot => slot.usedIn group) found new
    have counts := countP_set_add (fun slot : Slot => decide (slot.usageGroup = group)) found new
    simp only [Slot.usedIn, sameGroup] at sums counts
    have sameUsed : groupUsed (segments.slots.set position new) group = moved := by
      simp only [groupUsed, Slot.usedIn] at balance ⊢
      omega
    have sameCount : groupCount (segments.slots.set position new) group =
        groupCount segments.slots group := Nat.add_right_cancel counts
    rw [entry, sameUsed, sameCount]
  grouped other member := by
    rw [recharged.sameLength]
    rcases mem_or_eq_of_mem_set member with old | rfl
    · exact agrees.grouped other old
    · rw [sameGroup]
      exact agrees.grouped slot (mem_of_getElem? found)
  sound other otherSlot otherFound := by
    rw [getElem?_set_found found] at otherFound
    by_cases same : other = position
    · rw [if_pos same, some_inj] at otherFound
      rw [same, ← otherFound]
      exact sound
    · rw [if_neg same] at otherFound
      exact agrees.sound other otherSlot otherFound

theorem Slot.Sound.ofImage {old new : Slot}
    (sound : old.Sound geometry position) (same : new.image = old.image) :
    new.Sound geometry position := by
  cases old
  cases same
  exact { sound with }

/-- An index of the slots in one state stays if a slot does not enter or leave that state. -/
theorem index_kept {holds : Nat → Prop} {state new : SegmentState}
    (exact : ∀ other, holds other ↔ segments.stateAt other = some state)
    (found : segments.slots[position]? = some slot)
    (stays : slot.image.state = state ↔ new = state) (other : Nat) :
    holds other ↔ if other = position then new = state else holds other := by
  split
  · rename_i same
    rw [same, exact, stateAt, found, map_some, some_inj, stays]
  · rfl

/-- Replacing a slot by one of the same state, use and group keeps the agreement: a lease
counter is no index. -/
theorem Segments.Agrees.replaceLeases (agrees : segments.Agrees geometry)
    (found : segments.slots[position]? = some slot) (leases : Nat) :
    Segments.Agrees { segments with
      slots := segments.slots.set position { slot with leases } } geometry :=
  agrees.replace found { slot with leases } ((agrees.sound position slot found).ofImage rfl) rfl
    _ _ _ _ (index_kept agrees.openExact found Iff.rfl)
    (index_kept agrees.freeExact found Iff.rfl) rfl (.refl _ _ _)

theorem Slot.Sound.withState (sound : slot.Sound geometry position) {state : SegmentState}
    (occupied : slot.image.state ≠ .free) (stillOccupied : state ≠ .free)
    (closed : state ≠ .opened) : (slot.withState state).Sound geometry position where
  __ := sound
  emptyExact := iff_of_false (fun empty => occupied (sound.emptyExact.mp empty)) stillOccupied
  openNotFull opened := absurd opened closed

/-! ### How a slot moves from one state of the table to the next -/

/-- What a call may do to one slot. Its generation never falls and stays while the slot is
leased; at one generation an occupied slot is never freed, and the open tail was the open tail
before, unless the slot was free, and has only grown. -/
structure Slot.Evolves (old new : Slot) : Prop where
  monotone : old.image.generation ≤ new.image.generation
  occupied : new.image.generation = old.image.generation →
    old.image.state ≠ .free → new.image.state ≠ .free
  tail : new.image.generation = old.image.generation → new.image.state = .opened →
    old.image.state ≠ .free → old.image.state = .opened ∧ old.image.usedBytes ≤ new.image.usedBytes
  leased : old.leases ≠ 0 → new.image.generation = old.image.generation

theorem Slot.Evolves.ofImage {old new : Slot} (same : new.image = old.image) : old.Evolves new := by
  cases old
  cases same
  exact ⟨le_rfl, fun _ occupied => occupied, fun _ opened _ => ⟨opened, le_rfl⟩, fun _ => rfl⟩

theorem Slot.Evolves.withState (slot : Slot) (state : SegmentState) (stillOccupied : state ≠ .free)
    (closed : state ≠ .opened) : slot.Evolves (slot.withState state) where
  monotone := le_rfl
  occupied _ _ := stillOccupied
  tail _ opened _ := absurd opened closed
  leased _ := rfl

/-- Every slot evolves, and its lease counter becomes what `leases` says. -/
def Segments.Advances (before after : Segments) (leases : Nat → Nat → Nat) : Prop :=
  ∀ position (old : Slot), before.slots[position]? = some old → ∃ new : Slot,
    after.slots[position]? = some new ∧ old.Evolves new ∧ new.leases = leases position old.leases

/-- No lease counter moves. -/
def unmoved (_ leases : Nat) : Nat := leases

/-- One lease is taken on the slot at `taken`. -/
def oneMore (taken position leases : Nat) : Nat := if position = taken then leases + 1 else leases

/-- One lease is dropped on the slot at `dropped`. -/
def oneLess (dropped position leases : Nat) : Nat :=
  if position = dropped then leases - 1 else leases

theorem Segments.Advances.ofSlots {before after : Segments} (same : after.slots = before.slots) :
    before.Advances after unmoved :=
  fun _ old found => ⟨old, by rw [same]; exact found, .ofImage rfl, rfl⟩

variable {leases : Nat → Nat → Nat}

/-- A replacement on top of an advance that left the replaced slot alone. -/
theorem Segments.Advances.set {before middle after : Segments}
    (advances : before.Advances middle unmoved) (foundBefore : before.slots[position]? = some slot)
    (found : middle.slots[position]? = some slot) (new : Slot)
    (replaced : after.slots = middle.slots.set position new) (evolves : slot.Evolves new)
    (moved : new.leases = leases position slot.leases)
    (elsewhere : ∀ other count, other ≠ position → leases other count = count) :
    before.Advances after leases := by
  intro other old otherFound
  rw [replaced, getElem?_set_found found]
  by_cases same : other = position
  · subst same
    rw [foundBefore, some_inj] at otherFound
    rw [if_pos rfl, ← otherFound]
    exact ⟨new, rfl, evolves, moved⟩
  · obtain ⟨advanced, advancedFound, advancedEvolves, kept⟩ := advances other old otherFound
    rw [if_neg same]
    refine ⟨advanced, advancedFound, advancedEvolves, ?_⟩
    rw [elsewhere other old.leases same]
    exact kept

theorem Segments.Advances.ofSet {after : Segments} (found : segments.slots[position]? = some slot)
    (new : Slot) (replaced : after.slots = segments.slots.set position new)
    (evolves : slot.Evolves new) (moved : new.leases = leases position slot.leases)
    (elsewhere : ∀ other count, other ≠ position → leases other count = count) :
    segments.Advances after leases :=
  (Segments.Advances.ofSlots rfl).set found found new replaced evolves moved elsewhere

/-! ### Sealing the tail -/

/-- Sealing the open tail keeps the agreement and leaves the free slots alone. -/
theorem sealTail_spec (agrees : segments.Agrees geometry) :
    ∃ rotated, segments.sealTail = some rotated ∧ rotated.Agrees geometry ∧
      rotated.openSlot = none ∧ segments.Advances rotated unmoved ∧
      ∀ position ∈ segments.free, position ∈ rotated.free ∧
        rotated.slots[position]? = segments.slots[position]? := by
  unfold sealTail
  cases opened : segments.openSlot with
  | none =>
    exact ⟨segments, rfl, agrees, opened, .ofSlots rfl,
      fun position member => ⟨member, rfl⟩⟩
  | some previous =>
    have state := (agrees.openExact previous).mp opened
    obtain ⟨tail, found, tailOpened⟩ := map_eq_some_iff.mp state
    have occupied : tail.image.state ≠ .free := by rw [tailOpened]; decide
    simp only [found, bind_eq_bind, bind_some, some.injEq, exists_eq_left']
    refine ⟨?_, trivial, ?_, ?_⟩
    · refine agrees.replace found (tail.withState .sealed)
        ((agrees.sound previous tail found).withState occupied (by decide) (by decide)) rfl
        none segments.free segments.evicting segments.usage
        (fun other => ?_) (index_kept agrees.freeExact found (iff_of_false occupied nofun)) ?_
        (.refl _ _ _)
      · by_cases same : other = previous
        · simp [same, Slot.withState]
        · rw [if_neg same, opened, some_inj]
          exact iff_of_false (by simp) (Ne.symm same)
      · rw [tailOpened]
        rfl
    · exact .ofSet found _ rfl
        (.withState tail .sealed (by decide) (by decide)) rfl fun _ _ _ => rfl
    · intro position member
      refine ⟨member, ?_⟩
      have different : position ≠ previous := by
        rintro rfl
        rw [agrees.freeExact, state] at member
        cases member
      rw [getElem?_set_found found, if_neg different]

/-! ### Append -/

theorem takeLease_eq_ok {usedBytes : Nat} {leased : Slot} {lease : SegmentLease}
    (taken : segments.takeLease position slot usedBytes = .ok (leased, lease)) :
    leased = { slot with leases := slot.leases + 1 } ∧ lease.id = slot.image.id ∧
      lease.generation = slot.image.generation ∧ lease.count = position := by
  unfold takeLease at taken
  split at taken
  · cases taken
  split at taken
  · cases taken
  split at taken
  · cases taken
  split at taken
  · cases taken
  rename_i counted
  obtain ⟨-, rfl⟩ := checkedAdd_eq_some.mp counted
  cases taken
  exact ⟨rfl, rfl, rfl, rfl⟩

/-- A successful append of `extent` under `lease`: it extends the free slot or the open tail
`slot`, at its generation and from its used bytes on, to `new`. -/
structure Appends (before after : Segments) (lease : SegmentLease) (extent : Extent)
    (slot new : Slot) : Prop where
  found : before.slots[lease.id]? = some slot
  counter : lease.count = lease.id
  generation : lease.generation = slot.image.generation
  appendable : slot.image.state = .free ∨ slot.image.state = .opened
  offset : extent.offset = lease.id * before.segmentBytes + slot.image.usedBytes
  placed : after.slots[lease.id]? = some new
  sameGeneration : new.image.generation = slot.image.generation
  occupied : new.image.state ≠ .free
  used : new.image.usedBytes = slot.image.usedBytes + extent.length

/-- The slot an append leaves behind. -/
def Slot.filled (slot : Slot) (segmentBytes length : Nat) : Slot :=
  { slot with
    leases := slot.leases + 1
    image := { slot.image with
      state := if slot.image.usedBytes + length = segmentBytes then .sealed else .opened
      usedBytes := slot.image.usedBytes + length } }

theorem Slot.filled_state (slot : Slot) (segmentBytes length : Nat) :
    (slot.filled segmentBytes length).image.state =
      if slot.image.usedBytes + length = segmentBytes then .sealed else .opened :=
  rfl

theorem Slot.filled_occupied (slot : Slot) (segmentBytes length : Nat) :
    (slot.filled segmentBytes length).image.state ≠ .free := by
  rw [Slot.filled_state]
  split <;> decide

theorem Slot.Evolves.filled (segmentBytes length : Nat)
    (appendable : slot.image.state = .free ∨ slot.image.state = .opened) :
    slot.Evolves (slot.filled segmentBytes length) where
  monotone := le_rfl
  occupied _ _ := slot.filled_occupied segmentBytes length
  tail _ _ occupied := ⟨appendable.resolve_left occupied, Nat.le_add_right _ _⟩
  leased _ := rfl

variable {length : Nat}

theorem Slot.Sound.filled (sound : slot.Sound geometry position) (positive : 0 < length)
    (room : slot.image.usedBytes + length ≤ geometry.segmentBytes)
    (offsetAligned : geometry.alignment.offset ∣ length)
    (lengthAligned : geometry.alignment.length ∣ length) :
    (slot.filled geometry.segmentBytes length).Sound geometry position where
  identified := sound.identified
  emptyExact := by
    have nonempty : slot.image.usedBytes + length ≠ 0 := by omega
    exact iff_of_false nonempty (slot.filled_occupied _ _)
  fits := room
  offsetAligned := Nat.dvd_add sound.offsetAligned offsetAligned
  lengthAligned := Nat.dvd_add sound.lengthAligned lengthAligned
  openNotFull := by
    intro opened
    have notFull : slot.image.usedBytes + length ≠ geometry.segmentBytes := by
      intro full
      rw [Slot.filled_state, if_pos full] at opened
      cases opened
    exact lt_of_le_of_ne room notFull

section

variable (agrees : segments.Agrees geometry)

include agrees

/-- Charging an appendable slot of a table whose tail is that slot or none keeps the
agreement. -/
theorem place_spec (found : segments.slots[position]? = some slot)
    (appendable : slot.image.state = .free ∨ slot.image.state = .opened)
    (tail : segments.openSlot = none ∨ segments.openSlot = some position) (positive : 0 < length)
    (room : slot.image.usedBytes + length ≤ geometry.segmentBytes)
    (offsetAligned : geometry.alignment.offset ∣ length)
    (lengthAligned : geometry.alignment.length ∣ length) :
    ∃ placed, Segments.place { segments with free := segments.free.erase position } position
        { slot with leases := slot.leases + 1 } (slot.image.usedBytes + length) length =
          some placed ∧
      placed.Agrees geometry ∧
      placed.slots = segments.slots.set position (slot.filled segments.segmentBytes length) := by
  have sound := (agrees.sound position slot found).filled positive room offsetAligned lengthAligned
  rw [agrees.sized] at sound
  have inGroup : slot.usageGroup < segments.usage.length :=
    agrees.grouped slot (mem_of_getElem? found)
  have entry := agrees.usageExact slot.usageGroup inGroup
  have fitsAfter : groupUsed segments.slots slot.usageGroup + length < 2 ^ 64 := by
    have sums := sum_map_set (fun slot' : Slot => slot'.usedIn slot.usageGroup) found
      (slot.filled segments.segmentBytes length)
    have bound := groupUsed_lt
      (segments.slots.set position (slot.filled segments.segmentBytes length)) geometry
      slot.usageGroup (by rw [length_set]; exact agrees.counted) fun other member => by
        rcases mem_or_eq_of_mem_set member with old | rfl
        · obtain ⟨at', atFound⟩ := mem_iff_getElem?.mp old
          exact (agrees.sound at' other atFound).fits
        · exact sound.fits
    simp only [groupUsed, Slot.usedIn, Slot.filled, if_true] at sums bound ⊢
    omega
  have charged := addUsage_eq_some.mpr ⟨_, _, entry, fitsAfter, rfl⟩
  have notEvicting : slot.image.state ≠ .evicting := by
    rcases appendable with state | state <;> rw [state] <;> decide
  simp only [place, charged, bind_eq_bind, bind_some, some.injEq, exists_eq_left']
  refine ⟨agrees.replace found (slot.filled segments.segmentBytes length) sound rfl
    _ _ segments.evicting _ (fun other => ?_) (fun other => ?_) ?_
    (.set entry (by simp only [Slot.filled]; omega)), rfl⟩
  · rw [Slot.filled_state]
    by_cases same : other = position
    · rw [same]
      split <;> simp
    rw [if_neg same]
    refine iff_of_false ?_ ?_
    · split
      · nofun
      · exact fun here => same (some.inj here).symm
    · rcases tail with none | here
      · simp [none]
      · rw [here, some_inj]
        exact Ne.symm same
  · rw [Finset.mem_erase]
    by_cases same : other = position
    · rw [if_pos same]
      exact iff_of_false (fun both => both.1 same) (slot.filled_occupied _ _)
    · rw [if_neg same]
      exact and_iff_right same
  · rw [if_neg notEvicting, if_neg]
    rw [Slot.filled_state]
    split <;> decide

/-- The open tail is usable exactly when the request fits behind its used bytes. -/
theorem usableOpen_spec (length : Nat) :
    ∃ usable, segments.usableOpen length = some usable ∧ ∀ position, usable = some position →
      segments.openSlot = some position ∧ ∃ slot, segments.slots[position]? = some slot ∧
        slot.image.state = .opened ∧ slot.image.usedBytes + length ≤ geometry.segmentBytes := by
  unfold usableOpen
  cases opened : segments.openSlot with
  | none => exact ⟨none, rfl, nofun⟩
  | some previous =>
    obtain ⟨tail, found, tailOpened⟩ := map_eq_some_iff.mp ((agrees.openExact previous).mp opened)
    have fits := (agrees.sound previous tail found).fits
    rw [agrees.sized] at fits
    simp only [found, checkedSub_of_le fits, bind_eq_bind, bind_some, some.injEq, exists_eq_left']
    intro position chosen
    split at chosen
    · cases chosen
      refine ⟨rfl, tail, found, tailOpened, ?_⟩
      rw [agrees.sized]
      omega
    · cases chosen

omit agrees in
theorem firstFree_mem (first : segments.firstFree = some position) : position ∈ segments.free := by
  unfold firstFree at first
  split at first
  · cases first
    exact Finset.min'_mem _ _
  · cases first

/-- The slot an append chooses, and the table it is charged in: the tail is sealed first when
the slot is a free one. -/
theorem rotate_spec {usable : Option Nat}
    (small : length ≤ geometry.segmentBytes) (asked : segments.usableOpen length = some usable)
    (chosen : usable.or segments.firstFree = some position) :
    ∃ rotated slot, segments.rotate usable position =
        some { rotated with free := rotated.free.erase position } ∧
      rotated.Agrees geometry ∧ segments.Advances rotated unmoved ∧
      segments.slots[position]? = some slot ∧ rotated.slots[position]? = some slot ∧
      (slot.image.state = .free ∨ slot.image.state = .opened) ∧
      (rotated.openSlot = none ∨ rotated.openSlot = some position) ∧
      slot.image.usedBytes + length ≤ geometry.segmentBytes := by
  obtain ⟨usable', asked', spec⟩ := usableOpen_spec agrees length
  obtain rfl : usable = usable' := mem_unique asked asked'
  cases usable with
  | some previous =>
    obtain rfl : previous = position := some_inj.mp chosen
    obtain ⟨opened, slot, found, state, room⟩ := spec previous rfl
    refine ⟨segments, slot, ?_, agrees, .ofSlots rfl, found, found, Or.inr state, .inr opened, room⟩
    have notFree : previous ∉ segments.free := by
      rw [agrees.freeExact, (agrees.openExact previous).mp opened]
      simp
    rw [Finset.erase_eq_of_notMem notFree]
    rfl
  | none =>
    have free := firstFree_mem chosen
    obtain ⟨rotated, sealedTail, rotatedAgrees, noTail, advances, kept⟩ := sealTail_spec agrees
    obtain ⟨slot, found, state⟩ := map_eq_some_iff.mp ((agrees.freeExact position).mp free)
    refine ⟨rotated, slot, ?_, rotatedAgrees, advances, found,
      (kept position free).2.trans found, .inl state, .inl noTail, ?_⟩
    · rw [Segments.rotate, sealedTail]
      rfl
    · rw [(agrees.sound position slot found).emptyExact.mpr state, Nat.zero_add]
      exact small

/-- What an append leaves behind. -/
def AppendOutcome (before after : Segments) : Except Error (SegmentLease × Extent) → Prop
  | .error _ => before.Advances after unmoved
  | .ok (lease, extent) => before.Advances after (oneMore lease.count) ∧
    ∃ slot new, Appends before after lease extent slot new

theorem reserve_spec {whole : Extent} (positive : 0 < length)
    (small : length ≤ segments.segmentBytes)
    (rounded : geometry.alignment.extent 0 length = .ok whole) (exact : whole.length = length) :
    ∃ next result, segments.reserve geometry.alignment length = some (next, result) ∧
      next.Agrees geometry ∧ AppendOutcome segments next result := by
  obtain ⟨-, offsetAligned, lengthAligned, sameLength⟩ := Alignment.extent_eq_ok rounded
  rw [exact] at offsetAligned lengthAligned sameLength
  obtain ⟨usable, asked, -⟩ := usableOpen_spec agrees length
  unfold reserve
  simp only [asked, bind_eq_bind, bind_some]
  cases chosen : usable.or segments.firstFree with
  | none =>
    obtain ⟨rotated, sealedTail, rotatedAgrees, -, advances, -⟩ := sealTail_spec agrees
    refine ⟨rotated, .error .busy, ?_, rotatedAgrees, advances⟩
    rw [sealedTail]
    rfl
  | some position =>
    rw [← agrees.sized] at small
    obtain ⟨rotated, slot, rotation, rotatedAgrees, advances, found, rotatedFound,
      appendable, tail, room⟩ := rotate_spec agrees small asked chosen
    have unchanged : ∀ error, AppendOutcome segments segments (.error error) :=
      fun _ => .ofSlots rfl
    simp only [found, bind_some]
    split
    · exact ⟨_, _, rfl, agrees, unchanged _⟩
    rename_i placedAt
    split
    · exact ⟨_, _, rfl, agrees, unchanged _⟩
    rename_i extent extentMade
    split
    · exact ⟨_, _, rfl, agrees, unchanged _⟩
    rename_i usedMade
    obtain ⟨-, rfl⟩ := checkedAdd_eq_some.mp usedMade
    split
    · exact ⟨_, _, rfl, agrees, unchanged _⟩
    rename_i lease taken
    obtain ⟨rfl, leaseId, leaseGeneration, leaseCount⟩ := takeLease_eq_ok taken
    obtain ⟨placed, placing, placedAgrees, placedSlots⟩ := place_spec rotatedAgrees rotatedFound
      appendable tail positive room offsetAligned lengthAligned
    have identified := (agrees.sound position slot found).identified
    refine ⟨placed, .ok (lease, extent), ?_, placedAgrees, ?_, slot,
      slot.filled rotated.segmentBytes length, ?_⟩
    · rw [rotation, bind_some, placing]
      rfl
    · exact advances.set found rotatedFound _ placedSlots (.filled _ _ appendable)
        (by rw [leaseCount, oneMore, if_pos rfl]; rfl)
        fun other count different => if_neg (leaseCount ▸ different)
    · obtain ⟨_, startMade, offsetMade⟩ := bind_eq_some_iff.mp placedAt
      obtain ⟨-, rfl⟩ := checkedMul_eq_some.mp startMade
      obtain ⟨-, rfl⟩ := checkedAdd_eq_some.mp offsetMade
      rw [identified] at leaseId
      refine ⟨by rw [leaseId]; exact found, leaseCount.trans leaseId.symm, leaseGeneration,
        appendable, ?_, ?_, rfl, slot.filled_occupied _ _, ?_⟩
      · rw [(Alignment.extent_eq_ok extentMade).1, leaseId, identified]
      · rw [leaseId, placedSlots, getElem?_set_found rotatedFound, if_pos rfl]
      · rw [sameLength _ _ extentMade]
        rfl

/-- Append keeps the agreement and does not panic. -/
theorem append_spec (length : Nat) : ∃ next result, segments.append length = some (next, result) ∧
      next.Agrees geometry ∧ AppendOutcome segments next result := by
  have unchanged : ∀ error, AppendOutcome segments segments (.error error) := fun _ => .ofSlots rfl
  unfold append
  simp only [agrees.configured]
  split
  · exact ⟨_, _, rfl, agrees, unchanged _⟩
  split
  · exact ⟨_, _, rfl, agrees, unchanged _⟩
  rename_i valid
  split
  · exact ⟨_, _, rfl, agrees, unchanged _⟩
  rename_i rounded
  split
  · exact ⟨_, _, rfl, agrees, unchanged _⟩
  rename_i exact
  rw [not_or, Nat.not_lt] at valid
  exact reserve_spec agrees (Nat.pos_of_ne_zero valid.1) valid.2 rounded (not_not.mp exact)

/-! ### Leases, eviction and reuse -/

/-- What asking for a lease leaves behind. -/
def LeaseOutcome (before after : Segments) : Except Error SegmentLease → Prop
  | .error _ => before.Advances after unmoved
  | .ok lease => before.Advances after (oneMore lease.count) ∧ lease.count = lease.id ∧
    ∃ slot, after.slots[lease.id]? = some slot ∧ lease.generation = slot.image.generation

theorem lease_spec (id generation : Nat) : (segments.lease id generation).1.Agrees geometry ∧
      LeaseOutcome segments (segments.lease id generation).1 (segments.lease id generation).2 := by
  unfold lease
  split
  · exact ⟨agrees, .ofSlots rfl⟩
  rename_i slot found
  split
  · exact ⟨agrees, .ofSlots rfl⟩
  split
  · exact ⟨agrees, .ofSlots rfl⟩
  rename_i lease taken
  obtain ⟨rfl, leaseId, leaseGeneration, leaseCount⟩ := takeLease_eq_ok taken
  rw [(agrees.sound id slot found).identified] at leaseId
  refine ⟨agrees.replaceLeases found _, ?_, leaseCount.trans leaseId.symm,
    { slot with leases := slot.leases + 1 }, ?_, leaseGeneration⟩
  swap
  · rw [leaseId, getElem?_set_found found, if_pos rfl]
  exact .ofSet found { slot with leases := slot.leases + 1 } rfl
    (.ofImage rfl) (by rw [leaseCount, oneMore, if_pos rfl])
    fun other count different => if_neg (leaseCount ▸ different)

theorem dropLease_spec {lease : SegmentLease}
    (found : segments.slots[lease.count]? = some slot) (counted : 0 < slot.leases) :
    ∃ next, segments.dropLease lease = some next ∧ next.Agrees geometry ∧
      segments.Advances next (oneLess lease.count) := by
  refine ⟨_, ?_, agrees.replaceLeases found (slot.leases - 1), ?_⟩
  · simp only [dropLease, found, checkedSub_of_le counted, bind_eq_bind, bind_some]
  · exact .ofSet found { slot with leases := slot.leases - 1 } rfl
      (.ofImage rfl)
      (by rw [oneLess, if_pos rfl]) fun other count different => if_neg different

theorem beginEviction_spec (id : Nat) : (segments.beginEviction id).1.Agrees geometry ∧
      segments.Advances (segments.beginEviction id).1 unmoved := by
  unfold beginEviction
  split
  · exact ⟨agrees, .ofSlots rfl⟩
  split
  · exact ⟨agrees, .ofSlots rfl⟩
  rename_i slot found
  split
  · exact ⟨agrees, .ofSlots rfl⟩
  rename_i evictable
  split
  · rename_i notEvicting
    have slotSealed : slot.image.state = .sealed := (not_not.mp evictable).resolve_right notEvicting
    have closed : slot.image.state ≠ .opened := by rw [slotSealed]; decide
    have occupied : slot.image.state ≠ .free := by rw [slotSealed]; decide
    refine ⟨?_, ?_⟩
    · refine agrees.replace found (slot.withState .evicting)
        ((agrees.sound id slot found).withState occupied (by decide) (by decide)) rfl
        segments.openSlot segments.free (segments.evicting + 1) segments.usage
        (index_kept agrees.openExact found (iff_of_false closed nofun))
        (index_kept agrees.freeExact found (iff_of_false occupied nofun)) ?_ (.refl _ _ _)
      rw [if_neg notEvicting]
      rfl
    · exact .ofSet found _ rfl
        (.withState slot .evicting (by decide) (by decide)) rfl fun _ _ _ => rfl
  · exact ⟨agrees, .ofSlots rfl⟩

/-- Recycling keeps the agreement; neither of its subtractions goes below zero. -/
theorem recycleEvicted_spec (id : Nat) :
    ∃ next result, segments.recycleEvicted id = some (next, result) ∧ next.Agrees geometry ∧
      segments.Advances next unmoved := by
  unfold recycleEvicted
  split
  · exact ⟨_, _, rfl, agrees, .ofSlots rfl⟩
  split
  · exact ⟨_, _, rfl, agrees, .ofSlots rfl⟩
  rename_i slot found
  split
  · exact ⟨_, _, rfl, agrees, .ofSlots rfl⟩
  rename_i idle
  rw [not_or, not_not, not_not] at idle
  obtain ⟨evicting, unleased⟩ := idle
  split
  · exact ⟨_, _, rfl, agrees, .ofSlots rfl⟩
  rename_i generation advanced
  obtain ⟨-, rfl⟩ := checkedAdd_eq_some.mp advanced
  have counted : 1 ≤ segments.evicting := by
    rw [agrees.evictingExact]
    exact countP_pos_iff.mpr ⟨slot, mem_of_getElem? found, decide_eq_true evicting⟩
  have entry := agrees.usageExact slot.usageGroup (agrees.grouped slot (mem_of_getElem? found))
  have charged : slot.image.usedBytes ≤ groupUsed segments.slots slot.usageGroup := by
    have part := le_sum_map (fun other : Slot => other.usedIn slot.usageGroup) found
    rwa [Slot.usedIn, if_pos rfl] at part
  have refunded := subtractUsage_eq_some.mpr ⟨_, _, entry, charged, rfl⟩
  have closed : slot.image.state ≠ .opened := by rw [evicting]; decide
  let recycled : Slot := { slot with image := { slot.image with
    generation := slot.image.generation + 1, state := .free, usedBytes := 0 } }
  have sound : recycled.Sound geometry id :=
    ⟨(agrees.sound id slot found).identified, iff_of_true rfl rfl, Nat.zero_le _, dvd_zero _,
      dvd_zero _, nofun⟩
  simp only [checkedSub_of_le counted, refunded, bind_eq_bind, bind_some]
  refine ⟨_, _, rfl, ?_, ?_⟩
  · refine agrees.replace found recycled sound rfl _ _ _ _
      (index_kept agrees.openExact found (iff_of_false closed nofun)) (fun other => ?_) ?_
      (.set entry (Nat.sub_add_cancel charged))
    · rw [Finset.mem_insert]
      by_cases same : other = id
      · rw [if_pos same]
        exact iff_of_true (.inl same) rfl
      · rw [if_neg same]
        exact or_iff_right same
    · rw [if_pos evicting]
      exact Nat.sub_add_cancel counted
  · refine .ofSet found recycled rfl ⟨Nat.le_succ _, ?_, ?_, ?_⟩ rfl
      fun _ _ _ => rfl
    · exact fun same => absurd same (Nat.succ_ne_self _)
    · exact fun same => absurd same (Nat.succ_ne_self _)
    · exact fun leased => absurd unleased leased

end

end Unbounded.Alloc
