/-
This file runs the slot table under its callers and proves what every run keeps:
the indexes agree with the slots and no call panics, no two appends share a byte
under one slot and generation, and a slot is not reissued at another generation
while a lease on it is live.

The history argument needs one fact about the appends of the past: an extent
lies below the used bytes of its slot for as long as the slot stays open at the
extent's generation, and at that generation the slot is never free again. Every
call keeps it because of what `Slot.Evolves` allows a slot to do.
-/

import Unbounded.SegmentsRebuild

namespace Unbounded.Alloc

open Segments Option List Word ListUpdate Transition

/-! ### The table and the leases held on it -/

/-- The table agrees with its slots, and its lease counters with the leases held; a held lease
carries the generation of its slot. -/
structure World.Consistent (world : World) (geometry : SegmentGeometry) : Prop where
  agrees : world.table.Agrees geometry
  counted : ∀ position (slot : Slot), world.table.slots[position]? = some slot →
    slot.leases = world.leases.countP (·.count = position)
  held : ∀ lease ∈ world.leases, lease.count = lease.id ∧
    ∃ slot, world.table.slots[lease.id]? = some slot ∧ lease.generation = slot.image.generation

variable {world : World} {geometry : SegmentGeometry} {lease : SegmentLease} {slot : Slot}

theorem World.Consistent.leased (consistent : world.Consistent geometry)
    (member : lease ∈ world.leases) (found : world.table.slots[lease.count]? = some slot) :
    0 < slot.leases := by
  rw [consistent.counted lease.count slot found]
  exact countP_pos_iff.mpr ⟨lease, member, decide_eq_true rfl⟩

variable {after before table : Segments}

section

variable (consistent : world.Consistent geometry)
include consistent

section

variable (agrees : table.Agrees geometry)

include agrees

/-- A table that advances by the lease counts the new list of leases asks for stays
consistent with it. -/
theorem World.Consistent.advance {moved : Nat → Nat → Nat}
    (advances : world.table.Advances table moved) (leases : List SegmentLease) (counts : ∀ position,
    moved position (world.leases.countP (·.count = position)) = leases.countP (·.count = position) )
    (held : ∀ lease ∈ leases, lease ∈ world.leases ∨ lease.count = lease.id ∧ ∃ slot,
      table.slots[lease.id]? = some slot ∧ lease.generation = slot.image.generation) :
    World.Consistent ⟨table, leases⟩ geometry where
  agrees := agrees
  counted position slot found := by
    have inside : position < world.table.slots.length := by
      rw [consistent.agrees.counted, ← agrees.counted]
      exact (List.getElem?_eq_some_iff.mp found).1
    have oldFound := List.getElem?_eq_getElem inside
    obtain ⟨new, newFound, -, newLeases⟩ := advances position _ oldFound
    obtain rfl : slot = new := mem_unique found newFound
    rw [newLeases, consistent.counted position _ oldFound]
    exact counts position
  held lease member := by
    rcases held lease member with old | fresh
    · obtain ⟨counter, slot, found, generation⟩ := consistent.held lease old
      obtain ⟨new, newFound, evolves, -⟩ := advances lease.id slot found
      have leased := consistent.leased old (counter ▸ found)
      exact ⟨counter, new, newFound, generation.trans (evolves.leased (Nat.ne_of_gt leased)).symm⟩
    · exact fresh

theorem World.Consistent.advanceUnmoved (advances : world.table.Advances table unmoved) :
    World.Consistent { world with table } geometry :=
  consistent.advance agrees advances world.leases (fun _ => rfl) fun _ member => .inl member

theorem World.Consistent.advanceLease (advances : world.table.Advances table (oneMore lease.count))
    (counter : lease.count = lease.id) (found : table.slots[lease.id]? = some slot)
    (generation : lease.generation = slot.image.generation) :
    World.Consistent ⟨table, lease :: world.leases⟩ geometry := by
  refine consistent.advance agrees advances _ (fun position => ?_) fun other member => ?_
  · rw [countP_cons, oneMore]
    by_cases same : position = lease.count
    · rw [if_pos same, if_pos (by simpa using same.symm)]
    · rw [if_neg same, if_neg (by simpa using Ne.symm same), Nat.add_zero]
  · rcases mem_cons.mp member with rfl | old
    · exact .inr ⟨counter, slot, found, generation⟩
    · exact .inl old

end

theorem World.Consistent.advanceDrop {index : Nat} (held : world.leases[index]? = some lease)
    (agrees : table.Agrees geometry) (advances : world.table.Advances table (oneLess lease.count)) :
    World.Consistent ⟨table, world.leases.eraseIdx index⟩ geometry := by
  refine consistent.advance agrees advances _ (fun position => ?_) fun other member =>
    Or.inl (mem_of_mem_eraseIdx member)
  have erased := countP_eraseIdx_add (fun lease : SegmentLease => decide (lease.count = position))
    held
  rw [oneLess]
  by_cases same : position = lease.count
  · rw [if_pos (by simpa using same.symm)] at erased
    rw [if_pos same, ← erased, Nat.add_sub_cancel]
  · rw [if_neg (by simpa using Ne.symm same), Nat.add_zero] at erased
    rw [if_neg same, erased]

end

/-! ### One call -/

/-- What one call with its reply does. -/
structure World.StepsTo (world next : World) (reply : Reply) (geometry : SegmentGeometry) :
    Prop where
  consistent : next.Consistent geometry
  evolves : ∀ (position : Nat) (old : Slot), world.table.slots[position]? = some old →
    ∃ new : Slot, next.table.slots[position]? = some new ∧ old.Evolves new
  appended : ∀ lease extent, reply = .appended lease extent →
    ∃ slot new, Appends world.table next.table lease extent slot new

theorem Segments.Advances.evolves {leases : Nat → Nat → Nat}
    (advances : before.Advances after leases) (position : Nat) (old : Slot)
    (found : before.slots[position]? = some old) :
    ∃ new : Slot, after.slots[position]? = some new ∧ old.Evolves new := by
  obtain ⟨new, newFound, evolves, -⟩ := advances position old found
  exact ⟨new, newFound, evolves⟩

theorem Segments.Agrees.withFrozen {segments : Segments}
    (agrees : segments.Agrees geometry) (frozen : Bool) :
    Segments.Agrees { segments with frozen } geometry :=
  { agrees with }

theorem World.answer_stepsTo
    (consistent : world.Consistent geometry) (outcome : Segments × Except Error Unit)
    (agrees : outcome.1.Agrees geometry) (advances : world.table.Advances outcome.1 unmoved) :
    world.StepsTo (world.answer outcome).1 (world.answer outcome).2 geometry := by
  refine ⟨consistent.advanceUnmoved agrees advances, advances.evolves, ?_⟩
  intro _ _ impossible
  unfold World.answer at impossible
  split at impossible <;> cases impossible

/-- No call on a consistent world panics, and it leaves a consistent world behind. -/
theorem World.perform_spec (consistent : world.Consistent geometry) (call : Call) :
    ∃ next reply, world.perform call = some (next, reply) ∧ world.StepsTo next reply geometry := by
  have same : world.table.Advances world.table unmoved := .ofSlots rfl
  cases call with
  | append length =>
    obtain ⟨table, result, appended, agrees, outcome⟩ := append_spec consistent.agrees length
    simp only [World.perform, appended, map_some]
    cases result with
    | error =>
      exact ⟨_, _, rfl, consistent.advanceUnmoved agrees outcome, outcome.evolves, nofun⟩
    | ok =>
      obtain ⟨advances, slot, new, appends⟩ := outcome
      refine ⟨_, _, rfl, consistent.advanceLease agrees advances appends.counter appends.placed
        (appends.generation.trans appends.sameGeneration.symm), advances.evolves, ?_⟩
      rintro _ _ ⟨⟩
      exact ⟨slot, new, appends⟩
  | lease id generation =>
    obtain ⟨agrees, outcome⟩ := lease_spec consistent.agrees id generation
    simp only [World.perform]
    split
    · rename_i table lease leased
      rw [leased] at agrees outcome
      obtain ⟨advances, counter, _, found, generation⟩ := outcome
      exact ⟨_, _, rfl, consistent.advanceLease agrees advances counter found generation,
        advances.evolves, nofun⟩
    · rename_i table error leased
      rw [leased] at agrees outcome
      exact ⟨_, _, rfl, consistent.advanceUnmoved agrees outcome, outcome.evolves, nofun⟩
  | dropLease =>
    simp only [World.perform]
    split
    · exact ⟨_, _, rfl, consistent, same.evolves, nofun⟩
    rename_i lease held
    have member := mem_of_getElem? held
    obtain ⟨counter, _, found, -⟩ := consistent.held lease member
    rw [← counter] at found
    obtain ⟨table, dropped, agrees, advances⟩ :=
      dropLease_spec consistent.agrees found (consistent.leased member found)
    rw [dropped]
    exact ⟨_, _, rfl, consistent.advanceDrop held agrees advances, advances.evolves, nofun⟩
  | beginEviction id =>
    obtain ⟨agrees, advances⟩ := beginEviction_spec consistent.agrees id
    exact ⟨_, _, rfl, World.answer_stepsTo consistent _ agrees advances⟩
  | recycleEvicted id =>
    obtain ⟨table, result, recycled, agrees, advances⟩ := recycleEvicted_spec consistent.agrees id
    refine ⟨_, _, ?_, World.answer_stepsTo consistent (table, result) agrees advances⟩
    rw [World.perform, recycled]
    rfl
  | configureUsageGroups counts =>
    obtain ⟨table, result, regrouped, agrees, advances⟩ :=
      configureUsageGroups_spec consistent.agrees counts
    refine ⟨_, _, ?_, World.answer_stepsTo consistent (table, result) agrees advances⟩
    rw [World.perform, regrouped]
    rfl
  | freeze =>
    exact ⟨_, _, rfl, World.answer_stepsTo consistent world.table.freeze
      (consistent.agrees.withFrozen true) (.ofSlots rfl)⟩
  | thaw =>
    have thawed : world.table.Advances world.table.thaw unmoved := .ofSlots rfl
    exact ⟨_, _, rfl, consistent.advanceUnmoved (consistent.agrees.withFrozen false) thawed,
      thawed.evolves, nofun⟩
  | snapshot =>
    exact ⟨_, _, rfl, consistent, same.evolves, nofun⟩
  | restore images =>
    obtain ⟨table, result, restored, agrees, advances⟩ := restore_spec consistent.agrees images
    refine ⟨_, _, ?_, World.answer_stepsTo consistent (table, result) agrees advances⟩
    rw [World.perform, restored]
    rfl

/-! ### Every run keeps the indexes -/

theorem blank_getElem? (count position : Nat) : ((List.range count).map Slot.blank)[position]? =
      if position < count then some (Slot.blank position) else none := by
  rw [getElem?_map]
  by_cases inside : position < count
  · rw [getElem?_range inside, if_pos inside, map_some]
  · rw [getElem?_eq_none (by rw [length_range]; omega), if_neg inside, map_none]

theorem blank_mem {count : Nat} (member : slot ∈ (List.range count).map Slot.blank) :
    slot.image.state = .free ∧ slot.image.usedBytes = 0 ∧ slot.usageGroup = 0 := by
  obtain ⟨_, -, rfl⟩ := mem_map.mp member
  exact ⟨rfl, rfl, rfl⟩

/-- A freshly configured table without leases is consistent. -/
theorem configureTable_consistent {segmentBytes capacity count : Nat} {alignment : Alignment}
    (configured : (Segments.new segmentBytes).configureTable capacity count alignment =
      (table, .ok ())) : ∃ geometry, World.Consistent ⟨table, []⟩ geometry := by
  unfold configureTable new at configured
  simp only [Bool.false_eq_true, if_false, isSome_none, false_or] at configured
  split at configured
  · cases configured
  split at configured
  · cases configured
  rename_i geometry made
  obtain ⟨sized, counted, -⟩ := SegmentGeometry.new_eq_ok made
  obtain ⟨rfl, -⟩ := configured
  have states : ∀ position, ((range count).map Slot.blank)[position]?.map
      (·.image.state) = if position < count then some .free else none := by
    intro position
    rw [blank_getElem?]
    split <;> rfl
  refine ⟨geometry, ⟨rfl, sized, ?_, fun position => ?_, fun position => ?_, ?_,
    fun group inside => ?_, fun slot member => ?_, fun position slot found => ?_⟩,
    fun position slot found => ?_, fun _ member => (not_mem_nil member).elim⟩
  · rw [length_map, length_range, counted]
  · rw [stateAt, states]
    split <;> simp
  · rw [stateAt, states]
    split <;> simp_all
  · refine (countP_eq_zero.mpr fun slot member => ?_).symm
    rw [(blank_mem member).1]
    decide
  · obtain rfl : group = 0 := Nat.lt_one_iff.mp inside
    have whole := group_whole ((range count).map Slot.blank) 0
      fun slot member => (blank_mem member).2.2
    have empty : (((range count).map Slot.blank).map (·.image.usedBytes)).sum = 0 := by
      refine sum_eq_zero fun used member => ?_
      obtain ⟨_, slotMember, rfl⟩ := mem_map.mp member
      exact (blank_mem slotMember).2.1
    rw [whole.1, whole.2, empty, length_map, length_range]
    rfl
  · rw [(blank_mem member).2.2]
    exact Nat.one_pos
  · rw [blank_getElem?] at found
    split at found
    · cases found
      refine ⟨rfl, iff_of_true rfl rfl, Nat.zero_le _, dvd_zero _, dvd_zero _, fun opened => ?_⟩
      cases opened
    · cases found
  · rw [blank_getElem?] at found
    split at found
    · cases found
      rfl
    · cases found

variable {first last next : World}

theorem World.Performs.stepsTo {step : Call × Reply} (performs : world.Performs step next)
    (consistent : world.Consistent geometry) : world.StepsTo next step.2 geometry := by
  obtain ⟨_, _, performed, stepsTo⟩ := World.perform_spec consistent step.1
  rw [World.Performs, performed] at performs
  obtain ⟨rfl, rfl⟩ := performs
  exact stepsTo

variable {steps : List (Call × Reply)}

theorem run_consistent (run : Run World.Performs first steps last)
    (consistent : first.Consistent geometry) : last.Consistent geometry :=
  run.invariant (fun world => world.Consistent geometry)
    (fun _ _ _ consistent performs => (performs.stepsTo consistent).consistent) consistent

/-- In every state reachable from a configured table the indexes agree with the slots, and no
call panics: no index is out of range and no subtraction goes below zero. -/
theorem indexes_agree {segmentBytes capacity count : Nat} {alignment : Alignment} {table : Segments}
    (configured : (Segments.new segmentBytes).configureTable capacity count alignment =
      (table, .ok ())) {steps : List (Call × Reply)} {world : World}
    (run : Run World.Performs ⟨table, []⟩ steps world) :
    ∃ geometry, world.table.Agrees geometry ∧ ∀ call, (world.perform call).isSome = true := by
  obtain ⟨geometry, start⟩ := configureTable_consistent configured
  have consistent := run_consistent run start
  refine ⟨geometry, consistent.agrees, fun call => ?_⟩
  obtain ⟨_, _, performed, -⟩ := World.perform_spec consistent call
  rw [performed]
  rfl

/-- A table of two segments of eight bytes, after one append. -/
theorem indexes_agree_append :
    ∃ table reply world, (Segments.new 8).configureTable 16 2 ⟨1, 4, 4, rfl, by decide, by decide⟩ =
        (table, .ok ()) ∧
      Run World.Performs ⟨table, []⟩ [(.append 4, reply)] world ∧
      ∃ geometry, world.table.Agrees geometry ∧ ∀ call, (world.perform call).isSome = true := by
  obtain ⟨table, configured⟩ : ∃ table,
      (new 8).configureTable 16 2 ⟨1, 4, 4, rfl, by decide, by decide⟩ = (table, .ok ()) := ⟨_, rfl⟩
  obtain ⟨-, -, total⟩ := indexes_agree configured (Run.nil _)
  obtain ⟨⟨world, reply⟩, performed⟩ := isSome_iff_exists.mp (total (.append 4))
  have run : Run World.Performs ⟨table, []⟩ [(.append 4, reply)] world := Run.single performed
  exact ⟨table, reply, world, configured, run, indexes_agree configured run⟩

/-! ### The history of the appends -/

/-- What an append of the past still says about the table: at its generation its slot has not
been free since, and while the slot is the open tail the extent lies below the used bytes. -/
def Remembers (table : Segments) (lease : SegmentLease) (extent : Extent) : Prop :=
  ∃ slot : Slot, table.slots[lease.id]? = some slot ∧
    lease.generation ≤ slot.image.generation ∧
    (slot.image.generation = lease.generation → slot.image.state ≠ .free ∧
      (slot.image.state = .opened → extent.offset + extent.length ≤
        lease.id * table.segmentBytes + slot.image.usedBytes))

theorem Appends.remembers {extent : Extent} {new : Slot}
    (appends : Appends before after lease extent slot new)
    (sized : after.segmentBytes = before.segmentBytes) : Remembers after lease extent := by
  refine ⟨new, appends.placed, ?_, fun _ => ⟨appends.occupied, fun _ => ?_⟩⟩
  · rw [appends.generation, appends.sameGeneration]
  · rw [appends.offset, appends.used, sized, Nat.add_assoc]

/-- A step does not forget an append. -/
theorem Remembers.step {reply : Reply} {extent : Extent}
    (remembers : Remembers world.table lease extent) (consistent : world.Consistent geometry)
    (stepsTo : world.StepsTo next reply geometry) : Remembers next.table lease extent := by
  obtain ⟨slot, found, reached, past⟩ := remembers
  obtain ⟨new, newFound, evolves⟩ := stepsTo.evolves lease.id slot found
  have sized : next.table.segmentBytes = world.table.segmentBytes :=
    stepsTo.consistent.agrees.sized.symm.trans consistent.agrees.sized
  refine ⟨new, newFound, reached.trans evolves.monotone, fun current => ?_⟩
  -- At the append's generation the slot has kept that generation throughout.
  have stayed : slot.image.generation = lease.generation :=
    le_antisymm (current ▸ evolves.monotone) reached
  have same : new.image.generation = slot.image.generation := current.trans stayed.symm
  obtain ⟨occupied, below⟩ := past stayed
  refine ⟨evolves.occupied same occupied, fun opened => ?_⟩
  obtain ⟨wasOpened, _⟩ := evolves.tail same opened occupied
  have bound := below wasOpened
  rw [sized]
  omega

/-- A new append shares no byte with a remembered one of its slot and generation. -/
theorem Remembers.disjoint {earlier : SegmentLease} {earlierExtent extent : Extent} {new : Slot}
    (remembers : Remembers before earlier earlierExtent)
    (appends : Appends before after lease extent slot new) (sameId : earlier.id = lease.id)
    (sameGeneration : earlier.generation = lease.generation) : earlierExtent.Disjoint extent := by
  obtain ⟨live, found, -, past⟩ := remembers
  rw [sameId] at found past
  obtain rfl : slot = live := mem_unique appends.found found
  obtain ⟨occupied, below⟩ := past (by rw [sameGeneration, appends.generation])
  refine .inl ?_
  rw [appends.offset]
  exact below (appends.appendable.resolve_left occupied)

/-- Two steps that append under one slot and generation append disjoint extents. -/
def ApartSteps (earlier later : Call × Reply) : Prop :=
  ∀ earlierLease earlierExtent laterLease laterExtent,
    earlier.2 = .appended earlierLease earlierExtent → later.2 = .appended laterLease laterExtent →
    earlierLease.id = laterLease.id → earlierLease.generation = laterLease.generation →
    earlierExtent.Disjoint laterExtent

/-- Every append of a run is remembered at its end, and the appends are apart. -/
theorem run_appends (run : Run World.Performs first steps last)
    (consistent : first.Consistent geometry) :
    (∀ step ∈ steps, ∀ lease extent, step.2 = .appended lease extent →
      Remembers last.table lease extent) ∧ steps.Pairwise ApartSteps := by
  induction run with
  | nil => exact ⟨fun _ member => (not_mem_nil member).elim, List.Pairwise.nil⟩
  | snoc earlier final ih =>
    rename_i middle last steps step
    obtain ⟨remembered, apart⟩ := ih
    have middleConsistent := run_consistent earlier consistent
    have stepsTo := final.stepsTo middleConsistent
    have sized : last.table.segmentBytes = middle.table.segmentBytes :=
      stepsTo.consistent.agrees.sized.symm.trans middleConsistent.agrees.sized
    constructor
    · refine forall_mem_snoc (fun other old lease extent appended => ?_)
        fun lease extent appended => ?_
      · exact (remembered other old lease extent appended).step middleConsistent stepsTo
      · obtain ⟨_, new, appends⟩ := stepsTo.appended lease extent appended
        exact appends.remembers sized
    · rw [pairwise_append]
      refine ⟨apart, pairwise_singleton _ _, ?_⟩
      intro old oldMember new newMember oldLease oldExtent lease extent oldAppended appended sameId
        sameGeneration
      rw [mem_singleton.mp newMember] at appended
      obtain ⟨_, _, appends⟩ := stepsTo.appended lease extent appended
      exact (remembered old oldMember oldLease oldExtent oldAppended).disjoint appends sameId
        sameGeneration

/-- No byte is issued twice. In every run from a configured table two appends under one slot and
generation return disjoint extents, and at its end no append returns an extent of a leased slot
at a generation other than the lease's. -/
theorem bytes_issued_once {segmentBytes capacity count : Nat} {alignment : Alignment}
    {table : Segments}
    (configured : (Segments.new segmentBytes).configureTable capacity count alignment =
      (table, .ok ())) {steps : List (Call × Reply)} {world : World}
    (run : Run World.Performs ⟨table, []⟩ steps world) :
    steps.Pairwise ApartSteps ∧
      ∀ length next lease extent,
        world.Performs (.append length, .appended lease extent) next →
        ∀ held ∈ world.leases, held.id = lease.id → held.generation = lease.generation := by
  obtain ⟨_, start⟩ := configureTable_consistent configured
  have consistent := run_consistent run start
  refine ⟨(run_appends run start).2, ?_⟩
  intro length next lease extent performs held member sameId
  obtain ⟨slot, _, appends⟩ := (performs.stepsTo consistent).appended lease extent rfl
  obtain ⟨-, live, found, generation⟩ := consistent.held held member
  rw [sameId] at found
  obtain rfl : slot = live := mem_unique appends.found found
  rw [generation, appends.generation]

/-- A table of two segments of eight bytes, with two appends to its first slot. -/
theorem bytes_issued_once_two_appends :
    ∃ table first second firstExtent secondExtent world,
      (Segments.new 8).configureTable 16 2 ⟨1, 4, 4, rfl, by decide, by decide⟩ = (table, .ok ()) ∧
      Run World.Performs ⟨table, []⟩ [(.append 4, .appended first firstExtent),
        (.append 4, .appended second secondExtent)] world ∧
      first.id = second.id ∧ first.generation = second.generation ∧
      firstExtent.Disjoint secondExtent := by
  obtain ⟨table, first, second, firstExtent, secondExtent, world, configured, run, sameId,
      sameGeneration⟩ : ∃ table first second firstExtent secondExtent world,
      (new 8).configureTable 16 2 ⟨1, 4, 4, rfl, by decide, by decide⟩ = (table, .ok ()) ∧
      Run World.Performs ⟨table, []⟩ [(.append 4, .appended first firstExtent),
        (.append 4, .appended second secondExtent)] world ∧
      first.id = second.id ∧ first.generation = second.generation := by
    have configured := Eq.refl
      ((new 8).configureTable 16 2 ⟨1, 4, 4, rfl, by decide, by decide⟩)
    exact ⟨_, _, _, _, _, _, configured, Run.cons rfl (Run.single rfl), rfl, rfl⟩
  have apart := pairwise_cons.mp (bytes_issued_once configured run).1
  exact ⟨table, first, second, firstExtent, secondExtent, world, configured, run, sameId,
    sameGeneration, apart.1 _ (mem_singleton.mpr rfl) _ _ _ _ rfl rfl sameId sameGeneration⟩

end Unbounded.Alloc
