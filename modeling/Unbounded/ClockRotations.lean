/-
This file shows that two rotations of the clock suffice. A slot that was read
recently is passed over once, so a sealed or evicting slot is recycled the first or
the second time the hand comes by, wherever it starts. With no lease, no veto and
enough budget the sweep therefore finds every slot that is not the open tail.

The argument counts visits: a slot the hand reaches after `distance` visits is done
if more visits than that are left, and a whole rotation more while it counts as
recently read.
-/

import Unbounded.SegmentClock

namespace Unbounded.Alloc

open Segments Option List Word ListUpdate

/-! ### Evicting one slot -/

/-- A caller without vetoes that removes what the budget allows of a slot's mappings, and of no
other's. -/
structure Entries.Exact {Mappings : Type*} (entries : Entries Mappings)
    (held : Mappings → Nat → Nat) : Prop where
  empties : ∀ mappings id, entries.isEmpty mappings id = true ↔ held mappings id = 0
  reclaims : ∀ mappings id, entries.canReclaim mappings id = true
  evicts : ∀ mappings id, entries.canEvict mappings id = true
  removes : ∀ mappings id budget, ∃ next,
    entries.removeBounded mappings id budget = some (min budget (held mappings id), next) ∧
      held next id = held mappings id - budget ∧
      ∀ other, other ≠ id → held next other = held mappings other

/-- The slot waits to be reclaimed. -/
def Segments.Pending (segments : Segments) (id : Nat) : Prop :=
  segments.stateAt id = some .sealed ∨ segments.stateAt id = some .evicting

section

variable {segments begun next : Segments} {id : Nat} {slot : Slot} {geometry : SegmentGeometry}

theorem beginEviction_thawed (thawed : segments.frozen = false) (pending : segments.Pending id) :
    ∃ begun, segments.beginEviction id = (begun, .ok ()) := by
  unfold beginEviction
  rw [thawed, if_neg Bool.false_ne_true]
  unfold Segments.Pending stateAt at pending
  cases found : segments.slots[id]? with
  | none =>
    rw [found] at pending
    exact pending.elim nofun nofun
  | some =>
    rw [found, map_some, some_inj, some_inj] at pending
    dsimp only
    rw [if_neg (not_not.mpr pending)]
    split <;> exact ⟨_, rfl⟩

theorem recycleEvicted_idle (agrees : segments.Agrees geometry) (thawed : segments.frozen = false)
    (found : segments.slots[id]? = some slot) (evicting : slot.image.state = .evicting)
    (unleased : slot.leases = 0) (below : slot.image.generation + 1 < 2 ^ 64) :
    ∃ next, segments.recycleEvicted id = some (next, .ok ()) := by
  obtain ⟨next, result, recycles, -⟩ := recycleEvicted_spec agrees id
  cases result with
  | ok => exact ⟨next, recycles⟩
  | error =>
    unfold recycleEvicted at recycles
    rw [thawed, if_neg Bool.false_ne_true, found] at recycles
    dsimp only at recycles
    rw [if_neg (by simp [evicting, unleased]), checkedAdd_of_lt below] at recycles
    obtain ⟨_, -, recycles⟩ := bind_eq_some_iff.mp recycles
    obtain ⟨_, -, recycles⟩ := bind_eq_some_iff.mp recycles
    cases recycles

end

section

variable {Mappings : Type*} {entries : Entries Mappings} {held : Mappings → Nat → Nat}
  {geometry : SegmentGeometry} {sweep : Sweep Mappings} {id : Nat}

theorem Segments.Agrees.count_pos {segments : Segments} (agrees : segments.Agrees geometry) :
    0 < segments.count := by
  rw [Segments.count, agrees.counted]
  exact geometry.segmentCount_pos

/-- What an eviction leaves of a sweep: one slot more is free and no other has changed. -/
structure Evicted (held : Mappings → Nat → Nat) (geometry : SegmentGeometry)
    (sweep evicted : Sweep Mappings) (id : Nat) (clock : SegmentClock) : Prop where
  agrees : evicted.segments.Agrees geometry
  frozen : evicted.segments.frozen = sweep.segments.frozen
  clock : evicted.clock = clock
  freed : evicted.segments.stateAt id = some .free
  others : ∀ other, other ≠ id → evicted.segments.slots[other]? = sweep.segments.slots[other]?
  count : evicted.segments.count = sweep.segments.count
  closed : evicted.segments.slots.countP (·.image.state ≠ .opened) =
    sweep.segments.slots.countP (·.image.state ≠ .opened)
  freeCount : evicted.segments.freeCount = sweep.segments.freeCount + 1
  left : evicted.left + held sweep.mappings id = sweep.left
  drained : held evicted.mappings id = 0
  kept : ∀ other, other ≠ id → held evicted.mappings other = held sweep.mappings other

theorem drain_exact (exact : entries.Exact held) (enough : held sweep.mappings id ≤ sweep.left) :
    ∃ drained, sweep.drain entries id = some (drained, .ok ()) ∧
      drained.segments = sweep.segments ∧ drained.clock = sweep.clock ∧
      drained.left + held sweep.mappings id = sweep.left ∧ held drained.mappings id = 0 ∧
      ∀ other, other ≠ id → held drained.mappings other = held sweep.mappings other := by
  unfold Sweep.drain
  split
  · obtain ⟨_, removal, rest, kept⟩ := exact.removes sweep.mappings id sweep.left
    rw [removal, map_some, Nat.min_eq_right enough, if_neg (Nat.not_lt.mpr enough)]
    exact ⟨_, rfl, rfl, rfl, Nat.sub_add_cancel enough, by rw [rest]; omega, kept⟩
  · rename_i idle
    have empty : held sweep.mappings id = 0 := by
      by_contra some
      have nonempty : entries.isEmpty sweep.mappings id = false :=
        Bool.eq_false_iff.mpr fun empty => some ((exact.empties _ _).mp empty)
      exact idle ⟨by omega, nonempty⟩
    exact ⟨sweep, rfl, rfl, rfl, by rw [empty]; rfl, empty, fun _ _ => rfl⟩

/-- With no lease, no veto and enough budget a pending slot becomes free. -/
theorem evict_exact (exact : entries.Exact held) (agrees : sweep.segments.Agrees geometry)
    (thawed : sweep.segments.frozen = false) (pending : sweep.segments.Pending id)
    (idle : ∀ slot, sweep.segments.slots[id]? = some slot →
      slot.leases = 0 ∧ slot.image.generation + 1 < 2 ^ 64)
    (enough : held sweep.mappings id ≤ sweep.left) (clock : SegmentClock) :
    ∃ evicted, sweep.evict entries id clock = some (evicted, .ok true) ∧
      Evicted held geometry sweep evicted id clock := by
  obtain ⟨begun, begins⟩ := beginEviction_thawed thawed pending
  have agreeing : begun.Agrees geometry := by
    have spec := (beginEviction_spec agrees id).1
    rwa [begins] at spec
  obtain ⟨slot, found, table, occupied⟩ := beginEviction_begun begins
  have marked : begun.slots[id]? = some (slot.withState .evicting) := by
    rw [table]
    exact (getElem?_set_found found _ id).trans (if_pos rfl)
  obtain ⟨next, recycles⟩ := recycleEvicted_idle agreeing (by rw [table]; exact thawed) marked
    rfl (idle slot found).1 (idle slot found).2
  obtain ⟨drained, drains, same, clocked, left, empty, kept⟩ :=
    @drain_exact _ entries held { sweep with segments := begun, clock } id exact enough
  have recycled : next.Agrees geometry := by
    obtain ⟨next, result, recycling, agreed, -⟩ := recycleEvicted_spec agreeing id
    cases recycles.symm.trans recycling
    exact agreed
  obtain ⟨_, _, _, _, -, -, -, result⟩ := recycleEvicted_freed recycles
  have fresh : id ∉ sweep.segments.free := by
    rw [agrees.freeExact]
    rcases pending with state | state <;> rw [state] <;> decide
  refine ⟨{ drained with segments := next }, ?_, recycled, ?_, clocked, ?_, ?_, ?_, ?_, ?_, left,
    empty, kept⟩
  · unfold Sweep.evict
    rw [begins]
    dsimp only
    rw [drains, bind_some]
    unfold Sweep.reuse
    rw [if_pos ((exact.empties _ _).mpr empty), same, recycles]
    rfl
  · rw [result, table]
  · rw [result]
    exact congrArg _ ((getElem?_set_found marked _ id).trans (if_pos rfl))
  · intro other different
    rw [result]
    rw [getElem?_set_found marked, if_neg different, table]
    exact (getElem?_set_found found _ other).trans (if_neg different)
  · rw [result]
    show (begun.slots.set id _).length = _
    rw [length_set, table]
    exact length_set
  · have closed : slot.image.state ≠ .opened := by
      rcases occupied with ⟨state, -⟩ | ⟨state, -⟩ <;> rw [state] <;> decide
    rw [result]
    refine Eq.trans (countP_set_same (fun slot : Slot => decide (slot.image.state ≠ .opened)) marked
      (Eq.refl true)) ?_
    rw [table]
    exact countP_set_same _ found (decide_eq_true closed).symm
  · rw [result]
    rw [table]
    exact Finset.card_insert_of_notMem fresh

/-! ### Rotating -/

/-- The hand comes by the slot before the visits run out, with a rotation to spare if the slot
counts as recently read. -/
def SegmentClock.Reaches (clock : SegmentClock) (count id visits : Nat) : Prop :=
  ∃ distance, (clock.hand + distance) % count = id ∧
    distance + (if id ∈ clock.recent then count else 0) < visits

/-- Two rotations come by every slot, wherever the hand starts. -/
theorem SegmentClock.reaches_twice (clock : SegmentClock) {count id : Nat} (inside : id < count) :
    clock.Reaches count id (2 * count) := by
  have here : clock.hand % count < count := Nat.mod_lt _ (Nat.zero_lt_of_lt inside)
  refine ⟨(id + count - clock.hand % count) % count, ?_, ?_⟩
  · rw [Nat.add_mod_mod, ← Nat.mod_add_mod, Nat.add_sub_of_le (by omega), Nat.add_mod_right]
    exact Nat.mod_eq_of_lt inside
  · have short : (id + count - clock.hand % count) % count < count :=
      Nat.mod_lt _ (Nat.zero_lt_of_lt inside)
    split <;> omega

/-- What the sweep keeps while `visits` are left. -/
structure Rotating (held : Mappings → Nat → Nat) (geometry : SegmentGeometry) (visits : Nat)
    (sweep : Sweep Mappings) : Prop where
  agrees : sweep.segments.Agrees geometry
  thawed : sweep.segments.frozen = false
  idle : ∀ id slot, sweep.segments.Pending id → sweep.segments.slots[id]? = some slot →
    slot.leases = 0 ∧ slot.image.generation + 1 < 2 ^ 64
  enough : ∑ id ∈ Finset.range sweep.segments.count, held sweep.mappings id ≤ sweep.left
  reaches : ∀ id, sweep.segments.Pending id → sweep.clock.Reaches sweep.segments.count id visits

theorem Rotating.freeCount {visits : Nat} (rotating : Rotating held geometry visits sweep) :
    sweep.segments.freeCount = sweep.segments.slots.countP (·.image.state = .free) := by
  refine card_positions _ _ fun position => ?_
  rw [rotating.agrees.freeExact, stateAt]
  cases sweep.segments.slots[position]? with
  | none => simp
  | some => simp

/-- Moving the hand past a slot that is not pending any more, or was recently read, keeps every
pending slot within reach. -/
theorem SegmentClock.Reaches.moved {clock : SegmentClock} {count id visits : Nat}
    (some : 0 < count) (reaches : clock.Reaches count id (visits + 1)) {recent : Finset Nat}
    (fewer : recent ⊆ clock.recent)
    (passed : id = clock.hand % count → id ∈ clock.recent ∧ id ∉ recent) :
    Reaches { clock with hand := (clock.hand % count + 1) % count, recent } count id visits := by
  obtain ⟨distance, lands, early⟩ := reaches
  cases distance with
  | zero =>
    -- The hand stands here: the slot's second chance is used up, and a rotation is left.
    obtain ⟨chance, used⟩ := passed lands.symm
    rw [if_pos chance] at early
    refine ⟨count - 1, ?_, ?_⟩
    · rw [Nat.mod_add_mod, Nat.add_assoc, Nat.add_sub_of_le some, Nat.add_mod_right, Nat.mod_mod]
      exact lands
    · rw [if_neg used]
      omega
  | succ distance =>
    refine ⟨distance, ?_, ?_⟩
    · rw [Nat.mod_add_mod, Nat.add_assoc, Nat.mod_add_mod, Nat.add_comm 1 distance]
      exact lands
    · have less : (if id ∈ recent then count else 0) ≤ if id ∈ clock.recent then count else 0 := by
        split
        · rename_i member
          rw [if_pos (fewer member)]
        · exact Nat.zero_le _
      show distance + (if id ∈ recent then count else 0) < visits
      omega

section

variable {visits : Nat} (rotating : Rotating held geometry (visits + 1) sweep)

include rotating

/-- Passing the slot under the hand over. -/
theorem Rotating.pass {recent : Finset Nat} (fewer : recent ⊆ sweep.clock.recent)
    (passed : sweep.segments.Pending (sweep.clock.hand % sweep.segments.count) →
      sweep.clock.hand % sweep.segments.count ∈ sweep.clock.recent ∧
      sweep.clock.hand % sweep.segments.count ∉ recent) :
    Rotating held geometry visits ⟨sweep.toWork, { sweep.clock with
      hand := (sweep.clock.hand % sweep.segments.count + 1) % sweep.segments.count, recent }⟩ where
  __ := rotating
  reaches id pending := by
    exact (rotating.reaches id pending).moved rotating.agrees.count_pos fewer fun here =>
      here ▸ passed (here ▸ pending)

/-- Evicting the slot under the hand. -/
theorem Rotating.evict {evicted : Sweep Mappings}
    (inside : sweep.clock.hand % sweep.segments.count < sweep.segments.count)
    (becomes : Evicted held geometry ⟨sweep.toWork, (sweep.clock.next sweep.segments.count).2⟩
      evicted (sweep.clock.hand % sweep.segments.count) (sweep.clock.next sweep.segments.count).2) :
    Rotating held geometry visits evicted := by
  have others {id : Nat} (pending : evicted.segments.Pending id) :
      id ≠ sweep.clock.hand % sweep.segments.count := by
    rintro rfl
    unfold Segments.Pending at pending
    rw [becomes.freed] at pending
    exact pending.elim nofun nofun
  have earlier {id : Nat} (pending : evicted.segments.Pending id) : sweep.segments.Pending id := by
    have same := becomes.others id (others pending)
    unfold Segments.Pending stateAt at pending ⊢
    rwa [same] at pending
  refine ⟨becomes.agrees, becomes.frozen.trans rotating.thawed, ?_, ?_, ?_⟩
  · intro id slot pending found
    rw [becomes.others id (others pending)] at found
    exact rotating.idle id slot (earlier pending) found
  · have total := rotating.enough
    have left := becomes.left
    have member := Finset.mem_range.mpr inside
    rw [becomes.count]
    rw [← Finset.add_sum_erase _ _ member] at total ⊢
    have rest : ∑ other ∈ (Finset.range sweep.segments.count).erase
          (sweep.clock.hand % sweep.segments.count), held evicted.mappings other =
        ∑ other ∈ (Finset.range sweep.segments.count).erase
          (sweep.clock.hand % sweep.segments.count), held sweep.mappings other :=
      Finset.sum_congr rfl fun other outside => becomes.kept other (Finset.ne_of_mem_erase outside)
    rw [becomes.drained]
    dsimp only at left
    omega
  · intro id pending
    rw [becomes.count, becomes.clock]
    exact (rotating.reaches id (earlier pending)).moved (Nat.zero_lt_of_lt inside)
      (Finset.Subset.refl _) fun here => absurd here (others pending)

end

/-- The sweep succeeds exactly if enough slots are not the open tail. -/
theorem rotate_exact (exact : entries.Exact held) (target visits : Nat) {sweep : Sweep Mappings}
    (rotating : Rotating held geometry visits sweep) :
    ∃ after result,
      Sweep.rotate entries target visits sweep.segments.freeCount sweep = some (after, result) ∧
      (result = .ok () ↔ target ≤ sweep.segments.slots.countP (·.image.state ≠ .opened)) := by
  have some := rotating.agrees.count_pos
  have free := rotating.freeCount
  induction visits generalizing sweep with
  | zero =>
    have same : sweep.segments.slots.countP (·.image.state ≠ .opened) =
        sweep.segments.freeCount := by
      rw [free]
      refine countP_congr fun slot member => ?_
      obtain ⟨id, found⟩ := getElem?_of_mem member
      have settled : ¬ sweep.segments.Pending id := fun pending => by
        obtain ⟨_, -, early⟩ := rotating.reaches id pending
        exact absurd early (Nat.not_lt_zero _)
      unfold Segments.Pending stateAt at settled
      rw [found] at settled
      cases state : slot.image.state <;> simp [state] at settled ⊢
    refine ⟨sweep, _, rfl, ?_⟩
    rw [same]
    split
    · exact iff_of_true rfl ‹_›
    · exact iff_of_false nofun ‹_›
  | succ _ ih =>
    unfold Sweep.rotate
    split
    · rename_i enough
      refine ⟨sweep, _, rfl, iff_of_true rfl (enough.trans ?_)⟩
      rw [free]
      refine countP_mono_left fun slot _ freed => ?_
      rw [decide_eq_true_eq] at freed ⊢
      rw [freed]
      decide
    have inside : sweep.clock.hand % sweep.segments.count < sweep.segments.count :=
      Nat.mod_lt _ some
    have known : ∃ state, sweep.segments.state (sweep.clock.hand % sweep.segments.count) =
        .ok state := by
      unfold state
      rw [getElem?_eq_getElem inside]
      exact ⟨_, rfl⟩
    obtain ⟨_, known⟩ := known
    have here := state_eq_ok.mp known
    have passes {recent : Finset Nat} (fewer : recent ⊆ sweep.clock.recent)
        (passed : sweep.segments.Pending (sweep.clock.hand % sweep.segments.count) →
          sweep.clock.hand % sweep.segments.count ∈ sweep.clock.recent ∧
            sweep.clock.hand % sweep.segments.count ∉ recent) :=
      ih (rotating.pass fewer passed) some free
    dsimp only [SegmentClock.next]
    rw [known]
    dsimp only
    split
    · rename_i vetoed
      refine passes (Finset.Subset.refl _) fun pending => absurd vetoed ?_
      unfold Segments.Pending at pending
      rw [here, some_inj, some_inj] at pending
      rcases pending with rfl | rfl <;> simp [SegmentClock.eligible, exact.reclaims, exact.evicts]
    rename_i possible
    have pending : sweep.segments.Pending (sweep.clock.hand % sweep.segments.count) := by
      unfold Segments.Pending
      rw [here, some_inj, some_inj]
      simp only [SegmentClock.eligible, Bool.and_eq_true, Bool.or_eq_true, decide_eq_true_eq,
        Bool.not_eq_true', Bool.not_eq_false] at possible
      exact possible.1.1
    split
    · rename_i recently
      exact passes (Finset.erase_subset _ _) fun _ => ⟨recently, Finset.notMem_erase _ _⟩
    have enough : held sweep.mappings (sweep.clock.hand % sweep.segments.count) ≤ sweep.left :=
      (Finset.single_le_sum (fun _ _ => Nat.zero_le _) (Finset.mem_range.mpr inside)).trans
        rotating.enough
    split
    · rename_i exhausted
      have empty := (exact.empties sweep.mappings (sweep.clock.hand % sweep.segments.count)).mpr
        (by omega)
      exact Bool.noConfusion (empty.symm.trans exhausted.2)
    · obtain ⟨_, evicts, becomes⟩ := @evict_exact _ entries held geometry
        ⟨sweep.toWork, (sweep.clock.next sweep.segments.count).2⟩ _ exact rotating.agrees
        rotating.thawed pending (fun slot found => rotating.idle _ slot pending found) enough
        (sweep.clock.next sweep.segments.count).2
      have later := rotating.evict inside becomes
      obtain ⟨after, result, rotates, succeeds⟩ := ih later
        (by rw [becomes.count]; exact some) later.freeCount
      refine ⟨after, result, ?_, succeeds.trans (by rw [becomes.closed])⟩
      rw [becomes.freeCount] at rotates
      rw [← rotates]
      exact (congrArg (bind · _) evicts)

theorem countP_closed (slots : List Slot) :
    slots.countP (·.image.state ≠ .opened) = slots.countP (·.image.state = .free) +
      slots.countP (·.image.state = .sealed) + slots.countP (·.image.state = .evicting) := by
  induction slots with
  | nil => rfl
  | cons slot _ ih =>
    simp only [countP_cons, ih]
    cases slot.image.state <;> simp <;> omega

/-- For every configured and thawed table without leases and with generations to spare, and a
caller without vetoes, two rotations and a budget for all mappings succeed exactly if the free,
sealed and evicting slots make up the reserve, wherever the hand stands and whatever was read. -/
theorem two_rotations_suffice {segments : Segments} (agrees : segments.Agrees geometry)
    (thawed : segments.frozen = false) (unleased : ∀ slot ∈ segments.slots, slot.leases = 0)
    (advancing : ∀ slot ∈ segments.slots, slot.image.generation < 2 ^ 64 - 1)
    (exact : entries.Exact held) (clock : SegmentClock) (mappings : Mappings)
    (freeReserve : Nat) {maxVisits maxEntries : Nat} (visits : 2 * segments.count ≤ maxVisits)
    (word : maxVisits < 2 ^ 64)
    (budget : ∑ id ∈ Finset.range segments.count, held mappings id ≤ maxEntries) :
    ∃ after result, clock.reclaim entries segments mappings freeReserve maxVisits maxEntries =
        some (after, result) ∧
      (result = .ok () ↔ min freeReserve segments.count ≤
        segments.slots.countP (·.image.state = .free) +
          segments.slots.countP (·.image.state = .sealed) +
          segments.slots.countP (·.image.state = .evicting)) := by
  have some := agrees.count_pos
  unfold SegmentClock.reclaim
  split
  · rename_i none
    refine ⟨_, _, rfl, iff_of_true rfl ?_⟩
    rw [none]
    exact Nat.zero_le _
  rw [if_neg some.ne', ← countP_closed]
  have rounds : min (saturatingMul 64 segments.count 2) maxVisits = 2 * segments.count := by
    unfold saturatingMul
    omega
  rw [rounds]
  refine @rotate_exact _ entries held geometry exact _ _
    ⟨⟨segments, mappings, maxEntries⟩, clock.syncRestore segments⟩
    ⟨agrees, thawed, fun id slot _ found => ?_, budget, fun id pending => ?_⟩
  · have member := mem_of_getElem? found
    have below := advancing slot member
    exact ⟨unleased slot member, by omega⟩
  · have inside : id < segments.count := by
      by_contra outside
      unfold Segments.Pending stateAt at pending
      rw [getElem?_eq_none (Nat.not_lt.mp outside)] at pending
      exact pending.elim nofun nofun
    exact SegmentClock.reaches_twice _ inside

end

theorem counted_exact : (counted fun _ => false).Exact fun mappings => mappings where
  empties _ _ := decide_eq_true_iff
  reclaims _ _ := rfl
  evicts _ _ := rfl
  removes _ _ _ :=
    ⟨_, rfl, Function.update_self .., fun _ differs => Function.update_of_ne differs ..⟩

/-- Three sealed slots with eight mappings in all are reclaimed. -/
theorem two_rotations_suffice_threeSealed :
    ∃ after, SegmentClock.reclaim ⟨5, {0}, 0⟩ (counted fun _ => false) threeSealed threeMappings
      3 6 8 = some (after, .ok ()) := by
  obtain ⟨_, agrees⟩ := threeSealed_agrees
  obtain ⟨after, _, reclaims, succeeds⟩ := two_rotations_suffice agrees rfl (by decide)
    (by decide) counted_exact ⟨5, {0}, 0⟩ threeMappings 3
    (show 2 * threeSealed.count ≤ 6 from le_rfl) (by decide)
    (show ∑ id ∈ Finset.range threeSealed.count, threeMappings id ≤ 8 by decide)
  rw [succeeds.mpr (by decide)] at reclaims
  exact ⟨after, reclaims⟩

/-- A table without slots has nothing to reserve, and is refused nevertheless. -/
theorem unconfigured_unavailable :
    (Segments.new 8).frozen = false ∧
      min 1 (Segments.new 8).count = (Segments.new 8).slots.countP (·.image.state = .free) ∧
      ∃ after, SegmentClock.reclaim {} (counted fun _ => false) (Segments.new 8) threeMappings 1 2
        0 = some (after, .error .unavailable) :=
  ⟨rfl, rfl, _, rfl⟩

end Unbounded.Alloc
