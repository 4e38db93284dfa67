/-
This file models the clock that reclaims slots of the table, and proves what it may
do. The clock sweeps the slots with one hand. Plain reclamation gives recently read
slots a second chance; scored reclamation ranks sealed slots by the score the caller
gives them and evicts the cheapest first. Both enter eviction, remove mappings within
a budget, and recycle a slot once it has neither mappings nor leases.

The mappings belong to the caller. The clock sees them through four operations: two
vetoes, a bounded removal and a test for emptiness. A step that would panic has no
result.

Every reclamation is a sequence of visits. What one visit may do is said once, by
`Visits`, and both sweeps are runs of such visits.
-/

import Unbounded.SegmentsErrors

namespace Unbounded.Alloc

open Segments Option Word ListUpdate Transition

/-! ### The clock -/

/-- Number of retained slots. -/
def Segments.count (segments : Segments) : Nat := segments.slots.length

/-- Number of immediately appendable slots, excluding pending eviction. -/
def Segments.freeCount (segments : Segments) : Nat := segments.free.card

/-- Inspect a valid slot. -/
def Segments.state (segments : Segments) (id : Nat) : Except Error SegmentState :=
  match segments.slots[id]? with
  | none => .error .corrupt
  | some slot => .ok slot.image.state

/-- What the clock sees of the caller's mappings. -/
structure Entries (Mappings : Type*) where
  /-- Hard retention veto, including index-only removal and eviction in progress. -/
  canReclaim : Mappings → Nat → Bool
  /-- Active unpublished writes must not lose publication authority. -/
  canEvict : Mappings → Nat → Bool
  /-- Remove at most budget current mappings, returning the number removed. -/
  removeBounded : Mappings → Nat → Nat → Option (Nat × Mappings)
  /-- Whether no current mapping refers to the segment. -/
  isEmpty : Mappings → Nat → Bool

/-- One worker-local cursor and recent-read set for index and physical reclamation. -/
structure SegmentClock where
  hand : Nat := 0
  recent : Finset Nat := ∅
  restoreEpoch : Nat := 0

/-- What a reclamation works on: the table, the mappings and the mapping removals left. -/
structure Work (Mappings : Type*) where
  segments : Segments
  mappings : Mappings
  left : Nat

/-- The state of one reclamation. -/
structure Sweep (Mappings : Type*) extends Work Mappings where
  clock : SegmentClock

namespace SegmentClock

variable (clock : SegmentClock)

/-- Clear transient eviction history after successful table recovery. -/
def syncRestore (segments : Segments) : SegmentClock :=
  if clock.restoreEpoch = segments.restoreEpoch then clock
  else { hand := 0, recent := ∅, restoreEpoch := segments.restoreEpoch }

/-- Advance one slot. -/
def next (count : Nat) : Nat × SegmentClock :=
  let hand := clock.hand % count
  (hand, { clock with hand := (hand + 1) % count })

variable {Mappings : Type*} (entries : Entries Mappings)

/-- The slot may be evicted: it is sealed or already evicting and not vetoed. -/
def eligible (mappings : Mappings) (id : Nat) (state : SegmentState) : Bool :=
  (state = .sealed || state = .evicting) && entries.canReclaim mappings id &&
    (state ≠ .sealed || entries.canEvict mappings id)

/-- A candidate for eviction: whether it is sealed, its score, its visit and its slot. -/
abbrev Ranked := Bool × Nat × Nat × Nat

/-- Visit slots and collect those that may be evicted. Rank before any side effects. -/
def collect (segments : Segments) (mappings : Mappings) (score : Nat → Nat) :
    Nat → Nat → SegmentClock → List Ranked → SegmentClock × Except Error (List Ranked)
  | 0, _, clock, ranked => (clock, .ok ranked)
  | visits + 1, visit, clock, ranked =>
    let (id, clock) := clock.next segments.count
    match segments.state id with
    | .error error => (clock, .error error)
    | .ok state =>
      collect segments mappings score visits (visit + 1) clock
        (if eligible entries mappings id state then
          ranked ++ [(decide (state ≠ .evicting), if state = .evicting then 0 else score id,
            visit, id)]
        else ranked)

/-- Existing eviction work sorts first, then the lowest score, then the earliest visit. -/
def rankedLe (first second : Ranked) : Prop :=
  first.1 < second.1 ∨ first.1 = second.1 ∧
    (first.2.1 < second.2.1 ∨ first.2.1 = second.2.1 ∧ first.2.2.1 ≤ second.2.2.1)

instance : DecidableRel rankedLe := fun first second => inferInstanceAs (Decidable
  (first.1 < second.1 ∨ first.1 = second.1 ∧
    (first.2.1 < second.2.1 ∨ first.2.1 = second.2.1 ∧ first.2.2.1 ≤ second.2.2.1)))

end SegmentClock

namespace Sweep

variable {Mappings : Type*} (entries : Entries Mappings) (sweep : Sweep Mappings)

/-- Remove mappings of a slot under eviction, while the budget lasts. -/
def drain (id : Nat) : Option (Sweep Mappings × Except Error Unit) :=
  if sweep.left ≠ 0 ∧ entries.isEmpty sweep.mappings id = false then
    (entries.removeBounded sweep.mappings id sweep.left).map fun removed =>
      if removed.1 > sweep.left then
        ({ sweep with mappings := removed.2 }, .error .invalidConfiguration)
      else ({ sweep with mappings := removed.2, left := sweep.left - removed.1 }, .ok ())
  else some (sweep, .ok ())

/-- Recycle a drained slot and say whether it became free; one with leases waits. -/
def reuse (id : Nat) : Option (Sweep Mappings × Except Error Bool) :=
  if entries.isEmpty sweep.mappings id then
    (sweep.segments.recycleEvicted id).map fun recycled =>
      ({ sweep with segments := recycled.1 },
        match recycled.2 with
        | .ok () => .ok true
        | .error .busy => .ok false
        | .error error => .error error)
  else some (sweep, .ok false)

/-- Evict one candidate; once eviction has begun the clock is `clock`. -/
def evict (id : Nat) (clock : SegmentClock) : Option (Sweep Mappings × Except Error Bool) :=
  match sweep.segments.beginEviction id with
  | (segments, .error error) => some ({ sweep with segments }, .error error)
  | (segments, .ok ()) =>
    (({ sweep with segments, clock }).drain entries id).bind fun drained =>
      match drained.2 with
      | .error error => some (drained.1, .error error)
      | .ok () => drained.1.reuse entries id

/-- The clock without the slot among its recent reads. -/
def forget (id : Nat) : SegmentClock := { sweep.clock with recent := sweep.clock.recent.erase id }

/-- A ranked candidate is passed over: vetoed, not needed any more, or with mappings that the
budget does not reach. -/
def skips (target id : Nat) (state : SegmentState) : Bool :=
  !entries.canReclaim sweep.mappings id ||
    (state = .sealed && (decide (target ≤ sweep.segments.freeCount + sweep.segments.evicting) ||
      !entries.canEvict sweep.mappings id)) ||
    (sweep.left = 0 && !entries.isEmpty sweep.mappings id)

/-- Evict the candidates in their order, up to the first error. -/
def evictAll (target : Nat) :
    List Nat → Sweep Mappings → Option (Sweep Mappings × Except Error Unit)
  | [], sweep => some (sweep, .ok ())
  | id :: rest, sweep =>
    match sweep.segments.state id with
    | .error error => some (sweep, .error error)
    | .ok state =>
      if sweep.skips entries target id state then evictAll target rest sweep
      else (sweep.evict entries id (sweep.forget id)).bind fun evicted =>
        match evicted.2 with
        | .error error => some (evicted.1, .error error)
        | .ok _ => evictAll target rest evicted.1

/-- Visit slots until enough are free; a recently read one is passed over once. -/
def rotate (target : Nat) :
    Nat → Nat → Sweep Mappings → Option (Sweep Mappings × Except Error Unit)
  | 0, free, sweep => some (sweep, if target ≤ free then .ok () else .error .busy)
  | visits + 1, free, sweep =>
    if target ≤ free then some (sweep, .ok ())
    else
      let (id, clock) := sweep.clock.next sweep.segments.count
      let sweep := { sweep with clock }
      match sweep.segments.state id with
      | .error error => some (sweep, .error error)
      | .ok state =>
        if !SegmentClock.eligible entries sweep.mappings id state then
          rotate target visits free sweep
        else if id ∈ clock.recent then
          rotate target visits free { sweep with clock := sweep.forget id }
        else if sweep.left = 0 ∧ entries.isEmpty sweep.mappings id = false then
          rotate target visits free sweep
        else (sweep.evict entries id clock).bind fun evicted =>
          match evicted.2 with
          | .error error => some (evicted.1, .error error)
          | .ok freed => rotate target visits (if freed then free + 1 else free) evicted.1

end Sweep

namespace SegmentClock

variable {Mappings : Type*} (clock : SegmentClock) (entries : Entries Mappings)
  (segments : Segments) (mappings : Mappings) (freeReserve maxVisits maxEntries : Nat)

/-- Visit a bounded number of slots, then rank eligible candidates before entering eviction.
Scores are soft preferences, not pins. -/
def reclaimScored (score : Nat → Nat) : Option (Sweep Mappings × Except Error Unit) :=
  let clock := clock.syncRestore segments
  if freeReserve = 0 then some (⟨⟨segments, mappings, maxEntries⟩, clock⟩, .ok ())
  else if segments.count = 0 then
    some (⟨⟨segments, mappings, maxEntries⟩, clock⟩, .error .unavailable)
  else
    let target := min freeReserve segments.count
    if target ≤ segments.freeCount ∧ segments.evicting = 0 then
      some (⟨⟨segments, mappings, maxEntries⟩, clock⟩, .ok ())
    else
      match collect entries segments mappings score (min (min segments.count maxVisits) 64) 0
          clock [] with
      | (clock, .error error) => some (⟨⟨segments, mappings, maxEntries⟩, clock⟩, .error error)
      | (clock, .ok ranked) =>
        (Sweep.evictAll entries target ((ranked.insertionSort rankedLe).map (·.2.2.2))
          ⟨⟨segments, mappings, maxEntries⟩, clock⟩).map fun swept =>
            (swept.1,
              match swept.2 with
              | .error error => .error error
              | .ok () => if target ≤ swept.1.segments.freeCount then .ok () else .error .busy)

/-- Reclaim a reserve with bounded visits and mapping removals, without compaction. -/
def reclaim : Option (Sweep Mappings × Except Error Unit) :=
  let clock := clock.syncRestore segments
  if freeReserve = 0 then some (⟨⟨segments, mappings, maxEntries⟩, clock⟩, .ok ())
  else if segments.count = 0 then
    some (⟨⟨segments, mappings, maxEntries⟩, clock⟩, .error .unavailable)
  else
    Sweep.rotate entries (min freeReserve segments.count)
      (min (saturatingMul 64 segments.count 2) maxVisits) segments.freeCount
      ⟨⟨segments, mappings, maxEntries⟩, clock⟩

end SegmentClock

/-! ### What the table's two steps do -/

section Steps

variable {segments begun next : Segments} {id : Nat}

theorem state_eq_ok {state : SegmentState} :
    segments.state id = .ok state ↔ segments.stateAt id = some state := by
  unfold Segments.state Segments.stateAt
  cases segments.slots[id]? with
  | none => exact iff_of_false nofun nofun
  | some => exact ⟨fun same => by cases same; rfl, fun same => by cases same; rfl⟩

/-- Entering eviction marks one sealed or evicting slot. -/
theorem beginEviction_begun (begins : segments.beginEviction id = (begun, .ok ())) :
    ∃ slot, segments.slots[id]? = some slot ∧ begun = { segments with
        evicting := begun.evicting, slots := segments.slots.set id (slot.withState .evicting) } ∧
      (slot.image.state = .sealed ∧ begun.evicting = segments.evicting + 1 ∨
        slot.image.state = .evicting ∧ begun.evicting = segments.evicting) := by
  unfold beginEviction at begins
  split at begins
  · cases begins
  split at begins
  · cases begins
  rename_i slot found
  split at begins
  · cases begins
  rename_i evictable
  split at begins
  · rename_i fresh
    cases begins
    exact ⟨slot, found, rfl, .inl ⟨(not_not.mp evictable).resolve_right fresh, rfl⟩⟩
  · rename_i evicting
    cases begins
    have same : slot.withState .evicting = slot := by
      rw [Slot.withState, ← not_not.mp evicting]
    obtain ⟨_, equal⟩ := List.getElem?_eq_some_iff.mp found
    refine ⟨slot, found, ?_, .inr ⟨not_not.mp evicting, rfl⟩⟩
    rw [same, ← equal, List.set_getElem_self]

/-- Recycling frees one evicting slot without leases. -/
theorem recycleEvicted_freed (recycles : segments.recycleEvicted id = some (next, .ok ())) :
    ∃ slot evicting usage, segments.slots[id]? = some slot ∧ slot.image.state = .evicting ∧
      slot.leases = 0 ∧ evicting + 1 = segments.evicting ∧
      next = { segments with
        slots := segments.slots.set id { slot with image := { slot.image with
          generation := slot.image.generation + 1, state := .free, usedBytes := 0 } }
        evicting, usage
        free := insert id segments.free } := by
  unfold recycleEvicted at recycles
  split at recycles
  · cases recycles
  split at recycles
  · cases recycles
  rename_i slot found
  split at recycles
  · cases recycles
  rename_i idle
  rw [not_or, not_not, not_not] at idle
  split at recycles
  · cases recycles
  rename_i generation advanced
  obtain ⟨-, rfl⟩ := checkedAdd_eq_some.mp advanced
  obtain ⟨_, counted, recycles⟩ := bind_eq_some_iff.mp recycles
  obtain ⟨usage, -, recycles⟩ := bind_eq_some_iff.mp recycles
  obtain ⟨enough, rfl⟩ := checkedSub_eq_some.mp counted
  cases recycles
  exact ⟨slot, _, usage, found, idle.1, idle.2, Nat.sub_add_cancel enough, rfl⟩

end Steps

/-! ### What a visit may do -/

/-- The caller's mappings are as they should: `held` counts the mappings of a slot, a removal
takes at most its budget of them and says how many, and a slot is empty if it holds none. -/
structure Entries.Truthful {Mappings : Type*} (entries : Entries Mappings)
    (held : Mappings → Nat → Nat) : Prop where
  empties : ∀ mappings id, entries.isEmpty mappings id = true ↔ held mappings id = 0
  removes : ∀ mappings id budget, ∃ removed next,
    entries.removeBounded mappings id budget = some (removed, next) ∧ removed ≤ budget ∧
      held next id + removed = held mappings id

/-- One slot the clock worked on, the mappings it removed, and whether it recycled the slot. -/
structure Visit where
  id : Nat
  removed : Nat
  recycled : Bool

/-- What a visit may do. The slot is sealed or evicting and no veto holds; a sealed one is entered
only under the condition `begins`. Mappings of that slot are removed within the budget, and only
then, without mappings and leases, is it recycled. -/
structure Visits {Mappings : Type*} (entries : Entries Mappings) (held : Mappings → Nat → Nat)
    (begins : Segments → Prop) (before : Work Mappings) (visit : Visit) (after : Work Mappings) :
    Prop where
  allowed : entries.canReclaim before.mappings visit.id = true
  occupied : before.segments.stateAt visit.id = some .sealed ∨
    before.segments.stateAt visit.id = some .evicting
  evictable : before.segments.stateAt visit.id = some .sealed →
    entries.canEvict before.mappings visit.id = true ∧ begins before.segments
  removal : visit.removed = 0 ∧ after.mappings = before.mappings ∨
    entries.removeBounded before.mappings visit.id before.left =
      some (visit.removed, after.mappings)
  budget : after.left + visit.removed = before.left
  kept : visit.recycled = false → after.segments = (before.segments.beginEviction visit.id).1
  reused : visit.recycled = true → held after.mappings visit.id = 0 ∧
    (∃ slot, before.segments.slots[visit.id]? = some slot ∧ slot.leases = 0) ∧
    (before.segments.beginEviction visit.id).1.recycleEvicted visit.id =
      some (after.segments, .ok ())

section Safety

variable {Mappings : Type*} {entries : Entries Mappings} {held : Mappings → Nat → Nat}
  {begins : Segments → Prop} {geometry : SegmentGeometry} {sweep : Sweep Mappings} {id : Nat}

/-- Removing mappings keeps within the budget. -/
theorem Sweep.drain_removes (truthful : entries.Truthful held) :
    ∃ drained removed, sweep.drain entries id = some (drained, .ok ()) ∧
      drained.segments = sweep.segments ∧ drained.left + removed = sweep.left ∧
      (removed = 0 ∧ drained.mappings = sweep.mappings ∨
        entries.removeBounded sweep.mappings id sweep.left = some (removed, drained.mappings)) := by
  unfold drain
  split
  · obtain ⟨removed, _, removal, within, -⟩ := truthful.removes sweep.mappings id sweep.left
    rw [removal, map_some, if_neg (Nat.not_lt.mpr within)]
    exact ⟨_, removed, rfl, rfl, Nat.sub_add_cancel within, .inr rfl⟩
  · exact ⟨sweep, 0, rfl, rfl, rfl, .inl ⟨rfl, rfl⟩⟩

/-- Whether an eviction made its slot free. -/
def freed : Except Error Bool → Bool
  | .ok freed => freed
  | .error _ => false

section

variable (truthful : entries.Truthful held) (agrees : sweep.segments.Agrees geometry)

include truthful agrees

/-- Recycling an empty slot frees it, or changes nothing. -/
theorem Sweep.reuse_recycles : ∃ reused result, sweep.reuse entries id = some (reused, result) ∧
      reused.segments.Agrees geometry ∧ reused.mappings = sweep.mappings ∧
      reused.left = sweep.left ∧
      (freed result = false ∧ reused.segments = sweep.segments ∨
        freed result = true ∧ held sweep.mappings id = 0 ∧
          sweep.segments.recycleEvicted id = some (reused.segments, .ok ())) := by
  unfold reuse
  split
  · rename_i drained
    obtain ⟨_, outcome, recycles, agreeing, -⟩ := recycleEvicted_spec agrees id
    rw [recycles]
    refine ⟨_, _, rfl, agreeing, rfl, rfl, ?_⟩
    cases outcome with
    | ok => exact .inr ⟨rfl, (truthful.empties _ _).mp drained, rfl⟩
    | error error =>
      refine .inl ⟨?_, recycleEvicted_error recycles⟩
      cases error <;> rfl
  · exact ⟨sweep, _, rfl, agrees, rfl, rfl, .inl ⟨rfl, rfl⟩⟩

/-- An allowed eviction is one visit, or fails at once. -/
theorem Sweep.evict_visits (allowed : entries.canReclaim sweep.mappings id = true)
    (evictable : sweep.segments.stateAt id = some .sealed →
      entries.canEvict sweep.mappings id = true ∧ begins sweep.segments)
    (clock : SegmentClock) :
    ∃ evicted result, sweep.evict entries id clock = some (evicted, result) ∧
      evicted.segments.Agrees geometry ∧
      (freed result = false ∧ evicted.toWork = sweep.toWork ∨
        ∃ visit, visit.recycled = freed result ∧
          Visits entries held begins sweep.toWork visit evicted.toWork) := by
  unfold evict
  cases begun : sweep.segments.beginEviction id with
  | mk segments outcome =>
    cases outcome with
    | error =>
      obtain rfl := beginEviction_error begun
      exact ⟨sweep, _, rfl, agrees, .inl ⟨rfl, rfl⟩⟩
    | ok =>
      have agreeing : segments.Agrees geometry := by
        have spec := (beginEviction_spec agrees id).1
        rwa [begun] at spec
      obtain ⟨slot, found, table, occupied⟩ := beginEviction_begun begun
      have here : sweep.segments.stateAt id = some slot.image.state := by
        rw [stateAt, found]
        rfl
      obtain ⟨drained, removed, drains, same, budget, removal⟩ :=
        @drain_removes _ entries held { sweep with segments, clock } id truthful
      obtain ⟨reused, result, reuses, agreed, mappings, left, outcome⟩ :=
        @reuse_recycles _ entries held geometry drained id truthful (by rw [same]; exact agreeing)
      refine ⟨reused, result, ?_, agreed, .inr ⟨⟨id, removed, freed result⟩, rfl, allowed,
        occupied.imp (here.trans <| congrArg some ·.1) (here.trans <| congrArg some ·.1),
        evictable, ?_, ?_, ?_, ?_⟩⟩
      · dsimp only
        rw [drains]
        exact reuses
      · rw [mappings]
        exact removal
      · rw [left]
        exact budget
      · intro kept
        rcases outcome with ⟨-, unchanged⟩ | ⟨became, -⟩
        · exact unchanged.trans (same.trans (congrArg Prod.fst begun).symm)
        · exact Bool.noConfusion (kept.symm.trans became)
      · intro became
        rcases outcome with ⟨kept, -⟩ | ⟨-, empty, recycles⟩
        · exact Bool.noConfusion (kept.symm.trans became)
        rw [same] at recycles
        obtain ⟨_, -, -, foundMarked, -, unleased, -⟩ := recycleEvicted_freed recycles
        rw [table, getElem?_set_found found, if_pos rfl] at foundMarked
        cases foundMarked
        refine ⟨by rw [mappings]; exact empty, ⟨slot, found, unleased⟩, ?_⟩
        rw [begun]
        exact recycles

end

/-- A visit adds its slot to the free ones exactly if it recycled it. -/
theorem Visits.freeCount {before after : Work Mappings} {visit : Visit}
    (visits : Visits entries held begins before visit after)
    (agrees : before.segments.Agrees geometry) :
    after.segments.freeCount = before.segments.freeCount + visit.recycled.toNat := by
  have free : (before.segments.beginEviction visit.id).1.free = before.segments.free := by
    cases begun : before.segments.beginEviction visit.id with
    | mk segments outcome =>
      cases outcome with
      | error => rw [beginEviction_error begun]
      | ok =>
        obtain ⟨slot, -, table, -⟩ := beginEviction_begun begun
        rw [table]
  cases recycled : visit.recycled with
  | false =>
    rw [visits.kept recycled, Segments.freeCount, free]
    rfl
  | true =>
    obtain ⟨-, -, recycles⟩ := visits.reused recycled
    obtain ⟨_, _, _, -, -, -, -, table⟩ := recycleEvicted_freed recycles
    have fresh : visit.id ∉ before.segments.free := by
      rw [agrees.freeExact]
      rcases visits.occupied with state | state <;> rw [state] <;> decide
    rw [table, Segments.freeCount, free, Finset.card_insert_of_notMem fresh]
    rfl

/-- An eviction in a run of visits, with the free slots counted. -/
theorem Sweep.evict_run (truthful : entries.Truthful held) (agrees : sweep.segments.Agrees geometry)
    {state : SegmentState} (known : sweep.segments.state id = .ok state)
    (allowed : entries.canReclaim sweep.mappings id = true) (evictable : state = .sealed →
      entries.canEvict sweep.mappings id = true ∧ begins sweep.segments) (clock : SegmentClock) :
    ∃ evicted result labels, sweep.evict entries id clock = some (evicted, result) ∧
      evicted.segments.Agrees geometry ∧
      Run (Visits entries held begins) sweep.toWork labels evicted.toWork ∧
      evicted.segments.freeCount = sweep.segments.freeCount + (freed result).toNat := by
  have here := state_eq_ok.mp known
  obtain ⟨evicted, result, evicts, agreeing, outcome⟩ := @evict_visits _ entries held begins
    geometry sweep id truthful agrees allowed
    (fun sealed => evictable (mem_unique here sealed)) clock
  rcases outcome with ⟨kept, same⟩ | ⟨visit, recycled, visits⟩
  · refine ⟨evicted, result, [], evicts, agreeing, same ▸ .nil _, ?_⟩
    rw [kept, same]
    rfl
  · refine ⟨evicted, result, [visit], evicts, agreeing, .single visits, ?_⟩
    rw [← recycled]
    exact visits.freeCount agrees

/-- The mappings that visits remove and those they may still remove add up. -/
theorem visits_removed {before after : Work Mappings} {visits : List Visit}
    (run : Run (Visits entries held begins) before visits after) :
    after.left + (visits.map (·.removed)).sum = before.left := by
  induction run with
  | nil => rfl
  | snoc _ final =>
    have budget := final.budget
    rw [List.map_append, List.sum_append, List.map_singleton, List.sum_singleton]
    omega

theorem eligible_cases {mappings : Mappings} {state : SegmentState}
    (eligible : SegmentClock.eligible entries mappings id state = true) :
    entries.canReclaim mappings id = true ∧
      (state = .sealed → entries.canEvict mappings id = true) := by
  simp only [SegmentClock.eligible, Bool.and_eq_true, Bool.or_eq_true,
    decide_eq_true_eq] at eligible
  obtain ⟨⟨-, allowed⟩, evictable⟩ := eligible
  exact ⟨allowed, fun same => evictable.resolve_left fun other => other same⟩

/-- The plain sweep is a run of visits, and counts the free slots as it goes. -/
theorem Sweep.rotate_visits (truthful : entries.Truthful held) (target visits : Nat)
    {sweep : Sweep Mappings} (agrees : sweep.segments.Agrees geometry) :
    ∃ after result labels,
      rotate entries target visits sweep.segments.freeCount sweep = some (after, result) ∧
        Run (Visits entries held fun _ => True) sweep.toWork labels after.toWork ∧
        (result = .ok () → target ≤ after.segments.freeCount) := by
  induction visits generalizing sweep with
  | zero =>
    refine ⟨sweep, _, [], rfl, .nil _, fun ok => ?_⟩
    by_contra short
    rw [if_neg short] at ok
    cases ok
  | succ _ ih =>
    have passed (clock : SegmentClock) := @ih ⟨sweep.toWork, clock⟩ agrees
    unfold rotate
    split
    · rename_i enough
      exact ⟨sweep, _, [], rfl, .nil _, fun _ => enough⟩
    generalize sweep.clock.next sweep.segments.count = moved
    obtain ⟨id, clock⟩ := moved
    dsimp only
    split
    · exact ⟨_, _, [], rfl, .nil _, nofun⟩
    rename_i state known
    split
    · exact passed clock
    rename_i possible
    split
    · exact passed (Sweep.forget ⟨sweep.toWork, clock⟩ id)
    split
    · exact passed clock
    obtain ⟨allowed, evictable⟩ := eligible_cases (by simpa using possible)
    obtain ⟨evicted, result, labels, evicts, agreeing, run, counted⟩ :=
      @evict_run _ entries held (fun _ => True) geometry ⟨sweep.toWork, clock⟩ id truthful agrees
        state known allowed (fun sealed => ⟨evictable sealed, trivial⟩) clock
    rw [evicts]
    cases result with
    | error => exact ⟨evicted, _, labels, rfl, run, nofun⟩
    | ok freed =>
      obtain ⟨after, result, later, rotates, runs, enough⟩ := ih agreeing
      refine ⟨after, result, labels ++ later, ?_, run.trans runs, enough⟩
      rw [← rotates, counted]
      cases freed <;> rfl

/-- The scored sweep is a run of visits that enters sealed slots only while free and evicting
ones fall short of the target. -/
theorem Sweep.evictAll_visits (truthful : entries.Truthful held) (target : Nat)
    (candidates : List Nat) {sweep : Sweep Mappings} (agrees : sweep.segments.Agrees geometry) :
    ∃ after result labels, evictAll entries target candidates sweep = some (after, result) ∧
      Run (Visits entries held fun table => table.freeCount + table.evicting < target)
        sweep.toWork labels after.toWork := by
  induction candidates generalizing sweep with
  | nil => exact ⟨sweep, _, [], rfl, .nil _⟩
  | cons id _ ih =>
    unfold evictAll
    split
    · exact ⟨_, _, [], rfl, .nil _⟩
    rename_i state known
    split
    · exact ih agrees
    rename_i taken
    simp only [skips, Bool.or_eq_true, Bool.and_eq_true, Bool.not_eq_true', decide_eq_true_eq,
      not_or, not_and, Bool.not_eq_false, Nat.not_le] at taken
    obtain ⟨⟨allowed, evictable⟩, -⟩ := taken
    obtain ⟨evicted, result, labels, evicts, agreeing, run, -⟩ :=
      @evict_run _ entries held (fun table => table.freeCount + table.evicting < target) geometry
        sweep id truthful agrees state known allowed (fun sealed => (evictable sealed).symm)
        (sweep.forget id)
    rw [evicts]
    cases result with
    | error => exact ⟨evicted, _, labels, rfl, run⟩
    | ok =>
      obtain ⟨after, result, later, swept, runs⟩ := ih agreeing
      exact ⟨after, result, labels ++ later, swept, run.trans runs⟩

/-- A reclamation returns; it is a run of visits that remove at most the budget of mappings in
all; and for a nonzero reserve it succeeds only with the reserve, capped at the slot count. -/
def SafelyReclaims (entries : Entries Mappings) (held : Mappings → Nat → Nat)
    (begins : Segments → Prop) (start : Work Mappings) (freeReserve : Nat)
    (outcome : Option (Sweep Mappings × Except Error Unit)) : Prop :=
  ∃ after result visits, outcome = some (after, result) ∧
    Run (Visits entries held begins) start visits after.toWork ∧
    (visits.map (·.removed)).sum ≤ start.left ∧
    (result = .ok () → freeReserve ≠ 0 →
      min freeReserve start.segments.count ≤ after.segments.freeCount)

/-- Reclaiming nothing is safe if a success finds the reserve already there. -/
theorem safelyReclaims_idle {start : Work Mappings} {freeReserve : Nat} {clock : SegmentClock}
    {result : Except Error Unit} (reserved : result = .ok () → freeReserve ≠ 0 →
      min freeReserve start.segments.count ≤ start.segments.freeCount) :
    SafelyReclaims entries held begins start freeReserve (some (⟨start, clock⟩, result)) :=
  ⟨_, _, [], rfl, .nil _, Nat.zero_le _, reserved⟩

/-- For every table, clock, budget and caller that removes at most its budget and reports
emptiness truthfully, both reclamations are safe. The scored one enters a sealed slot only while
free and evicting slots fall short of the reserve. -/
theorem reclamation_safe {segments : Segments}
    (table : segments.slots = [] ∨ ∃ geometry, segments.Agrees geometry)
    (truthful : entries.Truthful held) (clock : SegmentClock) (mappings : Mappings)
    (freeReserve maxVisits maxEntries : Nat) (score : Nat → Nat) :
    SafelyReclaims entries held (fun _ => True) ⟨segments, mappings, maxEntries⟩ freeReserve
      (clock.reclaim entries segments mappings freeReserve maxVisits maxEntries) ∧
    SafelyReclaims entries held
      (fun table => table.freeCount + table.evicting < min freeReserve segments.count)
      ⟨segments, mappings, maxEntries⟩ freeReserve
      (clock.reclaimScored entries segments mappings freeReserve maxVisits maxEntries score) := by
  unfold SegmentClock.reclaim SegmentClock.reclaimScored
  dsimp only
  by_cases none : freeReserve = 0
  · rw [if_pos none, if_pos none]
    exact ⟨safelyReclaims_idle fun _ some => absurd none some,
      safelyReclaims_idle fun _ some => absurd none some⟩
  rw [if_neg none, if_neg none]
  by_cases empty : segments.count = 0
  · rw [if_pos empty, if_pos empty]
    exact ⟨safelyReclaims_idle nofun, safelyReclaims_idle nofun⟩
  rw [if_neg empty, if_neg empty]
  obtain ⟨geometry, agrees⟩ := table.resolve_left fun unconfigured => by
    rw [count, unconfigured] at empty
    exact empty rfl
  constructor
  · obtain ⟨after, result, visits, rotates, run, enough⟩ :=
      @Sweep.rotate_visits _ entries held geometry truthful (min freeReserve segments.count)
        (min (saturatingMul 64 segments.count 2) maxVisits)
        ⟨⟨segments, mappings, maxEntries⟩, clock.syncRestore segments⟩ agrees
    exact ⟨after, result, visits, rotates, run,
      (Nat.le_add_left _ _).trans (visits_removed run).le, fun ok _ => enough ok⟩
  · split
    · rename_i reserved
      exact safelyReclaims_idle fun _ _ => reserved.1
    split
    · exact safelyReclaims_idle nofun
    rename_i moved ranked _
    obtain ⟨after, result, visits, sweeps, run⟩ :=
      @Sweep.evictAll_visits _ entries held geometry truthful (min freeReserve segments.count)
        ((ranked.insertionSort SegmentClock.rankedLe).map (·.2.2.2))
        ⟨⟨segments, mappings, maxEntries⟩, moved⟩ agrees
    rw [sweeps]
    refine ⟨after, _, visits, rfl, run, (Nat.le_add_left _ _).trans (visits_removed run).le,
      fun ok _ => ?_⟩
    by_contra short
    cases result with
    | error => cases ok
    | ok =>
      rw [if_neg short] at ok
      cases ok

end Safety

/-- A table of three sealed slots. -/
def threeSealed : Segments where
  segmentBytes := 8
  geometry := slabOf 3
  slots := (List.range 3).map fun id =>
    ⟨{ id, generation := 1, state := .sealed, usedBytes := 4 }, 0, 0⟩
  frozen := false
  restoreEpoch := 0
  openSlot := none
  free := ∅
  evicting := 0
  usage := [(24, 12)]

theorem threeSealed_agrees : ∃ geometry, threeSealed.Agrees geometry := by
  have closed (position : Nat) (state : SegmentState)
      (here : threeSealed.stateAt position = some state) : state = .sealed := by
    obtain ⟨_, found, rfl⟩ := map_eq_some_iff.mp here
    obtain ⟨_, -, rfl⟩ := List.mem_map.mp (List.mem_of_getElem? found)
    rfl
  refine ⟨_, rfl, rfl, rfl, ?_, ?_, rfl, ?_, by decide, ?_⟩
  · exact fun position => iff_of_false nofun fun here => by cases closed _ _ here
  · exact fun position => iff_of_false (Finset.notMem_empty _) fun here => by cases closed _ _ here
  · intro group inside
    obtain rfl : group = 0 := Nat.lt_one_iff.mp inside
    rfl
  · rintro (_ | _ | _ | _) _ ⟨⟩ <;>
      exact ⟨rfl, by decide, by decide, by decide, by decide, by decide⟩

/-- Mappings counted by slot, with a veto on some slots. -/
def counted (vetoed : Nat → Bool) : Entries (Nat → Nat) where
  canReclaim _ id := !vetoed id
  canEvict _ _ := true
  removeBounded mappings id budget :=
    some (min budget (mappings id), Function.update mappings id (mappings id - budget))
  isEmpty mappings id := mappings id = 0

theorem counted_truthful (vetoed : Nat → Bool) :
    (counted vetoed).Truthful fun mappings => mappings where
  empties _ _ := decide_eq_true_iff
  removes mappings id budget := by
    refine ⟨_, _, rfl, Nat.min_le_left _ _, ?_⟩
    rw [Function.update_self]
    omega

/-- The mappings of three slots. -/
def threeMappings (id : Nat) : Nat := [2, 3, 3].getD id 0

/-- Of three sealed slots the middle one is vetoed, and four removals do not empty the others: each
way one slot is free, and the budget runs out at the other. -/
theorem reclamation_safe_threeSealed :
    let entries := counted (· = 1)
    let reclaims := SegmentClock.reclaim {} entries threeSealed threeMappings 2 6 4
    let scored := SegmentClock.reclaimScored {} entries threeSealed threeMappings 2 6 4 (9 - ·)
    let states (outcome : Sweep (Nat → Nat) × Except Error Unit) :=
      outcome.1.segments.slots.map (·.image.state)
    reclaims.map states = some [.free, .sealed, .evicting] ∧
      scored.map states = some [.evicting, .sealed, .free] ∧
      SafelyReclaims entries (fun mappings => mappings) (fun _ => True)
        ⟨threeSealed, threeMappings, 4⟩ 2 reclaims ∧
      SafelyReclaims entries (fun mappings => mappings)
        (fun table => table.freeCount + table.evicting < 2)
        ⟨threeSealed, threeMappings, 4⟩ 2 scored :=
  ⟨by decide +kernel, by decide +kernel, reclamation_safe (.inr threeSealed_agrees)
    (counted_truthful (· = 1)) {} threeMappings 2 6 4 (9 - ·)⟩

end Unbounded.Alloc
