/-
This file is the library of hash rings. A ring is an ascending list of points,
each with an owner. A key belongs to the first point at or after it, and beyond
the last point to the first one. The keys that belong to one point form its arc;
over a list sorted by key an arc is one slice, or two for the first point, found
by binary search. The main result says that the slices of a point hold exactly
the items whose key belongs to it, also when points or keys repeat.
-/

import Mathlib

namespace Unbounded

open List

/-! ### Partition points -/

section PartitionPoint

variable {Element : Type*} (test : Element → Bool)

/-- The number of leading elements that pass a test: on a list in which the elements that
pass come first, the position of the first one that fails. -/
def partitionPoint (list : List Element) : Nat := (list.takeWhile test).length

/-- The elements that pass the test come first. -/
def Partitioned (list : List Element) : Prop :=
  list.Pairwise fun earlier later => test later = true → test earlier = true

variable {list : List Element}

theorem partitionPoint_le_length (list : List Element) : partitionPoint test list ≤ list.length :=
  (List.takeWhile_prefix test).length_le

/-- A position lies before the partition point exactly when its element passes the test. -/
theorem Partitioned.lt_partitionPoint_iff {test : Element → Bool}
    (partitioned : Partitioned test list) {index : Nat} {element : Element}
    (found : list[index]? = some element) :
    index < partitionPoint test list ↔ test element = true := by
  induction list generalizing index with
  | nil => cases found
  | cons first _ ih =>
    obtain ⟨before, tail⟩ := pairwise_cons.mp partitioned
    unfold partitionPoint at ih ⊢
    cases passes : test first with
    | true =>
      rw [takeWhile_cons_of_pos passes, length_cons]
      cases index with
      | zero =>
        cases found
        simp [passes]
      | succ =>
        rw [Nat.add_lt_add_iff_right]
        exact ih tail found
    | false =>
      rw [← Bool.not_eq_true] at passes
      rw [takeWhile_cons_of_neg passes]
      refine iff_of_false (Nat.not_lt_zero _) ?_
      cases index with
      | zero => exact Option.some_inj.mp found ▸ passes
      | succ => exact mt (before element (mem_of_getElem? found)) passes

variable {position : Nat} {element : Element}

theorem mem_take_iff :
    element ∈ list.take position ↔ ∃ index, list[index]? = some element ∧ index < position := by
  simp [mem_iff_getElem?, getElem?_take, and_comm]

theorem mem_drop_iff :
    element ∈ list.drop position ↔ ∃ index, list[index]? = some element ∧ position ≤ index := by
  simp only [mem_iff_getElem?, getElem?_drop]
  constructor
  · rintro ⟨index, found⟩
    exact ⟨position + index, found, Nat.le_add_right _ _⟩
  · rintro ⟨index, found, after⟩
    exact ⟨index - position, by rwa [Nat.add_sub_cancel' after]⟩

end PartitionPoint

/-! ### Rings -/

/-- A hash ring: points in ascending order, each with its owner. -/
structure Ring (Point Owner : Type*) [LinearOrder Point] where
  entries : List (Point × Owner)
  ascending : entries.Pairwise fun earlier later => earlier.1 ≤ later.1

namespace Ring

variable {Point Owner Item : Type*} [LinearOrder Point]

/-- The position of the point a key belongs to: the first point at or after it, wrapping. -/
def index (ring : Ring Point Owner) (key : Point) : Nat :=
  let index := partitionPoint (fun entry => decide (entry.1 < key)) ring.entries
  if index = ring.entries.length then 0 else index

variable (ring : Ring Point Owner)

/-- The owner of the first point at or after a key, wrapping. There is none on a ring without
points. -/
def owner (key : Point) : Option Owner := ring.entries[ring.index key]?.map (·.2)

/-- The point at a position. -/
def point (index : Fin ring.entries.length) : Point := (ring.entries.get index).1

/-- The number of leading items, in a list sorted by key, whose key is at most a bound. -/
def upto (items : List (Point × Item)) (bound : Point) : Nat :=
  partitionPoint (fun item => decide (item.1 ≤ bound)) items

/-- The items of a list sorted by key whose key falls in the arc of one point: after the
previous point, up to and including this one. The arc of the first point continues after the
last point. -/
def arc (items : List (Point × Item))
    (index : Fin ring.entries.length) : List (Point × Item) × List (Point × Item) :=
  have inside := index.isLt
  let stop := upto items (ring.point index)
  if index.val = 0 then
    let after := upto items (ring.point ⟨ring.entries.length - 1, by omega⟩)
    (items.take stop, items.drop (max after stop))
  else
    let start := upto items (ring.point ⟨index.val - 1, by omega⟩)
    ((items.take (max stop start)).drop start, [])

theorem partitioned_lt (key : Point) :
    Partitioned (fun entry => decide (entry.1 < key)) ring.entries := by
  refine ring.ascending.imp fun order below => ?_
  exact decide_eq_true (lt_of_le_of_lt order (of_decide_eq_true below))

section

variable (key : Point)

include key

theorem lt_place_iff (index : Fin ring.entries.length) :
    index.val < partitionPoint (fun entry => decide (entry.1 < key)) ring.entries ↔
      ring.point index < key := by
  rw [(ring.partitioned_lt key).lt_partitionPoint_iff (getElem?_eq_getElem index.isLt),
    decide_eq_true_eq]
  rfl

/-- A key belongs to a point other than the first exactly when it lies after the previous
point and not after this one. -/
theorem index_eq_iff (index previous : Fin ring.entries.length)
    (next : index.val = previous.val + 1) :
    ring.index key = index ↔ ring.point previous < key ∧ key ≤ ring.point index := by
  rw [← not_lt, ← ring.lt_place_iff key previous, ← ring.lt_place_iff key index]
  unfold Ring.index
  dsimp only
  split <;> omega

/-- A key belongs to the first point exactly when it lies at or before it, or after the last
one. -/
theorem index_eq_zero_iff (first last : Fin ring.entries.length) (zero : first.val = 0)
    (final : last.val = ring.entries.length - 1) :
    ring.index key = 0 ↔ key ≤ ring.point first ∨ ring.point last < key := by
  have bound := partitionPoint_le_length (fun entry => decide (entry.1 < key)) ring.entries
  rw [← not_lt, ← ring.lt_place_iff key first, ← ring.lt_place_iff key last]
  unfold Ring.index
  dsimp only
  split <;> omega

theorem index_lt (nonempty : ring.entries ≠ []) : ring.index key < ring.entries.length := by
  have bound := partitionPoint_le_length (fun entry => decide (entry.1 < key)) ring.entries
  have positive := length_pos_iff.mpr nonempty
  unfold Ring.index
  dsimp only
  split <;> omega

theorem owner_isSome (nonempty : ring.entries ≠ []) :
    ∃ owner point, ring.owner key = some owner ∧ (point, owner) ∈ ring.entries := by
  have inside := ring.index_lt key nonempty
  refine ⟨ring.entries[ring.index key].2, ring.entries[ring.index key].1, ?_, getElem_mem _⟩
  rw [owner, getElem?_eq_getElem inside]
  rfl

end

/-! ### Arcs -/

section Arcs

variable {items : List (Point × Item)}
  (sorted : items.Pairwise fun earlier later => earlier.1 ≤ later.1)

include sorted

theorem lt_upto_iff {bound : Point} {position : Nat} {item : Point × Item}
    (found : items[position]? = some item) : position < upto items bound ↔ item.1 ≤ bound := by
  have partitioned : Partitioned (fun item => decide (item.1 ≤ bound)) items :=
    sorted.imp fun order below => decide_eq_true (order.trans (of_decide_eq_true below))
  rw [upto, partitioned.lt_partitionPoint_iff found, decide_eq_true_eq]

/-- The arc of a point holds exactly the items whose key belongs to the point. -/
theorem mem_arc (ring : Ring Point Owner) (index : Fin ring.entries.length)
    (item : Point × Item) : item ∈ (ring.arc items index).1 ++ (ring.arc items index).2 ↔
      item ∈ items ∧ ring.index item.1 = index := by
  have inside := index.isLt
  unfold arc
  by_cases first : index.val = 0
  · simp only [if_pos first]
    rw [mem_append, mem_take_iff, mem_drop_iff, ← exists_or, mem_iff_getElem?, ← exists_and_right,
      first, ring.index_eq_zero_iff item.1 index ⟨ring.entries.length - 1, by omega⟩ first rfl]
    refine exists_congr fun position => ?_
    rw [← and_or_left]
    refine and_congr_right fun found => ?_
    rw [← lt_upto_iff sorted found, ← @not_le _ _ item.1, ← lt_upto_iff sorted found]
    omega
  · simp only [if_neg first]
    rw [append_nil, mem_drop_iff, mem_iff_getElem?, ← exists_and_right,
      ring.index_eq_iff item.1 index ⟨index.val - 1, by omega⟩ (by
        show index.val = index.val - 1 + 1
        omega)]
    refine exists_congr fun position => ?_
    rw [getElem?_take, Option.ite_none_right_eq_some, and_assoc, and_left_comm]
    refine and_congr_right fun found => ?_
    rw [← lt_upto_iff sorted found, ← @not_le _ _ item.1, ← lt_upto_iff sorted found]
    omega

/-- The arcs of one owner's points together hold exactly the items whose key has that
owner. -/
theorem mem_arcs_iff (ring : Ring Point Owner) (owner : Owner) (item : Point × Item) :
    (∃ index : Fin ring.entries.length, (ring.entries.get index).2 = owner ∧
        item ∈ (ring.arc items index).1 ++ (ring.arc items index).2) ↔
      item ∈ items ∧ ring.owner item.1 = some owner := by
  constructor
  · rintro ⟨index, owned, member⟩
    rw [mem_arc sorted] at member
    refine ⟨member.1, ?_⟩
    rw [Ring.owner, member.2, getElem?_eq_getElem index.isLt, ← owned]
    rfl
  · rintro ⟨member, owned⟩
    rw [Ring.owner, Option.map_eq_some_iff] at owned
    obtain ⟨_, found, owned⟩ := owned
    obtain ⟨inside, here⟩ := List.getElem?_eq_some_iff.mp found
    refine ⟨⟨ring.index item.1, inside⟩, ?_, ?_⟩
    · rw [← owned, ← here]
      rfl
    · rw [mem_arc sorted]
      exact ⟨member, rfl⟩

end Arcs

end Ring

end Unbounded
