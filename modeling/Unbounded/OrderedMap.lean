/-
This file is the library of maps visited in the order of their keys. A map is a
list of entries whose keys ascend; inserting puts an entry at its place or replaces
the one there, and a visit may start anywhere and wrap around once.
-/

import Mathlib

namespace Unbounded

open List

/-- A map visited in ascending order of its keys. -/
structure OrderedMap (Value : Type*) where
  entries : List (Nat × Value)
  sorted : entries.Pairwise fun earlier later => earlier.1 < later.1
  deriving DecidableEq

namespace OrderedMap

variable {Value : Type*}

/-- The map without entries. -/
def empty : OrderedMap Value := ⟨[], .nil⟩

/-- Put an entry at its place among sorted entries, or replace the one there. -/
def place (key : Nat) (value : Value) : List (Nat × Value) → List (Nat × Value)
  | [] => [(key, value)]
  | entry :: rest =>
    if key < entry.1 then (key, value) :: entry :: rest
    else if entry.1 < key then entry :: place key value rest
    else (key, value) :: rest

variable {entry : Nat × Value} {map : OrderedMap Value}
  {back entries front : List (Nat × Value)} {value : Value} {key : Nat}

section

variable (sorted : entries.Pairwise fun earlier later => earlier.1 < later.1)

include sorted

theorem mem_place :
    entry ∈ place key value entries ↔ entry = (key, value) ∨ entry ∈ entries ∧ entry.1 ≠ key := by
  induction entries with
  | nil => simp [place]
  | cons first rest ih =>
    obtain ⟨least, ascending⟩ := pairwise_cons.mp sorted
    have step := ih ascending
    unfold place
    split
    · have above : ∀ other ∈ first :: rest, other.1 ≠ key := by
        intro other member
        rcases mem_cons.mp member with rfl | member
        · omega
        · have := least other member
          omega
      rw [mem_cons]
      exact or_congr_right ⟨fun member => ⟨member, above entry member⟩, And.left⟩
    · split
      · rw [mem_cons, step, mem_cons]
        constructor
        · rintro (rfl | rfl | ⟨member, other⟩)
          · exact .inr ⟨.inl rfl, by omega⟩
          · exact .inl rfl
          · exact .inr ⟨.inr member, other⟩
        · rintro (rfl | ⟨rfl | member, other⟩)
          · exact .inr (.inl rfl)
          · exact .inl rfl
          · exact .inr (.inr ⟨member, other⟩)
      · have same : first.1 = key := by omega
        rw [mem_cons, mem_cons]
        constructor
        · rintro (rfl | member)
          · exact .inl rfl
          · have := least entry member
            exact .inr ⟨.inr member, by omega⟩
        · rintro (rfl | ⟨rfl | member, other⟩)
          · exact .inl rfl
          · exact absurd same other
          · exact .inr member

theorem place_sorted :
    (place key value entries).Pairwise fun earlier later => earlier.1 < later.1 := by
  induction entries with
  | nil => exact pairwise_singleton _ _
  | cons first _ ih =>
    obtain ⟨least, ascending⟩ := pairwise_cons.mp sorted
    unfold place
    split
    · rename_i below
      exact pairwise_cons.mpr ⟨forall_mem_cons.mpr ⟨below, fun other member =>
        Nat.lt_trans below (least other member)⟩, sorted⟩
    · split
      · rename_i above
        refine pairwise_cons.mpr ⟨fun other member => ?_, ih ascending⟩
        rcases (mem_place ascending).mp member with rfl | ⟨member, -⟩
        · exact above
        · exact least other member
      · have same : first.1 = key := by omega
        exact pairwise_cons.mpr ⟨fun other member => same ▸ least other member, ascending⟩

end

section

variable (map)

/-- Insert an entry, or replace the one with its key. -/
def insert (key : Nat) (value : Value) : OrderedMap Value :=
  ⟨place key value map.entries, place_sorted map.sorted⟩

/-- Remove the entry of a key. -/
def erase (key : Nat) : OrderedMap Value :=
  ⟨map.entries.filter (·.1 ≠ key), map.sorted.sublist List.filter_sublist⟩

/-- Whether there are no entries. -/
def isEmpty : Bool := map.entries.isEmpty

/-- The entries from behind a key on, then those up to it. -/
def wrapped (key : Nat) : List (Nat × Value) :=
  map.entries.filter (key < ·.1) ++ map.entries.filter (·.1 ≤ key)

/-- The entries behind a key. -/
def after (key : Nat) : List (Nat × Value) := map.entries.filter (key < ·.1)

end

@[simp]
theorem mem_insert : entry ∈ (map.insert key value).entries ↔
      entry = (key, value) ∨ entry ∈ map.entries ∧ entry.1 ≠ key :=
  mem_place map.sorted

@[simp]
theorem mem_erase : entry ∈ (map.erase key).entries ↔ entry ∈ map.entries ∧ entry.1 ≠ key := by
  rw [erase, mem_filter, decide_eq_true_iff]

@[simp]
theorem mem_wrapped : entry ∈ map.wrapped key ↔ entry ∈ map.entries := by
  rw [wrapped, mem_append, mem_filter, mem_filter, decide_eq_true_iff, decide_eq_true_iff]
  constructor
  · rintro (⟨member, -⟩ | ⟨member, -⟩) <;> exact member
  · intro member
    rcases Nat.lt_or_ge key entry.1 with behind | before
    · exact .inl ⟨member, behind⟩
    · exact .inr ⟨member, before⟩

/-- A map has one entry per key. -/
theorem entry_unique (map : OrderedMap Value) {first second : Nat × Value}
    (one : first ∈ map.entries) (two : second ∈ map.entries) (same : first.1 = second.1) :
    first = second := by
  obtain ⟨_, sorted⟩ := map
  induction sorted with
  | nil => cases one
  | cons least _ ih =>
    rcases mem_cons.mp one with rfl | left <;> rcases mem_cons.mp two with rfl | right
    · rfl
    · exact absurd same (Nat.ne_of_lt (least _ right))
    · exact absurd same.symm (Nat.ne_of_lt (least _ left))
    · exact ih left right

theorem isEmpty_iff : map.isEmpty = true ↔ ∀ entry, entry ∉ map.entries := by
  rw [isEmpty, List.isEmpty_iff, List.eq_nil_iff_forall_not_mem]

theorem after_sorted (map : OrderedMap Value) (key : Nat) :
    (map.after key).Pairwise fun earlier later => earlier.1 < later.1 :=
  map.sorted.sublist filter_sublist

theorem mem_after : entry ∈ map.after key ↔ entry ∈ map.entries ∧ key < entry.1 := by
  rw [after, mem_filter, decide_eq_true_iff]

/-! ### Visits in parts -/

variable {last : Nat × Value}

/-- Up to the last of the first sorted entries there are no others. -/
theorem mem_take_of_le (sorted : entries.Pairwise fun earlier later => earlier.1 < later.1)
    {count : Nat} (ends : (entries.take count).getLast? = some last) (member : entry ∈ entries)
    (within : entry.1 ≤ last.1) : entry ∈ entries.take count := by
  rw [← take_append_drop count entries] at sorted member
  rcases mem_append.mp member with early | late
  · exact early
  · have below := (pairwise_append.mp sorted).2.2 last (mem_of_getLast? ends) entry late
    omega

variable (map)

/-- The entries up to a key come before those behind it. -/
theorem entries_split (key : Nat) :
    map.entries = map.entries.filter (·.1 ≤ key) ++ map.entries.filter (key < ·.1) := by
  have sorted : (map.entries.filter (·.1 ≤ key) ++ map.entries.filter (key < ·.1)).Pairwise
      fun earlier later => earlier.1 < later.1 := by
    refine pairwise_append.mpr ⟨map.sorted.filter _, map.sorted.filter _, ?_⟩
    intro first early second late
    have early : first.1 ≤ key := by simpa using of_mem_filter early
    have late : key < second.1 := by simpa using of_mem_filter late
    omega
  refine Perm.eq_of_pairwise (fun _ _ _ _ first second => absurd first (Nat.lt_asymm second))
    map.sorted sorted ?_
  simpa only [← decide_not, Nat.not_le] using
    (filter_append_perm (fun entry => decide (entry.1 ≤ key)) map.entries).symm

theorem wrapped_length (key : Nat) : (map.wrapped key).length = map.entries.length := by
  conv_rhs => rw [map.entries_split key]
  rw [wrapped, length_append, length_append, Nat.add_comm]

/-- A visit behind the last of the first entries starts with the others. -/
theorem wrapped_last (parts : map.entries = front ++ back)
    (ends : front.getLast? = some last) : map.wrapped last.1 = back ++ front := by
  have sorted := map.sorted
  rw [parts] at sorted
  obtain ⟨ascending, -, apart⟩ := pairwise_append.mp sorted
  have within : ∀ entry ∈ front, entry.1 ≤ last.1 := by
    intro entry member
    obtain ⟨_, rfl⟩ := getLast?_eq_some_iff.mp ends
    rcases mem_append.mp member with early | same
    · exact Nat.le_of_lt
        ((pairwise_append.mp ascending).2.2 entry early last mem_cons_self)
    · exact Nat.le_of_eq (congrArg Prod.fst (mem_singleton.mp same))
  have behind : ∀ entry ∈ back, last.1 < entry.1 := apart last (mem_of_getLast? ends)
  have frontLate : front.filter (last.1 < ·.1) = [] :=
    filter_eq_nil_iff.mpr fun entry member => by simpa using within entry member
  have backLate : back.filter (last.1 < ·.1) = back :=
    filter_eq_self.mpr fun entry member => by simpa using behind entry member
  have frontEarly : front.filter (·.1 ≤ last.1) = front :=
    filter_eq_self.mpr fun entry member => by simpa using within entry member
  have backEarly : back.filter (·.1 ≤ last.1) = [] :=
    filter_eq_nil_iff.mpr fun entry member => by simpa using behind entry member
  rw [wrapped, parts, filter_append, filter_append, frontLate, backLate, frontEarly,
    backEarly, nil_append, append_nil]

/-- A visit that goes on behind the last entry of a part sees the rest first and that part at
its end. -/
theorem wrapped_advance (visit : map.wrapped key = front ++ back)
    (ends : front.getLast? = some last) : map.wrapped last.1 = back ++ front := by
  have split := map.entries_split key
  -- The part either ends behind the key or has wrapped around.
  rcases append_eq_append_iff.mp visit with ⟨wrapped, rfl, early⟩ | ⟨_, late, rfl⟩
  · rcases eq_nil_or_concat wrapped with rfl | ⟨_, _, rfl⟩
    · rw [append_nil] at ends
      rw [early] at split
      have ends' : (back ++ map.entries.filter (key < ·.1)).getLast? = some last := by
        rw [getLast?_append, ends]
        rfl
      rw [@wrapped_last _ map [] _ _ (by rw [append_nil]; exact split) ends',
        nil_append, append_nil]
    · rw [early, append_assoc] at split
      rw [map.wrapped_last split (by rw [getLast?_append] at ends; simpa using ends), append_assoc]
  · rw [late, ← append_assoc] at split
    have ends' : (map.entries.filter (·.1 ≤ key) ++ front).getLast? = some last := by
      rw [getLast?_append, ends]
      rfl
    rw [map.wrapped_last split ends', append_assoc]

/-- A visit goes on where another one has stopped. -/
theorem wrapped_continue (visit : map.wrapped key = front ++ back) :
    map.wrapped ((front.getLast?.map (·.1)).getD key) = back ++ front := by
  cases ends : front.getLast? with
  | none =>
    obtain rfl := getLast?_eq_none_iff.mp ends
    rw [append_nil]
    exact visit
  | some => exact map.wrapped_advance visit ends

end OrderedMap

end Unbounded
