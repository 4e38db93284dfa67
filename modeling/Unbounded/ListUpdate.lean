/-
This file is the library of tables held in a list: what replacing the entry at
one position does to a lookup, to a count and to a sum over the table, finding the
first entry that passes a test, and removing an entry by putting the last one in
its place.
-/

import Mathlib

namespace Unbounded.ListUpdate

open List

variable {Item : Type*} {items : List Item} {position : Nat} {old : Item}

theorem getElem?_set_found (found : items[position]? = some old) (new : Item) (other : Nat) :
    (items.set position new)[other]? = if other = position then some new else items[other]? := by
  have inside : position < items.length := (List.getElem?_eq_some_iff.mp found).1
  rw [List.getElem?_set]
  by_cases same : other = position
  · rw [if_pos same, if_pos same.symm, if_pos inside]
  · rw [if_neg same, if_neg (Ne.symm same)]

theorem set_split (found : items[position]? = some old) (new : Item) :
    ∃ before after, items = before ++ old :: after ∧
      items.set position new = before ++ new :: after := by
  obtain ⟨inside, equal⟩ := List.getElem?_eq_some_iff.mp found
  refine ⟨items.take position, items.drop (position + 1), ?_,
    List.set_eq_take_append_cons_drop.trans (if_pos inside)⟩
  rw [← equal, List.getElem_cons_drop, List.take_append_drop]

theorem nodup_snoc (distinct : items.Nodup) (fresh : old ∉ items) : (items ++ [old]).Nodup :=
  concat_eq_append ▸ distinct.concat fresh

theorem forall_mem_snoc {property : Item → Prop} (earlier : ∀ item ∈ items, property item)
    (last : property old) : ∀ item ∈ items ++ [old], property item :=
  forall_mem_append.mpr ⟨earlier, forall_mem_singleton.mpr last⟩

theorem nodup_map_snoc {Value : Type*} {read : Item → Value} (distinct : (items.map read).Nodup)
    (fresh : ∀ other ∈ items, read other ≠ read old) : ((items ++ [old]).map read).Nodup := by
  rw [map_append]
  refine nodup_snoc distinct fun listed => ?_
  obtain ⟨other, member, same⟩ := mem_map.mp listed
  exact fresh other member same

/-- A sum over the table changes by what the replaced entry contributes. -/
theorem sum_map_set (measure : Item → Nat) (found : items[position]? = some old) (new : Item) :
    ((items.set position new).map measure).sum + measure old =
      (items.map measure).sum + measure new := by
  obtain ⟨_, _, whole, replaced⟩ := set_split found new
  rw [replaced, whole]
  simp only [map_append, map_cons, sum_append, sum_cons]
  omega

section

variable (test : Item → Bool) (found : items[position]? = some old)

include test found

/-- A count over the table changes by what the replaced entry contributes. -/
theorem countP_set_add (new : Item) :
    (items.set position new).countP test + (if test old then 1 else 0) =
      items.countP test + if test new then 1 else 0 := by
  obtain ⟨_, _, whole, replaced⟩ := set_split found new
  rw [replaced, whole]
  simp only [countP_append, countP_cons]
  omega

theorem countP_set_same {new : Item} (same : test new = test old) :
    (items.set position new).countP test = items.countP test := by
  have counts := countP_set_add test found new
  rw [same] at counts
  exact Nat.add_right_cancel counts

theorem countP_eraseIdx_add :
    (items.eraseIdx position).countP test + (if test old then 1 else 0) = items.countP test := by
  obtain ⟨_, equal⟩ := List.getElem?_eq_some_iff.mp found
  have whole : items = items.take position ++ old :: items.drop (position + 1) := by
    rw [← equal, List.getElem_cons_drop, List.take_append_drop]
  rw [List.eraseIdx_eq_take_drop_succ, List.countP_append]
  conv_rhs => rw [whole, countP_append, countP_cons]
  omega

end

theorem le_sum_map (measure : Item → Nat) (found : items[position]? = some old) :
    measure old ≤ (items.map measure).sum :=
  single_le_sum (fun _ _ => Nat.zero_le _) _ (mem_map_of_mem (mem_of_getElem? found))

theorem sum_map_le (measure : Item → Nat) (bound : Nat)
    (bounded : ∀ item ∈ items, measure item ≤ bound) :
    (items.map measure).sum ≤ items.length * bound := by
  have total := sum_le_card_nsmul (items.map measure) bound fun value member => by
    obtain ⟨item, itemMember, rfl⟩ := mem_map.mp member
    exact bounded item itemMember
  rwa [length_map] at total

/-- The first entry that passes a test, with its position. -/
def locate (test : Item → Bool) : List Item → Option (Nat × Item)
  | [] => none
  | item :: rest =>
    if test item then some (0, item)
    else (locate test rest).map fun found => (found.1 + 1, found.2)

theorem locate_eq_some {test : Item → Bool} {index : Nat} {item : Item}
    (found : locate test items = some (index, item)) :
    items[index]? = some item ∧ test item = true := by
  induction items generalizing index with
  | nil => cases found
  | cons _ _ ih =>
    unfold locate at found
    split at found
    · obtain ⟨rfl, rfl⟩ := Prod.mk.inj (Option.some_inj.mp found)
      exact ⟨rfl, by assumption⟩
    · obtain ⟨⟨_, _⟩, later, equal⟩ := Option.map_eq_some_iff.mp found
      cases equal
      exact ih later

theorem locate_eq_none {test : Item → Bool} :
    locate test items = none ↔ ∀ item ∈ items, test item = false := by
  induction items with
  | nil => exact iff_of_true rfl nofun
  | cons _ rest ih =>
    unfold locate
    rw [forall_mem_cons]
    split
    · rename_i passes
      exact iff_of_false nofun fun all => Bool.noConfusion (passes.symm.trans all.1)
    · rename_i fails
      rw [Option.map_eq_none_iff, ih]
      exact ⟨fun rest => ⟨Bool.eq_false_iff.mpr fails, rest⟩, And.right⟩

/-- Remove the entry at a position and put the last one in its place. -/
def swapRemove (items : List Item) (index : Nat) : List Item :=
  match items.getLast? with
  | none => items
  | some last => (items.set index last).dropLast

/-- Removing an entry keeps the others. -/
theorem swapRemove_perm (found : items[position]? = some old) :
    items.Perm (old :: swapRemove items position) := by
  obtain ⟨inside, equal⟩ := List.getElem?_eq_some_iff.mp found
  unfold swapRemove
  rcases items.eq_nil_or_concat with empty | ⟨front, last, whole⟩
  · rw [empty] at inside
    cases inside
  · rw [concat_eq_append] at whole
    subst whole
    rw [getLast?_append]
    show (front ++ [last]).Perm (old :: ((front ++ [last]).set position last).dropLast)
    rw [length_append, length_singleton] at inside
    rcases Nat.lt_or_ge position front.length with before | _
    · rw [set_append_left _ _ before, dropLast_concat]
      rw [getElem_append_left before] at equal
      have split := set_eq_take_append_cons_drop (l := front) (i := position) (a := last)
      rw [if_pos before] at split
      have whole : front = front.take position ++ old :: front.drop (position + 1) := by
        rw [← equal, getElem_cons_drop, take_append_drop]
      rw [split]
      conv_lhs => rw [whole]
      refine (perm_append_singleton last _).trans ?_
      refine (perm_middle.cons last).trans ((List.Perm.swap old last _).trans ?_)
      exact perm_middle.symm.cons old
    · have same : position = front.length := by omega
      subst same
      rw [set_append_right _ _ le_rfl, Nat.sub_self, set_cons_zero, dropLast_concat]
      rw [getElem_concat_length rfl] at equal
      rw [equal]
      exact perm_append_singleton old front

/-- The positions at which a list's items pass a test are as many as those items. -/
theorem card_positions (items : List Item) (test : Item → Bool) {positions : Finset Nat}
    (exact : ∀ position, position ∈ positions ↔ items[position]?.any test = true) :
    positions.card = items.countP test := by
  induction items using reverseRecOn generalizing positions with
  | nil =>
    rw [Finset.card_eq_zero.mpr]
    · rfl
    · exact Finset.eq_empty_of_forall_notMem fun position member =>
        nomatch (exact position).mp member
  | append_singleton items last ih =>
    have earlier := @ih (positions.erase items.length) fun position => by
      rw [Finset.mem_erase, exact, getElem?_append]
      split
      · rename_i inside
        exact and_iff_right inside.ne
      · rename_i outside
        rw [getElem?_eq_none (Nat.not_lt.mp outside)]
        refine iff_of_false (fun found => ?_) nofun
        have past : position - items.length ≠ 0 := by omega
        rw [getElem?_singleton, if_neg past] at found
        cases found.2
    rw [countP_append, ← earlier, countP_singleton]
    have ends : items.length ∈ positions ↔ test last = true := by
      rw [exact, getElem?_append_right le_rfl, Nat.sub_self]
      rfl
    by_cases passes : test last = true
    · rw [if_pos passes, Finset.card_erase_add_one (ends.mpr passes)]
    · rw [if_neg passes, Finset.erase_eq_of_notMem fun member => passes (ends.mp member)]
      rfl

end Unbounded.ListUpdate
