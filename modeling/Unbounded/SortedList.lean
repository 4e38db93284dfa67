/-
This file is the library of sorted lists without repeats: sorting a list and
dropping the repeats next to each other leaves an ascending list of the same
elements, and a sorted list in which no two neighbours are equal is ascending.
It also has the facts about functions that may fail on some element of a list:
where none fails, the traversal of the list is the plain one.
-/

import Mathlib

namespace Unbounded

open List

/-! ### Sorting without repeats -/

section Sorting

variable {Element : Type*} [LinearOrder Element] (list : List Element)

/-- Sort a list and drop the repeats. -/
def sortDedup : List Element := (list.insertionSort (· ≤ ·)).destutter (· ≠ ·)

/-- A sorted list in which no two neighbours are equal is ascending. -/
theorem ascending_of_distinct {list : List Element} (sorted : list.Pairwise (· ≤ ·))
    (distinct : list.IsChain (· ≠ ·)) : list.Pairwise (· < ·) := by
  rw [← isChain_iff_pairwise] at sorted ⊢
  induction list with
  | nil => exact .nil
  | cons _ _ ih =>
    rw [isChain_cons] at sorted distinct ⊢
    refine ⟨fun next found => ?_, ih sorted.2 distinct.2⟩
    exact lt_of_le_of_ne (sorted.1 next found) (distinct.1 next found)

variable {element : Element}

theorem mem_destutter {list : List Element} :
    element ∈ list.destutter (· ≠ ·) ↔ element ∈ list := by
  refine ⟨fun member => (destutter_sublist _ list).subset member, fun member => ?_⟩
  cases list with
  | nil => exact member
  | cons first rest =>
    rw [destutter_cons']
    induction rest generalizing first with
    | nil => exact member
    | cons second _ ih =>
      rw [destutter'_cons]
      by_cases same : first = second
      · rw [if_neg (not_not.mpr same)]
        subst same
        refine ih first ?_
        rcases mem_cons.mp member with rfl | member
        · exact mem_cons_self
        · exact member
      · rw [if_pos same, mem_cons]
        rcases mem_cons.mp member with rfl | member
        · exact .inl rfl
        · exact .inr (ih second member)

@[simp]
theorem mem_sortDedup {list : List Element} : element ∈ sortDedup list ↔ element ∈ list := by
  rw [sortDedup, mem_destutter, mem_insertionSort]

theorem sortDedup_ascending : (sortDedup list).Pairwise (· < ·) := by
  have sorted := pairwise_insertionSort (· ≤ ·) list
  exact ascending_of_distinct (sorted.sublist (destutter_sublist _ _)) (isChain_destutter _ _)

theorem sortDedup_nodup : (sortDedup list).Nodup := (sortDedup_ascending list).imp ne_of_lt

theorem sortDedup_length_le : (sortDedup list).length ≤ list.length := by
  have shorter := (destutter_sublist (· ≠ ·) (list.insertionSort (· ≤ ·))).length_le
  rwa [length_insertionSort] at shorter

/-- With one more element that is not listed, the distinct elements still fit. -/
theorem sortDedup_length_lt {list bound : List Element} (outside : element ∉ list)
    (member : element ∈ bound) (inside : ∀ other ∈ list, other ∈ bound) :
    (sortDedup list).length < bound.length := by
  have distinct : (element :: sortDedup list).Nodup :=
    nodup_cons.mpr ⟨mt mem_sortDedup.mp outside, sortDedup_nodup list⟩
  refine (subperm_of_subset distinct (cons_subset.mpr ⟨member, ?_⟩)).length_le
  exact fun other listed => inside other (mem_sortDedup.mp listed)

end Sorting

/-! ### Traversals that may fail -/

section Traversals

variable {Element Result : Type*}

theorem exists_getElem? {list : List Element} {index : Nat} (inside : index < list.length) :
    ∃ element, list[index]? = some element :=
  ⟨_, getElem?_eq_getElem inside⟩

theorem lt_of_getElem? {list : List Element} {index : Nat} {element : Element}
    (found : list[index]? = some element) :
    index < list.length :=
  (List.getElem?_eq_some_iff.mp found).1

variable {step : Element → Option Result} {list : List Element}

theorem mapM_congr {other : Element → Option Result}
    (agree : ∀ element ∈ list, step element = other element) :
    list.mapM step = list.mapM other := by
  induction list with
  | nil => rfl
  | cons first _ ih =>
    rw [mapM_cons, mapM_cons, agree first mem_cons_self,
      ih fun element member => agree element (mem_cons_of_mem _ member)]

/-- Where the function fails on no element, the traversal is the plain map. -/
theorem mapM_eq_map {total : Element → Result}
    (agrees : ∀ element ∈ list, step element = some (total element)) :
    list.mapM step = some (list.map total) :=
  (mapM_congr agrees).trans mapM_pure

/-- A traversal that fails nowhere gives what its steps give. -/
theorem mapM_total (total : ∀ element ∈ list, ∃ result, step element = some result) :
    ∃ results, list.mapM step = some results ∧ results.length = list.length ∧
      ∀ result, result ∈ results ↔ ∃ element ∈ list, step element = some result := by
  induction list with
  | nil => exact ⟨[], rfl, rfl, fun result => by simp⟩
  | cons first _ ih =>
    obtain ⟨head, found⟩ := total first mem_cons_self
    obtain ⟨tail, traversed, length, mem_tail⟩ := ih fun element member =>
      total element (mem_cons_of_mem _ member)
    refine ⟨head :: tail, ?_, congrArg (· + 1) length, fun result => ?_⟩
    · rw [mapM_cons, found, traversed]
      rfl
    · rw [mem_cons, mem_tail]
      constructor
      · rintro (rfl | ⟨element, member, stepped⟩)
        · exact ⟨first, mem_cons_self, found⟩
        · exact ⟨element, mem_cons_of_mem _ member, stepped⟩
      · rintro ⟨element, member, stepped⟩
        rcases mem_cons.mp member with rfl | member
        · exact .inl (Option.mem_unique stepped found)
        · exact .inr ⟨element, member, stepped⟩

theorem mapM_isSome
    (total : ∀ element ∈ list, (step element).isSome) : (list.mapM step).isSome := by
  obtain ⟨_, traversed, -⟩ := mapM_total fun element member =>
    Option.isSome_iff_exists.mp (total element member)
  rw [traversed]
  rfl

theorem bind_eq_ok {Failure Value Final : Type _} {first : Except Failure Value} {result : Final}
    {next : Value → Except Failure Final} :
    first >>= next = .ok result ↔ ∃ value, first = .ok value ∧ next value = .ok result := by
  cases first <;> simp [bind, Except.bind]

/-- Every result of a traversal that succeeds comes from an element. -/
theorem mem_of_mapM_ok {Failure : Type*} {step : Element → Except Failure Result}
    {results : List Result} (succeeds : list.mapM step = .ok results) :
    ∀ result ∈ results, ∃ element ∈ list, step element = .ok result := by
  induction list generalizing results with
  | nil =>
    cases succeeds
    exact nofun
  | cons first rest ih =>
    rw [mapM_cons] at succeeds
    obtain ⟨_, here, succeeds⟩ := bind_eq_ok.mp succeeds
    obtain ⟨_, there, succeeds⟩ := bind_eq_ok.mp succeeds
    cases succeeds
    refine forall_mem_cons.mpr ⟨⟨first, mem_cons_self, here⟩, fun result member => ?_⟩
    obtain ⟨element, inside, found⟩ := ih there result member
    exact ⟨element, mem_cons_of_mem _ inside, found⟩

theorem anyM_eq_any {step : Element → Option Bool} (total : Element → Bool)
    (agrees : ∀ element ∈ list, step element = some (total element)) :
    list.anyM step = some (list.any total) := by
  induction list with
  | nil => rfl
  | cons first _ ih =>
    rw [anyM, agrees first mem_cons_self, any_cons]
    cases passes : total first with
    | true => rfl
    | false =>
      rw [Bool.false_or, ← ih fun element member => agrees element (mem_cons_of_mem _ member)]
      rfl

theorem findSomeM?_eq_findSome? {step : Element → Option (Option Result)}
    (total : Element → Option Result) {list : List Element}
    (agrees : ∀ element ∈ list, step element = some (total element)) :
    list.findSomeM? step = some (list.findSome? total) := by
  induction list with
  | nil => rfl
  | cons first _ ih =>
    rw [findSomeM?, agrees first mem_cons_self, findSome?_cons]
    cases found : total first with
    | some => rfl
    | none =>
      rw [← ih fun element member => agrees element (mem_cons_of_mem _ member)]
      rfl

end Traversals

end Unbounded
