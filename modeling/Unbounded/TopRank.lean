/-
This file is the library of rankings that keep the best of a set. The ranking of a
finite set of keys lists them in ascending order. A list that takes keys one by
one, each at its place, and keeps the first few of them holds the head of the
ranking of all it was given. The head of a ranking depends on its candidates only:
keys that have enough candidates ahead of them may be left out.
-/

import Mathlib

namespace Unbounded

open List

variable {Key : Type*} [LinearOrder Key]

/-- The keys of a set, ascending. -/
def ranked (keys : Finset Key) : List Key := keys.sort (· ≤ ·)

theorem ranked_pairwise (keys : Finset Key) : (ranked keys).Pairwise (· < ·) :=
  (keys.sortedLT_sort).pairwise

variable {keys : Finset Key} {key : Key}

theorem mem_ranked : key ∈ ranked keys ↔ key ∈ keys := Finset.mem_sort _

/-- An ascending list of the keys is their ranking. -/
theorem eq_ranked {list : List Key} (ascending : list.Pairwise (· < ·))
    (same : ∀ key, key ∈ list ↔ key ∈ keys) : list = ranked keys :=
  ascending.eq_of_mem_iff (ranked_pairwise keys) fun key => (same key).trans mem_ranked.symm

theorem filter_ranked {part : Finset Key} (subset : part ⊆ keys) :
    (ranked keys).filter (· ∈ part) = ranked part := by
  refine eq_ranked ((ranked_pairwise keys).filter _) fun key => ?_
  rw [mem_filter, mem_ranked, decide_eq_true_eq]
  exact ⟨And.right, fun member => ⟨subset member, member⟩⟩

/-- The ranking of a part of the keys is a part of the ranking. -/
theorem ranked_sublist {part : Finset Key} (subset : part ⊆ keys) :
    (ranked part).Sublist (ranked keys) := filter_ranked subset ▸ filter_sublist

/-- Keys that have enough candidates ahead of them do not show at the head of a ranking. -/
theorem take_ranked_eq {candidates : Finset Key} (subset : candidates ⊆ keys) {depth : Nat}
    (ahead : ∀ key ∈ keys, key ∉ candidates → depth ≤ (candidates.filter (· < key)).card) :
    (ranked keys).take depth = (ranked candidates).take depth := by
  -- the head holds candidates only: what is ahead of a key stands before it
  have head : ∀ key ∈ (ranked keys).take depth, key ∈ candidates := by
    intro key member
    by_contra missing
    obtain ⟨before, after, split⟩ := append_of_mem member
    have whole : ranked keys = before ++ key :: (after ++ (ranked keys).drop depth) := by
      conv_lhs => rw [← take_append_drop depth (ranked keys), split]
      rw [append_assoc, cons_append]
    have inside : candidates.filter (· < key) ⊆ before.toFinset := by
      intro other listed
      obtain ⟨candidate, below⟩ := Finset.mem_filter.mp listed
      have present : other ∈ ranked keys := mem_ranked.mpr (subset candidate)
      rw [whole, mem_append] at present
      rcases present with present | present
      · exact mem_toFinset.mpr present
      have ascending := ranked_pairwise keys
      rw [whole, pairwise_append, pairwise_cons] at ascending
      rcases mem_cons.mp present with rfl | later
      · exact absurd below (lt_irrefl _)
      · exact absurd below (ascending.2.1.1 other later).asymm
    have few : before.length < depth := by
      have length := congrArg length split
      rw [length_take, length_append, length_cons] at length
      omega
    have enough := ahead key (mem_ranked.mp (mem_of_mem_take member)) missing
    have most := (Finset.card_le_card inside).trans before.toFinset_card_le
    omega
  have kept : ((ranked keys).take depth).filter (· ∈ candidates) = (ranked keys).take depth := by
    rw [filter_eq_self]
    exact fun key member => decide_eq_true (head key member)
  conv_rhs =>
    rw [← filter_ranked subset, ← take_append_drop depth (ranked keys), filter_append, kept]
  rw [take_append, take_take, Nat.min_self]
  by_cases short : (ranked keys).length ≤ depth
  · rw [drop_eq_nil_of_le short, filter_nil, take_nil, append_nil]
  · rw [length_take, Nat.min_eq_left (Nat.le_of_not_le short), Nat.sub_self, take_zero, append_nil]

/-- Only the head of a list decides the head after an insertion. -/
theorem take_orderedInsert (depth : Nat) (key : Key) (list : List Key) :
    (list.orderedInsert (· ≤ ·) key).take depth =
      ((list.take depth).orderedInsert (· ≤ ·) key).take depth := by
  induction list generalizing depth with
  | nil => rw [take_nil]
  | cons _ _ ih =>
    cases depth with
    | zero => rfl
    | succ depth =>
      rw [take_succ_cons, orderedInsert_cons, orderedInsert_cons]
      split
      · rw [take_succ_cons, take_succ_cons]
        cases depth with
        | zero => rfl
        | succ depth =>
          rw [take_succ_cons, take_succ_cons, take_take, Nat.min_eq_left (Nat.le_succ depth)]
      · rw [take_succ_cons, take_succ_cons, ih]

/-- Inserting a new key into a ranking. -/
theorem orderedInsert_ranked (fresh : key ∉ keys) :
    (ranked keys).orderedInsert (· ≤ ·) key = ranked (insert key keys) := by
  refine eq_ranked ?_ fun other => ?_
  · have ascending : ((ranked keys).orderedInsert (· ≤ ·) key).Pairwise (· ≤ ·) :=
      ((ranked_pairwise keys).imp le_of_lt).orderedInsert _ _
    have distinct : ((ranked keys).orderedInsert (· ≤ ·) key).Nodup := by
      rw [(perm_orderedInsert _ _ _).nodup_iff, nodup_cons, mem_ranked]
      exact ⟨fresh, Finset.sort_nodup _ _⟩
    exact (ascending.and distinct).imp fun both => lt_of_le_of_ne both.1 both.2
  · rw [mem_orderedInsert, mem_ranked, Finset.mem_insert]

/-- Keeping the head of a ranking while a new key is inserted. -/
theorem take_orderedInsert_ranked (fresh : key ∉ keys) (depth : Nat) :
    (((ranked keys).take depth).orderedInsert (· ≤ ·) key).take depth =
      (ranked (insert key keys)).take depth := by
  rw [← take_orderedInsert, orderedInsert_ranked fresh]

/-- A key that is ranked below the head does not come back into it. -/
theorem take_orderedInsert_of_mem (member : key ∈ keys) {depth : Nat}
    (below : key ∉ (ranked keys).take depth) :
    (((ranked keys).take depth).orderedInsert (· ≤ ·) key).take depth =
      (ranked keys).take depth := by
  have later : key ∈ (ranked keys).drop depth := by
    have present := mem_ranked.mpr member
    rw [← take_append_drop depth (ranked keys), mem_append] at present
    exact present.resolve_left below
  have before : ∀ other ∈ (ranked keys).take depth, ¬ key ≤ other := by
    intro other listed
    have ascending := ranked_pairwise keys
    rw [← take_append_drop depth (ranked keys), pairwise_append] at ascending
    exact not_le_of_gt (ascending.2.2 other listed key later)
  have full : ((ranked keys).take depth).length = depth := by
    have positive := length_pos_of_mem later
    rw [length_drop] at positive
    rw [length_take]
    omega
  have last : ((ranked keys).take depth).orderedInsert (· ≤ ·) key =
      (ranked keys).take depth ++ [key] := by
    rw [orderedInsert_eq_take_drop, takeWhile_eq_self_iff.mpr, dropWhile_eq_nil_iff.mpr]
    · exact fun other listed => decide_eq_true (before other listed)
    · exact fun other listed => decide_eq_true (before other listed)
  rw [last, take_append_of_le_length full.ge, take_take, Nat.min_self]

end Unbounded
