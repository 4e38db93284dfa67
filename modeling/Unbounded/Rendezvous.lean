/-
This file models how Gantry ranks the nodes of a cluster for a digest, by rendezvous hashing, and
proves that every agent finds the same ranking. The heap of the best nodes is described by the order
in which it gives its items back: the worst of them, its root, first.
-/

import Mathlib

namespace Unbounded.Gantry

open List

variable {NodeId Hash : Type*} [LinearOrder NodeId] [LinearOrder Hash]

/-- A node with its score. -/
structure Scored (NodeId Hash : Type*) where
  node : NodeId
  score : Hash

/-- The order of the heap: the lower score, and of equal ones the smaller node. -/
def scoredLess (a b : Scored NodeId Hash) : Bool :=
  if a.score ≠ b.score then a.score < b.score else a.node < b.node

instance : LinearOrder (Scored NodeId Hash) :=
  LinearOrder.lift' (fun scored => toLex (scored.score, scored.node))
    fun ⟨_, _⟩ ⟨_, _⟩ same => by cases same; rfl

variable (score : NodeId → Hash)

def scored (node : NodeId) : Scored NodeId Hash := ⟨node, score node⟩

/-- Take a node into a heap of at most `k` items: while there is room, or in place of the root if it
is better. -/
def offer (k : Int) (heap : List (Scored NodeId Hash)) (node : NodeId) :
    List (Scored NodeId Hash) :=
  if heap.length < k then heap.orderedInsert (· ≤ ·) (scored score node)
  else match heap with
    | [] => []
    | root :: rest =>
      if scoredLess root (scored score node) then
        rest.orderedInsert (· ≤ ·) (scored score node)
      else root :: rest

def topK (candidates : List NodeId) (k : Int) : List (Scored NodeId Hash) :=
  if k ≤ 0 ∨ candidates = [] then [] else (candidates.foldl (offer score k) []).reverse

/-- Compare one node of a cluster with `nodeId`. The count is a 32-bit number. -/
def countBetter (nodeId : NodeId) : Int × Bool → NodeId → Int × Bool
  | (betterCount, found), node =>
    if node = nodeId then (betterCount, true)
    else if score node > score nodeId ∨
        score node = score nodeId ∧ node > nodeId then
      ((betterCount + 1).bmod (2 ^ 32), found)
    else (betterCount, found)

/-- The rank of a node: how many of the others are better. -/
def rankOf (cluster : List NodeId) (nodeId : NodeId) : Int :=
  let (betterCount, found) := cluster.foldl (countBetter score nodeId) (0, false)
  if found then betterCount else -1

/-- What the two find: the nodes sorted by score and identity, descending. -/
def ranking (nodes : List NodeId) : List (Scored NodeId Hash) :=
  (nodes.map (scored score)).insertionSort (· ≥ ·)

/-! ### The best nodes -/

theorem scoredLess_iff {a b : Scored NodeId Hash} : scoredLess a b = true ↔ a < b := by
  show _ ↔ toLex (a.score, a.node) < toLex (b.score, b.node)
  rw [Prod.Lex.toLex_lt_toLex]
  unfold scoredLess
  grind

variable {score} {heap : List (Scored NodeId Hash)} {node : NodeId} {nodes : List NodeId}

theorem ranking_sorted : (ranking score nodes).Pairwise (· ≥ ·) := pairwise_insertionSort _ _

theorem ranking_perm : (ranking score nodes).Perm (nodes.map (scored score)) :=
  perm_insertionSort _ _

theorem ranking_length : (ranking score nodes).length = nodes.length := by
  rw [ranking_perm.length_eq, length_map]

/-- A sorted list of the nodes is their ranking. -/
theorem ranking_unique (sorted : heap.Pairwise (· ≥ ·))
    (same : heap.Perm (nodes.map (scored score))) : heap = ranking score nodes :=
  (same.trans ranking_perm.symm).eq_of_pairwise' sorted ranking_sorted

/-- A heap that is full drops the worst of its items and the new one. -/
theorem offer_eq (k : Int) : offer score k heap node =
    (heap.orderedInsert (· ≤ ·) (scored score node)).drop (if heap.length < k then 0 else 1) := by
  unfold offer
  split
  · rfl
  cases heap with
  | nil => rfl
  | cons root =>
    by_cases worse : scored score node ≤ root
    · simp [scoredLess_iff, worse]
    · simp [scoredLess_iff, worse, not_le.mp worse]

/-- Inserting into the best items of a sorted list and dropping the worst. -/
theorem drop_orderedInsert (sorted : heap.Pairwise (· ≤ ·)) (item : Scored NodeId Hash)
    (dropped : Nat) : ((heap.drop dropped).orderedInsert (· ≤ ·) item).drop 1 =
      (heap.orderedInsert (· ≤ ·) item).drop (dropped + 1) := by
  induction heap generalizing dropped with
  | nil => simp
  | cons _ rest ih =>
    obtain ⟨least, sorted⟩ := pairwise_cons.mp sorted
    cases dropped with
    | zero => rfl
    | succ =>
      rw [drop_succ_cons, ih sorted, orderedInsert_cons]
      split
      · rename_i before
        cases rest with
        | nil => rfl
        | cons second =>
          rw [orderedInsert_cons_of_le _ _ (before.trans (least second mem_cons_self))]
          rfl
      · rfl

theorem orderedInsert_ranking (node : NodeId) : (ranking score nodes).reverse.orderedInsert
    (· ≤ ·) (scored score node) = (ranking score (nodes ++ [node])).reverse := by
  refine reverse_eq_iff.mp (ranking_unique ?_ ?_)
  · exact pairwise_reverse.mpr ((pairwise_reverse.mpr ranking_sorted).orderedInsert _ _)
  · rw [map_append]
    exact ((reverse_perm _).trans (perm_orderedInsert _ _ _)).trans
      ((((reverse_perm _).trans ranking_perm).cons _).trans (perm_append_singleton _ _).symm)

/-- The best of some nodes, whatever their order. -/
theorem topK_eq (nodes : List NodeId) (k : Int) :
    topK score nodes k = (ranking score nodes).take k.toNat := by
  unfold topK
  split
  · rename_i none
    rcases none with none | rfl
    · rw [Int.toNat_of_nonpos none, take_zero]
    · exact take_nil.symm
  · obtain ⟨k, rfl⟩ := Int.eq_ofNat_of_zero_le (by omega : 0 ≤ k)
    rw [reverse_eq_iff, Int.toNat_natCast]
    clear * -
    induction nodes using List.reverseRecOn with
    | nil => rw [ranking, map_nil, insertionSort_nil, take_nil]; rfl
    | append_singleton nodes _ ih =>
      rw [foldl_append, foldl_cons, foldl_nil, ih, offer_eq, reverse_take,
        reverse_take, length_drop, length_reverse, ranking_length, ranking_length, length_append,
        length_singleton, ← orderedInsert_ranking]
      split
      · rw [show nodes.length - k = 0 by omega, show nodes.length + 1 - k = 0 by omega]
        rfl
      · rw [drop_orderedInsert (pairwise_reverse.mpr ranking_sorted),
          show nodes.length + 1 - k = nodes.length - k + 1 by omega]

/-! ### Ranks -/

/-- An item of a sorted list stands after the better ones. -/
theorem idxOf_eq_countP (sorted : heap.Pairwise (· ≥ ·)) {item : Scored NodeId Hash}
    (member : item ∈ heap) : heap.idxOf item = heap.countP (item < ·) := by
  induction heap with
  | nil => cases member
  | cons first _ ih =>
    obtain ⟨before, sorted⟩ := pairwise_cons.mp sorted
    by_cases same : first = item
    · subst same
      rw [idxOf_cons_self, eq_comm, countP_eq_zero, forall_mem_cons]
      simpa using before
    · have later := (mem_cons.mp member).resolve_left (Ne.symm same)
      rw [idxOf_cons_ne _ same, ih sorted later, countP_cons_of_pos
        (p := (item < ·)) (decide_eq_true ((before item later).lt_of_ne' same))]

theorem scored_lt {other : NodeId} : scored score node < scored score other ↔
    other ≠ node ∧ (score other > score node ∨ score other = score node ∧ other > node) := by
  rw [← scoredLess_iff]
  unfold scoredLess scored
  grind

theorem scan_eq (nodes : List NodeId) : nodes.foldl (countBetter score node) (0, false) =
    (((nodes.map (scored score)).countP (scored score node < ·) : Int).bmod (2 ^ 32),
      decide (node ∈ nodes)) := by
  induction nodes using List.reverseRecOn with
  | nil => rw [map_nil, countP_nil, Int.natCast_zero, Int.zero_bmod]; rfl
  | append_singleton _ _ ih =>
    rw [foldl_append, foldl_cons, foldl_nil, ih, map_append, countP_append,
      map_singleton, countP_singleton]
    unfold countBetter
    simp only [mem_append, mem_singleton, eq_comm (a := node), decide_eq_true_eq, scored_lt]
    split
    · rw [if_neg fun better => better.1 ‹_›]
      simp_all
    · split
      · rw [if_pos ⟨‹_›, ‹_›⟩]
        simp_all
      · rw [if_neg fun better => absurd better.2 ‹_›]
        simp_all

theorem rankOf_eq (member : node ∈ nodes) : rankOf score nodes node =
    ((nodes.map (scored score)).countP (scored score node < ·) : Int).bmod (2 ^ 32) := by
  unfold rankOf
  rw [scan_eq, decide_eq_true member]
  exact if_pos rfl

/-! ### A node that leaves -/

theorem take_erase (item : Scored NodeId Hash) (k : Nat) : (heap.erase item).take k =
    if item ∈ heap.take k then (heap.take (k + 1)).erase item else heap.take k := by
  induction heap generalizing k <;> cases k <;> grind

theorem ranking_erase : ranking score (nodes.erase node) =
    (ranking score nodes).erase (scored score node) := by
  refine (ranking_unique (ranking_sorted.sublist erase_sublist) ?_).symm
  rw [map_erase fun _ _ => congrArg Scored.node]
  exact ranking_perm.erase _

/-- Every agent ranks the nodes of a cluster alike. -/
theorem ranking_agrees (nodes : List NodeId) :
    (∀ k, topK score nodes k = (ranking score nodes).take k.toNat) ∧
    (∀ view, view.Perm nodes → topK score view = topK score nodes) ∧
    (∀ node k, topK score (nodes.erase node) k =
      if scored score node ∈ topK score nodes k then
        (topK score nodes (k + 1)).erase (scored score node)
      else topK score nodes k) ∧
    ∀ node ∈ nodes, rankOf score nodes node =
      ((topK score nodes nodes.length).idxOf (scored score node) : Int).bmod (2 ^ 32) := by
  refine ⟨topK_eq nodes, fun view same => funext fun k => ?_, fun node k => ?_,
    fun node member => ?_⟩
  · rw [topK_eq, topK_eq, ranking_unique ranking_sorted (ranking_perm.trans (same.map _))]
  · rw [topK_eq, topK_eq, topK_eq, ranking_erase, take_erase]
    split
    · have positive := length_pos_of_mem ‹_›
      rw [length_take] at positive
      rw [show (k + 1).toNat = k.toNat + 1 by omega]
    · rfl
  · rw [rankOf_eq member, topK_eq, Int.toNat_natCast, take_of_length_le ranking_length.le,
      idxOf_eq_countP ranking_sorted (ranking_perm.mem_iff.mpr (mem_map_of_mem member)),
      ranking_perm.countP_eq]

/-- The lowest of more than `2 ^ 31` nodes has a negative rank. -/
theorem rankOf_wraps :
    let nodes := range (2 ^ 31 + 1)
    rankOf (fun _ => 0) nodes 0 ≠
      (topK (fun _ => 0) nodes nodes.length).idxOf (scored (fun _ => 0) 0) := by
  have others (count : Nat) : ((range (count + 1)).map (scored fun _ => 0)).countP
      (scored (fun _ => 0) 0 < ·) = count := by
    induction count with
    | zero => decide
    | succ count ih =>
      rw [range_succ, map_append, countP_append, ih, map_singleton, countP_singleton, if_pos]
      exact decide_eq_true (scored_lt.mpr ⟨count.succ_ne_zero, .inr ⟨rfl, count.succ_pos⟩⟩)
  have negative : ((2 ^ 31 : Nat) : Int).bmod (2 ^ 32) = -2 ^ 31 := by decide
  intro nodes
  rw [rankOf_eq (mem_range.mpr (Nat.succ_pos _)), others, negative]
  omega

end Unbounded.Gantry
