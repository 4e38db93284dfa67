/-
This file models the ranking of one slot. Every member has a score for the slot, its
cost divided by its weight, and members are ranked by score and then by position. A
ranking scores the members one after another and keeps the best few, or is built from
the ranking of the previous membership by scoring the changed members only.

A ranking that has scored some members keeps the head of their order. One that is
complete has the exact head of the whole order, and below it a part of the rest.
-/

import Unbounded.TopRank
import Unbounded.MemberChanges

namespace Unbounded.Topology

open List

/-! ### Scores -/

/-- Owners of a key. -/
def replicas : Nat := 3

/-- Ranks that are exact. -/
def rankedDepth : Nat := replicas + 2

/-- Scores a ranking keeps. -/
def retainedDepth : Nat := 12

/-- Bits of a slot number. -/
def slotBits : Nat := 20

/-- The hash functions of placement. -/
structure Scoring where
  /-- The first four bytes of the hash of a key. -/
  keyHash : Bytes → Nat
  /-- The first eight bytes of the hash of a slot and an ID. -/
  sample : Nat → Bytes → Nat

variable (scoring : Scoring)

/-- The slot for a key. -/
def Scoring.slot (key : Bytes) : Nat := scoring.keyHash key >>> (32 - slotBits)

/-- One bit of the fraction of a logarithm: the normalized value is squared. -/
def costStep (state : Nat × Nat) (bit : Nat) : Nat × Nat :=
  let normalized := (state.1 * state.1) >>> 63
  if 2 ^ 64 ≤ normalized then (normalized >>> 1, state.2 ||| 1 <<< bit) else (normalized, state.2)

/-- The negative logarithm of a sample over its range, as a fixed-point number. -/
def exponentialCost (sample : Nat) : Nat :=
  let value := sample + 1
  let exponent := value.log2
  if exponent = 64 then 1
  else
    let fraction := ((List.range 32).reverse.foldl costStep (value <<< (63 - exponent), 0)).2
    ((64 - exponent) <<< 32) - fraction

/-- The cost of a member for a slot, before dividing by the weight. -/
def Scoring.cost (slot : Nat) (id : Bytes) : Nat := exponentialCost (scoring.sample slot id)

/-- One member's score for one slot. Lower is better. -/
structure Score where
  /-- Member position. Also breaks ties. -/
  node : Nat
  /-- Random cost from the hash, before dividing by the weight. -/
  cost : Nat
  /-- Member weight. -/
  shares : Nat
  deriving DecidableEq, Repr

/-- The score is better: its cost divided by its weight is lower, or equal at a lower
position. -/
def Score.isLt (score other : Score) : Bool :=
  score.cost * other.shares < other.cost * score.shares ||
    score.cost * other.shares == other.cost * score.shares && score.node < other.node

/-- The best scores for one slot, finished or still in progress. -/
structure Ranking where
  /-- Next member to score. Equals the member count when done. -/
  cursor : Nat := 0
  /-- The best scores so far. -/
  best : List Score := []
  /-- Set whenever a request finds this entry. -/
  referenced : Bool := true
  deriving DecidableEq, Repr

namespace Ranking

variable (members : List Member) (slot : Nat)

/-- Score one member for a slot. -/
def score (index : Nat) : Option Score :=
  members[index]?.map fun member =>
    { node := index, cost := scoring.cost slot member.id, shares := member.weight }

/-- Add a score, keeping only the best. -/
def insert (best : List Score) (score : Score) : List Score :=
  let position := partitionPoint (·.isLt score) best
  if position < retainedDepth then
    (if best.length = retainedDepth then best.dropLast else best).insertIdx position score
  else best

/-- Score the members from the cursor up to an end. -/
def scoreFrom : Nat → Nat → List Score → Option (List Score)
  | 0, _, best => some best
  | steps + 1, index, best => do
    let score ← score scoring members slot index
    scoreFrom steps (index + 1) (insert best score)

variable (ranking : Ranking)

/-- Score some more members, continuing where the last call stopped. Without a limit every
member left is scored. -/
def advance (work : Option Nat) : Option Ranking := do
  let finish := match work with
    | some work => min (ranking.cursor + work) members.length
    | none => members.length
  let best ← scoreFrom scoring members slot (finish - ranking.cursor) ranking.cursor ranking.best
  return { ranking with cursor := finish, best }

/-- Carry one retained score over to the new membership. There is nothing when an exact rank
might be wrong then. -/
def carry (changes : List MemberChange) (best : List Score) (old : Score) (depth : Nat) :
    Option (Option (List Score)) :=
  match changes.find? fun change => change.oldPosition == some old.node with
  | some change =>
    match change.newPosition with
    | none => some (if depth < rankedDepth then none else some best)
    | some new => do
      let member ← members[new]?
      if depth < rankedDepth ∧ member.weight < old.shares then return none
      let score ← score scoring members slot new
      return some (insert best score)
  | none => some (some (insert best { old with node := shifted changes old.node }))

/-- Carry the retained scores over, best first. -/
def carryAll (changes : List MemberChange) :
    List (Score × Nat) → List Score → Option (Option (List Score))
  | [], best => some (some best)
  | (old, depth) :: rest, best => do
    match ← carry scoring members slot changes best old depth with
    | none => return none
    | some best => carryAll changes rest best

/-- Score the changed members that are not retained already. -/
def scoreChanges : List MemberChange → List Score → Option (List Score)
  | [], best => some best
  | change :: rest, best =>
    match change.newPosition with
    | none => scoreChanges rest best
    | some index =>
      if best.any (·.node == index) then scoreChanges rest best
      else do
        let score ← score scoring members slot index
        scoreChanges rest (insert best score)

/-- Build this slot's ranking for the new membership from the old one, scoring only the changed
members. There is nothing when that could give a wrong answer. -/
def updated (delta : MembershipDelta) : Option (Option Ranking) :=
  if ranking.cursor ≠ delta.oldCount then some none
  else do
    match ← carryAll scoring members slot delta.changes ranking.best.zipIdx [] with
    | none => return none
    | some best =>
      let best ← scoreChanges scoring members slot delta.changes best
      return some { cursor := members.length, best }

/-- The owners' member positions, best first. -/
def candidates : List Nat := (ranking.best.take replicas).map (·.node)

/-- The positions ranked just below the owners, best first. -/
def demoted : List Nat := (ranking.best.drop replicas).map (·.node)

/-- Whether a test accepts one of the owners. -/
def isOwner (accepts : Nat → Bool) : Bool := (ranking.best.take replicas).any (accepts ·.node)

end Ranking

/-! ### The order of members -/

variable (members : List Member) (slot : Nat)

/-- What a member is ranked by: its cost divided by its weight, then its position. -/
def rankKey (position : Nat) : Lex (ℚ × Nat) :=
  match members[position]? with
  | some member => toLex ((scoring.cost slot member.id : ℚ) / member.weight, position)
  | none => toLex (0, position)

/-- The positions of the members, sorted by cost divided by weight and then by position. -/
def placementOrder : List Nat :=
  (List.range members.length).insertionSort fun p q =>
    rankKey scoring members slot p ≤ rankKey scoring members slot q

/-- What a score is ranked by. -/
def Score.key (score : Score) : Lex (ℚ × Nat) := toLex ((score.cost : ℚ) / score.shares, score.node)

/-- The score of the member at its position. -/
def Score.Is (score : Score) : Prop :=
  Ranking.score scoring members slot score.node = some score

section Order

variable {scoring members slot}

theorem rankKey_snd (position : Nat) : (ofLex (rankKey scoring members slot position)).2 =
    position := by
  unfold rankKey
  split <;> rfl

theorem rankKey_injective : Function.Injective (rankKey scoring members slot) := fun p q same => by
  have back := congrArg (fun key => (ofLex key).2) same
  simpa only [rankKey_snd] using back

variable {score : Score}

theorem Score.Is.lookup (is : score.Is scoring members slot) :
    ∃ member, members[score.node]? = some member ∧ score.cost = scoring.cost slot member.id ∧
      score.shares = member.weight := by
  obtain ⟨member, found, same⟩ := Option.map_eq_some_iff.mp is
  refine ⟨member, found, ?_, ?_⟩ <;> rw [← same]

theorem Score.Is.key_eq (is : score.Is scoring members slot) :
    score.key = rankKey scoring members slot score.node := by
  obtain ⟨_, found, cost, shares⟩ := is.lookup
  rw [rankKey, found, Score.key, cost, shares]

/-- Comparing by cross multiplication compares the quotients. -/
theorem Score.isLt_iff {other : Score} (positive : 0 < score.shares)
    (otherPositive : 0 < other.shares) : score.isLt other = true ↔ score.key < other.key := by
  have left : (0 : ℚ) < score.shares := Nat.cast_pos.mpr positive
  have right : (0 : ℚ) < other.shares := Nat.cast_pos.mpr otherPositive
  rw [Score.isLt, Bool.or_eq_true, Bool.and_eq_true, decide_eq_true_eq, decide_eq_true_eq,
    beq_iff_eq, Score.key, Score.key, Prod.Lex.toLex_lt_toLex, div_lt_div_iff₀ left right,
    div_eq_div_iff left.ne' right.ne']
  norm_cast

theorem Score.Is.shares_pos (is : score.Is scoring members slot) : 0 < score.shares := by
  obtain ⟨member, -, -, shares⟩ := is.lookup
  rw [shares]
  exact member.weight_pos

/-- The keys of some positions. -/
def keysOf (scoring : Scoring) (members : List Member) (slot : Nat) (positions : Finset Nat) :
    Finset (Lex (ℚ × Nat)) :=
  positions.image (rankKey scoring members slot)

theorem mem_keysOf {positions : Finset Nat} {position : Nat} :
    rankKey scoring members slot position ∈ keysOf scoring members slot positions ↔
      position ∈ positions := by
  rw [keysOf, Finset.mem_image]
  exact ⟨fun ⟨_, member, same⟩ => rankKey_injective same ▸ member, fun member => ⟨_, member, rfl⟩⟩

/-- The order lists the members by their keys. -/
theorem map_placementOrder :
    (placementOrder scoring members slot).map (rankKey scoring members slot) =
      ranked (keysOf scoring members slot (Finset.range members.length)) := by
  let byKey : Nat → Nat → Prop := fun p q =>
    rankKey scoring members slot p ≤ rankKey scoring members slot q
  have sorted : (placementOrder scoring members slot).Pairwise byKey :=
    pairwise_insertionSort byKey (range members.length)
  have distinct : (placementOrder scoring members slot).Nodup :=
    (perm_insertionSort byKey _).nodup_iff.mpr nodup_range
  refine eq_ranked (pairwise_map.mpr ((sorted.and distinct).imp fun both => ?_)) fun key => ?_
  · exact lt_of_le_of_ne both.1 fun same => both.2 (rankKey_injective same)
  · rw [mem_map, keysOf, Finset.mem_image]
    refine exists_congr fun position => and_congr_left' ?_
    exact (perm_insertionSort byKey _).mem_iff

theorem map_snd_rankKey (positions : List Nat) :
    (positions.map (rankKey scoring members slot)).map (fun key => (ofLex key).2) = positions := by
  rw [map_map]
  exact (map_congr_left fun position _ => rankKey_snd position).trans (map_id _)

end Order

/-! ### Keeping the best -/

namespace Ranking

variable {scoring : Scoring} {members : List Member} {slot : Nat}

/-- The scores are those of members, and hold the head of the order of some positions. -/
structure Keeps (scoring : Scoring) (members : List Member) (slot : Nat) (positions : Finset Nat)
    (best : List Score) : Prop where
  genuine : ∀ score ∈ best, score.Is scoring members slot
  head : best.map (·.key) = (ranked (keysOf scoring members slot positions)).take retainedDepth

theorem keeps_empty : Keeps scoring members slot ∅ [] where
  genuine _ none := nomatch none
  head := by
    rw [keysOf, Finset.image_empty, ranked, Finset.sort_empty]
    rfl

variable {best : List Score} {score : Score} {positions : Finset Nat}

theorem Keeps.node_mem (keeps : Keeps scoring members slot positions best) (member : score ∈ best) :
    score.node ∈ positions := by
  have listed : score.key ∈ best.map (·.key) := mem_map_of_mem member
  rw [keeps.head, (keeps.genuine score member).key_eq] at listed
  exact mem_keysOf.mp (mem_ranked.mp (mem_of_mem_take listed))

/-- Inserting at a partition point, and dropping the last of a full list first. -/
theorem insert_eq_take (best : List Score) (short : best.length ≤ retainedDepth) (score : Score) :
    insert best score = (best.takeWhile (·.isLt score) ++
      score :: best.dropWhile (·.isLt score)).take retainedDepth := by
  have whole := (takeWhile_append_dropWhile : best.takeWhile (·.isLt score) ++ _ = best)
  unfold insert partitionPoint
  generalize best.takeWhile (·.isLt score) = front at whole
  generalize best.dropWhile (·.isLt score) = back at whole
  subst whole
  have place : ∀ rest : List Score, (front ++ rest).insertIdx front.length score =
      front ++ score :: rest := by
    intro rest
    clear short
    induction front with
    | nil => rfl
    | cons _ front ih =>
      rw [cons_append, length_cons, insertIdx_succ_cons, ih]
      rfl
  rw [length_append] at short
  by_cases inside : front.length < retainedDepth
  · rw [if_pos inside]
    by_cases full : (front ++ back).length = retainedDepth
    · have nonempty : back ≠ [] := by
        rintro rfl
        rw [append_nil] at full
        omega
      rw [if_pos full, dropLast_append_of_ne_nil nonempty, place]
      rw [length_append] at full
      rw [take_append, take_of_length_le inside.le]
      congr 1
      obtain ⟨depth, more⟩ : ∃ depth, retainedDepth - front.length = depth + 1 :=
        ⟨retainedDepth - front.length - 1, by omega⟩
      rw [more, dropLast_eq_take]
      congr 2
      omega
    · rw [if_neg full, place, take_of_length_le]
      rw [length_append] at full
      rw [length_append, length_cons]
      omega
  · have empty : back = [] := by
      rw [← length_eq_zero_iff]
      omega
    subst empty
    rw [if_neg inside, append_nil, take_append_of_le_length (by omega),
      take_of_length_le (by omega)]

/-- A score is added at its place, and the worst is dropped if there are too many. -/
theorem map_key_insert (genuine : ∀ score ∈ best, score.Is scoring members slot)
    (short : best.length ≤ retainedDepth) (is : score.Is scoring members slot) :
    (insert best score).map (·.key) =
      ((best.map (·.key)).orderedInsert (· ≤ ·) score.key).take retainedDepth := by
  rw [insert_eq_take best short, map_take]
  congr 1
  clear short
  induction best with
  | nil => rfl
  | cons first _ ih =>
    have before := Score.isLt_iff (genuine first mem_cons_self).shares_pos is.shares_pos
    rw [map_cons, orderedInsert_cons]
    by_cases less : first.isLt score = true
    · simp only [takeWhile_cons, dropWhile_cons, less, if_true]
      rw [if_neg (not_le.mpr (before.mp less)), cons_append, map_cons,
        ih fun other member => genuine other (mem_cons_of_mem _ member)]
    · simp only [takeWhile_cons, dropWhile_cons, less, Bool.false_eq_true, if_false]
      rw [if_pos (not_lt.mp (mt before.mpr less))]
      rfl

theorem mem_insert (short : best.length ≤ retainedDepth) {other : Score}
    (member : other ∈ insert best score) : other = score ∨ other ∈ best := by
  rw [insert_eq_take best short] at member
  rcases mem_append.mp (mem_of_mem_take member) with front | back
  · exact .inr ((takeWhile_sublist _).subset front)
  rcases mem_cons.mp back with same | back
  · exact .inl same
  · exact .inr ((dropWhile_sublist _).subset back)

section

variable (keeps : Keeps scoring members slot positions best)

include keeps

theorem Keeps.length_le : best.length ≤ retainedDepth := by
  have length := congrArg length keeps.head
  rw [length_map, length_take] at length
  omega

/-- Adding the score of a new position. -/
theorem Keeps.insert (is : score.Is scoring members slot) (fresh : score.node ∉ positions) :
    Keeps scoring members slot (Insert.insert score.node positions)
      (Ranking.insert best score) where
  genuine other member := by
    rcases mem_insert keeps.length_le member with rfl | member
    · exact is
    · exact keeps.genuine other member
  head := by
    rw [map_key_insert keeps.genuine keeps.length_le is, keeps.head, is.key_eq, keysOf, keysOf,
      Finset.image_insert, ← keysOf, take_orderedInsert_ranked (mt mem_keysOf.mp fresh)]

/-- Adding the score of a position that was ranked below the kept ones changes nothing. -/
theorem Keeps.insert_again (is : score.Is scoring members slot) (ranked : score.node ∈ positions)
    (dropped : ∀ other ∈ best, other.node ≠ score.node) :
    Keeps scoring members slot positions (Ranking.insert best score) where
  genuine other member := by
    rcases mem_insert keeps.length_le member with rfl | member
    · exact is
    · exact keeps.genuine other member
  head := by
    rw [map_key_insert keeps.genuine keeps.length_le is, keeps.head, is.key_eq]
    refine take_orderedInsert_of_mem (mem_keysOf.mpr ranked) fun listed => ?_
    rw [← keeps.head] at listed
    obtain ⟨other, member, same⟩ := mem_map.mp listed
    rw [(keeps.genuine other member).key_eq] at same
    exact dropped other member (rankKey_injective same)

end

/-! ### Rankings of a membership -/

/-- The exact head of the order, and below it a part of the rest. -/
structure Complete (scoring : Scoring) (members : List Member) (slot : Nat) (best : List Score) :
    Prop where
  genuine : ∀ score ∈ best, score.Is scoring members slot
  exact : (best.map (·.key)).take rankedDepth =
    (ranked (keysOf scoring members slot (Finset.range members.length))).take rankedDepth
  part : (best.map (·.key)).Sublist
    (ranked (keysOf scoring members slot (Finset.range members.length)))
  short : best.length ≤ retainedDepth

/-- A ranking of this membership: of the members scored so far, or complete. -/
structure Ranks (scoring : Scoring) (members : List Member) (slot : Nat) (ranking : Ranking) :
    Prop where
  cursor_le : ranking.cursor ≤ members.length
  kept : Keeps scoring members slot (Finset.range ranking.cursor) ranking.best ∨
    ranking.cursor = members.length ∧ Complete scoring members slot ranking.best

theorem Keeps.complete (keeps : Keeps scoring members slot (Finset.range members.length) best) :
    Complete scoring members slot best where
  genuine := keeps.genuine
  exact := by rw [keeps.head, take_take, Nat.min_eq_left (by decide)]
  part := by
    rw [keeps.head]
    exact take_sublist _ _
  short := keeps.length_le

theorem Ranks.complete {ranking : Ranking} (ranks : ranking.Ranks scoring members slot)
    (done : ranking.cursor = members.length) : Complete scoring members slot ranking.best := by
  rcases ranks.kept with keeps | ⟨-, complete⟩
  · rw [done] at keeps
    exact keeps.complete
  · exact complete

theorem ranks_empty (scoring : Scoring) (members : List Member) (slot : Nat) :
    Ranks scoring members slot {} where
  cursor_le := Nat.zero_le _
  kept := .inl keeps_empty

/-- Scoring member after member. -/
theorem scoreFrom_spec {steps index : Nat}
    (keeps : Keeps scoring members slot (Finset.range index) best)
    (inside : index + steps ≤ members.length) :
    ∃ after, scoreFrom scoring members slot steps index best = some after ∧
      Keeps scoring members slot (Finset.range (index + steps)) after := by
  induction steps generalizing index best with
  | zero => exact ⟨best, rfl, keeps⟩
  | succ steps ih =>
    obtain ⟨member, found⟩ := exists_getElem? (show index < members.length by omega)
    have is : Score.Is scoring members slot
        { node := index, cost := scoring.cost slot member.id, shares := member.weight } := by
      unfold Score.Is score
      rw [found]
      rfl
    have next := keeps.insert is Finset.notMem_range_self
    rw [← Finset.range_add_one] at next
    obtain ⟨after, scored, kept⟩ := ih next (show index + 1 + steps ≤ members.length by omega)
    refine ⟨after, ?_, ?_⟩
    · rw [scoreFrom, show score scoring members slot index = some _ from is]
      exact scored
    · rwa [Nat.add_right_comm] at kept

/-- Scoring more members keeps a ranking a ranking. -/
theorem Ranks.advance {ranking : Ranking} (ranks : ranking.Ranks scoring members slot)
    (work : Option Nat) :
    ∃ after, ranking.advance scoring members slot work = some after ∧
      after.Ranks scoring members slot ∧ ranking.cursor ≤ after.cursor ∧
      (work = none → after.cursor = members.length) ∧
      (∀ amount, work = some amount →
        after.cursor = min (ranking.cursor + amount) members.length) := by
  have bound := ranks.cursor_le
  -- the end of this stretch of scoring
  obtain ⟨finish, finishEq, above, below, all, some_⟩ : ∃ finish, (match work with
        | some work => min (ranking.cursor + work) members.length
        | none => members.length) = finish ∧ ranking.cursor ≤ finish ∧ finish ≤ members.length ∧
      (work = none → finish = members.length) ∧
      ∀ amount, work = some amount → finish = min (ranking.cursor + amount) members.length := by
    cases work with
    | none => exact ⟨_, rfl, bound, le_rfl, fun _ => rfl, nofun⟩
    | some =>
      exact ⟨_, rfl, le_min (Nat.le_add_right _ _) bound, Nat.min_le_right _ _, nofun,
        fun amount same => by cases same; rfl⟩
  have stretch : ranking.cursor + (finish - ranking.cursor) = finish := Nat.add_sub_cancel' above
  unfold Ranking.advance
  simp only [finishEq]
  rcases ranks.kept with keeps | ⟨_, complete⟩
  · obtain ⟨_, scored, kept⟩ := scoreFrom_spec keeps (stretch.trans_le below)
    rw [scored]
    rw [stretch] at kept
    exact ⟨_, rfl, ⟨below, .inl kept⟩, above, all, some_⟩
  · have still : finish - ranking.cursor = 0 := by omega
    rw [still]
    exact ⟨_, rfl, ⟨below, .inr ⟨show finish = members.length by omega, complete⟩⟩, above, all,
      some_⟩

/-! ### Reading a complete ranking -/

section Read

variable {ranking : Ranking} (complete : Complete scoring members slot ranking.best)

include complete

theorem map_node (list : List Score) (part : ∀ score ∈ list, score ∈ ranking.best) :
    list.map (·.node) = (list.map (·.key)).map fun key => (ofLex key).2 := by
  rw [map_map]
  refine map_congr_left fun score member => ?_
  rw [Function.comp_apply, (complete.genuine score (part score member)).key_eq, rankKey_snd]

theorem take_nodes (depth : Nat) (shallow : depth ≤ rankedDepth) :
    (ranking.best.take depth).map (·.node) = (placementOrder scoring members slot).take depth := by
  rw [map_node complete _ fun score => mem_of_mem_take, map_take,
    ← Nat.min_eq_left shallow, ← take_take, complete.exact, take_take, ← map_placementOrder,
      ← map_take, map_snd_rankKey]

/-- The owners are the first three members of the order. -/
theorem candidates_eq : ranking.candidates = (placementOrder scoring members slot).take replicas :=
  take_nodes complete replicas (by decide)

theorem isOwner_eq (accepts : Nat → Bool) :
    ranking.isOwner accepts =
      ((placementOrder scoring members slot).take replicas).any accepts := by
  rw [← take_nodes complete replicas (by decide), any_map]
  rfl

/-- The members kept below the owners: the next two of the order, and a part of the rest. -/
theorem demoted_spec :
    ranking.demoted.take 2 = ((placementOrder scoring members slot).drop replicas).take 2 ∧
      (ranking.demoted.drop 2).Sublist
        ((placementOrder scoring members slot).drop rankedDepth) := by
  constructor
  · have next := congrArg (drop replicas) (take_nodes complete rankedDepth le_rfl)
    rw [drop_take] at next
    rw [← show rankedDepth - replicas = 2 from rfl, ← next, demoted, ← map_take,
      ← map_drop, drop_take]
  · have parts := complete.part
    rw [← take_append_drop rankedDepth (ranking.best.map _),
      ← take_append_drop rankedDepth (ranked _), complete.exact,
      append_sublist_append_left, ← map_placementOrder, ← map_drop,
      ← map_drop] at parts
    have positions := parts.map fun key => (ofLex key).2
    rw [map_snd_rankKey, ← map_node complete _ fun score => mem_of_mem_drop] at positions
    rw [demoted, ← map_drop, drop_drop]
    exact positions

end Read

end Ranking

end Unbounded.Topology
