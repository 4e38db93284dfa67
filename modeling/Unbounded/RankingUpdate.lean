/-
This file proves that a ranking built from the one of the previous membership is as
good as a fresh one. The members whose scores it compares are candidates: those the
old ranking kept that are still there, and the changed ones. Any other member was
ranked below five members of the old exact head; these are all still there with no
less weight, or the update gives up. So five candidates stay ahead of it, and the
exact head of the new order is that of the candidates.
-/

import Unbounded.Ranking

namespace Unbounded.Topology

open List

/-! ### Members of both lists -/

/-- The positions belong to one member. -/
def SameMember (old new : List Member) (x y : Nat) : Prop :=
  ∃ before after, old[x]? = some before ∧ new[y]? = some after ∧ before.id = after.id

section Ordered

variable {old new : List Member}
  (oldOrdered : old.Pairwise fun earlier later => earlier.id < later.id)
  (newOrdered : new.Pairwise fun earlier later => earlier.id < later.id)

include oldOrdered newOrdered

section

variable {x y x' y' : Nat} (same : SameMember old new x y) (same' : SameMember old new x' y')

include same same'

theorem SameMember.lt_iff : x < x' ↔ y < y' := by
  obtain ⟨_, _, here, there, equal⟩ := same
  obtain ⟨_, _, here', there', equal'⟩ := same'
  rw [← position_lt_iff oldOrdered here here', ← position_lt_iff newOrdered there there', equal,
    equal']

theorem SameMember.eq_iff : x = x' ↔ y = y' := by
  have forth := same.lt_iff oldOrdered newOrdered same'
  have back := same'.lt_iff oldOrdered newOrdered same
  omega

end

/-- A member that left is not in the new list. -/
theorem Merge.removed_absent {a b : Nat} {rest : List MemberChange} (merge : Merge old new a b rest)
    {x y : Nat} (member : .removed x ∈ rest) (ahead : b ≤ y) : ¬ SameMember old new x y := by
  rintro ⟨before, after, here, there, same⟩
  have together {a : Nat} (met : SameMember old new a y) : ¬ a + 1 ≤ x := by
    rw [(met.eq_iff oldOrdered newOrdered ⟨before, after, here, there, same⟩).mpr rfl]
    exact Nat.not_succ_le_self x
  induction merge with
  | done => cases member
  | @removed a b rest _ first less goesOn ih =>
    rcases mem_cons.mp member with equal | member
    · cases equal
      obtain rfl := Option.mem_unique here first
      exact (below_from newOrdered there less ahead).ne same
    · exact ih member ahead
  | @added a b rest _ first less goesOn ih =>
    rcases mem_cons.mp member with equal | member
    · cases equal
    rcases Nat.eq_or_lt_of_le ahead with rfl | later
    · obtain rfl := Option.mem_unique there first
      exact (below_from oldOrdered here less ((goesOn.ahead member).1 x rfl)).ne same.symm
    · exact ih member later
  | @kept _ _ _ _ _ first second equal _ goesOn ih =>
    rcases Nat.eq_or_lt_of_le ahead with rfl | later
    · exact together ⟨_, _, first, second, equal⟩ ((goesOn.ahead member).1 x rfl)
    · exact ih member later
  | @reweighted _ _ _ _ _ first second equal _ goesOn ih =>
    rcases mem_cons.mp member with none | member
    · cases none
    rcases Nat.eq_or_lt_of_le ahead with rfl | later
    · exact together ⟨_, _, first, second, equal⟩ ((goesOn.ahead member).1 x rfl)
    · exact ih member later

end Ordered

/-! ### Carrying scores over -/

namespace Ranking

variable {scoring : Scoring} {old new : List Member} {slot : Nat} {changes : List MemberChange}
  (oldOrdered : old.Pairwise fun earlier later => earlier.id < later.id)
  (newOrdered : new.Pairwise fun earlier later => earlier.id < later.id)
  (merge : Merge old new 0 0 changes)

/-- The kept scores are those of the members these old positions moved to. -/
structure Carries (scoring : Scoring) (old new : List Member) (slot : Nat) (nodes : Nat → Prop)
    (positions : Finset Nat) (best : List Score) : Prop where
  keeps : Keeps scoring new slot positions best
  only : ∀ y ∈ positions, ∃ x, nodes x ∧ SameMember old new x y
  all : ∀ x y, nodes x → SameMember old new x y → y ∈ positions

/-- The member is in the new list with no less weight. -/
def Holds (old new : List Member) (x : Nat) : Prop :=
  ∃ (y : Nat) (before after : Member), old[x]? = some before ∧ new[y]? = some after ∧
    before.id = after.id ∧ before.weight ≤ after.weight

theorem is_of_lookup {members : List Member} {position : Nat} {member : Member}
    (found : members[position]? = some member) :
    Score.Is scoring members slot
      { node := position, cost := scoring.cost slot member.id, shares := member.weight } := by
  unfold Score.Is score
  rw [found]
  rfl

variable {best : List Score} {positions : Finset Nat}

section

variable (complete : Complete scoring old slot best)

include complete

theorem Complete.nodup : best.Nodup :=
  List.Nodup.of_map _ ((ranked_pairwise _).nodup.sublist complete.part)

theorem Complete.nodup_nodes : (best.map (·.node)).Nodup := by
  refine List.Nodup.map_on (fun score member other member' same => ?_) complete.nodup
  have is := complete.genuine score member
  unfold Score.Is at is
  rw [same] at is
  exact Option.some.inj (is.symm.trans (complete.genuine other member'))

/-- A member that a complete ranking does not keep is below its exact head. -/
theorem Complete.above {x : Nat} {before : Member} (here : old[x]? = some before)
    (unkept : ∀ score ∈ best, score.node ≠ x) : (best.take rankedDepth).length = rankedDepth ∧
      ∀ score ∈ best.take rankedDepth, score.key < rankKey scoring old slot x := by
  have head : (best.take rankedDepth).map (·.key) =
      (ranked (keysOf scoring old slot (Finset.range old.length))).take rankedDepth := by
    rw [map_take, complete.exact]
  have present : rankKey scoring old slot x ∈
      ranked (keysOf scoring old slot (Finset.range old.length)) :=
    mem_ranked.mpr (mem_keysOf.mpr (Finset.mem_range.mpr (lt_of_getElem? here)))
  have below : rankKey scoring old slot x ∈
      (ranked (keysOf scoring old slot (Finset.range old.length))).drop rankedDepth := by
    rw [← take_append_drop rankedDepth (ranked _), mem_append] at present
    refine present.resolve_left fun listed => ?_
    rw [← head] at listed
    obtain ⟨score, member, same⟩ := mem_map.mp listed
    have kept := mem_of_mem_take member
    rw [(complete.genuine score kept).key_eq] at same
    exact unkept score kept (rankKey_injective same)
  refine ⟨?_, fun score member => ?_⟩
  · have positive := length_pos_of_mem below
    rw [length_drop] at positive
    rw [← length_map (·.key), head, length_take]
    omega
  · have ascending := ranked_pairwise (keysOf scoring old slot (Finset.range old.length))
    rw [← take_append_drop rankedDepth (ranked _), pairwise_append] at ascending
    refine ascending.2.2 score.key ?_ _ below
    rw [← head]
    exact mem_map_of_mem member

end

include oldOrdered newOrdered

variable {nodes : Nat → Prop}

/-- Inserting the score of a member that moved. -/
theorem Carries.insert (carries : Carries scoring old new slot nodes positions best) {x : Nat}
    (fresh : ¬ nodes x) {score : Score} (is : score.Is scoring new slot)
    (same : SameMember old new x score.node) :
    Carries scoring old new slot (fun node => nodes node ∨ node = x)
      (Insert.insert score.node positions) (Ranking.insert best score) where
  keeps := by
    refine carries.keeps.insert is fun listed => ?_
    obtain ⟨other, done, same'⟩ := carries.only _ listed
    exact fresh ((same'.eq_iff oldOrdered newOrdered same).mpr rfl ▸ done)
  only y member := by
    rcases Finset.mem_insert.mp member with rfl | member
    · exact ⟨x, .inr rfl, same⟩
    · obtain ⟨other, done, same'⟩ := carries.only y member
      exact ⟨other, .inl done, same'⟩
  all other y done same' := by
    rcases done with done | rfl
    · exact Finset.mem_insert_of_mem (carries.all other y done same')
    · rw [(same'.eq_iff oldOrdered newOrdered same).mp rfl]
      exact Finset.mem_insert_self _ _

include merge

/-- One retained score is carried over, unless its member left or lost weight in an exact
rank. -/
theorem carry_spec (carries : Carries scoring old new slot nodes positions best) {score : Score}
    (is : score.Is scoring old slot) (fresh : ¬ nodes score.node) (depth : Nat) :
    ∃ answer, carry scoring new slot changes best score depth = some answer ∧
      ∀ next, answer = some next → (∃ positions', Carries scoring old new slot
        (fun node => nodes node ∨ node = score.node) positions' next) ∧
        (depth < rankedDepth → Holds old new score.node) := by
  obtain ⟨before, here, cost, shares⟩ := is.lookup
  have moved {y : Nat} {after : Member} (there : new[y]? = some after)
      (same : before.id = after.id) := carries.insert oldOrdered newOrdered fresh
    (is_of_lookup there) ⟨before, after, here, there, same⟩
  unfold carry
  cases searched : changes.find? fun change => change.oldPosition == some score.node with
  | some change =>
    have member := mem_of_find?_eq_some searched
    have position := find?_some searched
    simp only [beq_iff_eq] at position
    cases change with
    | added => cases position
    | removed =>
      cases position
      refine ⟨_, rfl, fun next kept => ?_⟩
      by_cases exact : depth < rankedDepth
      · simp only [if_pos exact] at kept
        cases kept
      · simp only [if_neg exact] at kept
        cases kept
        refine ⟨⟨positions, carries.keeps, fun y listed => ?_, fun x y done same => ?_⟩,
          fun shallow => absurd shallow exact⟩
        · obtain ⟨x, done, same⟩ := carries.only y listed
          exact ⟨x, .inl done, same⟩
        · rcases done with done | rfl
          · exact carries.all x y done same
          · exact absurd same (merge.removed_absent oldOrdered newOrdered member (Nat.zero_le y))
    | reweighted left right =>
      cases position
      obtain ⟨_, after, here', there, same⟩ := merge.reweighted_same member
      obtain rfl := Option.mem_unique here here'
      by_cases worse : depth < rankedDepth ∧ after.weight < score.shares
      · refine ⟨none, ?_, nofun⟩
        simp only [MemberChange.newPosition, there, Option.bind_eq_bind, Option.bind_some,
          if_pos worse]
        rfl
      · refine ⟨some (Ranking.insert best _), ?_,
          fun next kept => ⟨⟨_, Option.some.inj kept ▸ moved there same⟩, fun shallow => ?_⟩⟩
        · simp only [MemberChange.newPosition, there, Option.bind_eq_bind, Option.bind_some,
            if_neg worse, Ranking.score, Option.map_some]
          rfl
        · refine ⟨right, before, after, here, there, same, ?_⟩
          rw [← shares]
          exact not_lt.mp fun less => worse ⟨shallow, less⟩
  | none =>
    have unlisted : ∀ change ∈ changes, change.oldPosition ≠ some score.node := by
      intro change member same
      have fails := find?_eq_none.mp searched change member
      rw [same] at fails
      exact fails (beq_self_eq_true _)
    rcases merge.old_cases (Nat.zero_le _) here with left | ⟨y, after, -, there, same, either⟩
    · exact absurd rfl (unlisted _ left)
    rcases either with listed | ⟨weight, -⟩
    · exact absurd rfl (unlisted _ listed)
    have shift := merge.shifted_eq oldOrdered newOrdered here there same
    have equal : ({ score with node := shifted changes score.node } : Score) =
        { node := y, cost := scoring.cost slot after.id, shares := after.weight } := by
      rw [shift, cost, shares, same, weight]
    rw [equal]
    refine ⟨_, rfl, fun next kept => ⟨⟨_, Option.some.inj kept ▸ moved there same⟩, fun _ => ?_⟩⟩
    exact ⟨y, before, after, here, there, same, weight.le⟩

/-- The retained scores are carried over, unless an exact rank may be wrong then. -/
theorem carryAll_spec (carries : Carries scoring old new slot nodes positions best)
    {entries : List (Score × Nat)} (are : ∀ entry ∈ entries, entry.1.Is scoring old slot)
    (distinct : (entries.map (·.1.node)).Nodup) (fresh : ∀ entry ∈ entries, ¬ nodes entry.1.node) :
    ∃ answer, carryAll scoring new slot changes entries best = some answer ∧
      ∀ next, answer = some next → (∃ positions', Carries scoring old new slot
        (fun node => nodes node ∨ node ∈ entries.map (·.1.node)) positions' next) ∧
        ∀ entry ∈ entries, entry.2 < rankedDepth → Holds old new entry.1.node := by
  induction entries generalizing nodes positions best with
  | nil =>
    refine ⟨_, rfl, fun next same => ⟨⟨positions, ?_⟩, nofun⟩⟩
    cases same
    simpa using carries
  | cons entry _ ih =>
    obtain ⟨_, depth⟩ := entry
    rw [map_cons, nodup_cons] at distinct
    obtain ⟨answer, carried, spec⟩ := carry_spec oldOrdered newOrdered merge carries
      (are _ mem_cons_self) (fresh _ mem_cons_self) depth
    rw [carryAll, carried]
    cases answer with
    | none => exact ⟨none, rfl, nofun⟩
    | some next =>
      obtain ⟨⟨_, moved⟩, holds⟩ := spec next rfl
      obtain ⟨answer, finished, spec⟩ := ih moved
        (fun entry member => are entry (mem_cons_of_mem _ member)) distinct.2
        fun entry member listed => by
          rcases listed with done | same
          · exact fresh entry (mem_cons_of_mem _ member) done
          · exact distinct.1 (same ▸ mem_map_of_mem member)
      refine ⟨answer, finished, fun last same => ?_⟩
      obtain ⟨⟨positions'', moved⟩, all⟩ := spec last same
      refine ⟨⟨positions'', ?_⟩, fun entry member shallow => ?_⟩
      · simpa only [map_cons, mem_cons, or_assoc] using moved
      · rcases mem_cons.mp member with rfl | member
        · exact holds shallow
        · exact all entry member shallow

omit oldOrdered newOrdered merge in
/-- The changed members are scored, unless they are kept already. -/
theorem scoreChanges_spec (keeps : Keeps scoring new slot positions best) {list : List MemberChange}
    (inside : ∀ change ∈ list, ∀ y, change.newPosition = some y → y < new.length) :
    ∃ next positions', scoreChanges scoring new slot list best = some next ∧
      Keeps scoring new slot positions' next ∧ positions ⊆ positions' ∧
      (∀ change ∈ list, ∀ y, change.newPosition = some y → y ∈ positions') ∧
      ∀ y ∈ positions', y ∈ positions ∨ y < new.length := by
  induction list generalizing positions best with
  | nil =>
    exact ⟨best, positions, rfl, keeps, Finset.Subset.refl _, nofun, fun _ member => .inl member⟩
  | cons change rest ih =>
    have insideRest := fun change member => inside change (mem_cons_of_mem _ member)
    -- what the rest of the list gives once this change has been dealt with
    have continues : ∀ {middle : Finset Nat} {kept : List Score},
        Keeps scoring new slot middle kept → positions ⊆ middle →
        (∀ y, change.newPosition = some y → y ∈ middle) →
        (∀ y ∈ middle, y ∈ positions ∨ y < new.length) →
        ∃ next positions', scoreChanges scoring new slot rest kept = some next ∧
          Keeps scoring new slot positions' next ∧ positions ⊆ positions' ∧
          (∀ other ∈ change :: rest, ∀ y, other.newPosition = some y → y ∈ positions') ∧
          ∀ y ∈ positions', y ∈ positions ∨ y < new.length := by
      intro middle kept keeps grows here within
      obtain ⟨next, positions', scored, keeps, larger, all, only⟩ := ih keeps insideRest
      refine ⟨next, positions', scored, keeps, grows.trans larger, fun other member y same => ?_,
        fun y member => ?_⟩
      · rcases mem_cons.mp member with rfl | member
        · exact larger (here y same)
        · exact all other member y same
      · exact (only y member).elim (within y) .inr
    unfold scoreChanges
    cases position : change.newPosition with
    | none =>
      exact continues keeps (Finset.Subset.refl _)
        (fun y same => by rw [position] at same; cases same) fun _ member => .inl member
    | some index =>
      have bound := inside change mem_cons_self index position
      have continues {kept : List Score}
          (keeps : Keeps scoring new slot (Insert.insert index positions) kept) := by
        refine continues keeps (Finset.subset_insert _ _) (fun y same => ?_) fun y member => ?_
        · rw [position] at same
          cases same
          exact Finset.mem_insert_self _ _
        · rcases Finset.mem_insert.mp member with rfl | member
          · exact .inr bound
          · exact .inl member
      by_cases present : best.any (·.node == index)
      · simp only [if_pos present]
        obtain ⟨score, member, equal⟩ := any_eq_true.mp present
        refine continues ?_
        rwa [Finset.insert_eq_self.mpr (beq_iff_eq.mp equal ▸ keeps.node_mem member)]
      · obtain ⟨member, found⟩ := exists_getElem? bound
        have is : Score.Is scoring new slot { node := index, cost := _, shares := _ } :=
          is_of_lookup found
        simp only [if_neg present, show score scoring new slot index = some _ from is,
          Option.bind_eq_bind, Option.bind_some]
        by_cases known : index ∈ positions
        · refine continues ?_
          rw [Finset.insert_eq_self.mpr known]
          refine keeps.insert_again is known fun other member same => ?_
          exact present (any_eq_true.mpr ⟨other, member, beq_iff_eq.mpr same⟩)
        · exact continues (keeps.insert is known)

omit merge in
/-- Members that were ranked one ahead of the other stay so, when the first gains weight at most
and the other keeps its own. -/
theorem rankKey_lt {x x' y y' : Nat} {before after before' after' : Member}
    (here : old[x]? = some before) (there : new[y]? = some after) (same : before.id = after.id)
    (weight : before.weight ≤ after.weight) (here' : old[x']? = some before')
    (there' : new[y']? = some after') (same' : before'.id = after'.id)
    (weight' : before'.weight = after'.weight)
    (ahead : rankKey scoring old slot x < rankKey scoring old slot x') :
    rankKey scoring new slot y < rankKey scoring new slot y' := by
  have order : x < x' ↔ y < y' := SameMember.lt_iff oldOrdered newOrdered
    ⟨before, after, here, there, same⟩ ⟨before', after', here', there', same'⟩
  rw [rankKey, rankKey, there, there', Prod.Lex.toLex_lt_toLex]
  rw [rankKey, rankKey, here, here', Prod.Lex.toLex_lt_toLex, same, same', weight'] at ahead
  have positive : (0 : ℚ) < before.weight := Nat.cast_pos.mpr before.weight_pos
  have lower : (scoring.cost slot after.id : ℚ) / after.weight ≤
      scoring.cost slot after.id / before.weight :=
    div_le_div_of_nonneg_left (Nat.cast_nonneg _) positive (Nat.cast_le.mpr weight)
  rcases ahead with less | ⟨equal, less⟩
  · exact .inl (lower.trans_lt less)
  rcases lt_or_eq_of_le (lower.trans_eq equal) with less' | equal'
  · exact .inl less'
  · exact .inr ⟨equal', order.mp less⟩

/-- Any member that is no candidate has five of the candidates ahead of it. -/
theorem five_ahead (complete : Complete scoring old slot best)
    (exact : ∀ score ∈ best.take rankedDepth, Holds old new score.node)
    (carried : ∀ score ∈ best, ∀ y, SameMember old new score.node y → y ∈ positions)
    (changed : ∀ change ∈ changes, ∀ y, change.newPosition = some y → y ∈ positions)
    {u : Nat} (inside : u < new.length) (other : u ∉ positions) :
    rankedDepth ≤ ((keysOf scoring new slot positions).filter
      (· < rankKey scoring new slot u)).card := by
  obtain ⟨after, there⟩ := exists_getElem? inside
  -- the member was there before, with the same weight, and was not kept
  rcases merge.new_cases (Nat.zero_le u) there with ⟨change, member, position⟩ |
    ⟨x, before, -, here, same, weight⟩
  · exact absurd (changed change member u position) other
  have together : SameMember old new x u := ⟨before, after, here, there, same⟩
  have unkept : ∀ score ∈ best, score.node ≠ x := by
    rintro score member rfl
    exact other (carried score member u together)
  obtain ⟨full, head⟩ := complete.above here unkept
  -- every member of the old head is ahead at its new position
  have moved : ∀ score ∈ best.take rankedDepth,
      SameMember old new score.node (shifted changes score.node) ∧
      rankKey scoring new slot (shifted changes score.node) ∈
        (keysOf scoring new slot positions).filter (· < rankKey scoring new slot u) := by
    intro score member
    obtain ⟨_, before', after', here', there', same', weight'⟩ := exact score member
    have listed := mem_of_mem_take member
    obtain rfl := merge.shifted_eq oldOrdered newOrdered here' there' same'
    refine ⟨⟨before', after', here', there', same'⟩, Finset.mem_filter.mpr ⟨?_, ?_⟩⟩
    · exact mem_keysOf.mpr (carried score listed _ ⟨before', after', here', there', same'⟩)
    · refine rankKey_lt oldOrdered newOrdered here' there' same' weight' here there same weight ?_
      rw [← (complete.genuine score listed).key_eq]
      exact head score member
  have distinct : ((best.take rankedDepth).map fun score =>
      rankKey scoring new slot (shifted changes score.node)).Nodup := by
    refine List.Nodup.map_on (fun score member other member' equal => ?_)
      (complete.nodup.sublist (take_sublist _ _))
    have nodes := ((moved score member).1.eq_iff oldOrdered newOrdered (moved other member').1).mpr
      (rankKey_injective equal)
    exact inj_on_of_nodup_map complete.nodup_nodes (mem_of_mem_take member)
      (mem_of_mem_take member') nodes
  rw [← full, ← length_map (fun score => rankKey scoring new slot (shifted changes score.node)),
    ← toFinset_card_of_nodup distinct]
  refine Finset.card_le_card fun key listed => ?_
  obtain ⟨score, member, rfl⟩ := mem_map.mp (mem_toFinset.mp listed)
  exact (moved score member).2

/-- A ranking built from a complete one of the previous membership is complete. -/
theorem updated_spec {ranking : Ranking} (ranks : ranking.Ranks scoring old slot)
    {delta : MembershipDelta} (count : delta.oldCount = old.length)
    (list : delta.changes = changes) :
    ∃ answer, ranking.updated scoring new slot delta = some answer ∧
      ∀ next, answer = some next → next.Ranks scoring new slot := by
  unfold updated
  by_cases unfinished : ranking.cursor ≠ delta.oldCount
  · rw [if_pos unfinished]
    exact ⟨none, rfl, nofun⟩
  rw [if_neg unfinished, list]
  have complete := ranks.complete ((not_not.mp unfinished).trans count)
  have nodes : ranking.best.zipIdx.map (·.1.node) = ranking.best.map (·.node) := by
    show ranking.best.zipIdx.map ((·.node) ∘ Prod.fst) = _
    rw [← map_map, zipIdx_map_fst]
  have start : Carries scoring old new slot (fun _ => False) ∅ [] :=
    ⟨keeps_empty, nofun, fun _ _ none => none.elim⟩
  obtain ⟨answer, carried, spec⟩ := carryAll_spec oldOrdered newOrdered merge start
    (fun entry member => complete.genuine entry.1 (fst_mem_of_mem_zipIdx member))
    (nodes ▸ complete.nodup_nodes) fun _ _ none => none
  rw [carried]
  cases answer with
  | none => exact ⟨none, rfl, nofun⟩
  | some best =>
    obtain ⟨⟨_, carries⟩, holds⟩ := spec best rfl
    obtain ⟨_, positions', scored, keeps, larger, changed, only⟩ := scoreChanges_spec
      carries.keeps fun change member y same => ((merge.ahead member).2 y same).2
    have exact : ∀ score ∈ ranking.best.take rankedDepth, Holds old new score.node := by
      intro score member
      obtain ⟨depth, found⟩ := mem_iff_getElem?.mp member
      rw [getElem?_take] at found
      split at found
      · rename_i shallow
        exact holds (score, depth) (mk_mem_zipIdx_iff_getElem?.mpr found) shallow
      · cases found
    have all : ∀ score ∈ ranking.best, ∀ y, SameMember old new score.node y → y ∈ positions' := by
      intro score member y same
      refine larger (carries.all score.node y (.inr ?_) same)
      rw [nodes]
      exact mem_map_of_mem member
    have within : positions' ⊆ Finset.range new.length := by
      intro y member
      rw [Finset.mem_range]
      refine (only y member).elim (fun early => ?_) id
      obtain ⟨_, -, _, _, -, there, -⟩ := carries.only y early
      exact lt_of_getElem? there
    refine ⟨_, by simp only [Option.bind_eq_bind, Option.bind_some, scored]; rfl, ?_⟩
    intro next same
    cases same
    have head : (ranked (keysOf scoring new slot (Finset.range new.length))).take rankedDepth =
        (ranked (keysOf scoring new slot positions')).take rankedDepth := by
      refine take_ranked_eq (Finset.image_subset_image within) fun key member missing => ?_
      obtain ⟨_, inside, rfl⟩ := Finset.mem_image.mp member
      exact five_ahead oldOrdered newOrdered merge complete exact all changed
        (Finset.mem_range.mp inside) (mt mem_keysOf.mpr missing)
    refine ⟨le_rfl, .inr ⟨rfl, keeps.genuine, ?_, ?_, keeps.length_le⟩⟩
    · rw [head, keeps.head, take_take, Nat.min_eq_left (by decide)]
    · rw [keeps.head]
      exact (take_sublist _ _).trans (ranked_sublist (Finset.image_subset_image within))

end Ranking

end Unbounded.Topology
