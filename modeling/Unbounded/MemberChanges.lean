/-
This file proves what the change list of a membership says. The merge of the old
and the new member list passes the members of both in ID order. Its list names
exactly the members that left, joined or changed their weight, and the position of
every other member shifts by the members that left and joined before it.
-/

import Unbounded.Membership

namespace Unbounded.Topology

open Option List

variable (old new : List Member) in
/-- A merge of two member lists, from a position of each on, with the changes it finds. -/
inductive Merge : Nat → Nat → List MemberChange → Prop
  | done {a b} (oldEnds : old[a]? = none) (newEnds : new[b]? = none) : Merge a b []
  | removed {a b rest before} (here : old[a]? = some before)
      (ahead : ∀ after, new[b]? = some after → before.id < after.id)
      (goesOn : Merge (a + 1) b rest) : Merge a b (.removed a :: rest)
  | added {a b rest after} (there : new[b]? = some after)
      (ahead : ∀ before, old[a]? = some before → after.id < before.id)
      (goesOn : Merge a (b + 1) rest) : Merge a b (.added b :: rest)
  | kept {a b rest before after} (here : old[a]? = some before) (there : new[b]? = some after)
      (same : before.id = after.id) (weight : before.weight = after.weight)
      (goesOn : Merge (a + 1) (b + 1) rest) : Merge a b rest
  | reweighted {a b rest before after} (here : old[a]? = some before)
      (there : new[b]? = some after) (same : before.id = after.id)
      (weight : before.weight ≠ after.weight) (goesOn : Merge (a + 1) (b + 1) rest) :
      Merge a b (.reweighted a b :: rest)

/-- The change list is that of a merge. -/
theorem mergeChanges_spec {old new : List Member} {steps a b : Nat}
    {changes result : List MemberChange}
    (merged : mergeChanges old new steps a b changes = some result)
    (enough : old.length + new.length ≤ a + b + steps) (oldInside : a ≤ old.length)
    (newInside : b ≤ new.length) : ∃ rest, result = changes ++ rest ∧ Merge old new a b rest := by
  induction steps generalizing a b changes with
  | zero =>
    rw [mergeChanges] at merged
    cases merged
    refine ⟨[], (append_nil _).symm, .done ?_ ?_⟩
    · exact getElem?_eq_none (by omega)
    · exact getElem?_eq_none (by omega)
  | succ steps ih =>
    have proceeds : ∀ {a' b' : Nat} {more : List MemberChange},
        mergeChanges.proceed old new steps a' b' (changes ++ more) = some result →
        a + b < a' + b' → a' ≤ old.length → b' ≤ new.length →
        ∃ rest, result = changes ++ (more ++ rest) ∧ Merge old new a' b' rest := by
      intro a' b' more went _ oldInside newInside
      unfold mergeChanges.proceed at went
      split at went
      · cases went
      obtain ⟨rest, same, merge⟩ := ih went (by omega) oldInside newInside
      exact ⟨rest, by rw [same, append_assoc], merge⟩
    unfold mergeChanges at merged
    cases here : old[a]? with
    | none =>
      cases there : new[b]? with
      | none =>
        simp only [here, there] at merged
        cases merged
        exact ⟨[], (append_nil _).symm, .done here there⟩
      | some =>
        simp only [here, there] at merged
        obtain ⟨rest, same, merge⟩ := proceeds merged (by omega) oldInside (lt_of_getElem? there)
        exact ⟨_, same, .added there (fun _ none => by rw [here] at none; cases none) merge⟩
    | some before =>
      cases there : new[b]? with
      | none =>
        simp only [here, there] at merged
        obtain ⟨rest, same, merge⟩ := proceeds merged (by omega) (lt_of_getElem? here) newInside
        exact ⟨_, same, .removed here (fun _ none => by rw [there] at none; cases none) merge⟩
      | some after =>
        simp only [here, there] at merged
        by_cases less : before.id < after.id
        · rw [if_pos less] at merged
          obtain ⟨rest, same, merge⟩ := proceeds merged (by omega) (lt_of_getElem? here) newInside
          refine ⟨_, same, .removed here (fun other found => ?_) merge⟩
          rw [there] at found
          exact some.inj found ▸ less
        rw [if_neg less] at merged
        by_cases greater : after.id < before.id
        · rw [if_pos greater] at merged
          obtain ⟨rest, same, merge⟩ := proceeds merged (by omega) oldInside (lt_of_getElem? there)
          refine ⟨_, same, .added there (fun other found => ?_) merge⟩
          rw [here] at found
          exact some.inj found ▸ greater
        rw [if_neg greater] at merged
        have equal : before.id = after.id := le_antisymm (not_lt.mp greater) (not_lt.mp less)
        by_cases weight : before.weight = after.weight
        · rw [if_neg (not_not.mpr weight)] at merged
          have went : mergeChanges.proceed old new steps (a + 1) (b + 1) (changes ++ []) =
              some result := by rwa [append_nil]
          obtain ⟨rest, same, merge⟩ :=
            proceeds went (by omega) (lt_of_getElem? here) (lt_of_getElem? there)
          exact ⟨rest, same, .kept here there equal weight merge⟩
        · rw [if_pos weight] at merged
          obtain ⟨_, same, merge⟩ :=
            proceeds merged (by omega) (lt_of_getElem? here) (lt_of_getElem? there)
          exact ⟨_, same, .reweighted here there equal weight merge⟩

/-! ### Positions -/

/-- The number of members that left from before a position. -/
def removedBefore (changes : List MemberChange) (old : Nat) : Nat :=
  changes.countP fun change => match change with
    | .removed index => index < old
    | _ => false

/-- Make room for a member that joined at or before a position. -/
def addNode (node : Nat) : MemberChange → Nat
  | .added new => if new ≤ node then node + 1 else node
  | _ => node

/-- The new position of a member that stayed. -/
def shifted (changes : List MemberChange) (old : Nat) : Nat :=
  changes.foldl addNode (old - removedBefore changes old)

section

variable {members : List Member} {i j : Nat} {first second : Member}
  (ordered : members.Pairwise fun earlier later => earlier.id < later.id)
  (atI : members[i]? = some first) (atJ : members[j]? = some second)

include ordered atI atJ

/-- The order of IDs is that of positions. -/
theorem position_lt_iff : first.id < second.id ↔ i < j := by
  have ascending : ∀ {i j : Nat} {first second : Member}, members[i]? = some first →
      members[j]? = some second → i < j → first.id < second.id := by
    intro i j first second atI atJ less
    obtain ⟨insideI, rfl⟩ := List.getElem?_eq_some_iff.mp atI
    obtain ⟨insideJ, rfl⟩ := List.getElem?_eq_some_iff.mp atJ
    exact List.pairwise_iff_getElem.mp ordered i j insideI insideJ less
  constructor
  · intro less
    rcases Nat.lt_trichotomy i j with before | rfl | after
    · exact before
    · obtain rfl := mem_unique atI atJ
      exact absurd less (lt_irrefl _)
    · exact absurd (ascending atJ atI after) less.asymm
  · exact ascending atI atJ

theorem position_le_iff : first.id ≤ second.id ↔ i ≤ j := by
  rw [← not_lt, position_lt_iff ordered atJ atI, not_lt]

omit atI in
/-- An ID below the one at a position is below all from there on. -/
theorem below_from {id : Bytes} (below : ∀ other, members[i]? = some other → id < other.id)
    (ahead : i ≤ j) : id < second.id := by
  obtain ⟨_, found⟩ := exists_getElem? (ahead.trans_lt (lt_of_getElem? atJ))
  exact (below _ found).trans_le ((position_le_iff ordered found atJ).mpr ahead)

end

namespace Merge

variable {old new : List Member} {a b : Nat} {rest : List MemberChange}

section

variable (merge : Merge old new a b rest)
include merge

/-- The changes lie ahead. -/
theorem ahead {change : MemberChange} (member : change ∈ rest) :
    (∀ x, change.oldPosition = some x → a ≤ x) ∧
      ∀ y, change.newPosition = some y → b ≤ y ∧ y < new.length := by
  induction merge with
  | done => cases member
  | removed here _ _ ih =>
    rcases mem_cons.mp member with rfl | member
    · exact ⟨fun x same => (some.inj same).le, fun y none => (nomatch none)⟩
    · obtain ⟨before, after⟩ := ih member
      exact ⟨fun x same => Nat.le_of_succ_le (before x same), after⟩
  | added there _ _ ih =>
    rcases mem_cons.mp member with rfl | member
    · refine ⟨fun x none => (nomatch none), fun y same => ?_⟩
      cases same
      exact ⟨le_rfl, lt_of_getElem? there⟩
    · obtain ⟨before, after⟩ := ih member
      exact ⟨before, fun y same => ⟨Nat.le_of_succ_le (after y same).1, (after y same).2⟩⟩
  | kept _ _ _ _ _ ih =>
    obtain ⟨before, after⟩ := ih member
    exact ⟨fun x same => Nat.le_of_succ_le (before x same),
      fun y same => ⟨Nat.le_of_succ_le (after y same).1, (after y same).2⟩⟩
  | reweighted _ there _ _ _ ih =>
    rcases mem_cons.mp member with rfl | member
    · refine ⟨fun x same => (some.inj same).le, fun y same => ?_⟩
      cases same
      exact ⟨le_rfl, lt_of_getElem? there⟩
    · obtain ⟨before, after⟩ := ih member
      exact ⟨fun x same => Nat.le_of_succ_le (before x same),
        fun y same => ⟨Nat.le_of_succ_le (after y same).1, (after y same).2⟩⟩

/-- A changed weight is that of one member. -/
theorem reweighted_same {x y : Nat} (member : .reweighted x y ∈ rest) :
    ∃ before after, old[x]? = some before ∧ new[y]? = some after ∧ before.id = after.id := by
  induction merge with
  | done => cases member
  | removed _ _ _ ih | added _ _ _ ih =>
    rcases mem_cons.mp member with none | member
    · cases none
    · exact ih member
  | kept _ _ _ _ _ ih => exact ih member
  | reweighted here there same _ _ ih =>
    rcases mem_cons.mp member with equal | member
    · cases equal
      exact ⟨_, _, here, there, same⟩
    · exact ih member

/-- A member of the old list left, or is in the new list and is listed if its weight changed. -/
theorem old_cases {x : Nat} {before : Member} (from_ : a ≤ x) (here : old[x]? = some before) :
    .removed x ∈ rest ∨ ∃ y after, b ≤ y ∧ new[y]? = some after ∧ before.id = after.id ∧
      (.reweighted x y ∈ rest ∨
        before.weight = after.weight ∧ ∀ change ∈ rest, change.oldPosition ≠ some x) := by
  induction merge with
  | done oldEnds =>
    have inside := lt_of_getElem? here
    have ends := getElem?_eq_none_iff.mp oldEnds
    omega
  | @removed a b rest found _ _ goesOn ih =>
    rcases Nat.eq_or_lt_of_le from_ with rfl | later
    · exact .inl mem_cons_self
    rcases ih later with left | ⟨y, after, ahead, there, same, either⟩
    · exact .inl (mem_cons_of_mem _ left)
    refine .inr ⟨y, after, ahead, there, same, either.imp (mem_cons_of_mem _) ?_⟩
    exact And.imp_right fun unlisted =>
      forall_mem_cons.mpr ⟨fun equal => later.ne (some.inj equal), unlisted⟩
  | @added a b rest _ _ _ goesOn ih =>
    rcases ih from_ with left | ⟨y, after, ahead, there, same, either⟩
    · exact .inl (mem_cons_of_mem _ left)
    refine .inr ⟨y, after, Nat.le_of_succ_le ahead, there, same, either.imp (mem_cons_of_mem _) ?_⟩
    exact And.imp_right fun unlisted => forall_mem_cons.mpr ⟨nofun, unlisted⟩
  | @kept a b rest _ after first there same weight goesOn ih =>
    rcases Nat.eq_or_lt_of_le from_ with rfl | later
    · obtain rfl := mem_unique here first
      refine .inr ⟨b, after, le_rfl, there, same, .inr ⟨weight, fun change member equal => ?_⟩⟩
      exact Nat.not_succ_le_self _ ((goesOn.ahead member).1 _ equal)
    · rcases ih later with left | ⟨y, other, ahead, found, same, either⟩
      · exact .inl left
      · exact .inr ⟨y, other, Nat.le_of_succ_le ahead, found, same, either⟩
  | @reweighted _ b _ _ after first there same _ _ ih =>
    rcases Nat.eq_or_lt_of_le from_ with rfl | later
    · obtain rfl := mem_unique here first
      exact .inr ⟨b, after, le_rfl, there, same, .inl mem_cons_self⟩
    · rcases ih later with left | ⟨y, other, ahead, found, same, either⟩
      · exact .inl (mem_cons_of_mem _ left)
      refine .inr ⟨y, other, Nat.le_of_succ_le ahead, found, same,
        either.imp (mem_cons_of_mem _) ?_⟩
      exact And.imp_right fun unlisted =>
        forall_mem_cons.mpr ⟨fun equal => later.ne (some.inj equal), unlisted⟩

/-- A member of the new list is listed, or was in the old list with the same weight. -/
theorem new_cases {y : Nat} {after : Member} (from_ : b ≤ y) (there : new[y]? = some after) :
    (∃ change ∈ rest, change.newPosition = some y) ∨
      ∃ x before, a ≤ x ∧ old[x]? = some before ∧ before.id = after.id ∧
        before.weight = after.weight := by
  induction merge with
  | done _ newEnds =>
    have inside := lt_of_getElem? there
    have ends := getElem?_eq_none_iff.mp newEnds
    omega
  | removed _ _ _ ih =>
    rcases ih from_ with ⟨change, member, position⟩ | ⟨x, before, ahead, found⟩
    · exact .inl ⟨change, mem_cons_of_mem _ member, position⟩
    · exact .inr ⟨x, before, Nat.le_of_succ_le ahead, found⟩
  | added _ _ _ ih =>
    rcases Nat.eq_or_lt_of_le from_ with rfl | later
    · exact .inl ⟨_, mem_cons_self, rfl⟩
    rcases ih later with ⟨change, member, position⟩ | found
    · exact .inl ⟨change, mem_cons_of_mem _ member, position⟩
    · exact .inr found
  | @kept a _ _ before _ here first same weight _ ih =>
    rcases Nat.eq_or_lt_of_le from_ with rfl | later
    · obtain rfl := mem_unique there first
      exact .inr ⟨a, before, le_rfl, here, same, weight⟩
    · rcases ih later with listed | ⟨x, before, ahead, found⟩
      · exact .inl listed
      · exact .inr ⟨x, before, Nat.le_of_succ_le ahead, found⟩
  | reweighted _ _ _ _ _ ih =>
    rcases Nat.eq_or_lt_of_le from_ with rfl | later
    · exact .inl ⟨_, mem_cons_self, rfl⟩
    rcases ih later with ⟨change, member, position⟩ | ⟨x, before, ahead, found⟩
    · exact .inl ⟨change, mem_cons_of_mem _ member, position⟩
    · exact .inr ⟨x, before, Nat.le_of_succ_le ahead, found⟩

/-- No more members leave from a stretch than it has. -/
theorem removedBefore_le (x : Nat) : removedBefore rest x ≤ x - a := by
  unfold removedBefore
  induction merge with
  | done => exact Nat.zero_le _
  | removed =>
    rw [countP_cons]
    dsimp only
    split
    · rename_i before
      have before := of_decide_eq_true before
      omega
    · omega
  | added _ _ _ ih =>
    exact ih
  | kept =>
    omega
  | reweighted =>
    rw [countP_cons_of_neg Bool.false_ne_true]
    omega

/-- Members that join later do not move a position. -/
theorem foldl_addNode_of_lt {node : Nat} (before : node < b) : rest.foldl addNode node = node := by
  have still : ∀ change ∈ rest, addNode node change = node := by
    intro change member
    cases change with
    | added new =>
      have later := ((merge.ahead member).2 new rfl).1
      exact if_neg (by omega)
    | removed | reweighted => rfl
  clear merge
  induction rest with
  | nil => rfl
  | cons change _ ih =>
    rw [foldl_cons, still change mem_cons_self]
    exact ih fun other member => still other (mem_cons_of_mem _ member)

end

section Ordered

variable (oldOrdered : old.Pairwise fun earlier later => earlier.id < later.id)
  (newOrdered : new.Pairwise fun earlier later => earlier.id < later.id)

include oldOrdered newOrdered

/-- Passing a member of both lists. -/
theorem foldl_addNode_pass (goesOn : Merge old new (a + 1) (b + 1) rest)
    {first second before after : Member} (atA : old[a]? = some first) (atB : new[b]? = some second)
    (equal : first.id = second.id) {x y : Nat} (fromA : a ≤ x) (fromB : b ≤ y)
    (here : old[x]? = some before) (there : new[y]? = some after) (same : before.id = after.id)
    (later : a + 1 ≤ x → b + 1 ≤ y →
      rest.foldl addNode (b + 1 + (x - (a + 1) - removedBefore rest x)) = y) :
    rest.foldl addNode (b + (x - a - removedBefore rest x)) = y := by
  have bound := goesOn.removedBefore_le x
  have together : a < x ↔ b < y := by
    rw [← position_lt_iff oldOrdered atA here, ← position_lt_iff newOrdered atB there, equal, same]
  by_cases further : a < x
  · rw [show b + (x - a - removedBefore rest x) =
      b + 1 + (x - (a + 1) - removedBefore rest x) by omega]
    exact later further (together.mp further)
  · rw [show b + (x - a - removedBefore rest x) = b by omega,
      goesOn.foldl_addNode_of_lt (Nat.lt_succ_self b)]
    omega

/-- A member of both lists shifts by the members that left and joined before it. -/
theorem foldl_addNode (merge : Merge old new a b rest) {x y : Nat} {before after : Member}
    (fromA : a ≤ x) (fromB : b ≤ y) (here : old[x]? = some before)
    (there : new[y]? = some after) (same : before.id = after.id) :
    rest.foldl addNode (b + (x - a - removedBefore rest x)) = y := by
  induction merge with
  | done oldEnds =>
    have inside := lt_of_getElem? here
    have ends := getElem?_eq_none_iff.mp oldEnds
    omega
  | @removed a b rest head first ahead goesOn ih =>
    have later : a < x := by
      refine lt_of_le_of_ne fromA fun equal => ?_
      subst equal
      obtain rfl := mem_unique here first
      exact (below_from newOrdered there ahead fromB).ne same
    have counted : removedBefore (.removed a :: rest) x = removedBefore rest x + 1 :=
      countP_cons_of_pos (decide_eq_true later)
    rw [counted]
    have shift := ih later fromB
    rw [show x - (a + 1) - removedBefore rest x = x - a - (removedBefore rest x + 1) by omega]
      at shift
    exact shift
  | @added a b rest _ first ahead goesOn ih =>
    have later : b < y := by
      refine lt_of_le_of_ne fromB fun equal => ?_
      subst equal
      obtain rfl := mem_unique there first
      exact (below_from oldOrdered here ahead fromA).ne same.symm
    have shift := ih fromA later
    rw [foldl_cons, addNode, if_pos (Nat.le_add_right _ _)]
    rwa [Nat.add_right_comm] at shift
  | kept first second equal _ goesOn ih =>
    exact goesOn.foldl_addNode_pass oldOrdered newOrdered first second equal fromA fromB here there
      same ih
  | @reweighted _ _ _ _ _ first second equal _ goesOn ih =>
    exact goesOn.foldl_addNode_pass oldOrdered newOrdered first second equal fromA fromB here there
      same ih

/-- A member of both lists moves to its shifted position. -/
theorem shifted_eq (merge : Merge old new 0 0 rest) {x y : Nat} {before after : Member}
    (here : old[x]? = some before) (there : new[y]? = some after) (same : before.id = after.id) :
    shifted rest x = y := by
  have moved := merge.foldl_addNode oldOrdered newOrdered (Nat.zero_le x) (Nat.zero_le y) here there
    same
  rwa [Nat.zero_add, Nat.sub_zero] at moved

end Ordered

end Merge

end Unbounded.Topology
