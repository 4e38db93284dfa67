/-
This file proves what a chain of memberships remembers. A link of the chain passes
the old and the new members in ID order, twice. A member that stays keeps the
generation it arrived in, so that generation is where its present stay began. The
changes that the link records turn the old list into the new one.
-/

import Unbounded.PlacementRuns

namespace Unbounded.Topology

open List

variable {old new : List Member}

/-! ### Arrivals -/

/-- The generation of a member that the old list has, or of one that it has not from a position
on. -/
inductive Inherits (old : List Member) (since : List Nat) (generation a : Nat) (id : Bytes) :
    Nat → Prop
  | stays {x : Nat} {before : Member} (here : old[x]? = some before) (same : before.id = id) :
      Inherits old since generation a id (since[x]?.getD 0)
  | arrives (absent : ∀ (x : Nat) (before : Member), a ≤ x → old[x]? = some before →
      before.id ≠ id) : Inherits old since generation a id generation

theorem Inherits.pass {since : List Nat} {generation a value : Nat} {id : Bytes} {before : Member}
    (inherits : Inherits old since generation (a + 1) id value) (here : old[a]? = some before)
    (differs : before.id ≠ id) : Inherits old since generation a id value := by
  cases inherits with
  | stays here same => exact .stays here same
  | arrives absent =>
    refine .arrives fun x other ahead found => ?_
    rcases Nat.eq_or_lt_of_le ahead with rfl | later
    · obtain rfl := Option.mem_unique here found
      exact differs
    · exact absent x other later found

/-- The merge gives every member of the new list its generation. -/
theorem inheritSince_spec (oldOrdered : old.Pairwise fun earlier later => earlier.id < later.id)
    (newOrdered : new.Pairwise fun earlier later => earlier.id < later.id)
    (since : List Nat) (generation : Nat) {steps a b y : Nat} {after : Member}
    (enough : old.length + new.length ≤ a + b + steps) (inside : a ≤ old.length) (ahead : b ≤ y)
    (there : new[y]? = some after) :
    ∃ value, (inheritSince old new since generation steps a b)[y - b]? = some value ∧
      Inherits old since generation a after.id value := by
  induction steps generalizing a b with
  | zero =>
    have within := lt_of_getElem? there
    omega
  | succ steps ih =>
    obtain ⟨_, atB⟩ := exists_getElem? (ahead.trans_lt (lt_of_getElem? there))
    have least := (position_le_iff newOrdered atB there).mpr ahead
    have skip (first : Nat) (rest : List Nat) (later : b < y) :
        (first :: rest)[y - b]? = rest[y - (b + 1)]? := by
      rw [show y - b = y - (b + 1) + 1 by omega, getElem?_cons_succ]
    unfold inheritSince
    simp only [atB]
    cases here : old[a]? with
    | none =>
      rcases Nat.eq_or_lt_of_le ahead with rfl | later
      · rw [Nat.sub_self]
        refine ⟨generation, rfl, .arrives fun x before from_ found => ?_⟩
        have ends := getElem?_eq_none_iff.mp here
        have within := lt_of_getElem? found
        omega
      · rw [skip _ _ later]
        exact ih (by omega) inside later
    | some before =>
      have goesOn := lt_of_getElem? here
      dsimp only
      split
      · -- The old member left.
        rename_i less
        obtain ⟨value, found, inherits⟩ := ih (by omega) goesOn ahead
        exact ⟨value, found, inherits.pass here (less.trans_le least).ne⟩
      · rename_i notLess
        split
        · rename_i same
          rcases Nat.eq_or_lt_of_le ahead with rfl | later
          · obtain rfl := Option.mem_unique atB there
            rw [Nat.sub_self]
            exact ⟨_, rfl, .stays here same⟩
          · rw [skip _ _ later]
            obtain ⟨value, found, inherits⟩ := ih (by omega) goesOn later
            have less := (position_lt_iff newOrdered atB there).mpr later
            exact ⟨value, found, inherits.pass here (same.trans_lt less).ne⟩
        · -- The new member arrives.
          rename_i differs
          rcases Nat.eq_or_lt_of_le ahead with rfl | later
          · obtain rfl := Option.mem_unique atB there
            rw [Nat.sub_self]
            refine ⟨generation, rfl, .arrives fun x other from_ found => ?_⟩
            have above := (position_le_iff oldOrdered here found).mpr from_
            exact ((lt_of_le_of_ne (not_lt.mp notLess) (Ne.symm differs)).trans_le above).ne'
          · rw [skip _ _ later]
            exact ih (by omega) inside later

/-! ### Changes -/

/-- What a member of the old list becomes: nothing if it left, or a member with its new weight. -/
def carriedMember (new : List Member) (changes : List MemberChange) (member : Member × Nat) :
    Option (Bytes × Nat) :=
  match changes.find? fun change => change.oldPosition = some member.2 with
  | none => some (member.1.id, member.1.weight)
  | some change => change.newPosition.bind fun y =>
    new[y]?.map fun after => (member.1.id, after.weight)

/-- Insert a member that joined at its position in the new list. -/
def insertMember (new : List Member) (members : List (Bytes × Nat)) :
    MemberChange → List (Bytes × Nat)
  | .added y => match new[y]? with
    | some after => members.take y ++ (after.id, after.weight) :: members.drop y
    | none => members
  | _ => members

/-- The old list without the members that left, with the new weights, and with the members that
joined. -/
def patched (old new : List Member) (changes : List MemberChange) : List (Bytes × Nat) :=
  changes.foldl (insertMember new) (old.zipIdx.filterMap (carriedMember new changes))

variable {rest : List MemberChange}

theorem carriedMember_cons {change : MemberChange} {a : Nat}
    (past : ∀ x, change.oldPosition = some x → x < a) (members : List Member) :
    (members.zipIdx a).filterMap (carriedMember new (change :: rest)) =
      (members.zipIdx a).filterMap (carriedMember new rest) := by
  refine filterMap_congr fun entry member => ?_
  unfold carriedMember
  rw [find?_cons_of_neg]
  intro same
  have before := past _ (of_decide_eq_true same)
  have after := le_snd_of_mem_zipIdx member
  omega

theorem drop_eq_cons {members : List Member} {position : Nat} {member : Member}
    (found : members[position]? = some member) :
    members.drop position = member :: members.drop (position + 1) := by
  obtain ⟨inside, rfl⟩ := List.getElem?_eq_some_iff.mp found
  exact List.drop_eq_getElem_cons inside

/-- From any point of the merge on, the changes turn the rest of the old list into that of the
new one. -/
theorem Merge.patches {a b : Nat} (merge : Merge old new a b rest)
    (front : List (Bytes × Nat)) (length : front.length = b) :
    rest.foldl (insertMember new)
        (front ++ ((old.drop a).zipIdx a).filterMap (carriedMember new rest)) =
      front ++ (new.drop b).map fun after => (after.id, after.weight) := by
  induction merge generalizing front with
  | done oldEnds newEnds =>
    rw [drop_eq_nil_of_le (getElem?_eq_none_iff.mp oldEnds),
      drop_eq_nil_of_le (getElem?_eq_none_iff.mp newEnds)]
    rfl
  | @removed a b rest before here _ _ ih =>
    rw [drop_eq_cons here, zipIdx_cons, filterMap_cons_none (by simp [carriedMember,
      MemberChange.oldPosition, MemberChange.newPosition]), carriedMember_cons (by
      rintro x ⟨⟩; exact Nat.lt_succ_self a)]
    exact ih front length
  | @added a b rest after there _ _ ih =>
    subst length
    rw [foldl_cons, drop_eq_cons there]
    have later := ih (front ++ [(after.id, after.weight)]) length_append
    rw [append_assoc, append_assoc] at later
    rw [insertMember, there, take_left, drop_left]
    exact later
  | @kept a b rest before after here there same weight goesOn ih =>
    have unlisted : rest.find? (fun change => change.oldPosition = some a) = none := by
      refine find?_eq_none.mpr fun change member listed => ?_
      exact Nat.not_succ_le_self a ((goesOn.ahead member).1 a (of_decide_eq_true listed))
    rw [drop_eq_cons here, zipIdx_cons, filterMap_cons_some (by
      unfold carriedMember; rw [unlisted]), drop_eq_cons there, map_cons, ← same, ← weight]
    have later := ih (front ++ [(before.id, before.weight)]) (by simp [length])
    rwa [append_assoc, append_assoc] at later
  | @reweighted a b rest before after here there same _ _ ih =>
    rw [drop_eq_cons here, zipIdx_cons, filterMap_cons_some (b := (before.id, after.weight))
        (by simp [carriedMember, MemberChange.oldPosition, MemberChange.newPosition, there]),
      carriedMember_cons (by rintro x ⟨⟩; exact Nat.lt_succ_self a), drop_eq_cons there,
      map_cons, ← same]
    have later := ih (front ++ [(before.id, after.weight)]) (by simp [length])
    rwa [append_assoc, append_assoc] at later

namespace Membership

variable {hashing : Hashing}

/-! ### Chains -/

/-- A chain of memberships: a fresh one, and then each one made with the one before. -/
structure Chain (chain : Nat → Membership hashing) (n : Nat) : Prop where
  generation : (chain 0).generation = 0
  since : (chain 0).since = List.replicate (chain 0).members.length 0
  next : ∀ i < n, ∃ next : Membership hashing, chain (i + 1) = next.withPredecessor (chain i)

/-- The positions of a chain since when every membership up to the last has a member. -/
def stays (chain : Nat → Membership hashing) (n : Nat) (id : Bytes) : Set Nat :=
  {i | i ≤ n ∧ ∀ j, i ≤ j → j ≤ n → ∃ member ∈ (chain j).members, member.id = id}

variable {chain : Nat → Membership hashing} {n : Nat}

/-- A member's generation is the first of its present stay. -/
theorem Chain.arrivals (links : Chain chain n) (short : n < 2 ^ 32 - 1) :
    (chain n).generation = n ∧ ∀ (p : Nat) member, (chain n).members[p]? = some member →
      ∃ i, (chain n).since[p]? = some i ∧ IsLeast (stays chain n member.id) i := by
  induction n with
  | zero =>
    refine ⟨links.generation, fun p member found => ⟨0, ?_, ⟨le_rfl, ?_⟩, fun _ _ => Nat.zero_le _⟩⟩
    · rw [links.since, getElem?_replicate_of_lt (lt_of_getElem? found)]
    · rintro j - none
      obtain rfl := Nat.le_zero.mp none
      exact ⟨member, mem_of_getElem? found, rfl⟩
  | succ n ih =>
    obtain ⟨_, arrived⟩ := ih
      { links with next := fun i before => links.next i (by omega) } (by omega)
    obtain ⟨next, made⟩ := links.next n n.lt_succ_self
    have generation : (chain (n + 1)).generation = n + 1 := by
      rw [made]
      show min ((chain n).generation + 1) _ = _
      omega
    refine ⟨generation, fun p member found => ?_⟩
    have listed := mem_of_getElem? found
    obtain ⟨value, inherited, inherits⟩ := inheritSince_spec (chain n).ordered
      (chain (n + 1)).ordered (chain n).since (chain (n + 1)).generation
      (Nat.le_add_left _ (0 + 0)) (Nat.zero_le _) (Nat.zero_le p) found
    refine ⟨value, ?_, ?_⟩
    · rw [made] at inherited ⊢
      exact inherited
    rcases inherits with @⟨x, before, old, same⟩ | absent
    · obtain ⟨i, since, ⟨early, stays⟩, least⟩ := arrived x before old
      rw [since]
      rw [same] at stays least
      refine ⟨⟨early.trans n.le_succ, fun j from_ upTo => ?_⟩, fun k ⟨upTo, remains⟩ => ?_⟩
      · rcases Nat.le_succ_iff.mp upTo with earlier | rfl
        · exact stays j from_ earlier
        · exact ⟨member, listed, rfl⟩
      · rcases Nat.le_succ_iff.mp upTo with earlier | rfl
        · exact least ⟨earlier, fun j from_ upTo => remains j from_ (upTo.trans n.le_succ)⟩
        · exact early.trans n.le_succ
    · rw [generation]
      refine ⟨⟨le_rfl, fun j from_ upTo => ?_⟩, fun k ⟨upTo, remains⟩ => ?_⟩
      · obtain rfl := le_antisymm upTo from_
        exact ⟨member, listed, rfl⟩
      · by_contra earlier
        obtain ⟨before, member', same⟩ := remains n (by omega) n.le_succ
        obtain ⟨x, old⟩ := mem_iff_getElem?.mp member'
        exact absent x before (Nat.zero_le x) old same

/-- The lineage of a chain of memberships. The generation of a member is the first of those since
when it has always been listed. The changes a link records turn the old list of IDs and weights
into the new one, and a member that they do not name moves to its shifted position. -/
theorem lineage_of_chain (links : Chain chain n) (short : n < 2 ^ 32 - 1) :
    (∀ (p : Nat) member, (chain n).members[p]? = some member →
      ∃ i, (chain n).since[p]? = some i ∧ IsLeast (stays chain n member.id) i) ∧
    ∀ i < n, ∀ delta, (chain (i + 1)).delta = some delta →
      patched (chain i).members (chain (i + 1)).members delta.changes =
        (chain (i + 1)).members.map (fun member => (member.id, member.weight)) ∧
      ∀ (x : Nat) before, (chain i).members[x]? = some before →
        (∀ change ∈ delta.changes, change.oldPosition ≠ some x) →
        ∃ after, (chain (i + 1)).members[shifted delta.changes x]? = some after ∧
          before.id = after.id ∧ before.weight = after.weight := by
  refine ⟨(links.arrivals short).2, fun i inside delta recorded => ?_⟩
  obtain ⟨next, made⟩ := links.next i inside
  rw [made] at recorded ⊢
  have merge := (withPredecessor_delta recorded).2.2
  refine ⟨merge.patches [] rfl, fun x before here unnamed => ?_⟩
  rcases merge.old_cases (Nat.zero_le x) here with left | ⟨_, after, -, there, same, either⟩
  · exact absurd rfl (unnamed _ left)
  rw [merge.shifted_eq (chain i).ordered next.ordered here there same]
  rcases either with changed | ⟨weight, -⟩
  · exact absurd rfl (unnamed _ changed)
  · exact ⟨after, there, same, weight⟩

/-- Three members join two: they arrive in the second membership. -/
theorem lineage_of_chain_joined :
    ∃ chain : Nat → Membership spreadHashing, Chain chain 1 ∧
      (chain 1).members[2]? = some (spreadMember 2) ∧
      IsLeast (stays chain 1 (spreadMember 2).id) 1 := by
  have links : Chain (fun i => if i = 0 then Placement.chainStart else Placement.chainNext) 1 :=
    ⟨rfl, rfl, fun i before => ⟨Placement.chainFresh, by
      obtain rfl := Nat.lt_one_iff.mp before
      exact Placement.chainNext_eq⟩⟩
  obtain ⟨i, since, least⟩ := (lineage_of_chain links (by decide)).1 2 _ rfl
  cases since
  exact ⟨_, links, rfl, least⟩

end Membership

end Unbounded.Topology
