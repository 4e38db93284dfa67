/-
This file is the library of doubly linked chains kept in a table: every node
names the node before it and the node after it. A segment of a chain is a list of
keys whose nodes link to each other in that order, and to given nodes at its two
ends. Segments split and join, depend on the nodes of their own keys only, and
relinking a node at an end changes what the segment continues with. Following the
links of a whole chain, from either end, visits its keys in order.
-/

import Mathlib

namespace Unbounded

open List

variable {Key : Type*}

/-- The links of a chain: for every node, the one before and the one after it. -/
abbrev Links (Key : Type*) := Key → Option (Option Key × Option Key)

namespace Links

/-- The keys link to each other in this order, after `older` and before `newer`. -/
def Segment (links : Links Key) : Option Key → List Key → Option Key → Prop
  | _, [], _ => True
  | older, key :: rest, newer =>
    links key = some (older, rest.head?.or newer) ∧ Segment links (some key) rest newer

variable {fresh newer older : Option Key} {links other : Links Key}

theorem segment_append {front back : List Key} : links.Segment older (front ++ back) newer ↔
      links.Segment older front (back.head?.or newer) ∧
        links.Segment (front.getLast?.or older) back newer := by
  induction front generalizing older with
  | nil => simp [Segment]
  | cons _ rest ih =>
    rw [cons_append, Segment, Segment, ih, and_assoc]
    cases rest with
    | nil => simp [Segment]
    | cons =>
      rw [getLast?_cons_cons]
      exact Iff.rfl

variable {chain : List Key}

/-- A segment depends on the nodes of its own keys only. -/
theorem Segment.congr (segment : links.Segment older chain newer)
    (same : ∀ key ∈ chain, other key = links key) : other.Segment older chain newer := by
  induction chain generalizing older with
  | nil => trivial
  | cons key _ ih =>
    refine ⟨(same key mem_cons_self).trans segment.1, ?_⟩
    exact ih segment.2 fun other member => same other (mem_cons_of_mem _ member)

theorem Segment.mem (segment : links.Segment older chain newer) {key : Key} (member : key ∈ chain) :
    ∃ before after, links key = some (before, after) := by
  induction chain generalizing older with
  | nil => cases member
  | cons _ _ ih =>
    rcases mem_cons.mp member with rfl | member
    · exact ⟨_, _, segment.1⟩
    · exact ih segment.2 member

theorem Segment.relinkNewer {front : List Key} {key : Key}
    (segment : links.Segment older (front ++ [key]) newer)
    (same : ∀ member ∈ front, other member = links member)
    (relinked : ∀ before after,
      links key = some (before, after) → other key = some (before, fresh)) :
    other.Segment older (front ++ [key]) fresh := by
  rw [segment_append] at segment ⊢
  exact ⟨segment.1.congr same, relinked _ _ segment.2.1, trivial⟩

theorem Segment.relinkOlder {rest : List Key} {key : Key}
    (segment : links.Segment older (key :: rest) newer)
    (same : ∀ member ∈ rest, other member = links member)
    (relinked : ∀ before after,
      links key = some (before, after) → other key = some (fresh, after)) :
    other.Segment fresh (key :: rest) newer :=
  ⟨relinked _ _ segment.1, segment.2.congr same⟩

/-- The keys visited by following the links to the newer nodes. -/
def forward (links : Links Key) : Nat → Option Key → List Key
  | steps + 1, some key => key :: links.forward steps ((links key).bind (·.2))
  | _, _ => []

/-- The keys visited by following the links to the older nodes. -/
def backward (links : Links Key) : Nat → Option Key → List Key
  | steps + 1, some key => key :: links.backward steps ((links key).bind (·.1))
  | _, _ => []

theorem Segment.forward_eq (segment : links.Segment older chain none) {steps : Nat}
    (enough : chain.length ≤ steps) : links.forward steps chain.head? = chain := by
  induction chain generalizing older steps with
  | nil => cases steps <;> rfl
  | cons _ _ ih =>
    obtain ⟨_, rfl⟩ := Nat.exists_eq_add_of_le' enough
    rw [head?_cons, length_cons, ← Nat.add_assoc, forward, segment.1, Option.bind_some,
      Option.or_none, ih segment.2 (Nat.le_add_left _ _)]

theorem Segment.backward_eq (segment : links.Segment none chain newer) {steps : Nat}
    (enough : chain.length ≤ steps) : links.backward steps chain.getLast? = chain.reverse := by
  induction chain using reverseRecOn generalizing newer steps with
  | nil => cases steps <;> rfl
  | append_singleton _ _ ih =>
    obtain ⟨shorter, last, -⟩ := segment_append.mp segment
    rw [length_append, length_singleton] at enough
    obtain ⟨_, rfl⟩ := Nat.exists_eq_add_of_le' enough
    rw [getLast?_concat, ← Nat.add_assoc, backward, last, Option.bind_some, Option.or_none,
      ih shorter (Nat.le_add_left _ _), reverse_concat]

end Links

end Unbounded
