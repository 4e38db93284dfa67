/-
This file models the nodes an owner may ask for a copy before it asks origin:
the previous owners of the page, later owners and demoted members that arrived
before it, and successors it was told about. Nodes are numbers, member positions
in the caller's membership. A list of fixed capacity is a list here, cut at its
capacity where the source cuts it.
-/

import Mathlib

namespace Unbounded.Read

/-- Most previous-membership owners one walk asks (the replica count). -/
def maxHandoff : Nat := 3

/-- Most lineage targets one owner walk asks. -/
def maxLineage : Nat := 6

/-- Later owners an owner can have (successor targets). -/
def replicasBelow : Nat := maxHandoff - 1

/-- Most handoff targets: successor targets plus lineage targets. -/
def maxTargets : Nat := replicasBelow + maxLineage

/-- Members ranked just below the owners. -/
def demotedDepth : Nat := 12 - 3

/-- Previous owners that are not current members. -/
def notMember : Nat := 2 ^ 32 - 1

/-- Append an item to a list of capacity `capacity`, dropping it when the list is full. -/
def pushWithin (capacity : Nat) (items : List Nat) (item : Nat) : List Nat :=
  if items.length ≥ capacity then items else items ++ [item]

/-- Predecessors an owner at `rank` may ask under the previous membership: bit `c` is set when
rank `c` names the same node in both. -/
def sameRankPrevious (previous current : List Nat) (rank : Nat) : Nat :=
  ((List.range (min (min rank current.length) 8)).filter fun c =>
      previous[c]?.isSome && previous[c]? == current[c]?).foldl (fun bits c => bits ||| 2 ^ c) 0

/-- Previous owners a page owner asks before origin, in previous rank order, without this node
and its current predecessors. Empty when the owner set did not change. -/
def handoffTargets (previous current : List Nat) (rank : Nat) : List Nat :=
  if previous.length = current.length ∧ ∀ node ∈ previous, node ∈ current then []
  else
    (previous.filter fun node =>
      some node ≠ current[rank]? && !(current.take rank).contains node).take maxHandoff

/-- Later owners that arrived before the owner at `rank`. Equal or unknown arrivals never
qualify. -/
def lineageTargets (owners : List Nat) (since : List (Option Nat)) (rank : Nat) : List Nat :=
  match since[rank]?.join with
  | none => []
  | some mine =>
    ((((owners.zip since).drop (rank + 1)).filter fun owner =>
      owner.2.any fun arrival => arrival < mine).map (·.1)).take maxHandoff

variable (since : List (Option Nat))

/-- Members above demoted member `k` that had arrived by `arrival`; unknown arrivals count as
present. -/
def arrivedAbove (demotedSince : List (Option Nat)) (k arrival : Nat) : Nat :=
  (since ++ demotedSince.take k).countP fun stamp => stamp.all fun stamp => stamp ≤ arrival

/-- Demoted members that arrived before the owner at `rank` and were owners then; members whose
arrival is `oldest` always qualify. -/
def demotedTargets (demoted : List Nat)
    (demotedSince : List (Option Nat)) (rank : Nat) (oldest : Option Nat) : List Nat :=
  match since[rank]?.join with
  | none => []
  | some mine =>
    ((demoted.zip demotedSince).zipIdx.filterMap fun entry =>
      match entry with
      | ((node, some arrival), k) =>
        if arrival < mine ∧
            (oldest = some arrival ∨ arrivedAbove since demotedSince k arrival < maxHandoff) then
          some node
        else none
      | _ => none).take maxLineage

/-- How many leading `handoff` targets are in `granted`. -/
def grantedPrefix (handoff granted : List Nat) : Nat :=
  (handoff.takeWhile fun node => granted.contains node).length

/-- Number of lineage targets for every owner rank. -/
def lineageCounts : List Nat :=
  (List.range maxHandoff).map fun rank =>
    match since[rank]?.join with
    | none => 0
    | some mine =>
      min ((since.drop (rank + 1)).countP fun stamp => stamp.any fun stamp => stamp < mine)
        maxHandoff

/-- Lineage targets first, then version - 1 targets while fewer than `maxHandoff` are listed. -/
def mergeHandoff (previous lineage : List Nat) : List Nat :=
  previous.foldl
    (fun targets node =>
      if targets.length ≥ maxHandoff ∨ targets.contains node then targets
      else pushWithin maxTargets targets node)
    (lineage.take maxLineage)

/-- Hinted owners an owner walk at `rank` asks copy-only before origin, newest first. Only
current owners ranked after this node qualify. -/
def successorTargets (hints owners : List Nat) (rank : Nat) : List Nat :=
  hints.reverse.foldl
    (fun targets node =>
      if owners.idxOf node < owners.length ∧ rank < owners.idxOf node ∧
          ¬ targets.contains node then
        pushWithin maxHandoff targets node
      else targets) []

/-- The handoff targets of an owner walk with `successors` first, and how many of them are
successor targets. -/
def withSuccessors (successors handoff : List Nat) : List Nat × Nat :=
  let first := successors.foldl
    (fun targets node =>
      if targets.length < maxHandoff ∧ ¬ targets.contains node then
        pushWithin maxTargets targets node
      else targets) []
  (handoff.foldl
    (fun targets node =>
      if targets.contains node then targets else pushWithin maxTargets targets node) first,
    first.length)

end Unbounded.Read
