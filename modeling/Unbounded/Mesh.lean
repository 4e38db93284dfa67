/-
This file models the peer mesh of one pool. The members of a pool are split into
columns; members of a column are all linked, and each member links to one
delegate in every other column, which is the owner of its delegate key on the
hash ring of that column. No neighbor list is stored: the members that chose a
member as their delegate are read off the arcs of its ring points.

The hash heads and the jump hash are parameters. A function of the mesh that may
index a missing entry, and would panic, returns nothing there.
-/

import Unbounded.HashRing
import Unbounded.SortedList

namespace Unbounded.Topology

/-- Opaque byte strings: IDs and Sites. -/
abbrev Bytes := List (Fin 256)

/-- Pools of up to this many members are one column: a full mesh. -/
def fullMeshMax : Nat := 64

/-- Ring points each member puts on its column's ring. -/
def points : Nat := 16

/-- The hash functions of one member domain. -/
structure Hashing where
  /-- The name every hash starts with. -/
  domain : Bytes
  /-- Hash of an ID for its column choice. -/
  columnHash : Bytes → Nat
  /-- Delegate key of an ID. -/
  delegateKey : Bytes → Nat
  /-- The ring points of an ID. -/
  ringPoint : Bytes → Nat → Nat
  /-- Jump consistent hash: a bucket below the given number of buckets. -/
  jump : Nat → Nat → Nat
  jump_lt : ∀ key buckets, 0 < buckets → jump key buckets < buckets
  /-- Tie-break of an edge, from the lower and the higher ID of its ends. -/
  edgeHead : Bytes → Bytes → Nat
  /-- Draws of the next hop, from the seed, the IDs of both ends, and a counter. -/
  nextHop : Bytes → Bytes → Bytes → Nat → Nat
  /-- Hash of the IDs and weights. -/
  placementIdentity : List (Bytes × Nat) → Nat
  /-- Hash of the IDs and Sites, and of the pools: ID, rank and member positions. -/
  topologyIdentity : List (Bytes × Bytes) → List (Bytes × Nat × List Nat) → Nat

/-- Division rounding up. -/
def divCeil (dividend divisor : Nat) : Nat := (dividend + divisor - 1) / divisor

/-- Target column count and column size for a pool of `k` members. -/
def targetColumns (k : Nat) : Nat × Nat :=
  if k ≤ fullMeshMax then (1, k)
  else
    let columns := 1 <<< (k.log2 / 2)
    (columns, divCeil k columns)

/-- Division to the nearest integer, ties up. -/
def roundDiv (a t : Nat) : Nat := (2 * a + t) / (2 * t)

/-- One member of a pool: its position in the membership, and the ID and Site there. -/
structure Seat where
  position : Nat
  id : Bytes
  site : Bytes

/-! ### Columns -/

/-- The column choice under construction: the column of each local member, the members of
small Sites so far, and the number of columns reserved so far. -/
structure Layout where
  columnOf : List Nat
  small : List (Seat × Nat) := []
  base : Nat := 0

namespace Layout

variable (hashing : Hashing)

/-- Give every member of a group its column. -/
def assign (columnOf : List Nat) (group : List (Seat × Nat)) (column : Seat → Nat) : List Nat :=
  group.foldl (fun columnOf entry => columnOf.set entry.2 (column entry.1)) columnOf

/-- The number of columns a group of this size reserves. -/
def reserved (t size : Nat) : Nat := max (roundDiv size t) 1

/-- Reserve columns for a group. Its members pick one of them by jump hash. -/
def reserve (t : Nat) (layout : Layout) (group : List (Seat × Nat)) : Layout :=
  let count := reserved t group.length
  { layout with
    columnOf := assign layout.columnOf group fun seat =>
      layout.base + hashing.jump (hashing.columnHash seat.id) count
    base := layout.base + count }

/-- Place one Site: a large one gets columns of its own, a small one waits. -/
def placeSite (t : Nat) (layout : Layout) (group : List (Seat × Nat)) : Layout :=
  if divCeil t 2 ≤ group.length then layout.reserve hashing t group
  else { layout with small := layout.small ++ group }

/-- Place the members of small Sites: in columns of their own if there are enough of them, and
otherwise in the columns that exist. -/
def placeSmall (t : Nat) (layout : Layout) : Layout :=
  if divCeil t 2 ≤ layout.small.length then layout.reserve hashing t layout.small
  else if 0 < layout.base then
    { layout with
      columnOf := assign layout.columnOf layout.small fun seat =>
        hashing.jump (hashing.columnHash seat.id) layout.base }
  else { layout with base := 1 }

end Layout

/-- The members grouped by Site, in Site byte order. Local order breaks ties. -/
def siteGroups (seats : List Seat) : List (List (Seat × Nat)) :=
  (seats.zipIdx.insertionSort fun a b => a.1.site ≤ b.1.site).splitBy
    fun a b => a.1.site == b.1.site

/-- The column of every member, and the number of columns. -/
def layOut (hashing : Hashing) (seats : List Seat) : Layout :=
  let t := (targetColumns seats.length).2
  ((siteGroups seats).foldl (Layout.placeSite hashing t)
    { columnOf := List.replicate seats.length 0 }).placeSmall hashing t

/-! ### The mesh -/

/-- The order of pairs: by the first component, then by the second. -/
def pairLe (a b : Nat × Nat) : Prop := a.1 < b.1 ∨ a.1 = b.1 ∧ a.2 ≤ b.2

instance : DecidableRel pairLe := fun a b =>
  inferInstanceAs (Decidable (a.1 < b.1 ∨ a.1 = b.1 ∧ a.2 ≤ b.2))

theorem pairLe_iff {a b : Nat × Nat} : pairLe a b ↔ toLex a ≤ toLex b := by
  rw [Prod.Lex.toLex_le_toLex]
  rfl

instance : Std.Total pairLe := ⟨fun a b => by
  rw [pairLe_iff, pairLe_iff]
  exact le_total _ _⟩

instance : IsTrans (Nat × Nat) pairLe := ⟨fun a b c first second => by
  rw [pairLe_iff] at *
  exact first.trans second⟩

theorem pairLe_sorted (list : List (Nat × Nat)) :
    (list.insertionSort pairLe).Pairwise fun earlier later => earlier.1 ≤ later.1 :=
  (List.pairwise_insertionSort pairLe list).imp fun order =>
    order.elim le_of_lt fun same => same.1.le

/-- How two members of one pool are linked. -/
inductive EdgeKind
  /-- One links to the other as its delegate in the other's column. -/
  | delegate
  /-- Both are in the same column. -/
  | column
  deriving DecidableEq, Repr

/-- The mesh of one pool. A member is named by its local index, its place among the pool's
members. -/
structure Mesh where
  /-- Global positions of the members, ascending. -/
  members : List Nat
  /-- Column of each local member. -/
  columnOf : List Nat
  /-- Delegate key of each local member. -/
  keyOf : List Nat := []
  /-- Local members of each column, ascending. -/
  columns : List (List Nat)
  /-- One ring per column. None with a full mesh. -/
  rings : List (Ring Nat Nat) := []
  /-- Every local member sorted by key and local index. -/
  byKey : List (Nat × Nat) := []
  /-- Upper bound on incoming delegate edges of any member. -/
  maxIncoming : Nat := 0
  /-- Target column count and column size for the pool size. -/
  target : Nat × Nat

namespace Mesh

/-- Local members of each column, ascending. -/
def columnsOf (layout : Layout) (k : Nat) : List (List Nat) :=
  (List.range layout.base).map fun column =>
    (List.range k).filter fun member => layout.columnOf[member]? == some column

/-- The ring points of one column's members. -/
def columnPoints (hashing : Hashing) (seats : List Seat) (column : List Nat) : List (Nat × Nat) :=
  column.flatMap fun member =>
    match seats[member]? with
    | some seat => (List.range points).map fun point => (hashing.ringPoint seat.id point, member)
    | none => []

/-- The ring of one column. Local order follows ID order, so ties are deterministic. -/
def columnRing (hashing : Hashing) (seats : List Seat) (column : List Nat) : Ring Nat Nat where
  entries := (columnPoints hashing seats column).insertionSort pairLe
  ascending := pairLe_sorted _

/-- Add the arc of every point of a ring to the count of its owner. -/
def countRing (byKey : List (Nat × Nat)) (incoming : List Nat) (ring : Ring Nat Nat) : List Nat :=
  (List.finRange ring.entries.length).foldl (fun incoming index =>
    incoming.modify (ring.entries.get index).2
      (· + ((ring.arc byKey index).1.length + (ring.arc byKey index).2.length))) incoming

/-- Build the mesh of a pool with these members, in ascending order of position. -/
def build (hashing : Hashing) (seats : List Seat) : Mesh :=
  let k := seats.length
  if k ≤ fullMeshMax then
    { members := seats.map (·.position)
      columnOf := List.replicate k 0
      columns := if k = 0 then [] else [List.range k]
      target := targetColumns k }
  else
    let layout := layOut hashing seats
    let columns := columnsOf layout k
    let keyOf := seats.map fun seat => hashing.delegateKey seat.id
    let byKey := keyOf.zipIdx.insertionSort pairLe
    let rings := columns.map (columnRing hashing seats)
    { members := seats.map (·.position)
      columnOf := layout.columnOf
      keyOf
      columns
      rings
      byKey
      maxIncoming := (rings.foldl (countRing byKey) (List.replicate k 0)).foldr max 0
      target := targetColumns k }

/-- The keys in the arcs of a local member's ring points, with the members they belong to. -/
def arcsOf (byKey : List (Nat × Nat)) (ring : Ring Nat Nat) (n : Nat) : List (Nat × Nat) :=
  ((List.finRange ring.entries.length).filter fun index => (ring.entries.get index).2 == n).flatMap
    fun index => (ring.arc byKey index).1 ++ (ring.arc byKey index).2

variable (mesh : Mesh)

/-- Local index of a global position. -/
def localIndex (position : Nat) : Option Nat := mesh.members.idxOf? position

/-- Delegate of a local member in a column, which must not be its own. -/
def delegateLocal (n column : Nat) : Option Nat := do
  let ring ← mesh.rings[column]?
  let key ← mesh.keyOf[n]?
  ring.owner key

/-- How two local members are linked, if at all. -/
def edgeLocal (a b : Nat) : Option (Option EdgeKind) :=
  if a = b then some none
  else do
    let columnA ← mesh.columnOf[a]?
    let columnB ← mesh.columnOf[b]?
    if columnA = columnB then return some .column
    if (← mesh.delegateLocal a columnB) = b then return some .delegate
    if (← mesh.delegateLocal b columnA) = a then return some .delegate
    return none

/-- Neighbors of a local member: global positions, unsorted, may repeat. -/
def neighborsLocal (n : Nat) : Option (List Nat) := do
  let own ← mesh.columnOf[n]?
  let column ← mesh.columns[own]?
  let mates ← (column.filter (· != n)).mapM (mesh.members[·]?)
  if mesh.rings.isEmpty then return mates
  let delegates ← ((List.range mesh.columns.length).filter (· != own)).mapM fun column => do
    mesh.members[← mesh.delegateLocal n column]?
  let ring ← mesh.rings[own]?
  let incoming ← ((arcsOf mesh.byKey ring n).filter fun entry =>
    mesh.columnOf[entry.2]? != some own).mapM fun entry => mesh.members[entry.2]?
  return mates ++ delegates ++ incoming

/-- Upper bound on any member's degree in this pool. -/
def maxDegree : Nat :=
  let largest := (mesh.columns.map (·.length)).foldr max 0
  min (largest - 1 + (mesh.columns.length - 1) + mesh.maxIncoming) (mesh.members.length - 1)

end Mesh

end Unbounded.Topology
