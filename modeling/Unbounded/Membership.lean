/-
This file models memberships: a fixed set of members in ID order, the pools they
are grouped into, the mesh of each pool, and what changed since the previous
membership. The graph of a membership is the union of its pool meshes.

A membership carries its invariants. Its members ascend by ID, and the mesh of
every pool is the one that is built for the pool's members, whether it was built
now or taken from an equal pool or from the previous membership.
-/

import Unbounded.MeshGraph

namespace Unbounded.Topology

open List

/-- Errors of the topology. -/
inductive Error
  | duplicateMember
  | invalidDomain
  | invalidMember
  | invalidPool
  | invalidQuery
  | overloaded
  | unreachable
  | samplingExhausted
  deriving DecidableEq, Repr

/-- The frozen record of one member: its ID, its positive weight and its Site. -/
structure Member where
  id : Bytes
  weight : Nat
  site : Bytes := []
  weight_pos : 0 < weight
  weight_lt : weight < 2 ^ 32

/-- The order of members by ID. -/
def Member.idLe (a b : Member) : Prop := a.id ≤ b.id

instance : DecidableRel Member.idLe := fun a b => inferInstanceAs (Decidable (a.id ≤ b.id))

instance : Std.Total Member.idLe := ⟨fun a b => le_total a.id b.id⟩

instance : IsTrans Member Member.idLe := ⟨fun _ _ _ => @le_trans Bytes _ _ _ _⟩

/-! ### Pools -/

/-- Which members a pool has. -/
structure PoolSpec where
  /-- Opaque pool ID, unique within a membership. -/
  id : Bytes
  /-- Preference of the pool. Higher wins. -/
  rank : Nat
  /-- Member IDs in the pool. None means every member. -/
  members : Option (List Bytes)

/-- One pool of a membership and its mesh. -/
structure Pool where
  id : Bytes
  rank : Nat
  mesh : Mesh

namespace Pool

variable (pool : Pool)

/-- Member positions, ascending. -/
def members : List Nat := pool.mesh.members

variable (position : Nat)

/-- Whether a position is in the pool. -/
def contains : Bool := (pool.mesh.localIndex position).isSome

/-- Number of columns. -/
def columns : Nat := pool.mesh.columns.length

/-- Member positions of a column, ascending. Empty if out of range. -/
def columnMembers (column : Nat) : List Nat :=
  (pool.mesh.columns[column]?.getD []).filterMap (pool.mesh.members[·]?)

/-- Column of a member. -/
def column : Option Nat := (pool.mesh.localIndex position).bind (pool.mesh.columnOf[·]?)

/-- The member of a column that a member links to. None if the member is not in the pool, the
column is out of range, or it is the member's own column. -/
def delegate (position column : Nat) : Option (Option Nat) :=
  match pool.mesh.localIndex position with
  | none => some none
  | some member =>
    if pool.columns ≤ column ∨ pool.mesh.columnOf[member]? = some column then some none
    else do
      let delegate ← pool.mesh.delegateLocal member column
      let position ← pool.mesh.members[delegate]?
      return some position

/-- Middle node of the primary path: the delegate of the source in the destination's column. -/
def primary (source destination : Nat) : Option (Option Nat) :=
  match pool.column destination with
  | none => some none
  | some column => pool.delegate source column

/-- Middle node of the alternate path: the delegate of the destination in the source's
column. -/
def alternate (source destination : Nat) : Option (Option Nat) :=
  match pool.column source with
  | none => some none
  | some column => pool.delegate destination column

/-- How two members are linked in this pool, if at all. -/
def edge (a b : Nat) : Option (Option EdgeKind) :=
  match pool.mesh.localIndex a, pool.mesh.localIndex b with
  | some a, some b => pool.mesh.edgeLocal a b
  | _, _ => some none

/-- Neighbors of a member, unsorted, may repeat. None outside the pool. -/
def extendNeighbors : Option (List Nat) :=
  match pool.mesh.localIndex position with
  | some member => pool.mesh.neighborsLocal member
  | none => some []

/-- Neighbors of a member in this pool, sorted. Empty if not in the pool. -/
def neighbors : Option (List Nat) := (pool.extendNeighbors position).map sortDedup

/-- Upper bound on any member's degree in this pool. -/
def maxDegree : Nat := pool.mesh.maxDegree

end Pool

/-- Sorted union of a member's neighbors over pools. -/
def unionNeighbors (pools : List Pool) (position : Nat) : Option (List Nat) := do
  let lists ← pools.mapM (·.extendNeighbors position)
  return sortDedup lists.flatten

/-- The members at these positions, as the mesh reads them. -/
def seatsAt (members : List Member) (positions : List Nat) : List Seat :=
  positions.filterMap fun position =>
    members[position]?.map fun member => ⟨position, member.id, member.site⟩

/-- The pool has these members, and the mesh that is built for them. -/
structure Pool.BuiltAt (hashing : Hashing) (members : List Member) (positions : List Nat)
    (pool : Pool) : Prop where
  ascending : positions.Pairwise (· < ·)
  inside : ∀ position ∈ positions, position < members.length
  mesh : pool.mesh = Mesh.build hashing (seatsAt members positions)

variable {members : List Member}

theorem seatsAt_positions {positions : List Nat}
    (inside : ∀ position ∈ positions, position < members.length) :
    (seatsAt members positions).map (·.position) = positions := by
  induction positions with
  | nil => rfl
  | cons position _ ih =>
    obtain ⟨member, found⟩ := exists_getElem? (inside position mem_cons_self)
    simp only [seatsAt, filterMap_cons, found, Option.map_some, map_cons]
    exact congrArg _ (ih fun other member => inside other (mem_cons_of_mem _ member))

/-- The IDs and Sites of two member lists are the same. -/
def sameSeats (old new : List Member) : Bool :=
  old.map (fun member => (member.id, member.site)) == new.map fun member => (member.id, member.site)

theorem seatsAt_congr {old new : List Member} (same : sameSeats old new = true)
    (positions : List Nat) : seatsAt old positions = seatsAt new positions := by
  have lists := beq_iff_eq.mp same
  refine congrArg (filterMap · positions) (funext fun position => ?_)
  have here := congrArg (·[position]?) lists
  simp only [getElem?_map] at here
  cases before : old[position]? <;> cases after : new[position]? <;> simp_all

namespace Pool.BuiltAt

variable {hashing : Hashing} {positions : List Nat} {pool : Pool}

theorem members_eq (built : pool.BuiltAt hashing members positions) : pool.members = positions := by
  rw [Pool.members, built.mesh, Mesh.build_members, seatsAt_positions built.inside]

/-- A mesh built for the same IDs and Sites serves a member list as its own. -/
theorem transfer {old : List Member} (same : sameSeats old members = true)
    (built : pool.BuiltAt hashing old positions) : pool.BuiltAt hashing members positions where
  ascending := built.ascending
  inside := by
    have lengths := congrArg length (beq_iff_eq.mp same)
    rw [length_map, length_map] at lengths
    exact lengths ▸ built.inside
  mesh := seatsAt_congr same positions ▸ built.mesh

end Pool.BuiltAt

/-! ### Changes -/

/-- One member that changed, with its position in the old and new lists. -/
inductive MemberChange
  /-- The member left. -/
  | removed (old : Nat)
  /-- The member joined. -/
  | added (new : Nat)
  /-- The member stayed but its weight changed. -/
  | reweighted (old new : Nat)
  deriving DecidableEq, Repr

/-- Position in the old list, if the member was there. -/
def MemberChange.oldPosition : MemberChange → Option Nat
  | .removed old => some old
  | .reweighted old _ => some old
  | .added _ => none

/-- Position in the new list, if the member is there. -/
def MemberChange.newPosition : MemberChange → Option Nat
  | .added new => some new
  | .reweighted _ new => some new
  | .removed _ => none

/-- Changes from one previous membership, in ID order. -/
structure MembershipDelta where
  /-- Identity of the previous membership. -/
  base : Nat
  /-- Member count of the previous membership. -/
  oldCount : Nat
  changes : List MemberChange

/-- Most member changes that are tracked. -/
def maxIncrementalChanges : Nat := 64

/-- The merge of an old and a new member list, from positions `a` and `b` on. There is no
result once there are too many changes. Every step passes one member at least, so the two
lengths are steps enough. -/
def mergeChanges (old new : List Member) :
    Nat → Nat → Nat → List MemberChange → Option (List MemberChange)
  | 0, _, _, changes => some changes
  | steps + 1, a, b, changes =>
    match old[a]?, new[b]? with
    | none, none => some changes
    | some before, some after =>
      if before.id < after.id then
        proceed steps (a + 1) b (changes ++ [.removed a])
      else if after.id < before.id then
        proceed steps a (b + 1) (changes ++ [.added b])
      else
        proceed steps (a + 1) (b + 1)
          (if before.weight ≠ after.weight then changes ++ [.reweighted a b] else changes)
    | some _, none => proceed steps (a + 1) b (changes ++ [.removed a])
    | none, some _ => proceed steps a (b + 1) (changes ++ [.added b])
where
  /-- Go on unless there are too many changes. -/
  proceed (steps a b : Nat) (changes : List MemberChange) : Option (List MemberChange) :=
    if maxIncrementalChanges < changes.length then none
    else mergeChanges old new steps a b changes

/-- The arrival generations of a new member list, from positions `a` and `b` on: members the
old list has keep theirs, the others arrive now. -/
def inheritSince (old new : List Member) (since : List Nat) (generation : Nat) :
    Nat → Nat → Nat → List Nat
  | 0, _, _ => []
  | steps + 1, a, b =>
    match new[b]? with
    | none => []
    | some after =>
      match old[a]? with
      | none => generation :: inheritSince old new since generation steps a (b + 1)
      | some before =>
        if before.id < after.id then inheritSince old new since generation steps (a + 1) b
        else if before.id = after.id then
          since[a]?.getD 0 :: inheritSince old new since generation steps (a + 1) (b + 1)
        else generation :: inheritSince old new since generation steps a (b + 1)

/-! ### Memberships -/

/-- A fixed set of members, sorted by ID, and their pools. -/
structure Membership (hashing : Hashing) where
  members : List Member
  /-- Pools sorted by ID. -/
  pools : List Pool
  /-- What changed since the previous membership, if known. -/
  delta : Option MembershipDelta := none
  /-- Position in the chain of memberships. -/
  generation : Nat := 0
  /-- Per member, the generation in which it arrived in this chain. -/
  since : List Nat
  ordered : members.Pairwise fun earlier later => earlier.id < later.id
  built : ∀ pool ∈ pools, ∃ positions, pool.BuiltAt hashing members positions

/-- Reject byte strings longer than a 32-bit length. -/
def validateIdLength (bytes : Bytes) : Except Error Unit :=
  if bytes.length < 2 ^ 32 then .ok () else .error .invalidMember

/-- Position of the member with this ID, which must exist. -/
def locate (members : List Member) (id : Bytes) : Except Error Nat :=
  match members.findIdx? (·.id == id) with
  | some position => .ok position
  | none => .error .invalidPool

/-- The positions of a pool's members, ascending. -/
def PoolSpec.positions (members : List Member) (spec : PoolSpec) : Except Error (List Nat) :=
  match spec.members with
  | none => .ok (List.range members.length)
  | some list => do
    let positions ← list.mapM (locate members)
    let sorted := positions.insertionSort (· ≤ ·)
    if sorted.IsChain (· ≠ ·) then .ok sorted else .error .invalidPool

/-- Resolve a pool: its ID, its rank and its member positions. -/
def PoolSpec.resolve (members : List Member) (spec : PoolSpec) :
    Except Error (Bytes × Nat × List Nat) := do
  if 2 ^ 32 ≤ spec.id.length then throw .invalidPool
  let positions ← spec.positions members
  return (spec.id, spec.rank, positions)

/-- Add a pool. Its mesh is that of an earlier pool with the same members, of a reusable pool
with the same members, or a new one. -/
def addPool (hashing : Hashing) (members : List Member) (reusable pools : List Pool)
    (resolved : Bytes × Nat × List Nat) : List Pool :=
  let (id, rank, positions) := resolved
  let shared := (pools ++ reusable).find? (·.members == positions)
  pools ++ [⟨id, rank, (shared.map (·.mesh)).getD (Mesh.build hashing (seatsAt members positions))⟩]

/-- Resolve pool specs to positions and build, or reuse, their meshes. -/
def buildPools (hashing : Hashing) (members : List Member) (specs : List PoolSpec)
    (old : Option (Membership hashing)) : Except Error (List Pool) := do
  let resolved ← specs.mapM (PoolSpec.resolve members)
  let resolved := resolved.insertionSort fun a b => a.1 ≤ b.1
  if ¬ resolved.IsChain (fun a b => a.1 ≠ b.1) then throw .invalidPool
  let reusable := match old with
    | some old => if sameSeats old.members members then old.pools else []
    | none => []
  return resolved.foldl (addPool hashing members reusable) []

theorem PoolSpec.positions_spec {spec : PoolSpec} {positions : List Nat}
    (resolved : spec.positions members = .ok positions) :
    positions.Pairwise (· < ·) ∧ ∀ position ∈ positions, position < members.length := by
  unfold PoolSpec.positions at resolved
  split at resolved
  · cases resolved
    exact ⟨pairwise_lt_range, fun _ => mem_range.mp⟩
  · obtain ⟨_, found, resolved⟩ := bind_eq_ok.mp resolved
    dsimp only at resolved
    split at resolved
    · rename_i distinct
      cases resolved
      refine ⟨ascending_of_distinct (pairwise_insertionSort _ _) distinct, ?_⟩
      intro position member
      rw [mem_insertionSort] at member
      obtain ⟨_, -, here⟩ := mem_of_mapM_ok found position member
      unfold locate at here
      split at here
      · rename_i located
        cases here
        exact (findIdx?_eq_some_iff_findIdx_eq.mp located).1
      · cases here
    · cases resolved

variable {resolved : Bytes × Nat × List Nat} {pools reusable : List Pool} {hashing : Hashing}

theorem PoolSpec.resolve_spec {spec : PoolSpec} (found : spec.resolve members = .ok resolved) :
    resolved.2.2.Pairwise (· < ·) ∧ ∀ position ∈ resolved.2.2, position < members.length := by
  unfold PoolSpec.resolve at found
  split at found
  · cases found
  · obtain ⟨_, located, found⟩ := bind_eq_ok.mp found
    cases found
    exact PoolSpec.positions_spec located

/-- The pool of a resolved spec, with a mesh of its own. -/
def freshPool (hashing : Hashing) (members : List Member) (resolved : Bytes × Nat × List Nat) :
    Pool :=
  ⟨resolved.1, resolved.2.1, Mesh.build hashing (seatsAt members resolved.2.2)⟩

/-- A mesh that a pool shares is the one it would have of its own. -/
theorem addPool_eq
    (built : ∀ pool ∈ pools ++ reusable, ∃ positions, pool.BuiltAt hashing members positions) :
    addPool hashing members reusable pools resolved =
      pools ++ [freshPool hashing members resolved] := by
  obtain ⟨id, rank, positions⟩ := resolved
  unfold addPool freshPool
  dsimp only
  cases found : (pools ++ reusable).find? (·.members == positions) with
  | none => rfl
  | some shared =>
    obtain ⟨_, here⟩ := built shared (mem_of_find?_eq_some found)
    have same : shared.members = positions := by simpa using find?_some found
    rw [← same, here.members_eq, ← here.mesh]
    rfl

theorem foldl_addPool_eq (resolved : List (Bytes × Nat × List Nat))
    (valid : ∀ entry ∈ resolved, entry.2.2.Pairwise (· < ·) ∧
      ∀ position ∈ entry.2.2, position < members.length) (pools : List Pool)
    (built : ∀ pool ∈ pools ++ reusable, ∃ positions, pool.BuiltAt hashing members positions) :
    resolved.foldl (addPool hashing members reusable) pools =
      pools ++ resolved.map (freshPool hashing members) := by
  induction resolved generalizing pools with
  | nil => rw [map_nil, append_nil, foldl_nil]
  | cons _ _ ih =>
    obtain ⟨here, later⟩ := forall_mem_cons.mp valid
    rw [foldl_cons, addPool_eq built, map_cons, ih later, append_assoc, singleton_append]
    obtain ⟨old, reuse⟩ := forall_mem_append.mp built
    exact forall_mem_append.mpr ⟨forall_mem_append.mpr
      ⟨old, forall_mem_singleton.mpr ⟨_, here.1, here.2, rfl⟩⟩, reuse⟩

/-- Whatever is reused, the pools are the same, and each has the mesh built for its members. -/
theorem buildPools_spec (specs : List PoolSpec) :
    (∃ failure, ∀ old, buildPools hashing members specs old = .error failure) ∨
      ∃ pools, (∀ old, buildPools hashing members specs old = .ok pools) ∧
        ∀ pool ∈ pools, ∃ positions, pool.BuiltAt hashing members positions := by
  unfold buildPools
  cases found : specs.mapM (PoolSpec.resolve members) with
  | error => exact .inl ⟨_, fun _ => rfl⟩
  | ok resolved =>
    have valid : ∀ entry ∈ resolved.insertionSort fun a b => a.1 ≤ b.1,
        entry.2.2.Pairwise (· < ·) ∧ ∀ position ∈ entry.2.2, position < members.length := by
      intro entry member
      rw [mem_insertionSort] at member
      obtain ⟨_, -, here⟩ := mem_of_mapM_ok found entry member
      exact PoolSpec.resolve_spec here
    simp only [bind, Except.bind]
    split
    · exact .inl ⟨_, fun _ => rfl⟩
    refine .inr ⟨_, fun old => congrArg _ (foldl_addPool_eq _ valid [] ?_), ?_⟩
    · intro pool member
      split at member
      · rename_i old
        split at member
        · rename_i same
          exact (old.built pool member).imp fun _ built => built.transfer same
        · cases member
      · cases member
    · refine forall_mem_map.mpr fun entry member => ?_
      exact ⟨_, (valid entry member).1, (valid entry member).2, rfl⟩

theorem buildPools_built {specs : List PoolSpec} {old : Option (Membership hashing)}
    (found : buildPools hashing members specs old = .ok pools) :
    ∀ pool ∈ pools, ∃ positions, pool.BuiltAt hashing members positions := by
  rcases buildPools_spec specs with ⟨_, fails⟩ | ⟨_, builds, built⟩
  · cases (fails old).symm.trans found
  · exact Except.ok.inj ((builds old).symm.trans found) ▸ built

theorem ordered_of_distinct (sorted : members.Pairwise Member.idLe)
    (distinct : members.IsChain fun a b => a.id ≠ b.id) :
    members.Pairwise fun earlier later => earlier.id < later.id := by
  have ids : (members.map (·.id)).Pairwise (· < ·) :=
    ascending_of_distinct (pairwise_map.mpr sorted) (isChain_map _ |>.mpr distinct)
  exact pairwise_map.mp ids

namespace Membership

/-- Build a membership with these pools: sort the members by ID, and build the meshes, or reuse
those of an old membership. -/
def build (hashing : Hashing) (members : List Member) (specs : List PoolSpec)
    (old : Option (Membership hashing)) : Except Error (Membership hashing) :=
  if 0 ∈ hashing.domain then .error .invalidDomain
  else
    match members.forM fun member => do
        validateIdLength member.id
        validateIdLength member.site with
    | .error failure => .error failure
    | .ok () =>
      let frozen := members.insertionSort Member.idLe
      if distinct : frozen.IsChain fun a b => a.id ≠ b.id then
        match found : buildPools hashing frozen specs old with
        | .error failure => .error failure
        | .ok pools =>
          .ok {
            members := frozen
            pools
            since := List.replicate frozen.length 0
            ordered := ordered_of_distinct (List.pairwise_insertionSort _ _) distinct
            built := buildPools_built found }
      else .error .duplicateMember

/-- A membership that replaces an old one is what would have been built without it: members with
different histories agree on the graph. -/
theorem build_agrees (members : List Member) (specs : List PoolSpec)
    (old : Option (Membership hashing)) :
    build hashing members specs old = build hashing members specs none := by
  have pools (frozen : List Member) : buildPools hashing frozen specs old =
      buildPools hashing frozen specs none := by
    rcases buildPools_spec specs with ⟨_, same⟩ | ⟨_, same, -⟩ <;> rw [same, same]
  unfold build
  split
  · rfl
  split
  · rfl
  dsimp only
  split
  · split <;> split <;> rename_i first _ second <;> rw [pools, second] at first <;>
      cases first <;> rfl
  · rfl

/-- Hash of the IDs and weights. -/
def identity (membership : Membership hashing) : Nat :=
  hashing.placementIdentity (membership.members.map fun member => (member.id, member.weight))

/-- Hash of the IDs, the Sites and the pools. Weights are left out. -/
def topologyIdentity (membership : Membership hashing) : Nat :=
  hashing.topologyIdentity (membership.members.map fun member => (member.id, member.site))
    (membership.pools.map fun pool => (pool.id, pool.rank, pool.members))

/-- Record what changed since an old membership, and continue its lineage. Nothing is recorded
about an identical membership, or about too many changes. -/
def withPredecessor (membership old : Membership hashing) : Membership hashing :=
  let generation := min (old.generation + 1) (2 ^ 32 - 1)
  let steps := old.members.length + membership.members.length
  { membership with
    generation
    since := inheritSince old.members membership.members old.since generation steps 0 0
    delta :=
      if membership.identity = old.identity then none
      else
        (mergeChanges old.members membership.members steps 0 0 []).map fun changes =>
          { base := old.identity, oldCount := old.members.length, changes } }

/-! ### The union graph -/

variable (membership : Membership hashing) (position : Nat)

/-- Neighbors of a member: the sorted union over its pools. -/
def neighbors : Option (List Nat) := unionNeighbors membership.pools position

/-- Number of neighbors of a member. -/
def degree : Option Nat := do
  let neighbors ← membership.neighbors position
  return neighbors.length

/-- Upper bound on any member's degree. -/
def maxDegree : Nat := min (membership.pools.map (·.maxDegree)).sum (membership.members.length - 1)

/-- Whether two members share a mesh edge in any pool. -/
def isNeighbor (other : Nat) : Option Bool :=
  if position = other then some false
  else membership.pools.anyM fun pool => do
    let kind ← pool.edge position other
    return kind.isSome

/-- First hops to block so that a route skips relays that may have failed it. -/
def detour (source destination level : Nat) : Option (List Nat) :=
  if level = 0 ∨ source = destination then some []
  else do
    let hops ← (membership.pools.filter fun pool =>
      pool.contains source && pool.contains destination).mapM fun pool => do
        let primary ← pool.primary source destination
        if 2 ≤ level then
          let alternate ← pool.alternate source destination
          return primary.toList ++ alternate.toList
        return primary.toList
    return sortDedup (hops.flatten.filter fun hop => hop != source && hop != destination)

/-- The order of edges: by pool rank, and column edges over delegate edges. -/
def edgeLt (a b : Nat × EdgeKind) : Prop := a.1 < b.1 ∨ a.1 = b.1 ∧ a.2 = .delegate ∧ b.2 = .column

instance : DecidableRel edgeLt := fun a b =>
  inferInstanceAs (Decidable (a.1 < b.1 ∨ a.1 = b.1 ∧ a.2 = .delegate ∧ b.2 = .column))

/-- Best pool rank and edge kind over pools that have the edge. -/
def edgeRank (a b : Nat) : Option (Option (Nat × EdgeKind)) := do
  let ranks ← membership.pools.mapM fun pool => do
    let kind ← pool.edge a b
    return kind.map fun kind => (pool.rank, kind)
  return ranks.reduceOption.foldl (fun best rank => match best with
    | some current => if edgeLt rank current then some current else some rank
    | none => some rank) none

/-- Symmetric tie-break of an edge. -/
def edgeHash (hashing : Hashing) (a b : Bytes) : Nat :=
  if a ≤ b then hashing.edgeHead a b else hashing.edgeHead b a

/-- One ranked peer: its edge, the tie-break and its position. -/
structure RankedPeer where
  edge : Nat × EdgeKind
  tie : Nat
  position : Nat

/-- The order of peers: best edge first, then by tie-break and position. -/
def RankedPeer.le (a b : RankedPeer) : Prop :=
  edgeLt b.edge a.edge ∨ a.edge = b.edge ∧ pairLe (a.tie, a.position) (b.tie, b.position)

instance : DecidableRel RankedPeer.le := fun a b => inferInstanceAs (Decidable
  (edgeLt b.edge a.edge ∨ a.edge = b.edge ∧ pairLe (a.tie, a.position) (b.tie, b.position)))

/-- The member's RDMA peers: its best eligible neighbors, best first. -/
def rdmaPeers (budget : Nat) (eligible : Nat → Nat → Bool) : Option (List Nat) := do
  let neighbors ← membership.neighbors position
  let ranked ← (neighbors.filter (eligible position)).mapM fun other => do
    match ← membership.edgeRank position other with
    | none => return none
    | some edge =>
      let self ← membership.members[position]?
      let peer ← membership.members[other]?
      return some { edge, tie := edgeHash hashing self.id peer.id, position := other }
  return ((ranked.reduceOption.insertionSort RankedPeer.le).take budget).map (·.position)

end Membership

end Unbounded.Topology
