/-
This file proves that the graph of a membership is one symmetric graph however
it is asked. In one pool the edge test and the neighbor list answer with the same
link relation between positions. Over all pools the neighbor list is the sorted
union, agrees with the neighbor test, and respects the degree bound.
-/

import Unbounded.Membership

namespace Unbounded.Topology

open List

/-! ### One pool -/

theorem Mesh.Regular.localIndex_eq_some {mesh : Mesh} (regular : mesh.Regular)
    {position member : Nat} :
    mesh.localIndex position = some member ↔ mesh.members[member]? = some position := by
  rw [Mesh.localIndex, idxOf?_eq_some_iff, getElem?_eq_some_iff]
  constructor
  · rintro ⟨inside, here, -⟩
    exact ⟨inside, here⟩
  · rintro ⟨inside, here⟩
    refine ⟨inside, here, fun earlier less same => ?_⟩
    have ascending := pairwise_iff_getElem.mp regular.ascending earlier member
      (less.trans inside) inside less
    exact absurd (same.trans here.symm) ascending.ne

namespace Pool

variable {pool : Pool}

/-- Two positions are linked in a pool. -/
def Linked (pool : Pool) (p q : Nat) : Prop :=
  ∃ a b, pool.mesh.members[a]? = some p ∧ pool.mesh.members[b]? = some q ∧ pool.mesh.Linked a b

theorem Linked.symm {p q : Nat} (linked : pool.Linked p q) : pool.Linked q p := by
  obtain ⟨a, b, hereA, hereB, linked⟩ := linked
  exact ⟨b, a, hereB, hereA, linked.symm⟩

theorem Linked.mem {p q : Nat} (linked : pool.Linked p q) : p ∈ pool.members := by
  obtain ⟨_, _, hereA, -, -⟩ := linked
  exact mem_of_getElem? hereA

section Regular

variable (regular : pool.mesh.Regular)

include regular

theorem Linked.ne {p q : Nat} (linked : pool.Linked p q) : p ≠ q := by
  obtain ⟨_, _, hereA, hereB, linked⟩ := linked
  rintro rfl
  rw [← regular.localIndex_eq_some] at hereA hereB
  exact linked.1 (Option.mem_unique hereA hereB)

variable (filled : pool.mesh.Filled)

include filled

/-- The edge test answers with the link relation. -/
theorem edge_spec (p q : Nat) :
    ∃ kind, pool.edge p q = some kind ∧ (kind.isSome ↔ pool.Linked p q) := by
  unfold edge
  split
  · rename_i a b hereA hereB
    rw [regular.localIndex_eq_some] at hereA hereB
    obtain ⟨kind, found, linked⟩ :=
      regular.edgeLocal_spec filled (lt_of_getElem? hereA) (lt_of_getElem? hereB)
    refine ⟨kind, found, linked.trans ⟨fun link => ⟨a, b, hereA, hereB, link⟩, ?_⟩⟩
    rintro ⟨_, _, hereC, hereD, link⟩
    rw [← regular.localIndex_eq_some] at hereA hereB hereC hereD
    cases hereA.symm.trans hereC
    cases hereB.symm.trans hereD
    exact link
  · rename_i missing
    refine ⟨none, rfl, ⟨nofun, ?_⟩⟩
    rintro ⟨a, b, hereA, hereB, -⟩
    rw [← regular.localIndex_eq_some] at hereA hereB
    exact absurd hereB (missing a b hereA)

/-- The neighbors of a position are what it is linked to. There are no more of them than the
degree bound. -/
theorem extendNeighbors_spec (p : Nat) :
    ∃ list, pool.extendNeighbors p = some list ∧ (∀ q, q ∈ list ↔ pool.Linked p q) ∧
      (sortDedup list).length ≤ pool.maxDegree := by
  unfold extendNeighbors
  cases here : pool.mesh.localIndex p with
  | none =>
    refine ⟨[], rfl, fun q => ⟨nofun, ?_⟩, Nat.zero_le _⟩
    rintro ⟨_, b, hereA, -, -⟩
    rw [← regular.localIndex_eq_some, here] at hereA
    cases hereA
  | some n =>
    rw [regular.localIndex_eq_some] at here
    obtain ⟨list, found, mem_list, length⟩ :=
      regular.neighborsLocal_spec filled (lt_of_getElem? here)
    have linked : ∀ q, q ∈ list ↔ pool.Linked p q := by
      intro q
      rw [mem_list]
      constructor
      · rintro ⟨member, there, link⟩
        exact ⟨n, member, here, there, link⟩
      · rintro ⟨_, b, hereA, hereB, link⟩
        rw [← regular.localIndex_eq_some] at here hereA
        cases here.symm.trans hereA
        exact ⟨b, hereB, link⟩
    refine ⟨list, found, linked, le_min ((sortDedup_length_le list).trans length) ?_⟩
    -- the member itself is in the pool and not among its neighbors
    have bound := sortDedup_length_lt (fun member => ((linked p).mp member).ne regular rfl)
      (mem_of_getElem? here) fun q member => ((linked q).mp member).symm.mem
    omega

end Regular

end Pool

/-! ### All pools -/

namespace Membership

variable {hashing : Hashing} (membership : Membership hashing)

theorem regular {pool : Pool} (member : pool ∈ membership.pools) : pool.mesh.Regular := by
  obtain ⟨_, built⟩ := membership.built pool member
  rw [built.mesh]
  refine Mesh.build_regular hashing ?_
  rw [seatsAt_positions built.inside]
  exact built.ascending

theorem lt_of_mem_pool {pool : Pool} (member : pool ∈ membership.pools) {position : Nat}
    (inside : position ∈ pool.members) : position < membership.members.length := by
  obtain ⟨_, built⟩ := membership.built pool member
  rw [built.members_eq] at inside
  exact built.inside position inside

/-- Two positions are linked in some pool. -/
def Linked (p q : Nat) : Prop := ∃ pool ∈ membership.pools, pool.Linked p q

/-- No mesh of the membership has an empty column. -/
def Filled : Prop := ∀ pool ∈ membership.pools, pool.mesh.Filled

variable {membership}

section

variable {p q : Nat} (linked : membership.Linked p q)

include linked

theorem Linked.symm : membership.Linked q p := by
  obtain ⟨pool, member, linked⟩ := linked
  exact ⟨pool, member, linked.symm⟩

theorem Linked.ne : p ≠ q := by
  obtain ⟨_, member, linked⟩ := linked
  exact linked.ne (membership.regular member)

theorem Linked.lt : p < membership.members.length := by
  obtain ⟨_, member, linked⟩ := linked
  exact membership.lt_of_mem_pool member linked.mem

end

section Filled

variable (filled : membership.Filled)

include filled

/-- The neighbor list is ascending and answers with the link relation. There are no more
neighbors than the degree bound. -/
theorem neighbors_spec (p : Nat) :
    ∃ list, membership.neighbors p = some list ∧ list.Pairwise (· < ·) ∧
      (∀ q, q ∈ list ↔ membership.Linked p q) ∧ list.length ≤ membership.maxDegree := by
  have spec : ∀ pool ∈ membership.pools, pool.extendNeighbors p =
        some ((pool.extendNeighbors p).getD []) ∧
      (∀ q, q ∈ (pool.extendNeighbors p).getD [] ↔ pool.Linked p q) ∧
      (sortDedup ((pool.extendNeighbors p).getD [])).length ≤ pool.maxDegree := by
    intro pool member
    obtain ⟨list, found, linked, bound⟩ :=
      Pool.extendNeighbors_spec (membership.regular member) (filled pool member) p
    rw [found]
    exact ⟨rfl, linked, bound⟩
  have looked : membership.pools.mapM (·.extendNeighbors p) =
      some (membership.pools.map fun pool => (pool.extendNeighbors p).getD []) :=
    mapM_eq_map fun pool member => (spec pool member).1
  have linked : ∀ q, q ∈ (membership.pools.map fun pool =>
      (pool.extendNeighbors p).getD []).flatten ↔ membership.Linked p q := by
    intro q
    rw [mem_flatten]
    constructor
    · rintro ⟨_, inside, member⟩
      obtain ⟨pool, belongs, rfl⟩ := mem_map.mp inside
      exact ⟨pool, belongs, ((spec pool belongs).2.1 q).mp member⟩
    · rintro ⟨pool, belongs, link⟩
      exact ⟨_, mem_map_of_mem belongs, ((spec pool belongs).2.1 q).mpr link⟩
  unfold neighbors unionNeighbors
  rw [looked]
  generalize listed : (membership.pools.map fun pool =>
    (pool.extendNeighbors p).getD []) = lists at linked
  refine ⟨_, rfl, sortDedup_ascending _, fun q => by rw [mem_sortDedup, linked], le_min ?_ ?_⟩
  · have inside : sortDedup lists.flatten ⊆ (lists.map sortDedup).flatten := by
      intro q member
      obtain ⟨_, belongs, here⟩ := mem_flatten.mp (mem_sortDedup.mp member)
      exact mem_flatten.mpr ⟨_, mem_map_of_mem belongs, mem_sortDedup.mpr here⟩
    have shorter := (subperm_of_subset (sortDedup_nodup _) inside).length_le
    rw [length_flatten, ← listed, map_map, map_map] at shorter
    rw [← listed]
    exact shorter.trans (sum_le_sum fun pool member => (spec pool member).2.2)
  · cases empty : sortDedup lists.flatten with
    | nil => exact Nat.zero_le _
    | cons first =>
      rw [← empty]
      have link : membership.Linked p first := by
        rw [← linked, ← mem_sortDedup, empty]
        exact mem_cons_self
      have bound := sortDedup_length_lt (fun member => ((linked p).mp member).ne rfl)
        (mem_range.mpr link.lt) fun q member => mem_range.mpr ((linked q).mp member).symm.lt
      rw [length_range] at bound
      omega

/-- The edge test over all pools answers with the link relation. -/
theorem anyEdge_spec (p q : Nat) : ∃ answer, (membership.pools.anyM fun pool => do
        let kind ← pool.edge p q
        return kind.isSome) = some answer ∧ (answer = true ↔ membership.Linked p q) := by
  have spec : ∀ pool ∈ membership.pools, pool.edge p q = some ((pool.edge p q).getD none) ∧
        (((pool.edge p q).getD none).isSome ↔ pool.Linked p q) := by
    intro pool member
    obtain ⟨_, found, linked⟩ := Pool.edge_spec (membership.regular member) (filled pool member) p q
    rw [found]
    exact ⟨rfl, linked⟩
  refine ⟨_, anyM_eq_any (fun pool => ((pool.edge p q).getD none).isSome) ?_, ?_⟩
  · intro pool member
    rw [(spec pool member).1]
    rfl
  · rw [any_eq_true]
    constructor
    · rintro ⟨pool, member, linked⟩
      exact ⟨pool, member, (spec pool member).2.mp linked⟩
    · rintro ⟨pool, member, link⟩
      exact ⟨pool, member, (spec pool member).2.mpr link⟩

theorem isNeighbor_spec (p q : Nat) : ∃ answer, membership.isNeighbor p q = some answer ∧
      (answer = true ↔ membership.Linked p q) := by
  unfold isNeighbor
  by_cases same : p = q
  · rw [if_pos same]
    exact ⟨false, rfl, nofun, fun link => absurd same link.ne⟩
  · rw [if_neg same]
    exact anyEdge_spec filled p q

end Filled

/-- The mesh is one symmetric graph however it is asked. In a pool without an empty column, a
position is in the neighbor list of another exactly when the edge test finds a link, in either
direction; no position is its own neighbor, and none has more neighbors than the degree bound.
Over all pools the neighbor list is ascending, agrees with the neighbor test, and respects the
degree bound. -/
theorem mesh_one_graph (membership : Membership hashing) :
    (∀ pool ∈ membership.pools, pool.mesh.Filled → ∀ p q,
      ∃ neighborsP neighborsQ edge, pool.neighbors p = some neighborsP ∧
        pool.neighbors q = some neighborsQ ∧ pool.edge p q = some edge ∧
        (q ∈ neighborsP ↔ edge.isSome) ∧ (edge.isSome ↔ p ∈ neighborsQ) ∧ p ∉ neighborsP ∧
        neighborsP.length ≤ pool.maxDegree) ∧
    (membership.Filled → ∀ p q,
      ∃ neighbors answer, membership.neighbors p = some neighbors ∧
        membership.isNeighbor p q = some answer ∧ neighbors.Pairwise (· < ·) ∧
        (q ∈ neighbors ↔ answer = true) ∧ neighbors.length ≤ membership.maxDegree) := by
  constructor
  · intro pool member filled p q
    have regular := membership.regular member
    obtain ⟨listP, foundP, linkedP, boundP⟩ := Pool.extendNeighbors_spec regular filled p
    obtain ⟨listQ, foundQ, linkedQ, -⟩ := Pool.extendNeighbors_spec regular filled q
    obtain ⟨edge, foundE, linkedE⟩ := Pool.edge_spec regular filled p q
    refine ⟨sortDedup listP, sortDedup listQ, edge, ?_, ?_, foundE, ?_, ?_, ?_, boundP⟩
    · rw [Pool.neighbors, foundP]
      rfl
    · rw [Pool.neighbors, foundQ]
      rfl
    · rw [mem_sortDedup, linkedP, linkedE]
    · rw [mem_sortDedup, linkedQ, linkedE]
      exact ⟨.symm, .symm⟩
    · rw [mem_sortDedup, linkedP]
      exact fun link => link.ne regular rfl
  · intro filled p q
    obtain ⟨list, found, ascending, linked, bound⟩ := neighbors_spec filled p
    obtain ⟨answer, tested, agrees⟩ := isNeighbor_spec filled p q
    exact ⟨list, answer, found, tested, ascending, (linked q).trans agrees.symm, bound⟩

/-! ### An example membership -/

/-- A hashing that spreads members over columns by their first byte. -/
def spreadHashing : Hashing where
  domain := []
  columnHash id := (id.map Fin.val).headD 0
  delegateKey id := (id.map Fin.val).headD 0
  ringPoint id point := 16 * (id.map Fin.val).headD 0 + point
  jump key buckets := key % buckets
  jump_lt _ _ positive := Nat.mod_lt _ positive
  edgeHead _ _ := 0
  nextHop _ _ _ counter := counter
  placementIdentity members := members.length
  topologyIdentity members _ := members.length

/-- A member with a one-byte ID. -/
def spreadMember (id : Fin 256) : Member :=
  { id := [id], weight := 1, weight_pos := by decide, weight_lt := by decide }

/-- Sixty-five members of one Site, in one pool of seven columns. -/
def spreadMembers : List Member :=
  (List.finRange 65).map fun index => spreadMember (index.castLE (by decide))

theorem spreadMembers_ordered :
    spreadMembers.Pairwise fun earlier later => earlier.id < later.id := by decide +kernel

def spreadMembership : Membership spreadHashing where
  members := spreadMembers
  pools := [⟨[], 0, Mesh.build spreadHashing (seatsAt spreadMembers (List.range 65))⟩]
  since := List.replicate 65 0
  ordered := spreadMembers_ordered
  built := by
    intro pool member
    rw [List.mem_singleton] at member
    subst member
    exact ⟨List.range 65, List.pairwise_lt_range, fun _ => List.mem_range.mp, rfl⟩

theorem spreadMembership_filled : spreadMembership.Filled := by
  intro _ member
  rw [show spreadMembership.pools = [_] from rfl, mem_singleton] at member
  subst member
  decide +kernel

theorem mesh_one_graph_spread :
    spreadMembership.Filled ∧
    (∀ pool ∈ spreadMembership.pools, ∀ p q,
      ∃ neighborsP neighborsQ edge, pool.neighbors p = some neighborsP ∧
        pool.neighbors q = some neighborsQ ∧ pool.edge p q = some edge ∧
        (q ∈ neighborsP ↔ edge.isSome) ∧ (edge.isSome ↔ p ∈ neighborsQ) ∧ p ∉ neighborsP ∧
        neighborsP.length ≤ pool.maxDegree) ∧
    ∀ p q, ∃ neighbors answer, spreadMembership.neighbors p = some neighbors ∧
      spreadMembership.isNeighbor p q = some answer ∧ neighbors.Pairwise (· < ·) ∧
      (q ∈ neighbors ↔ answer = true) ∧ neighbors.length ≤ spreadMembership.maxDegree := by
  have filled := spreadMembership_filled
  obtain ⟨pools, union⟩ := mesh_one_graph spreadMembership
  exact ⟨filled, fun pool member => pools pool member (filled pool member), union filled⟩

end Membership

end Unbounded.Topology
