/-
This file proves that the mesh of a pool is one symmetric graph. What building a
mesh establishes is stated once, as the regularity of a mesh: the columns list
the members by their column, a ring holds points of its own column's members
only, and the members sorted by key are all there. On a regular mesh without an
empty column every delegate exists, two members are linked when they share a
column or one is the other's delegate, and both the edge test and the neighbor
list answer with that relation.
-/

import Unbounded.Mesh

namespace Unbounded.Topology

open List

/-! ### The column choice -/

namespace Layout

theorem assign_length (columnOf : List Nat) (group : List (Seat × Nat)) (choice : Seat → Nat) :
    (assign columnOf group choice).length = columnOf.length := by
  induction group generalizing columnOf with
  | nil => rfl
  | cons _ _ ih => exact (ih _).trans length_set

/-- Every column of a layout is one of those reserved, or still the initial one. -/
def Bounded (layout : Layout) : Prop :=
  ∀ column ∈ layout.columnOf, column = 0 ∨ column < layout.base

theorem assign_bounded {columnOf : List Nat} (group : List (Seat × Nat)) {choice : Seat → Nat}
    {bound : Nat} (before : ∀ column ∈ columnOf, column = 0 ∨ column < bound)
    (chosen : ∀ seat, choice seat < bound) :
    ∀ column ∈ assign columnOf group choice, column = 0 ∨ column < bound := by
  induction group generalizing columnOf with
  | nil => exact before
  | cons entry _ ih =>
    refine ih fun value member => ?_
    rcases mem_or_eq_of_mem_set member with old | new
    · exact before value old
    · exact .inr (new ▸ chosen entry.1)

theorem reserved_pos (t size : Nat) : 0 < reserved t size :=
  Nat.lt_of_lt_of_le Nat.zero_lt_one (le_max_right _ _)

variable {layout : Layout} (hashing : Hashing) (t : Nat)

theorem Bounded.reserve (bounded : layout.Bounded) (group : List (Seat × Nat)) :
    (layout.reserve hashing t group).Bounded := by
  have chosen : ∀ seat : Seat, layout.base + hashing.jump (hashing.columnHash seat.id)
      (reserved t group.length) < layout.base + reserved t group.length :=
    fun seat => Nat.add_lt_add_left (hashing.jump_lt _ _ (reserved_pos _ _)) _
  refine assign_bounded group (fun column member => ?_) chosen
  exact (bounded column member).imp_right fun less => less.trans_le (Nat.le_add_right _ _)

theorem Bounded.placeSite (bounded : layout.Bounded) (group : List (Seat × Nat)) :
    (layout.placeSite hashing t group).Bounded := by
  unfold Layout.placeSite
  split
  · exact bounded.reserve hashing t group
  · exact bounded

theorem placeSite_length (layout : Layout) (group : List (Seat × Nat)) :
    (layout.placeSite hashing t group).columnOf.length = layout.columnOf.length := by
  unfold Layout.placeSite
  split
  · simp only [Layout.reserve, assign_length]
  · rfl

theorem placeSmall_length (layout : Layout) :
    (layout.placeSmall hashing t).columnOf.length = layout.columnOf.length := by
  unfold Layout.placeSmall
  split
  · simp only [Layout.reserve, assign_length]
  split
  · simp only [assign_length]
  · rfl

/-- Placing the small Sites leaves at least one column, and every member in one. -/
theorem Bounded.placeSmall (bounded : layout.Bounded) :
    ∀ column ∈ (layout.placeSmall hashing t).columnOf,
      column < (layout.placeSmall hashing t).base := by
  suffices (layout.placeSmall hashing t).Bounded ∧ 0 < (layout.placeSmall hashing t).base by
    intro column member
    rcases this.1 column member with rfl | less
    · exact this.2
    · exact less
  unfold Layout.placeSmall
  split
  · exact ⟨bounded.reserve hashing t _, Nat.lt_of_lt_of_le (reserved_pos t _) (Nat.le_add_left _ _)⟩
  · split
    · rename_i positive
      have chosen : ∀ seat : Seat,
          hashing.jump (hashing.columnHash seat.id) layout.base < layout.base :=
        fun seat => hashing.jump_lt _ _ positive
      exact ⟨assign_bounded layout.small bounded chosen, positive⟩
    · refine ⟨fun column member => ?_, Nat.one_pos⟩
      exact (bounded column member).imp_right fun less => absurd less (by omega)

theorem foldl_placeSite (groups : List (List (Seat × Nat))) (layout : Layout)
    (bounded : layout.Bounded) :
    (groups.foldl (Layout.placeSite hashing t) layout).Bounded ∧
      (groups.foldl (Layout.placeSite hashing t) layout).columnOf.length =
        layout.columnOf.length := by
  induction groups generalizing layout with
  | nil => exact ⟨bounded, rfl⟩
  | cons group rest ih =>
    obtain ⟨rest, length⟩ := ih _ (bounded.placeSite hashing t group)
    exact ⟨rest, length.trans (placeSite_length hashing t layout group)⟩

end Layout

theorem bounded_initial (k : Nat) : Layout.Bounded { columnOf := List.replicate k 0 } :=
  fun _ member => .inl (eq_of_mem_replicate member)

theorem layOut_length (hashing : Hashing) (seats : List Seat) :
    (layOut hashing seats).columnOf.length = seats.length := by
  unfold layOut
  rw [Layout.placeSmall_length, (Layout.foldl_placeSite _ _ _ _ (bounded_initial _)).2,
    length_replicate]

theorem layOut_column_lt (hashing : Hashing) (seats : List Seat) :
    ∀ column ∈ (layOut hashing seats).columnOf, column < (layOut hashing seats).base :=
  (Layout.foldl_placeSite _ _ _ _ (bounded_initial _)).1.placeSmall _ _

/-! ### Regular meshes -/

namespace Mesh

/-- What building the rings of a mesh establishes. -/
structure Ringed (mesh : Mesh) : Prop where
  rings : mesh.rings.length = mesh.columns.length
  keys : mesh.keyOf.length = mesh.members.length
  sorted : mesh.byKey.Pairwise fun earlier later => earlier.1 ≤ later.1
  mem_byKey : ∀ key member : Nat, (key, member) ∈ mesh.byKey ↔ mesh.keyOf[member]? = some key
  /-- A ring holds points of its own column's members. -/
  owned : ∀ (column : Nat) (ring : Ring Nat Nat), mesh.rings[column]? = some ring →
    ∀ entry ∈ ring.entries,
    mesh.columnOf[entry.2]? = some column
  /-- A ring without points is the ring of an empty column. -/
  pointed : ∀ (column : Nat) (ring : Ring Nat Nat) (members : List Nat),
    mesh.rings[column]? = some ring →
    mesh.columns[column]? = some members → (ring.entries = [] ↔ members = [])
  /-- No member's arcs hold more keys than the bound counts. -/
  incoming : ∀ ring ∈ mesh.rings, ∀ member < mesh.members.length,
    (arcsOf mesh.byKey ring member).length ≤ mesh.maxIncoming

/-- What building a mesh establishes. -/
structure Regular (mesh : Mesh) : Prop where
  ascending : mesh.members.Pairwise (· < ·)
  assigned : mesh.columnOf.length = mesh.members.length
  column_lt : ∀ member column : Nat, mesh.columnOf[member]? = some column →
    column < mesh.columns.length
  mem_column : ∀ (column : Nat) (members : List Nat), mesh.columns[column]? = some members →
    ∀ member, member ∈ members ↔ mesh.columnOf[member]? = some column
  column_nodup : ∀ members ∈ mesh.columns, members.Nodup
  /-- A mesh of one column needs no rings. -/
  ringed : mesh.rings = [] ∧ mesh.columns.length ≤ 1 ∨ mesh.Ringed

/-- No column is empty. -/
def Filled (mesh : Mesh) : Prop := ∀ column ∈ mesh.columns, column ≠ []

instance (mesh : Mesh) : Decidable mesh.Filled :=
  inferInstanceAs (Decidable (∀ column ∈ mesh.columns, column ≠ []))

theorem countIndices_getElem? (byKey : List (Nat × Nat)) (ring : Ring Nat Nat) (n : Nat)
    (indices : List (Fin ring.entries.length)) (incoming : List Nat) :
    (indices.foldl (fun incoming index =>
      incoming.modify (ring.entries.get index).2
        (· + ((ring.arc byKey index).1.length + (ring.arc byKey index).2.length)))
        incoming)[n]? =
      incoming[n]?.map (· + ((indices.filter fun index =>
        (ring.entries.get index).2 == n).flatMap fun index =>
          (ring.arc byKey index).1 ++ (ring.arc byKey index).2).length) := by
  induction indices generalizing incoming with
  | nil => simp
  | cons index _ ih =>
    rw [foldl_cons, ih, getElem?_modify]
    cases incoming[n]? with
    | none => rfl
    | some =>
      rw [Option.map_eq_map, Option.map_some, Option.map_some, Option.map_some]
      by_cases owned : (ring.entries.get index).2 = n
      · rw [if_pos owned, filter_cons_of_pos (by simpa using owned), flatMap_cons,
          length_append, length_append, Nat.add_assoc]
      · rw [if_neg owned, filter_cons_of_neg (by simpa using owned)]

theorem countRing_getElem? (byKey : List (Nat × Nat)) (incoming : List Nat)
    (ring : Ring Nat Nat) (n : Nat) :
    (countRing byKey incoming ring)[n]? = incoming[n]?.map (· + (arcsOf byKey ring n).length) :=
  countIndices_getElem? byKey ring n _ incoming

variable {byKey : List (Nat × Nat)}

/-- The count of a member covers its arcs on every ring counted. -/
theorem le_counted {rings : List (Ring Nat Nat)} {incoming : List Nat} {n count : Nat}
    (found : incoming[n]? = some count) :
    ∃ total, (rings.foldl (countRing byKey) incoming)[n]? = some total ∧ count ≤ total ∧
      ∀ ring ∈ rings, (arcsOf byKey ring n).length ≤ total := by
  induction rings generalizing incoming count with
  | nil => exact ⟨count, found, le_rfl, nofun⟩
  | cons ring _ ih =>
    have counted := countRing_getElem? byKey incoming ring n
    rw [found, Option.map_some] at counted
    obtain ⟨total, last, _, covers⟩ := ih counted
    exact ⟨total, last, by omega, forall_mem_cons.mpr ⟨by omega, covers⟩⟩

theorem le_foldr_max {list : List Nat} {value : Nat} (member : value ∈ list) :
    value ≤ list.foldr max 0 := by
  induction list with
  | nil => cases member
  | cons _ _ ih =>
    rcases mem_cons.mp member with rfl | member
    · exact le_max_left _ _
    · exact (ih member).trans (le_max_right _ _)

variable {column : List Nat} {seats : List Seat} {hashing : Hashing} {entry : Nat × Nat}

theorem mem_columnPoints (member : entry ∈ columnPoints hashing seats column) :
    entry.2 ∈ column := by
  obtain ⟨_, inside, member⟩ := mem_flatMap.mp member
  split at member
  · obtain ⟨_, -, rfl⟩ := mem_map.mp member
    exact inside
  · cases member

section

variable (inside : ∀ member ∈ column, member < seats.length)

include inside

theorem columnPoints_eq_nil : columnPoints hashing seats column = [] ↔ column = [] := by
  unfold columnPoints
  rw [flatMap_eq_nil_iff]
  constructor
  · intro empty
    rw [eq_nil_iff_forall_not_mem]
    intro member found
    have none := empty member found
    rw [getElem?_eq_getElem (inside member found)] at none
    exact absurd (map_eq_nil_iff.mp none) (by decide)
  · rintro rfl _ found
    cases found

theorem columnRing_eq_nil : (columnRing hashing seats column).entries = [] ↔ column = [] := by
  have points : columnPoints hashing seats column = [] ↔ column = [] := columnPoints_eq_nil inside
  rw [← points, ← length_eq_zero_iff, ← length_eq_zero_iff]
  exact iff_of_eq (congrArg (· = 0) (length_insertionSort _ _))

end

section Build

variable (hashing : Hashing) {seats : List Seat}

theorem build_members (seats : List Seat) :
    (build hashing seats).members = seats.map (·.position) := by
  unfold build
  dsimp only
  split <;> rfl

/-- The full mesh is regular. -/
theorem build_regular_small (ascending : (seats.map (·.position)).Pairwise (· < ·))
    (small : seats.length ≤ fullMeshMax) : (build hashing seats).Regular := by
  unfold build
  simp only [if_pos small]
  refine ⟨ascending, ?_, ?_, ?_, ?_, .inl ⟨rfl, ?_⟩⟩
  · rw [length_replicate, length_map]
  · intro member column found
    obtain ⟨inside, rfl⟩ := List.getElem?_eq_some_iff.mp found
    rw [List.length_replicate] at inside
    rw [if_neg (by omega), List.getElem_replicate]
    exact Nat.one_pos
  · intro column members found member
    split at found
    · cases found
    obtain ⟨rfl, rfl⟩ : column = 0 ∧ range seats.length = members := by
      cases column with
      | zero => exact ⟨rfl, Option.some.inj found⟩
      | succ => cases found
    rw [getElem?_replicate]
    split <;> simp_all
  · intro members member
    split at member
    · cases member
    · rw [mem_singleton] at member
      exact member ▸ nodup_range
  · split <;> simp

theorem mem_columnsOf {layout : Layout} {k : Nat} (length : layout.columnOf.length = k)
    {column : Nat} {members : List Nat} (found : (columnsOf layout k)[column]? = some members)
    (member : Nat) : member ∈ members ↔ layout.columnOf[member]? = some column := by
  rw [columnsOf, getElem?_map, Option.map_eq_some_iff] at found
  obtain ⟨_, found, rfl⟩ := found
  obtain ⟨_, rfl⟩ := List.getElem?_eq_some_iff.mp found
  rw [List.getElem_range, List.mem_filter, List.mem_range, beq_iff_eq, and_iff_right_iff_imp]
  intro assigned
  exact length ▸ lt_of_getElem? assigned

/-- A mesh of several columns is regular. -/
theorem build_regular_large (ascending : (seats.map (·.position)).Pairwise (· < ·))
    (large : ¬ seats.length ≤ fullMeshMax) : (build hashing seats).Regular := by
  unfold build
  simp only [if_neg large]
  have length := layOut_length hashing seats
  have bounded := layOut_column_lt hashing seats
  generalize layOut hashing seats = layout at length bounded ⊢
  have members : ∀ {column members}, (columnsOf layout seats.length)[column]? = some members →
      ∀ member, member ∈ members ↔ layout.columnOf[member]? = some column :=
    mem_columnsOf length
  refine ⟨ascending, ?_, ?_, fun _ _ => members, fun _ listed => ?_, .inr ?_⟩
  · rw [length, length_map]
  · intro member column found
    rw [columnsOf, length_map, length_range]
    exact bounded column (mem_of_getElem? found)
  · obtain ⟨_, -, rfl⟩ := mem_map.mp listed
    exact nodup_range.filter _
  refine ⟨?_, ?_, pairLe_sorted _, fun key member => ?_, ?_, ?_, ?_⟩
  · rw [length_map]
  · rw [length_map, length_map]
  · rw [mem_insertionSort, mem_zipIdx_iff_getElem?]
  · intro column ring found entry member
    rw [getElem?_map, Option.map_eq_some_iff] at found
    obtain ⟨inside, found, rfl⟩ := found
    exact (members found entry.2).mp (mem_columnPoints ((mem_insertionSort _).mp member))
  · intro column ring inside found listed
    rw [getElem?_map, listed] at found
    cases found
    refine columnRing_eq_nil fun member belongs => ?_
    exact length ▸ lt_of_getElem? ((members listed member).mp belongs)
  · intro ring member n inside
    have zero : (replicate seats.length 0)[n]? = some 0 := by
      rw [getElem?_replicate, if_pos (by simpa using inside)]
    obtain ⟨_, counted, -, covers⟩ := le_counted zero
    exact (covers ring member).trans (le_foldr_max (mem_of_getElem? counted))

theorem build_regular (ascending : (seats.map (·.position)).Pairwise (· < ·)) :
    (build hashing seats).Regular := by
  by_cases small : seats.length ≤ fullMeshMax
  · exact build_regular_small hashing ascending small
  · exact build_regular_large hashing ascending small

end Build

/-! ### Links -/

/-- Two local members are linked when they share a column, or one is the other's delegate in
its own column. -/
def Linked (mesh : Mesh) (a b : Nat) : Prop :=
  a ≠ b ∧ ∃ columnA columnB, mesh.columnOf[a]? = some columnA ∧ mesh.columnOf[b]? = some columnB ∧
    (columnA = columnB ∨ mesh.delegateLocal a columnB = some b ∨
      mesh.delegateLocal b columnA = some a)

theorem Linked.symm {mesh : Mesh} {a b : Nat} (linked : mesh.Linked a b) : mesh.Linked b a := by
  obtain ⟨distinct, columnA, columnB, assignedA, assignedB, cases⟩ := linked
  refine ⟨distinct.symm, columnB, columnA, assignedB, assignedA, ?_⟩
  rcases cases with same | forward | backward
  · exact .inl same.symm
  · exact .inr (.inr forward)
  · exact .inr (.inl backward)

theorem mem_arcsOf (sorted : byKey.Pairwise fun earlier later => earlier.1 ≤ later.1)
    {ring : Ring Nat Nat} {n : Nat} :
    entry ∈ arcsOf byKey ring n ↔ entry ∈ byKey ∧ ring.owner entry.1 = some n := by
  rw [← Ring.mem_arcs_iff sorted, arcsOf, mem_flatMap]
  refine exists_congr fun index => ?_
  rw [mem_filter, beq_iff_eq, and_iff_right (mem_finRange index)]

/-- On a mesh without an empty column every member has a delegate in every column. -/
theorem Ringed.delegate_exists {mesh : Mesh} (ringed : mesh.Ringed) (filled : mesh.Filled)
    {n column : Nat} (inside : n < mesh.members.length) (bound : column < mesh.columns.length) :
    ∃ delegate, mesh.delegateLocal n column = some delegate ∧
      mesh.columnOf[delegate]? = some column := by
  obtain ⟨ring, ringFound⟩ := exists_getElem? (ringed.rings ▸ bound)
  obtain ⟨members, columnFound⟩ := exists_getElem? bound
  obtain ⟨key, keyFound⟩ := exists_getElem? (ringed.keys ▸ inside)
  have nonempty : ring.entries ≠ [] := fun empty =>
    filled members (mem_of_getElem? columnFound)
      ((ringed.pointed column ring members ringFound columnFound).mp empty)
  obtain ⟨delegate, _, owner, member⟩ := ring.owner_isSome key nonempty
  refine ⟨delegate, ?_, ringed.owned column ring ringFound _ member⟩
  rw [delegateLocal, ringFound, keyFound]
  exact owner

section Graph

variable {mesh : Mesh} (regular : mesh.Regular)

include regular

variable {n own : Nat}

theorem Regular.column_of_lt (inside : n < mesh.members.length) :
    ∃ column, mesh.columnOf[n]? = some column :=
  exists_getElem? (regular.assigned ▸ inside)

theorem Regular.lt_of_column {column : Nat} (assigned : mesh.columnOf[n]? = some column) :
    n < mesh.members.length :=
  regular.assigned ▸ lt_of_getElem? assigned

/-- Members of different columns are on a mesh with rings. -/
theorem Regular.ringed_of_ne {columnA columnB : Nat} (insideA : columnA < mesh.columns.length)
    (insideB : columnB < mesh.columns.length) (different : columnA ≠ columnB) : mesh.Ringed := by
  rcases regular.ringed with ⟨-, _⟩ | ringed
  · omega
  · exact ringed

variable (filled : mesh.Filled)

include filled

/-- The edge test answers with the link relation. -/
theorem Regular.edgeLocal_spec {a b : Nat} (insideA : a < mesh.members.length)
    (insideB : b < mesh.members.length) :
    ∃ kind, mesh.edgeLocal a b = some kind ∧ (kind.isSome ↔ mesh.Linked a b) := by
  unfold edgeLocal
  by_cases same : a = b
  · rw [if_pos same]
    exact ⟨none, rfl, by simp [Linked, same]⟩
  rw [if_neg same]
  obtain ⟨columnA, assignedA⟩ := regular.column_of_lt insideA
  obtain ⟨columnB, assignedB⟩ := regular.column_of_lt insideB
  have linked : mesh.Linked a b ↔ columnA = columnB ∨ mesh.delegateLocal a columnB = some b ∨
      mesh.delegateLocal b columnA = some a := by
    simp only [Linked, assignedA, assignedB, Option.some.injEq, exists_and_left, exists_eq_left',
      and_iff_right (show a ≠ b from same)]
  simp only [assignedA, assignedB, linked, Option.bind_eq_bind, Option.bind_some]
  by_cases mates : columnA = columnB
  · rw [if_pos mates]
    exact ⟨_, rfl, by simp [mates]⟩
  rw [if_neg mates]
  have boundA := regular.column_lt a columnA assignedA
  have boundB := regular.column_lt b columnB assignedB
  have ringed := regular.ringed_of_ne boundA boundB mates
  obtain ⟨_, delegateA, -⟩ := ringed.delegate_exists filled insideA boundB
  obtain ⟨_, delegateB, -⟩ := ringed.delegate_exists filled insideB boundA
  rw [delegateA, delegateB]
  simp only [Option.bind_some, Option.some.injEq]
  split
  · exact ⟨_, rfl, by simp_all⟩
  · split <;> exact ⟨_, rfl, by simp_all⟩

omit filled in
theorem Regular.mates_length {column : List Nat} (assigned : mesh.columnOf[n]? = some own)
    (listed : mesh.columns[own]? = some column) :
    (column.filter (· != n)).length ≤ (mesh.columns.map (·.length)).foldr max 0 - 1 := by
  have member := (regular.mem_column own column listed n).mpr assigned
  have inside := mem_of_getElem? listed
  rw [← (regular.column_nodup column inside).erase_eq_filter, length_erase_of_mem member]
  exact Nat.sub_le_sub_right (le_foldr_max (mem_map_of_mem inside)) 1

omit filled in
/-- The column mates of a member. -/
theorem Regular.mates_spec {column : List Nat} (assigned : mesh.columnOf[n]? = some own)
    (listed : mesh.columns[own]? = some column) :
    ∃ mates, (column.filter (· != n)).mapM (mesh.members[·]?) = some mates ∧
      mates.length ≤ (mesh.columns.map (·.length)).foldr max 0 - 1 ∧
      ∀ position, position ∈ mates ↔ ∃ member, mesh.members[member]? = some position ∧
        member ≠ n ∧ mesh.columnOf[member]? = some own := by
  have mem_own := regular.mem_column own column listed
  have total : ∀ member ∈ column.filter (· != n),
      ∃ position, mesh.members[member]? = some position :=
    fun member belongs =>
      exists_getElem? (regular.lt_of_column ((mem_own member).mp (mem_filter.mp belongs).1))
  obtain ⟨mates, found, length, mem_mates⟩ := mapM_total total
  refine ⟨mates, found, length ▸ regular.mates_length assigned listed, fun position => ?_⟩
  rw [mem_mates]
  refine exists_congr fun member => ?_
  rw [mem_filter, mem_own, bne_iff_ne]
  exact ⟨fun ⟨⟨same, distinct⟩, here⟩ => ⟨here, distinct, same⟩,
    fun ⟨here, distinct, same⟩ => ⟨⟨same, distinct⟩, here⟩⟩

/-- The delegates of a member in the other columns. -/
theorem Regular.delegates_spec (ringed : mesh.Ringed) (assigned : mesh.columnOf[n]? = some own) :
    ∃ delegates, (((List.range mesh.columns.length).filter (· != own)).mapM fun column =>
        (mesh.delegateLocal n column).bind (mesh.members[·]?)) = some delegates ∧
      delegates.length = mesh.columns.length - 1 ∧
      ∀ position, position ∈ delegates ↔ ∃ member, mesh.members[member]? = some position ∧
        ∃ column, column ≠ own ∧ mesh.columnOf[member]? = some column ∧
          mesh.delegateLocal n column = some member := by
  have inside := regular.lt_of_column assigned
  have exists_delegate : ∀ column < mesh.columns.length,
      ∃ delegate, mesh.delegateLocal n column = some delegate ∧
        mesh.columnOf[delegate]? = some column := fun column bound =>
    ringed.delegate_exists filled inside bound
  have total : ∀ column ∈ (range mesh.columns.length).filter (· != own),
      ∃ position, (mesh.delegateLocal n column).bind (mesh.members[·]?) = some position := by
    intro column member
    obtain ⟨delegate, here, belongs⟩ :=
      exists_delegate column (mem_range.mp (mem_filter.mp member).1)
    rw [here]
    exact exists_getElem? (regular.lt_of_column belongs)
  obtain ⟨delegates, looked, length, mem_delegates⟩ := mapM_total total
  refine ⟨delegates, looked, ?_, fun position => ?_⟩
  · rw [length, ← nodup_range.erase_eq_filter, length_erase_of_mem (mem_range.mpr
      (regular.column_lt n own assigned)), length_range]
  · rw [mem_delegates]
    constructor
    · rintro ⟨column, member, here⟩
      rw [mem_filter, mem_range, bne_iff_ne] at member
      obtain ⟨delegate, chosen, belongs⟩ := exists_delegate column member.1
      rw [chosen] at here
      exact ⟨delegate, here, column, member.2, belongs, chosen⟩
    · rintro ⟨delegate, here, column, distinct, belongs, chosen⟩
      refine ⟨column, ?_, by rw [chosen]; exact here⟩
      rw [mem_filter, mem_range, bne_iff_ne]
      exact ⟨regular.column_lt delegate column belongs, distinct⟩

omit filled in
/-- The members that chose a member as their delegate. -/
theorem Regular.incoming_spec (ringed : mesh.Ringed) {ring : Ring Nat Nat}
    (assigned : mesh.columnOf[n]? = some own) (found : mesh.rings[own]? = some ring) :
    ∃ incoming, (((arcsOf mesh.byKey ring n).filter fun entry =>
        mesh.columnOf[entry.2]? != some own).mapM fun entry => mesh.members[entry.2]?) =
          some incoming ∧
      incoming.length ≤ mesh.maxIncoming ∧
      ∀ position, position ∈ incoming ↔ ∃ member, mesh.members[member]? = some position ∧
        mesh.columnOf[member]? ≠ some own ∧ mesh.delegateLocal member own = some n := by
  have mem_arcs : ∀ key member, (key, member) ∈ arcsOf mesh.byKey ring n ↔
      mesh.keyOf[member]? = some key ∧ ring.owner key = some n := by
    intro key member
    rw [mem_arcsOf ringed.sorted, ringed.mem_byKey]
  have total : ∀ entry ∈ (arcsOf mesh.byKey ring n).filter fun entry =>
      mesh.columnOf[entry.2]? != some own, ∃ position, mesh.members[entry.2]? = some position := by
    rintro ⟨key, member⟩ belongs
    refine exists_getElem? ?_
    rw [← ringed.keys]
    exact lt_of_getElem? ((mem_arcs key member).mp (mem_filter.mp belongs).1).1
  obtain ⟨incoming, looked, length, mem_incoming⟩ := mapM_total total
  refine ⟨incoming, looked, ?_, fun position => ?_⟩
  · rw [length]
    refine (length_filter_le _ _).trans ?_
    exact ringed.incoming ring (mem_of_getElem? found) n (regular.lt_of_column assigned)
  · rw [mem_incoming]
    constructor
    · rintro ⟨⟨key, member⟩, belongs, here⟩
      rw [mem_filter, mem_arcs, bne_iff_ne] at belongs
      obtain ⟨⟨keyed, owner⟩, other⟩ := belongs
      refine ⟨member, here, other, ?_⟩
      rw [delegateLocal, found, keyed]
      exact owner
    · rintro ⟨member, here, other, chosen⟩
      rw [delegateLocal, found, Option.bind_eq_bind, Option.bind_some, Option.bind_eq_bind,
        Option.bind_eq_some_iff] at chosen
      obtain ⟨key, keyed, owner⟩ := chosen
      refine ⟨(key, member), ?_, here⟩
      rw [mem_filter, mem_arcs, bne_iff_ne]
      exact ⟨⟨keyed, owner⟩, other⟩

/-- The neighbor list answers with the link relation, and is no longer than the degree bound
of its three parts. -/
theorem Regular.neighborsLocal_spec (inside : n < mesh.members.length) :
    ∃ list, mesh.neighborsLocal n = some list ∧ (∀ position, position ∈ list ↔
        ∃ member, mesh.members[member]? = some position ∧ mesh.Linked n member) ∧
      list.length ≤ (mesh.columns.map (·.length)).foldr max 0 - 1 + (mesh.columns.length - 1) +
        mesh.maxIncoming := by
  obtain ⟨own, assigned⟩ := regular.column_of_lt inside
  have bound := regular.column_lt n own assigned
  obtain ⟨_, listed⟩ := exists_getElem? bound
  obtain ⟨mates, matesFound, _, mem_mates⟩ := regular.mates_spec assigned listed
  unfold neighborsLocal
  simp only [assigned, listed, matesFound, Option.bind_eq_bind, Option.bind_some]
  rcases regular.ringed with ⟨none, _⟩ | ringed
  · -- a single column: the neighbors are the column mates
    rw [none]
    refine ⟨mates, rfl, fun position => ?_, by omega⟩
    rw [mem_mates]
    refine exists_congr fun member => and_congr_right fun here => ?_
    obtain ⟨other, belongs⟩ := regular.column_of_lt (lt_of_getElem? here)
    have same : other = own := by
      have := regular.column_lt member other belongs
      omega
    subst same
    constructor
    · rintro ⟨distinct, -⟩
      exact ⟨distinct.symm, other, other, assigned, belongs, .inl rfl⟩
    · rintro ⟨distinct, -⟩
      exact ⟨distinct.symm, belongs⟩
  · obtain ⟨_, ringFound⟩ := exists_getElem? (ringed.rings ▸ bound)
    obtain ⟨_, delegatesFound, _, mem_delegates⟩ := regular.delegates_spec filled ringed assigned
    obtain ⟨_, incomingFound, _, mem_incoming⟩ := regular.incoming_spec ringed assigned ringFound
    have present : ¬ mesh.rings.isEmpty = true := by
      rw [List.isEmpty_iff]
      intro empty
      rw [empty] at ringFound
      cases ringFound
    rw [if_neg present]
    simp only [delegatesFound, ringFound, incomingFound, Option.bind_some]
    refine ⟨_, rfl, fun position => ?_, ?_⟩
    · rw [mem_append, mem_append, mem_mates, mem_delegates, mem_incoming]
      constructor
      · rintro ((⟨member, here, distinct, same⟩ |
          ⟨member, here, other, distinct, belongs, chosen⟩) | ⟨member, here, distinct, chosen⟩)
        · exact ⟨member, here, distinct.symm, own, own, assigned, same, .inl rfl⟩
        · refine ⟨member, here, ?_, own, other, assigned, belongs, .inr (.inl chosen)⟩
          rintro rfl
          exact distinct (Option.mem_unique belongs assigned)
        · obtain ⟨other, belongs⟩ := regular.column_of_lt (lt_of_getElem? here)
          refine ⟨member, here, ?_, own, other, assigned, belongs, .inr (.inr chosen)⟩
          rintro rfl
          exact distinct assigned
      · rintro ⟨member, here, distinct, _, columnM, assignedN, belongs, linked⟩
        cases assigned.symm.trans assignedN
        by_cases same : columnM = own
        · exact .inl (.inl ⟨member, here, distinct.symm, same ▸ belongs⟩)
        rcases linked with equal | forward | backward
        · exact absurd equal.symm same
        · exact .inl (.inr ⟨member, here, columnM, same, belongs, forward⟩)
        · refine .inr ⟨member, here, ?_, backward⟩
          rw [belongs]
          exact fun equal => same (Option.some.inj equal)
    · rw [length_append, length_append]
      omega

end Graph

end Mesh

end Unbounded.Topology
