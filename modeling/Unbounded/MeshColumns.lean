/-
This file proves exactly when a mesh has no empty column. Columns are reserved by
the sizes of the Site groups, and then each member picks one of its group's columns
by jump hash. Nothing makes every reserved column somebody's pick, and a column
that nobody picks has an empty ring, on which looking up a delegate panics.

So a pool keeps what the mesh promises when every column it reserves is picked,
and only then: the columns the layout fills are the picks of the members, and with
no empty column every operation on the mesh answers.
-/

import Unbounded.OneRelay

namespace Unbounded.Topology

open List

/-! ### What a layout fills -/

namespace Layout

variable {group : List (Seat × Nat)}

/-- Assigning columns to a group changes the columns of its members only. -/
theorem assign_getElem? {columnOf : List Nat} (distinct : (group.map (·.2)).Nodup)
    (inside : ∀ entry ∈ group, entry.2 < columnOf.length) (choice : Seat → Nat) :
    (∀ entry ∈ group, (assign columnOf group choice)[entry.2]? = some (choice entry.1)) ∧
      ∀ index, index ∉ group.map (·.2) →
        (assign columnOf group choice)[index]? = columnOf[index]? := by
  unfold assign
  induction group generalizing columnOf with
  | nil => exact ⟨nofun, fun _ _ => rfl⟩
  | cons first rest ih =>
    rw [map_cons, nodup_cons] at distinct
    have within : ∀ entry ∈ rest, entry.2 < (columnOf.set first.2 (choice first.1)).length := by
      intro entry member
      rw [length_set]
      exact inside entry (mem_cons_of_mem _ member)
    obtain ⟨members, others⟩ := ih distinct.2 within
    rw [foldl_cons]
    constructor
    · refine forall_mem_cons.mpr ⟨?_, members⟩
      rw [others _ distinct.1, getElem?_set_self (inside _ mem_cons_self)]
    · intro index outside
      rw [map_cons, mem_cons, not_or] at outside
      rw [others index outside.2, getElem?_set_ne (Ne.symm outside.1)]

/-- The columns the members of these groups pick, when the first group's columns start at the
offset. -/
def picks (hashing : Hashing) (t : Nat) : Nat → List (List (Seat × Nat)) → List Nat
  | _, [] => []
  | offset, group :: rest =>
    (group.map fun entry =>
        offset + hashing.jump (hashing.columnHash entry.1.id) (reserved t group.length)) ++
      picks hashing t (offset + reserved t group.length) rest

/-- The number of columns these groups reserve. -/
def reservedAll (t : Nat) (groups : List (List (Seat × Nat))) : Nat :=
  (groups.map fun group => reserved t group.length).sum

/-- A Site with enough members for columns of its own. -/
def large (t : Nat) (group : List (Seat × Nat)) : Bool := divCeil t 2 ≤ group.length

variable (hashing : Hashing) (t : Nat)

theorem picks_concat (offset : Nat) (groups : List (List (Seat × Nat)))
    (group : List (Seat × Nat)) :
    picks hashing t offset (groups ++ [group]) = picks hashing t offset groups ++
      group.map fun entry => offset + reservedAll t groups +
        hashing.jump (hashing.columnHash entry.1.id) (reserved t group.length) := by
  induction groups generalizing offset with
  | nil => simp [picks, reservedAll]
  | cons _ _ ih =>
    rw [cons_append, picks, ih, picks, append_assoc]
    simp only [reservedAll, map_cons, sum_cons, Nat.add_assoc]

/-- The layout of these groups: the columns they reserve, in order, of which the picked ones are
filled. -/
structure Fills (groups : List (List (Seat × Nat))) (layout : Layout) : Prop where
  base : layout.base = reservedAll t groups
  picked : ∀ column, column ∈ picks hashing t 0 groups ↔
    ∃ entry ∈ groups.flatten, layout.columnOf[entry.2]? = some column

variable {hashing t} {layout : Layout} {groups : List (List (Seat × Nat))}

section

variable (fills : Fills hashing t groups layout) (distinct : (group.map (·.2)).Nodup)
  (inside : ∀ entry ∈ group, entry.2 < layout.columnOf.length)
  (apart : ∀ entry ∈ groups.flatten, entry.2 ∉ group.map (·.2))

include fills distinct inside apart

/-- Assigning columns to a group fills those its members choose. -/
theorem Fills.assign (choice : Seat → Nat) (column : Nat) :
    column ∈ picks hashing t 0 groups ∨ (∃ entry ∈ group, choice entry.1 = column) ↔
      ∃ entry ∈ (groups ++ [group]).flatten,
        (Layout.assign layout.columnOf group choice)[entry.2]? = some column := by
  obtain ⟨members, others⟩ := assign_getElem? distinct inside choice
  rw [fills.picked, flatten_append, flatten_singleton]
  simp only [mem_append]
  constructor
  · rintro (⟨entry, member, found⟩ | ⟨entry, member, rfl⟩)
    · exact ⟨entry, .inl member, (others _ (apart entry member)).trans found⟩
    · exact ⟨entry, .inr member, members entry member⟩
  · rintro ⟨entry, member | member, found⟩
    · exact .inl ⟨entry, member, (others _ (apart entry member)).symm.trans found⟩
    · exact .inr ⟨entry, member, Option.some.inj ((members entry member).symm.trans found)⟩

/-- Reserving columns for a group fills those its members pick. -/
theorem Fills.reserve : Fills hashing t (groups ++ [group]) (layout.reserve hashing t group) := by
  refine ⟨?_, fun column => ?_⟩
  · rw [reservedAll, map_append, sum_append, ← reservedAll, ← fills.base]
    simp [Layout.reserve]
  · rw [picks_concat, mem_append, mem_map, Nat.zero_add, ← fills.base]
    exact fills.assign distinct inside apart
      (fun seat => layout.base + hashing.jump (hashing.columnHash seat.id) _) column

end

/-- The layout after some Sites: the large ones have columns, the small ones wait. -/
structure Follows (hashing : Hashing) (t : Nat) (groups : List (List (Seat × Nat)))
    (layout : Layout) : Prop where
  fills : Fills hashing t (groups.filter (large t)) layout
  small : layout.small = (groups.filter fun group => !large t group).flatten

/-- Placing a Site gives it columns, or puts it with the small ones. -/
theorem Follows.placeSite (follows : Follows hashing t groups layout)
    (distinct : (group.map (·.2)).Nodup)
    (inside : ∀ entry ∈ group, entry.2 < layout.columnOf.length)
    (apart : ∀ entry ∈ groups.flatten, entry.2 ∉ group.map (·.2)) :
    Follows hashing t (groups ++ [group]) (layout.placeSite hashing t group) := by
  unfold Layout.placeSite
  by_cases big : divCeil t 2 ≤ group.length
  · rw [if_pos big]
    have isLarge : large t group = true := decide_eq_true big
    refine ⟨?_, ?_⟩
    · rw [filter_append, filter_cons_of_pos isLarge, filter_nil]
      refine follows.fills.reserve distinct inside fun entry member => apart entry ?_
      obtain ⟨list, listed, member⟩ := mem_flatten.mp member
      exact mem_flatten.mpr ⟨list, (mem_filter.mp listed).1, member⟩
    · rw [filter_append, filter_cons_of_neg (by rw [isLarge]; decide), filter_nil, append_nil]
      exact follows.small
  · rw [if_neg big]
    have notLarge : large t group = false := decide_eq_false big
    refine ⟨?_, ?_⟩
    · rw [filter_append, filter_cons_of_neg (by rw [notLarge]; decide), filter_nil, append_nil]
      exact ⟨follows.fills.base, follows.fills.picked⟩
    · rw [filter_append, filter_cons_of_pos (by rw [notLarge]; rfl), filter_nil, flatten_append,
        flatten_singleton, ← follows.small]

/-- Placing Site after Site. -/
theorem Follows.foldl {before after : List (List (Seat × Nat))}
    (follows : Follows hashing t before layout)
    (distinct : ((before ++ after).flatten.map (·.2)).Nodup)
    (inside : ∀ entry ∈ after.flatten, entry.2 < layout.columnOf.length) :
    Follows hashing t (before ++ after) (after.foldl (Layout.placeSite hashing t) layout) := by
  induction after generalizing before layout with
  | nil => rwa [append_nil]
  | cons _ _ ih =>
    rw [append_cons] at distinct ⊢
    have parts := distinct
    rw [flatten_append, flatten_append, flatten_singleton, map_append,
      map_append, nodup_append, nodup_append] at parts
    obtain ⟨⟨-, own, apart⟩, -⟩ := parts
    have placed := follows.placeSite own
      (fun entry member => inside entry (mem_append_left _ member))
      fun entry member listed => apart _ (mem_map_of_mem member) _ listed rfl
    refine ih placed distinct fun entry member => ?_
    rw [placeSite_length]
    exact inside entry (mem_append_right _ member)

theorem follows_nil (k : Nat) : Follows hashing t [] { columnOf := List.replicate k 0 } where
  fills := ⟨rfl, fun column => by simp [picks]⟩
  small := rfl

end Layout

/-! ### Picked columns -/

section Picked

variable (hashing : Hashing) (seats : List Seat)

/-- The large Sites of a pool. -/
def largeSites : List (List (Seat × Nat)) :=
  (siteGroups seats).filter (Layout.large (targetColumns seats.length).2)

/-- The members of the small Sites of a pool. -/
def smallSites : List (Seat × Nat) :=
  ((siteGroups seats).filter fun group =>
    !Layout.large (targetColumns seats.length).2 group).flatten

/-- The number of columns a large pool reserves: those of its large Sites, and those of the small
ones together if they are many. -/
def reservedColumns : Nat :=
  Layout.reservedAll (targetColumns seats.length).2
    (largeSites seats ++
      if Layout.large (targetColumns seats.length).2 (smallSites seats) then [smallSites seats]
      else [])

/-- The columns the members of a large pool pick: each among the columns of its group, and members
of small Sites that are few among all columns. -/
def pickedColumns : List Nat :=
  let t := (targetColumns seats.length).2
  if Layout.large t (smallSites seats) then
    Layout.picks hashing t 0 (largeSites seats ++ [smallSites seats])
  else
    Layout.picks hashing t 0 (largeSites seats) ++ (smallSites seats).map fun entry =>
      hashing.jump (hashing.columnHash entry.1.id) (Layout.reservedAll t (largeSites seats))

/-- Every column a large pool reserves is picked by a member. -/
def EveryColumnPicked : Prop :=
  fullMeshMax < seats.length → ∀ column < reservedColumns seats,
    column ∈ pickedColumns hashing seats

instance : Decidable (EveryColumnPicked hashing seats) := inferInstanceAs (Decidable (_ → _))

variable {hashing seats}

theorem siteGroups_perm : (siteGroups seats).flatten.Perm seats.zipIdx := by
  rw [siteGroups, flatten_splitBy]
  exact perm_insertionSort _ _

theorem siteGroups_indices : ((siteGroups seats).flatten.map (·.2)).Perm
    (List.range seats.length) := by
  have indices : seats.zipIdx.map (·.2) = range seats.length := by
    rw [zipIdx_map_snd, range_eq_range']
  exact indices ▸ siteGroups_perm.map (·.2)

theorem divCeil_targetColumns_le {k : Nat} (large : fullMeshMax < k) :
    divCeil (targetColumns k).2 2 ≤ k := by
  have target : (targetColumns k).2 ≤ k := by
    rw [targetColumns, if_neg (Nat.not_le_of_lt large)]
    have positive : 0 < 1 <<< (k.log2 / 2) := by
      rw [Nat.one_shiftLeft]
      exact Nat.two_pow_pos _
    generalize 1 <<< (k.log2 / 2) = columns at positive
    refine Nat.div_le_of_le_mul ?_
    obtain ⟨_, rfl⟩ := Nat.exists_eq_succ_of_ne_zero positive.ne'
    obtain ⟨_, rfl⟩ := Nat.exists_eq_succ_of_ne_zero (Nat.ne_zero_of_lt large)
    rw [Nat.succ_mul, Nat.mul_succ]
    omega
  rw [divCeil]
  omega

/-- The groups of large Sites and the members of small ones hold every index once. -/
theorem largeSites_smallSites_perm :
    (((largeSites seats ++ [smallSites seats]).flatten).map (·.2)).Perm
      (List.range seats.length) := by
  refine List.Perm.trans (List.Perm.map _ ?_) siteGroups_indices
  rw [flatten_append, flatten_singleton, smallSites, ← flatten_append]
  exact (filter_append_perm _ _).flatten

theorem exists_index_iff {column : Nat} {columnOf : List Nat} :
    (∃ index < seats.length, columnOf[index]? = some column) ↔
      ∃ entry ∈ (largeSites seats ++ [smallSites seats]).flatten,
        columnOf[entry.2]? = some column := by
  constructor
  · rintro ⟨_, bound, found⟩
    obtain ⟨entry, member, rfl⟩ := mem_map.mp
      (largeSites_smallSites_perm.mem_iff.mpr (mem_range.mpr bound))
    exact ⟨entry, member, found⟩
  · rintro ⟨entry, member, found⟩
    refine ⟨entry.2, mem_range.mp ?_, found⟩
    exact largeSites_smallSites_perm.mem_iff.mp (mem_map_of_mem member)

/-- The layout once every Site has been placed. -/
theorem follows_siteGroups (hashing : Hashing) (seats : List Seat) (t : Nat) :
    Layout.Follows hashing t (siteGroups seats) ((siteGroups seats).foldl
      (Layout.placeSite hashing t) { columnOf := List.replicate seats.length 0 }) := by
  have inside : ∀ entry ∈ (siteGroups seats).flatten,
      entry.2 < (replicate seats.length 0).length := by
    intro entry member
    rw [length_replicate]
    exact mem_range.mp (siteGroups_indices.mem_iff.mp (mem_map_of_mem member))
  have distinct := siteGroups_indices.nodup_iff.mpr (nodup_range (n := seats.length))
  exact (Layout.follows_nil seats.length).foldl distinct inside

/-- A pool above the full mesh has a large Site, or its small Sites together are large. -/
theorem reserved_or_small (large : fullMeshMax < seats.length)
    (none : Layout.reservedAll (targetColumns seats.length).2 (largeSites seats) = 0) :
    divCeil (targetColumns seats.length).2 2 ≤ (smallSites seats).length := by
  have empty : largeSites seats = [] := by
    cases sites : largeSites seats with
    | nil => rfl
    | cons first =>
      have positive := Layout.reserved_pos (targetColumns seats.length).2 first.length
      rw [sites, Layout.reservedAll, map_cons, sum_cons] at none
      omega
  have all := (@largeSites_smallSites_perm seats).length_eq
  rw [empty, nil_append, flatten_singleton, length_map, length_range] at all
  rw [all]
  exact divCeil_targetColumns_le large

/-- The layout fills the picked columns, and reserves as many as it should. -/
theorem layOut_picked (above : fullMeshMax < seats.length) :
    (layOut hashing seats).base = reservedColumns seats ∧
      ∀ column, column ∈ pickedColumns hashing seats ↔
        ∃ index < seats.length, (layOut hashing seats).columnOf[index]? = some column := by
  have many := reserved_or_small above
  obtain ⟨fills, small⟩ := follows_siteGroups hashing seats (targetColumns seats.length).2
  have length := (Layout.foldl_placeSite hashing (targetColumns seats.length).2 (siteGroups seats)
    _ (bounded_initial seats.length)).2
  rw [length_replicate] at length
  simp only [exists_index_iff]
  unfold layOut reservedColumns pickedColumns
  dsimp only
  change Layout.Fills hashing _ (largeSites seats) _ at fills
  change _ = smallSites seats at small
  generalize (siteGroups seats).foldl (Layout.placeSite hashing _) _ = layout at fills small length
  generalize (targetColumns seats.length).2 = t at fills many
  have parts := largeSites_smallSites_perm.nodup_iff.mpr (nodup_range (n := seats.length))
  rw [flatten_append, flatten_singleton, map_append, nodup_append] at parts
  obtain ⟨-, own, apart⟩ := parts
  have inside : ∀ entry ∈ smallSites seats, entry.2 < layout.columnOf.length := by
    intro entry member
    rw [length]
    refine mem_range.mp (largeSites_smallSites_perm.mem_iff.mp (mem_map_of_mem ?_))
    rw [flatten_append, flatten_singleton]
    exact mem_append_right _ member
  have outside : ∀ entry ∈ (largeSites seats).flatten, entry.2 ∉ (smallSites seats).map (·.2) :=
    fun entry member listed => apart _ (mem_map_of_mem member) _ listed rfl
  unfold Layout.placeSmall
  rw [small]
  by_cases big : divCeil t 2 ≤ (smallSites seats).length
  · have isLarge : Layout.large t (smallSites seats) = true := decide_eq_true big
    have filled := fills.reserve own inside outside
    rw [if_pos big, if_pos isLarge, if_pos isLarge]
    exact ⟨filled.base, filled.picked⟩
  · have notLarge : Layout.large t (smallSites seats) = false := decide_eq_false big
    have positive : 0 < layout.base := by
      rw [fills.base]
      exact Nat.pos_of_ne_zero fun none => big (many none)
    rw [if_neg big, if_pos positive, notLarge, if_neg Bool.false_ne_true, append_nil,
      if_neg Bool.false_ne_true]
    refine ⟨fills.base, fun column => ?_⟩
    rw [mem_append, mem_map, ← fills.base]
    exact fills.assign own inside outside
      (fun seat => hashing.jump (hashing.columnHash seat.id) layout.base) column

/-- A mesh has no empty column exactly when every column it reserves is picked. -/
theorem Mesh.build_filled_iff :
    (Mesh.build hashing seats).Filled ↔ EveryColumnPicked hashing seats := by
  unfold EveryColumnPicked Mesh.Filled
  by_cases above : fullMeshMax < seats.length
  · obtain ⟨base, picked⟩ := @layOut_picked hashing seats above
    have columns : (Mesh.build hashing seats).columns =
        Mesh.columnsOf (layOut hashing seats) seats.length := by
      unfold Mesh.build
      simp only [if_neg (Nat.not_le_of_lt above)]
    rw [columns, Mesh.columnsOf, base]
    simp only [above, forall_const, mem_map, mem_range]
    constructor
    · intro filled column bound
      have member := filled _ ⟨column, bound, rfl⟩
      obtain ⟨index, listed⟩ := exists_mem_of_ne_nil _ member
      rw [mem_filter, mem_range, beq_iff_eq] at listed
      exact (picked column).mpr ⟨index, listed⟩
    · rintro every _ ⟨column, bound, rfl⟩
      obtain ⟨index, inside, found⟩ := (picked column).mp (every column bound)
      refine ne_nil_of_mem (a := index) (mem_filter.mpr ?_)
      exact ⟨mem_range.mpr inside, beq_iff_eq.mpr found⟩
  · refine iff_of_true (fun column member => ?_) fun large => absurd large above
    unfold Mesh.build at member
    simp only [if_pos (Nat.le_of_not_lt above)] at member
    split at member
    · cases member
    rename_i positive
    rw [mem_singleton.mp member]
    intro empty
    exact positive (range_eq_nil.mp empty)

end Picked

/-! ### Every operation answers -/

namespace Membership

variable {hashing : Hashing} {membership : Membership hashing}

theorem edgeRank_isSome (filled : membership.Filled) (p q : Nat) :
    (membership.edgeRank p q).isSome := by
  unfold edgeRank
  rw [bind_pure_comp, Option.map_eq_map, Option.isSome_map]
  refine mapM_isSome fun pool member => ?_
  obtain ⟨_, found, -⟩ := Pool.edge_spec (membership.regular member) (filled pool member) p q
  rw [found]
  rfl

/-- The RDMA peers of a member can be ranked. -/
theorem rdmaPeers_isSome (filled : membership.Filled) {position : Nat}
    (inside : position < membership.members.length) (budget : Nat)
    (eligible : Nat → Nat → Bool) : (membership.rdmaPeers position budget eligible).isSome := by
  obtain ⟨_, found, -, linked, -⟩ := neighbors_spec filled position
  obtain ⟨_, own⟩ := exists_getElem? inside
  unfold rdmaPeers
  rw [found, Option.bind_eq_bind, Option.bind_some, bind_pure_comp, Option.map_eq_map,
    Option.isSome_map]
  refine mapM_isSome fun other member => ?_
  obtain ⟨rank, best⟩ := Option.isSome_iff_exists.mp (edgeRank_isSome filled position other)
  have link := (linked other).mp (mem_filter.mp member).1
  obtain ⟨_, there⟩ := exists_getElem? link.symm.lt
  rw [best, own, there]
  cases rank <;> rfl

/-- No operation of the membership panics: none looks up a delegate on an empty ring. -/
structure Answers (membership : Membership hashing) : Prop where
  neighbors : ∀ position, (membership.neighbors position).isSome
  degree : ∀ position, (membership.degree position).isSome
  delegate : ∀ pool ∈ membership.pools, ∀ position column, (pool.delegate position column).isSome
  isNeighbor : ∀ position other, (membership.isNeighbor position other).isSome
  detour : ∀ source destination level, (membership.detour source destination level).isSome
  /-- A route call checks its query and searches in three steps. -/
  checked : ∀ query, (PathKey.new membership query).isSome
  searched : ∀ key : PathKey, (key.delegates membership.pools).isSome ∧
    (key.common membership.pools).isSome ∧ (key.fallback membership.pools).isSome
  rdmaPeers : ∀ position < membership.members.length, ∀ budget eligible,
    (membership.rdmaPeers position budget eligible).isSome

theorem answers_of_filled (filled : membership.Filled) : membership.Answers where
  neighbors position := by
    obtain ⟨_, found, -⟩ := neighbors_spec filled position
    rw [found]
    rfl
  degree position := by
    obtain ⟨_, found, -⟩ := neighbors_spec filled position
    rw [degree, found]
    rfl
  delegate pool member position column := by
    obtain ⟨answer, found, -⟩ :=
      Pool.delegate_spec (membership.regular member) (filled pool member) position column
    rw [found]
    rfl
  isNeighbor position other := by
    obtain ⟨_, found, -⟩ := isNeighbor_spec filled position other
    rw [found]
    rfl
  detour source destination level := by
    obtain ⟨_, found, -⟩ := detour_spec filled source destination level
    rw [found]
    rfl
  checked query := by
    obtain ⟨_, found, -⟩ := PathKey.new_spec filled query
    rw [found]
    rfl
  searched key := by
    obtain ⟨_, delegates, -⟩ := PathKey.delegates_spec filled key
    obtain ⟨_, common, -⟩ := PathKey.common_spec filled key
    obtain ⟨_, fallback, -⟩ := PathKey.fallback_spec filled key
    rw [delegates, common, fallback]
    exact ⟨rfl, rfl, rfl⟩
  rdmaPeers position inside := rdmaPeers_isSome filled inside

/-- A membership has no empty mesh column, and none of its operations panics, exactly when in
each pool every column that is reserved is picked by a member. -/
theorem no_empty_column_iff (membership : Membership hashing) :
    (membership.Filled ∧ membership.Answers) ↔ ∀ pool ∈ membership.pools,
      EveryColumnPicked hashing (seatsAt membership.members pool.members) := by
  have columns : membership.Filled ↔ ∀ pool ∈ membership.pools,
      EveryColumnPicked hashing (seatsAt membership.members pool.members) := by
    refine forall₂_congr fun pool member => ?_
    obtain ⟨_, built⟩ := membership.built pool member
    rw [built.mesh, built.members_eq, Mesh.build_filled_iff]
  rw [← columns]
  exact ⟨And.left, fun filled => ⟨filled, answers_of_filled filled⟩⟩

/-- A hashing under which every member picks the first column. -/
def flatHashing : Hashing where
  domain := []
  columnHash _ := 0
  delegateKey id := (id.map Fin.val).headD 0
  ringPoint id point := 16 * (id.map Fin.val).headD 0 + point
  jump _ _ := 0
  jump_lt _ _ positive := positive
  edgeHead _ _ := 0
  nextHop _ _ _ counter := counter
  placementIdentity members := members.length
  topologyIdentity members _ := members.length

/-- Sixty-five members of one Site, all in the first of seven columns. -/
def flatMembership : Membership flatHashing where
  members := spreadMembers
  pools := [⟨[], 0, Mesh.build flatHashing (seatsAt spreadMembers (List.range 65))⟩]
  since := List.replicate 65 0
  ordered := spreadMembers_ordered
  built := by
    intro pool member
    rw [List.mem_singleton] at member
    subst member
    exact ⟨List.range 65, List.pairwise_lt_range, fun _ => List.mem_range.mp, rfl⟩

/-- A reserved column that no member picks stays empty, and looking up the neighbors of a member
panics on its ring. -/
theorem flatMembership_panics : ¬ flatMembership.Filled ∧
    flatMembership.neighbors 0 = none ∧ flatMembership.isNeighbor 0 1 = some true := by
  refine ⟨?_, by decide +kernel, by decide +kernel⟩
  intro filled
  have first := filled _ (mem_singleton.mpr rfl)
  revert first
  decide +kernel

end Membership

end Unbounded.Topology
