/-
This file proves what one route search finds on a membership without empty
columns. The middle hop of a primary or an alternate path is linked to both ends
unless it is one of them, so every candidate is a path of the union graph; the
common neighbors of the second step are all the paths of two links there are; and
a fallback changes columns once, between a column mate of the source and its
delegate. A search never panics on such a membership.
-/

import Unbounded.PathSearch

namespace Unbounded.Topology

open Option List

/-! ### Columns and delegates of positions -/

namespace Pool

variable {pool : Pool} (regular : pool.mesh.Regular)

include regular

theorem column_eq_some {p column : Nat} : pool.column p = some column ↔
    ∃ member : Nat, pool.mesh.members[member]? = some p ∧
      pool.mesh.columnOf[member]? = some column := by
  rw [Pool.column, bind_eq_some_iff]
  exact exists_congr fun _ => and_congr_left' regular.localIndex_eq_some

theorem column_of_contains {p : Nat} (inside : pool.contains p = true) :
    ∃ column, pool.column p = some column := by
  rw [contains, isSome_iff_exists] at inside
  obtain ⟨member, here⟩ := inside
  rw [regular.localIndex_eq_some] at here
  obtain ⟨column, assigned⟩ := regular.column_of_lt (lt_of_getElem? here)
  exact ⟨column, (column_eq_some regular).mpr ⟨member, here, assigned⟩⟩

theorem column_lt {p column : Nat} (here : pool.column p = some column) :
    column < pool.columns := by
  obtain ⟨member, -, assigned⟩ := (column_eq_some regular).mp here
  exact regular.column_lt member column assigned

theorem linked_of_column {p q column : Nat} (hereP : pool.column p = some column)
    (hereQ : pool.column q = some column) (distinct : p ≠ q) : pool.Linked p q := by
  obtain ⟨a, atA, assignedA⟩ := (column_eq_some regular).mp hereP
  obtain ⟨b, atB, assignedB⟩ := (column_eq_some regular).mp hereQ
  refine ⟨a, b, atA, atB, ?_, column, column, assignedA, assignedB, .inl rfl⟩
  rintro rfl
  exact distinct (mem_unique atA atB)

theorem mem_columnMembers {p column : Nat} :
    p ∈ pool.columnMembers column ↔ pool.column p = some column := by
  rw [columnMembers, mem_filterMap, column_eq_some regular]
  cases listed : pool.mesh.columns[column]? with
  | none =>
    simp only [getD_none, not_mem_nil, false_and, exists_false, false_iff]
    rintro ⟨member, -, assigned⟩
    have bound := regular.column_lt member column assigned
    rw [getElem?_eq_none_iff] at listed
    omega
  | some members =>
    refine exists_congr fun member => ?_
    rw [getD_some, regular.mem_column column members listed member, and_comm]

variable (filled : pool.mesh.Filled)

include filled

/-- The delegate of a position in a column lies in that column and is linked to it. It exists
when the position is in the pool and has another column. -/
theorem delegate_spec (p column : Nat) : ∃ answer, pool.delegate p column = some answer ∧
      (∀ hop, answer = some hop → pool.column hop = some column ∧ pool.Linked p hop ∧
        ∃ own, pool.column p = some own ∧ own ≠ column) ∧
      ∀ own, pool.column p = some own → own ≠ column → column < pool.columns →
        ∃ hop, answer = some hop := by
  unfold delegate
  cases here : pool.mesh.localIndex p with
  | none =>
    refine ⟨none, rfl, nofun, fun own belongs => ?_⟩
    rw [Pool.column, here] at belongs
    cases belongs
  | some member =>
    rw [regular.localIndex_eq_some] at here
    have inside := lt_of_getElem? here
    obtain ⟨own, assigned⟩ := regular.column_of_lt inside
    have belongs : pool.column p = some own := (column_eq_some regular).mpr ⟨member, here, assigned⟩
    simp only [assigned, some.injEq]
    by_cases outside : pool.columns ≤ column ∨ own = column
    · rw [if_pos outside]
      refine ⟨none, rfl, nofun, fun other belongs' different bound => ?_⟩
      cases belongs.symm.trans belongs'
      rcases outside with beyond | same
      · omega
      · exact absurd same different
    · rw [if_neg outside]
      have bound : column < pool.mesh.columns.length :=
        Nat.lt_of_not_le fun beyond => outside (.inl beyond)
      have different : own ≠ column := fun same => outside (.inr same)
      have ringed := regular.ringed_of_ne (regular.column_lt member own assigned) bound different
      obtain ⟨delegate, chosen, placed⟩ := ringed.delegate_exists filled inside bound
      obtain ⟨hop, found⟩ := exists_getElem? (regular.lt_of_column placed)
      simp only [chosen, found, bind_eq_bind, bind_some]
      refine ⟨some hop, rfl, ?_, fun _ _ _ _ => ⟨hop, rfl⟩⟩
      intro other same
      cases same
      refine ⟨(column_eq_some regular).mpr ⟨delegate, found, placed⟩, ?_, own, belongs, different⟩
      refine ⟨member, delegate, here, found, ?_, own, column, assigned, placed, .inr (.inl chosen)⟩
      rintro rfl
      exact different (mem_unique assigned placed)

/-- The middle hop of the primary path is in the destination's column and linked to the
source. It exists when the ends are in different columns. -/
theorem primary_spec (p q : Nat) : ∃ answer, pool.primary p q = some answer ∧
      (∀ hop, answer = some hop → pool.Linked p hop ∧ ∃ own column, pool.column p = some own ∧
        pool.column q = some column ∧ pool.column hop = some column ∧ own ≠ column) ∧
      ∀ own column, pool.column p = some own → pool.column q = some column → own ≠ column →
        ∃ hop, answer = some hop := by
  unfold primary
  cases there : pool.column q with
  | none =>
    exact ⟨none, rfl, nofun, nofun⟩
  | some column =>
    obtain ⟨answer, found, inside, present⟩ := delegate_spec regular filled p column
    refine ⟨answer, found, fun hop chosen => ?_, fun own other belongs same different => ?_⟩
    · obtain ⟨placed, linked, own, belongs, different⟩ := inside hop chosen
      exact ⟨linked, own, column, belongs, rfl, placed, different⟩
    · cases same
      exact present own belongs different (column_lt regular there)

/-- Either middle hop is linked to both ends, unless it is one of them. -/
theorem middle_linked {middle : Pool → Nat → Nat → Option (Option Nat)}
    (either : middle ∈ [Pool.primary, Pool.alternate]) {p q hop : Nat}
    (found : middle pool p q = some (some hop)) (fromP : hop ≠ p) (fromQ : hop ≠ q) :
    pool.Linked p hop ∧ pool.Linked hop q := by
  have through : ∀ {p q}, pool.primary p q = some (some hop) → hop ≠ q →
      pool.Linked p hop ∧ pool.Linked hop q := by
    intro p q found distinct
    obtain ⟨_, chosen, spec, -⟩ := primary_spec regular filled p q
    cases found.symm.trans chosen
    obtain ⟨linked, _, _, -, atQ, atHop, -⟩ := spec hop rfl
    exact ⟨linked, linked_of_column regular atHop atQ distinct⟩
  rw [mem_cons, mem_singleton] at either
  rcases either with rfl | rfl
  · exact through found fromQ
  -- the alternate path is the primary path of the way back
  obtain ⟨back, forth⟩ := through (show pool.primary q p = _ from found) fromP
  exact ⟨forth.symm, back.symm⟩

end Pool

/-! ### The candidates of a search -/

namespace PathKey

theorem firstHop_iff (key : PathKey) (node : Nat) : key.firstHop node = true ↔
    node ≠ key.source ∧ node ≠ key.destination ∧ node ∉ key.blocked ∧ node ∉ key.visited := by
  simp only [firstHop, Bool.and_eq_true, bne_iff_ne, Bool.not_eq_true', and_assoc,
    contains_iff_mem, ← Bool.not_eq_true]

variable {pool : Pool}

theorem mem_shared {key : PathKey} {pools : List Pool} : pool ∈ key.shared pools ↔
      pool ∈ pools ∧ pool.contains key.source = true ∧ pool.contains key.destination = true := by
  rw [shared, mem_insertionSort, mem_filter, Bool.and_eq_true]

/-- The direct link may be taken. -/
def Direct {hashing : Hashing} (key : PathKey) (membership : Membership hashing) : Prop :=
  membership.Linked key.source key.destination ∧ key.destination ∉ key.blocked

/-- A middle hop of a pool. -/
def Middle (key : PathKey) (pool : Pool) (hop : Nat) : Prop :=
  ∃ middle ∈ [Pool.primary, Pool.alternate],
    middle pool key.source key.destination = some (some hop)

/-- What the first step finds: the direct link, paths through middle hops, or nothing. -/
inductive Delegated {hashing : Hashing} (key : PathKey) (membership : Membership hashing) :
    Option (List Route) → Prop
  | direct (positive : 0 < key.links) (direct : key.Direct membership) :
    Delegated key membership (some [[key.source, key.destination]])
  | through (routes : List Route) (two : 2 ≤ key.links) (indirect : ¬ key.Direct membership)
    (nonempty : routes ≠ [])
    (middle : ∀ route ∈ routes, ∃ pool ∈ membership.pools, ∃ hop, key.Middle pool hop ∧
      key.firstHop hop = true ∧ route = [key.source, hop, key.destination]) :
    Delegated key membership (some routes)
  | nothing (indirect : 0 < key.links → ¬ key.Direct membership)
    (unusable : 2 ≤ key.links → ∀ pool ∈ key.shared membership.pools, ∀ hop,
      key.Middle pool hop → ¬ key.firstHop hop = true) :
    Delegated key membership none

variable {hashing : Hashing} {membership : Membership hashing} (filled : membership.Filled)
  (key : PathKey)

include filled

variable {middle : Pool → Nat → Nat → Option (Option Nat)}

/-- Neither middle hop panics. -/
theorem middle_answers (member : pool ∈ membership.pools)
    (either : middle ∈ [Pool.primary, Pool.alternate]) (p q : Nat) :
    ∃ answer, middle pool p q = some answer := by
  have spec := Pool.primary_spec (membership.regular member) (filled pool member)
  rw [mem_cons, mem_singleton] at either
  rcases either with rfl | rfl
  · obtain ⟨answer, found, -⟩ := spec p q
    exact ⟨answer, found⟩
  · obtain ⟨answer, found, -⟩ := spec q p
    exact ⟨answer, found⟩

/-- The paths through a group of pools: those whose middle hop may be the first hop. -/
theorem throughGroup_spec (either : middle ∈ [Pool.primary, Pool.alternate]) {group : List Pool}
    (inside : ∀ pool ∈ group, pool ∈ membership.pools) :
    ∃ answer, key.throughGroup middle group = some answer ∧
      (∀ routes, answer = some routes → routes ≠ [] ∧ ∀ route ∈ routes, ∃ pool ∈ group, ∃ hop,
        middle pool key.source key.destination = some (some hop) ∧ key.firstHop hop = true ∧
          route = [key.source, hop, key.destination]) ∧
      (answer = none → ∀ pool ∈ group, ∀ hop,
        middle pool key.source key.destination = some (some hop) → ¬ key.firstHop hop = true) := by
  obtain ⟨answers, traversed, -, mem_answers⟩ := mapM_total fun pool member =>
    middle_answers filled (inside pool member) either key.source key.destination
  have hops : ∀ hop, hop ∈ sortDedup (answers.reduceOption.filter key.firstHop) ↔
      ∃ pool ∈ group, middle pool key.source key.destination = some (some hop) ∧
        key.firstHop hop = true := by
    intro hop
    rw [mem_sortDedup, mem_filter, reduceOption_mem_iff, mem_answers]
    simp only [← and_assoc, exists_and_right]
  unfold throughGroup
  rw [traversed]
  refine ⟨_, rfl, ?_, ?_⟩
  · intro routes found
    split at found
    · cases found
    rename_i nonempty
    cases found
    refine ⟨fun empty => nonempty (by simpa using empty), fun route member => ?_⟩
    obtain ⟨hop, belongs, rfl⟩ := mem_map.mp member
    obtain ⟨pool, member, chosen, usable⟩ := (hops hop).mp belongs
    exact ⟨pool, member, hop, chosen, usable, rfl⟩
  · intro found pool member hop chosen usable
    have belongs := (hops hop).mpr ⟨pool, member, chosen, usable⟩
    split at found
    · rename_i empty
      rw [isEmpty_iff.mp empty] at belongs
      cases belongs
    · cases found

/-- The first step finds the direct link, paths through middle hops, or nothing. -/
theorem delegates_spec :
    ∃ answer, key.delegates membership.pools = some answer ∧ key.Delegated membership answer := by
  obtain ⟨linked, tested, linked_iff⟩ := Membership.anyEdge_spec filled key.source key.destination
  unfold delegates
  rw [tested]
  simp only [bind_eq_bind, bind_some]
  by_cases zero : key.links = 0
  · rw [if_pos zero]
    exact ⟨none, rfl, .nothing (fun positive => absurd zero positive.ne') (by omega)⟩
  rw [if_neg zero]
  have direct_iff : (linked && !key.blocked.contains key.destination) = true ↔
      key.Direct membership := by
    rw [Bool.and_eq_true, linked_iff, Bool.not_eq_true', ← Bool.not_eq_true, contains_iff_mem]
    rfl
  by_cases direct : key.Direct membership
  · rw [if_pos (direct_iff.mpr direct)]
    exact ⟨_, rfl, .direct (Nat.pos_of_ne_zero zero) direct⟩
  rw [if_neg (mt direct_iff.mp direct)]
  by_cases one : key.links < 2
  · rw [if_pos one]
    exact ⟨none, rfl, .nothing (fun _ => direct) (by omega)⟩
  rw [if_neg one]
  -- the groups hold the shared pools
  have groups : ∀ pool, (∃ group ∈ (key.shared membership.pools).splitBy
      fun a b => a.rank == b.rank, pool ∈ group) ↔ pool ∈ key.shared membership.pools := by
    intro pool
    rw [← mem_flatten, flatten_splitBy]
  generalize (key.shared membership.pools).splitBy _ = list at groups
  have spec : ∀ middle ∈ [Pool.primary, Pool.alternate], ∀ group ∈ list, _ :=
    fun middle either group listed => throughGroup_spec filled key either fun pool member =>
      (mem_shared.mp ((groups pool).mp ⟨group, listed, member⟩)).1
  have inner : ∀ middle ∈ [Pool.primary, Pool.alternate],
      list.findSomeM? (key.throughGroup middle) =
        some (list.findSome? fun group => (key.throughGroup middle group).getD none) := by
    intro middle either
    refine findSomeM?_eq_findSome? _ fun group listed => ?_
    obtain ⟨answer, found, -⟩ := spec middle either group listed
    rw [found]
    rfl
  rw [findSomeM?_eq_findSome? _ inner]
  refine ⟨_, rfl, ?_⟩
  generalize searched : [Pool.primary, Pool.alternate].findSome? _ = result
  cases result with
  | none =>
    refine .nothing (fun _ => direct) fun _ pool member hop => ?_
    rintro ⟨middle, either, chosen⟩
    obtain ⟨group, listed, belongs⟩ := (groups pool).mpr member
    rw [findSome?_eq_none_iff] at searched
    have nothing := findSome?_eq_none_iff.mp (searched middle either) group listed
    obtain ⟨_, found, -, unusable⟩ := spec middle either group listed
    rw [found] at nothing
    exact unusable nothing pool belongs hop chosen
  | some routes =>
    obtain ⟨middle, either, here⟩ := exists_of_findSome?_eq_some searched
    obtain ⟨group, listed, here⟩ := exists_of_findSome?_eq_some here
    obtain ⟨_, found, usable, -⟩ := spec middle either group listed
    rw [found] at here
    obtain ⟨nonempty, paths⟩ := usable routes here
    refine .through routes (by omega) direct nonempty fun route member => ?_
    obtain ⟨pool, belongs, hop, chosen, first, same⟩ := paths route member
    exact ⟨pool, (mem_shared.mp ((groups pool).mp ⟨group, listed, belongs⟩)).1, hop,
      ⟨middle, either, chosen⟩, first, same⟩

/-- The second step finds every path of two links whose middle may be the first hop. -/
theorem common_spec : ∃ answer, key.common membership.pools = some answer ∧
      (∀ routes, answer = some routes → 2 ≤ key.links ∧ routes ≠ [] ∧ ∀ route ∈ routes, ∃ hop,
        key.firstHop hop = true ∧ membership.Linked key.source hop ∧
          membership.Linked hop key.destination ∧ route = [key.source, hop, key.destination]) ∧
      (answer = none → 2 ≤ key.links → key.shared membership.pools ≠ [] → ∀ hop,
        membership.Linked key.source hop → membership.Linked hop key.destination →
          ¬ key.firstHop hop = true) := by
  unfold common
  by_cases skipped : key.links < 2 ∨ (key.shared membership.pools).isEmpty
  · rw [if_pos skipped]
    refine ⟨none, rfl, nofun, fun _ two shared => ?_⟩
    rcases skipped with _ | empty
    · omega
    · exact absurd (isEmpty_iff.mp empty) shared
  rw [if_neg skipped]
  obtain ⟨ends, foundEnds, -, mem_ends, -⟩ := Membership.neighbors_spec filled key.destination
  obtain ⟨starts, foundStarts, -, mem_starts, -⟩ := Membership.neighbors_spec filled key.source
  rw [show unionNeighbors membership.pools key.destination = some ends from foundEnds,
    show unionNeighbors membership.pools key.source = some starts from foundStarts]
  have hops : ∀ hop, hop ∈ starts.filter (fun hop => key.firstHop hop && ends.contains hop) ↔
      membership.Linked key.source hop ∧ key.firstHop hop = true ∧
        membership.Linked hop key.destination := by
    intro hop
    rw [mem_filter, mem_starts, Bool.and_eq_true, contains_iff_mem, mem_ends]
    exact and_congr_right' (and_congr_right' ⟨.symm, .symm⟩)
  refine ⟨_, rfl, ?_, ?_⟩
  · intro routes found
    split at found
    · cases found
    rename_i nonempty
    cases found
    refine ⟨by omega, fun empty => nonempty (isEmpty_iff.mpr empty), fun route member => ?_⟩
    obtain ⟨hop, belongs, rfl⟩ := mem_map.mp member
    obtain ⟨start, usable, ending⟩ := (hops hop).mp belongs
    exact ⟨hop, usable, start, ending, rfl⟩
  · intro found _ _ hop start ending usable
    have belongs := (hops hop).mpr ⟨start, usable, ending⟩
    split at found
    · rename_i empty
      rw [List.isEmpty_iff, List.map_eq_nil_iff] at empty
      rw [empty] at belongs
      cases belongs
    · cases found

/-- A fallback of three links: through a column mate of the source and a member of the
destination's column. -/
structure Fallback (key : PathKey) (membership : Membership hashing) (route : Route) : Prop where
  hops : ∃ mate hop, route = [key.source, mate, hop, key.destination] ∧
    key.firstHop mate = true ∧ hop ∉ key.visited ∧ [key.source, mate, hop, key.destination].Nodup ∧
    membership.Linked key.source mate ∧ membership.Linked mate hop ∧
    membership.Linked hop key.destination

/-- The fallback through one column mate. -/
theorem fallbackThrough_spec (member : pool ∈ membership.pools) {own target mate : Nat}
    (atSource : pool.column key.source = some own)
    (atDestination : pool.column key.destination = some target) (different : own ≠ target)
    (atMate : pool.column mate = some own) (usable : key.firstHop mate = true) :
    ∃ answer, key.fallbackThrough pool target mate = some answer ∧
      ∀ route, answer = some route → key.Fallback membership route := by
  have regular := membership.regular member
  obtain ⟨_, chosen, spec, -⟩ := Pool.delegate_spec regular (filled pool member) mate target
  unfold fallbackThrough
  rw [chosen]
  refine ⟨_, rfl, fun route found => ?_⟩
  obtain ⟨hop, rfl, taken⟩ := bind_eq_some_iff.mp found
  obtain ⟨atHop, linked, -⟩ := spec hop rfl
  split at taken
  · rename_i allowed
    rw [Bool.and_eq_true, bne_iff_ne, Bool.not_eq_true', ← Bool.not_eq_true,
      contains_iff_mem] at allowed
    cases taken
    obtain ⟨notSource, notDestination, -, -⟩ := (firstHop_iff key mate).mp usable
    have apart : ∀ {p q}, pool.column p = some own → pool.column q = some target → p ≠ q := by
      rintro _ _ atP atQ rfl
      exact different (mem_unique atP atQ)
    refine ⟨mate, hop, rfl, usable, allowed.2, ?_, ?_, ?_, ?_⟩
    · have ends := apart atSource atDestination
      have first := apart atSource atHop
      have second := apart atMate atHop
      simp [notSource.symm, notDestination, allowed.1, ends, first, second]
    · exact ⟨pool, member, Pool.linked_of_column regular atSource atMate notSource.symm⟩
    · exact ⟨pool, member, linked⟩
    · exact ⟨pool, member, Pool.linked_of_column regular atHop atDestination allowed.1⟩
  · cases taken

/-- The fallbacks of one pool. -/
theorem fallbackIn_spec (member : pool ∈ membership.pools) :
    ∃ routes, key.fallbackIn pool = some routes ∧
      ∀ route ∈ routes, key.Fallback membership route := by
  have regular := membership.regular member
  unfold fallbackIn
  split
  · rename_i own target atSource atDestination
    by_cases same : own = target
    · rw [if_pos same]
      exact ⟨[], rfl, nofun⟩
    rw [if_neg same]
    have spec : ∀ mate ∈ (pool.columnMembers own).filter key.firstHop, _ := fun mate listed =>
      fallbackThrough_spec filled key member atSource atDestination same
        ((Pool.mem_columnMembers regular).mp (mem_filter.mp listed).1)
        (mem_filter.mp listed).2
    obtain ⟨_, traversed, -, mem_answers⟩ := mapM_total fun mate listed =>
      (spec mate listed).imp fun _ => And.left
    rw [traversed]
    refine ⟨_, rfl, fun route listed => ?_⟩
    obtain ⟨mate, belongs, found⟩ := (mem_answers _).mp (reduceOption_mem_iff.mp listed)
    obtain ⟨_, chosen, valid⟩ := spec mate belongs
    exact valid route (mem_unique chosen found)
  · exact ⟨[], rfl, nofun⟩

/-- The third step finds fallbacks, or the destination is unreachable. -/
theorem fallback_spec : ∃ answer, key.fallback membership.pools = some answer ∧
      (∀ routes, answer = .ok routes → 3 ≤ key.links ∧ routes ≠ [] ∧
        ∀ route ∈ routes, key.Fallback membership route) ∧
      ∀ failure, answer = .error failure → failure = .unreachable := by
  unfold fallback
  by_cases short : key.links < 3
  · rw [if_pos short]
    refine ⟨_, rfl, nofun, fun failure same => ?_⟩
    cases same
    rfl
  rw [if_neg short]
  have spec : ∀ pool ∈ key.shared membership.pools, _ := fun pool belongs =>
    fallbackIn_spec filled key (mem_shared.mp belongs).1
  obtain ⟨lists, traversed, -, mem_lists⟩ := mapM_total fun pool belongs =>
    (spec pool belongs).imp fun _ => And.left
  have valid : ∀ route ∈ sortDedup lists.flatten, key.Fallback membership route := by
    intro route member
    obtain ⟨_, listed, member⟩ := mem_flatten.mp (mem_sortDedup.mp member)
    obtain ⟨pool, belongs, found⟩ := (mem_lists _).mp listed
    obtain ⟨_, here, paths⟩ := spec pool belongs
    cases found.symm.trans here
    exact paths route member
  rw [traversed]
  refine ⟨_, rfl, fun routes found => ?_, fun failure found => ?_⟩
  · split at found
    · cases found
    rename_i nonempty
    cases found
    exact ⟨by omega, fun empty => nonempty (isEmpty_iff.mpr empty), valid⟩
  · split at found
    · cases found
      rfl
    · cases found

end PathKey

/-! ### The outcome of a search -/

/-- A route of a membership that keeps the constraints of a request: it leads from the source
to the destination over links of the union graph, repeats no member, has at most the given
number of hops, passes no visited member and does not start with a blocked hop. -/
structure Membership.Carries {hashing : Hashing} (membership : Membership hashing)
    (source destination links : Nat) (visited blocked : List Nat) (route : Route) : Prop where
  starts : route.head? = some source
  ends : route.getLast? = some destination
  distinct : route.Nodup
  edges : route.IsChain membership.Linked
  length : route.length ≤ links + 1
  between : ∀ node ∈ route.tail.dropLast, node ∉ visited
  firstHop : ∀ hop, route[1]? = some hop → hop ∉ blocked

namespace PathKey

/-- The outcome of the three steps of a search. -/
def outcome (key : PathKey) (pools : List Pool) : Option (Except Error (List Route)) := do
  match ← key.delegates pools with
  | some routes => return .ok routes
  | none =>
    match ← key.common pools with
    | some routes => return .ok routes
    | none => key.fallback pools

/-- A route keeps the constraints of a key. -/
def Carried {hashing : Hashing} (key : PathKey) (membership : Membership hashing)
    (route : Route) : Prop :=
  membership.Carries key.source key.destination key.links key.visited key.blocked route

variable {hashing : Hashing} {membership : Membership hashing} {key : PathKey}

theorem carried_direct (positive : 0 < key.links) (direct : key.Direct membership) :
    key.Carried membership [key.source, key.destination] where
  starts := rfl
  ends := rfl
  distinct := by simpa using direct.1.ne
  edges := isChain_pair.mpr direct.1
  length := Nat.succ_le_succ positive
  between _ member := nomatch member
  firstHop hop first := some.inj first ▸ direct.2

theorem carried_through (different : key.source ≠ key.destination) (two : 2 ≤ key.links)
    {hop : Nat} (usable : key.firstHop hop = true) (first : membership.Linked key.source hop)
    (second : membership.Linked hop key.destination) :
    key.Carried membership [key.source, hop, key.destination] := by
  obtain ⟨notSource, notDestination, unblocked, unvisited⟩ := (firstHop_iff key hop).mp usable
  exact {
    starts := rfl
    ends := rfl
    distinct := by simp [notSource.symm, notDestination, different]
    edges := isChain_cons_cons.mpr ⟨first, isChain_pair.mpr second⟩
    length := by simpa using two
    between := fun node member => mem_singleton.mp member ▸ unvisited
    firstHop := fun node found => some.inj found ▸ unblocked }

theorem carried_fallback (three : 3 ≤ key.links) {route : Route}
    (fallback : key.Fallback membership route) :
    key.Carried membership route ∧ route.length = 4 := by
  obtain ⟨mate, _, rfl, usable, unvisited, distinct, first, second, third⟩ := fallback.hops
  obtain ⟨-, -, unblockedMate, unvisitedMate⟩ := (firstHop_iff key mate).mp usable
  refine ⟨⟨rfl, rfl, distinct, ?_, by simpa using three, ?_, ?_⟩, rfl⟩
  · exact isChain_cons_cons.mpr ⟨first, isChain_cons_cons.mpr ⟨second, isChain_pair.mpr third⟩⟩
  · exact forall_mem_cons.mpr ⟨unvisitedMate, forall_mem_singleton.mpr unvisited⟩
  · exact fun node found => some.inj found ▸ unblockedMate

/-- What a search answers: equally short routes that keep the constraints, or unreachable. -/
structure Answered (key : PathKey) (membership : Membership hashing)
    (answer : Except Error (List Route)) : Prop where
  routes : ∀ routes, answer = .ok routes → routes ≠ [] ∧
    ∃ length ≤ 4, ∀ route ∈ routes, key.Carried membership route ∧ route.length = length
  failure : ∀ failure, answer = .error failure → failure = .unreachable
  /-- No route of at most two hops is overlooked between members of one pool. -/
  shortest : key.shared membership.pools ≠ [] → ∀ other, key.Carried membership other →
    other.length ≤ 3 → ∃ routes, answer = .ok routes ∧ ∀ route ∈ routes, route.length ≤ other.length

/-- A route of at most two hops between different members is the direct link or goes through a
common neighbor. -/
theorem Carried.short (different : key.source ≠ key.destination) {route : Route}
    (carried : key.Carried membership route) (short : route.length ≤ 3) :
    (route.length = 2 ∧ 0 < key.links ∧ key.Direct membership) ∨
      (route.length = 3 ∧ 2 ≤ key.links ∧ ∃ hop, key.firstHop hop = true ∧
        membership.Linked key.source hop ∧ membership.Linked hop key.destination) := by
  obtain ⟨starts, ends, _, edges, length, between, firstHop⟩ := carried
  match route with
  | [] => cases starts
  | [only] =>
    exact absurd ((some.inj starts).symm.trans (some.inj ends)) different
  | [first, last] =>
    cases starts
    cases ends
    exact .inl ⟨rfl, Nat.le_of_succ_le_succ length, isChain_pair.mp edges, firstHop _ rfl⟩
  | [first, hop, last] =>
    cases starts
    cases ends
    obtain ⟨start, rest⟩ := isChain_cons_cons.mp edges
    refine .inr ⟨rfl, by simpa using length, hop, ?_, start, isChain_pair.mp rest⟩
    rw [firstHop_iff]
    refine ⟨start.ne.symm, (isChain_pair.mp rest).ne, firstHop hop rfl, ?_⟩
    exact between hop (mem_singleton.mpr rfl)
  | _ :: _ :: _ :: _ :: _ =>
    simp only [length_cons] at short
    omega

/-- Routes of two hops are an answer where the direct link cannot be taken. -/
theorem answered_three (different : key.source ≠ key.destination) {routes : List Route}
    (nonempty : routes ≠ [])
    (paths : ∀ route ∈ routes, key.Carried membership route ∧ route.length = 3)
    (indirect : ¬ (0 < key.links ∧ key.Direct membership)) :
    key.Answered membership (.ok routes) where
  routes _ found := by
    cases found
    exact ⟨nonempty, 3, by decide, paths⟩
  failure _ none := nomatch none
  shortest _ other carried short := by
    refine ⟨routes, rfl, fun route member => ?_⟩
    rw [(paths route member).2]
    rcases carried.short different short with ⟨-, direct⟩ | ⟨three, -⟩
    · exact absurd direct indirect
    · exact three.ge

/-- Every search on a membership without empty columns answers. -/
theorem outcome_spec (filled : membership.Filled) (different : key.source ≠ key.destination) :
    ∃ answer, key.outcome membership.pools = some answer ∧ key.Answered membership answer := by
  obtain ⟨_, delegates, delegated⟩ := delegates_spec filled key
  unfold outcome
  rw [delegates]
  cases delegated with
  | direct positive direct =>
    refine ⟨_, rfl, ?_, nofun, fun _ other carried short => ?_⟩
    · intro routes found
      cases found
      refine ⟨cons_ne_nil _ _, 2, by decide, fun route member => ?_⟩
      exact mem_singleton.mp member ▸ ⟨carried_direct positive direct, rfl⟩
    · refine ⟨_, rfl, fun route member => ?_⟩
      rw [mem_singleton.mp member]
      rcases carried.short different short with ⟨two, -⟩ | ⟨three, -⟩
      · exact two.ge
      · rw [three]
        exact Nat.le_succ 2
  | through routes two indirect nonempty middle =>
    have paths : ∀ route ∈ routes, key.Carried membership route ∧ route.length = 3 := by
      intro route member
      obtain ⟨pool, belongs, hop, ⟨_, either, chosen⟩, usable, rfl⟩ := middle route member
      obtain ⟨notSource, notDestination, -⟩ := (firstHop_iff key hop).mp usable
      obtain ⟨start, ending⟩ := Pool.middle_linked (membership.regular belongs)
        (filled pool belongs) either chosen notSource notDestination
      exact ⟨carried_through different two usable ⟨pool, belongs, start⟩
        ⟨pool, belongs, ending⟩, rfl⟩
    exact ⟨_, rfl, answered_three different nonempty paths fun direct => indirect direct.2⟩
  | nothing indirect =>
    obtain ⟨second, common, found, missing⟩ := common_spec filled key
    rw [common]
    cases second with
    | some routes =>
      obtain ⟨two, nonempty, through⟩ := found routes rfl
      have paths : ∀ route ∈ routes, key.Carried membership route ∧ route.length = 3 := by
        intro route member
        obtain ⟨hop, usable, start, ending, rfl⟩ := through route member
        exact ⟨carried_through different two usable start ending, rfl⟩
      exact ⟨_, rfl, answered_three different nonempty paths fun direct =>
        indirect direct.1 direct.2⟩
    | none =>
      obtain ⟨answer, fallback, valid, failure⟩ := fallback_spec filled key
      rw [fallback]
      refine ⟨answer, rfl, fun routes found => ?_, failure, fun shared other carried short => ?_⟩
      · obtain ⟨three, nonempty, paths⟩ := valid routes found
        exact ⟨nonempty, 4, le_rfl, fun route member => carried_fallback three (paths route member)⟩
      · -- no route of at most two hops is left for the fallback
        rcases carried.short different short with ⟨-, positive, direct⟩ |
          ⟨-, two, hop, usable, start, ending⟩
        · exact absurd direct (indirect positive)
        · exact absurd usable (missing rfl two shared hop start ending)

end PathKey

end Unbounded.Topology
