/-
This file proves that a pool survives the loss of any one relay. Two members of a
pool that are not linked have two relays between them, the primary in the
destination's column and the alternate in the source's, and these differ because
the columns do. So a query that must avoid one other member still finds a route of
at most two links, and blocking the detour of the first level takes the route off
the relay it would use otherwise.
-/

import Unbounded.RouteRuns

namespace Unbounded.Topology

open Option List

/-! ### The two relays -/

namespace Pool

variable {pool : Pool} (regular : pool.mesh.Regular) (filled : pool.mesh.Filled)

include regular filled

/-- Two members of a pool are linked, or have two relays between them. -/
theorem linked_or_relays {p q : Nat} (inP : pool.contains p = true) (inQ : pool.contains q = true)
    (different : p ≠ q) :
    pool.Linked p q ∨ ∃ primary alternate, pool.primary p q = some (some primary) ∧
      pool.alternate p q = some (some alternate) ∧ primary ≠ alternate ∧
      ∀ relay, relay = primary ∨ relay = alternate →
        relay ≠ p ∧ relay ≠ q ∧ pool.Linked p relay ∧ pool.Linked relay q := by
  by_cases linked : pool.Linked p q
  · exact .inl linked
  obtain ⟨own, atP⟩ := column_of_contains regular inP
  obtain ⟨column, atQ⟩ := column_of_contains regular inQ
  have apart : own ≠ column := by
    rintro rfl
    exact linked (linked_of_column regular atP atQ different)
  -- the relay towards another column is not the far end, which is not linked
  have toward : ∀ {p q own column}, pool.column p = some own → pool.column q = some column →
      own ≠ column → ¬ pool.Linked p q → ∃ relay, pool.primary p q = some (some relay) ∧
        pool.column relay = some column ∧ relay ≠ p ∧ relay ≠ q := by
    intro p q own column atP atQ apart unlinked
    obtain ⟨_, found, spec, present⟩ := primary_spec regular filled p q
    obtain ⟨relay, rfl⟩ := present own column atP atQ apart
    obtain ⟨link, _, _, -, atQ', atRelay, -⟩ := spec relay rfl
    obtain rfl := mem_unique atQ atQ'
    refine ⟨relay, found, atRelay, link.ne regular |>.symm, ?_⟩
    rintro rfl
    exact unlinked link
  obtain ⟨primary, foundPrimary, atPrimary, primaryP, primaryQ⟩ := toward atP atQ apart linked
  obtain ⟨alternate, foundAlternate, atAlternate, alternateQ, alternateP⟩ :=
    toward atQ atP apart.symm fun back => linked back.symm
  refine .inr ⟨primary, alternate, foundPrimary, foundAlternate, ?_, ?_⟩
  · rintro rfl
    exact apart (mem_unique atAlternate atPrimary)
  · rintro relay (rfl | rfl)
    · exact ⟨primaryP, primaryQ, middle_linked regular filled mem_cons_self foundPrimary
        primaryP primaryQ⟩
    · exact ⟨alternateP, alternateQ, middle_linked regular filled
        (mem_cons_of_mem _ mem_cons_self) foundAlternate alternateP alternateQ⟩

end Pool

/-! ### Queries that avoid one member -/

namespace PathQuery

variable {hashing : Hashing} {membership : Membership hashing} {query : PathQuery}

theorem meets_direct (linked : membership.Linked query.source query.destination)
    (two : 2 ≤ query.links) (unblocked : query.destination ∉ query.blocked) :
    query.Meets membership [query.source, query.destination] where
  starts := rfl
  ends := rfl
  distinct := by simpa using linked.ne
  edges := isChain_pair.mpr linked
  length := by
    show 2 ≤ query.links + 1
    omega
  between _ member := nomatch member
  firstHop hop first := some.inj first ▸ unblocked

theorem meets_relay {relay : Nat} (different : query.source ≠ query.destination)
    (first : membership.Linked query.source relay)
    (second : membership.Linked relay query.destination) (two : 2 ≤ query.links)
    (unvisited : relay ∉ query.visited) (unblocked : relay ∉ query.blocked) :
    query.Meets membership [query.source, relay, query.destination] where
  starts := rfl
  ends := rfl
  distinct := by simp [first.ne, second.ne, different]
  edges := isChain_cons_cons.mpr ⟨first, isChain_pair.mpr second⟩
  length := by simpa using two
  between node member := mem_singleton.mp member ▸ unvisited
  firstHop hop found := some.inj found ▸ unblocked

/-- A route of at most two links is the direct link or has one relay. -/
theorem Meets.short {route : Route} (meets : query.Meets membership route)
    (different : query.source ≠ query.destination) (short : route.length ≤ 3) :
    (route = [query.source, query.destination] ∧ membership.Linked query.source query.destination) ∨
    ∃ relay, route = [query.source, relay, query.destination] ∧ relay ∉ query.blocked := by
  obtain ⟨starts, ends, -, edges, -, -, firstHop⟩ := meets
  match route with
  | [] => cases starts
  | [only] =>
    exact absurd ((some.inj starts).symm.trans (some.inj ends)) different
  | [first, last] =>
    cases starts
    cases ends
    exact .inl ⟨rfl, isChain_pair.mp edges⟩
  | [first, relay, last] =>
    cases starts
    cases ends
    exact .inr ⟨relay, rfl, firstHop relay rfl⟩
  | _ :: _ :: _ :: _ :: _ =>
    simp only [length_cons] at short
    omega

variable (filled : membership.Filled) {pool : Pool} (member : pool ∈ membership.pools)
  (inSource : pool.contains query.source = true)
  (inDestination : pool.contains query.destination = true)
  (different : query.source ≠ query.destination) (two : 2 ≤ query.links)

include filled member inSource inDestination different two

/-- A route of at most two links avoids any one other member. -/
theorem meets_avoiding {lost : Nat} (destination : lost ≠ query.destination)
    (visited : ∀ node ∈ query.visited, node = lost)
    (blocked : ∀ node ∈ query.blocked, node = lost) :
    ∃ route, query.Meets membership route ∧ route.length ≤ 3 := by
  rcases Pool.linked_or_relays (membership.regular member) (filled pool member) inSource
    inDestination different with linked | ⟨primary, alternate, -, -, apart, relays⟩
  · refine ⟨_, meets_direct ⟨pool, member, linked⟩ two fun listed => ?_, Nat.le_succ 2⟩
    exact destination (blocked _ listed).symm
  · have through : ∀ relay, relay = primary ∨ relay = alternate → relay ≠ lost →
        ∃ route, query.Meets membership route ∧ route.length ≤ 3 := by
      intro relay either kept
      obtain ⟨-, -, first, second⟩ := relays relay either
      exact ⟨_, meets_relay different ⟨pool, member, first⟩ ⟨pool, member, second⟩ two
        (fun listed => kept (visited relay listed)) fun listed => kept (blocked relay listed),
        le_rfl⟩
    by_cases same : primary = lost
    · exact through alternate (.inr rfl) fun other => apart (same.trans other.symm)
    · exact through primary (.inl rfl) same

end PathQuery

/-! ### Detours -/

namespace Membership

variable {hashing : Hashing} {membership : Membership hashing} (filled : membership.Filled)

include filled

variable {pool : Pool}

/-- The relays one pool adds to a detour. -/
theorem detourHops_spec (source destination level : Nat) (member : pool ∈ membership.pools) :
    ∃ hops, (do
        let primary ← pool.primary source destination
        if 2 ≤ level then
          let alternate ← pool.alternate source destination
          return primary.toList ++ alternate.toList
        return primary.toList) = some hops ∧
      (∀ relay, pool.primary source destination = some (some relay) → relay ∈ hops) ∧
      (level < 2 → ∀ relay ∈ hops, pool.primary source destination = some (some relay)) := by
  obtain ⟨_, foundPrimary, -⟩ :=
    Pool.primary_spec (membership.regular member) (filled pool member) source destination
  obtain ⟨alternate, foundAlternate, -⟩ :=
    Pool.primary_spec (membership.regular member) (filled pool member) destination source
  have foundAlternate : pool.alternate source destination = some alternate := foundAlternate
  rw [foundPrimary, foundAlternate]
  simp only [bind_eq_bind, bind_some]
  by_cases two : 2 ≤ level
  · rw [if_pos two]
    refine ⟨_, rfl, fun relay same => mem_append_left _ ?_, fun low => by omega⟩
    rw [some.inj same]
    exact mem_toList.mpr rfl
  · rw [if_neg two]
    refine ⟨_, rfl, fun relay same => ?_, fun _ relay listed => ?_⟩
    · rw [some.inj same]
      exact mem_toList.mpr rfl
    · exact congrArg some (mem_toList.mp listed)

/-- A detour holds the primary relays from its first level on, and never an end. -/
theorem detour_spec (source destination level : Nat) :
    ∃ block, membership.detour source destination level = some block ∧ destination ∉ block ∧
      (0 < level → source ≠ destination → ∀ pool ∈ membership.pools,
        pool.contains source = true → pool.contains destination = true →
        ∀ relay, pool.primary source destination = some (some relay) → relay ≠ source →
          relay ≠ destination → relay ∈ block) ∧
      (level < 2 → ∀ relay ∈ block, ∃ pool ∈ membership.pools,
        pool.primary source destination = some (some relay)) := by
  unfold detour
  by_cases plain : level = 0 ∨ source = destination
  · rw [if_pos plain]
    refine ⟨[], rfl, not_mem_nil, fun positive different => ?_, nofun⟩
    rcases plain with rfl | same
    · exact absurd positive (Nat.lt_irrefl 0)
    · exact absurd same different
  rw [if_neg plain]
  have spec := fun pool (member : pool ∈ membership.pools.filter fun pool =>
      pool.contains source && pool.contains destination) =>
    detourHops_spec filled source destination level (mem_filter.mp member).1
  obtain ⟨hops, traversed, -, mem_hops⟩ := mapM_total fun pool member => by
    obtain ⟨hops, found, -⟩ := spec pool member
    exact ⟨hops, found⟩
  rw [traversed]
  refine ⟨_, rfl, ?_, fun _ different pool member inSource inDestination relay found notSource
    notDestination => ?_, fun low relay listed => ?_⟩
  · intro listed
    have kept := (mem_filter.mp (mem_sortDedup.mp listed)).2
    simp at kept
  · have shared : pool ∈ membership.pools.filter fun pool =>
        pool.contains source && pool.contains destination :=
      mem_filter.mpr ⟨member, by rw [inSource, inDestination]; rfl⟩
    obtain ⟨own, chosen, inside, -⟩ := spec pool shared
    refine mem_sortDedup.mpr (mem_filter.mpr ⟨mem_flatten.mpr
      ⟨own, (mem_hops own).mpr ⟨pool, shared, chosen⟩, inside relay found⟩, ?_⟩)
    simp [notSource, notDestination]
  · obtain ⟨own, listed, inside⟩ :=
      mem_flatten.mp (mem_filter.mp (mem_sortDedup.mp listed)).1
    obtain ⟨pool, shared, chosen⟩ := (mem_hops own).mp listed
    obtain ⟨_, chosen', -, only⟩ := spec pool shared
    obtain rfl := mem_unique chosen' chosen
    exact ⟨pool, (mem_filter.mp shared).1, only low relay inside⟩

end Membership

/-! ### The plain route -/

variable {hashing : Hashing} {membership : Membership hashing} {pool : Pool}

section

variable (filled : membership.Filled) (single : membership.pools = [pool])

include filled single

/-- Where there is one pool and nothing to avoid, members that are not linked are joined through
the primary relay. -/
theorem PathKey.outcome_primary {key : PathKey} (inSource : pool.contains key.source = true)
    (inDestination : pool.contains key.destination = true)
    (unlinked : ¬ membership.Linked key.source key.destination) (two : 2 ≤ key.links)
    (visited : ∀ node, node ∉ key.visited) (blocked : ∀ node, node ∉ key.blocked) {relay : Nat}
    (primary : pool.primary key.source key.destination = some (some relay))
    (notSource : relay ≠ key.source) (notDestination : relay ≠ key.destination) :
    key.outcome membership.pools = some (.ok [[key.source, relay, key.destination]]) := by
  obtain ⟨answer, tested, linked_iff⟩ := Membership.anyEdge_spec filled key.source key.destination
  have indirect : answer = false := by
    rw [← Bool.not_eq_true, linked_iff]
    exact unlinked
  have usable : key.firstHop relay = true :=
    (PathKey.firstHop_iff key relay).mpr ⟨notSource, notDestination, blocked relay, visited relay⟩
  have shared : key.shared membership.pools = [pool] := by
    rw [PathKey.shared, single, filter_cons_of_pos (by rw [inSource, inDestination]; rfl)]
    rfl
  have through : key.throughGroup Pool.primary [pool] =
      some (some [[key.source, relay, key.destination]]) := by
    unfold PathKey.throughGroup
    have hops : sortDedup ([some relay].reduceOption.filter key.firstHop) = [relay] := by
      rw [show [some relay].reduceOption = [relay] from rfl, filter_cons_of_pos usable]
      rfl
    rw [mapM_cons, primary, mapM_nil]
    simp only [Option.bind_eq_bind, Option.bind_some, Option.pure_def, hops]
    rfl
  have delegates : key.delegates membership.pools =
      some (some [[key.source, relay, key.destination]]) := by
    unfold PathKey.delegates
    rw [tested, shared, indirect]
    simp only [bind_eq_bind, bind_some, Bool.false_and]
    rw [if_neg (by omega), if_neg Bool.false_ne_true, if_neg (by omega)]
    show [Pool.primary, Pool.alternate].findSomeM? (fun middle =>
      [[pool]].findSomeM? (key.throughGroup middle)) = _
    rw [findSomeM?, findSomeM?, through]
    rfl
  unfold PathKey.outcome
  rw [delegates]
  rfl

/-- A plain query returns the route through the primary relay. -/
theorem Membership.Returns.primary {query : PathQuery} {full : Prop} {route : Route}
    (returns : membership.Returns query full (.ok route))
    (inSource : pool.contains query.source = true)
    (inDestination : pool.contains query.destination = true)
    (unlinked : ¬ membership.Linked query.source query.destination) (visited : query.visited = [])
    (blocked : query.blocked = []) (two : 2 ≤ query.links) {relay : Nat}
    (primary : pool.primary query.source query.destination = some (some relay))
    (notSource : relay ≠ query.source) (notDestination : relay ≠ query.destination)
    (different : query.source ≠ query.destination) :
    route = [query.source, relay, query.destination] := by
  cases returns with
  | same checked same =>
    have made := madeFrom_of_new filled checked
    rw [made.source, made.destination] at same
    exact absurd same different
  | drawn checked apart searched drawn =>
    have made := madeFrom_of_new filled checked
    have unvisited : ∀ node, node ∉ _ := fun node listed => by
      rw [made.visited, visited] at listed
      cases listed
    have unblocked : ∀ node, node ∉ _ := fun node listed => by
      rw [made.blocked, blocked] at listed
      cases listed.1
    rw [← made.source, ← made.destination] at unlinked primary
    rw [← made.source] at inSource notSource
    rw [← made.destination] at inDestination notDestination
    have outcome := PathKey.outcome_primary filled single inSource inDestination unlinked
      (made.links ▸ two) unvisited unblocked primary notSource notDestination
    cases mem_unique outcome searched
    obtain ⟨_, answered, picked, -⟩ := drawn_spec filled apart searched query.seed
    obtain rfl := mem_unique answered drawn
    rw [mem_singleton.mp (picked route rfl), made.source, made.destination]

end

namespace Paths

open Transition

/-- A call for the query on the membership returned the result. -/
def Answers {hashing : Hashing} (events : List (Event hashing)) (membership : Membership hashing)
    (query : PathQuery) (result : Except Error Route) : Prop :=
  ∃ caller charge, .create caller membership query ∈ events ∧
    .poll caller charge (.ready result) ∈ events

/-- The call was refused, or its draw gave up. -/
def Refused (result : Except Error Route) : Prop :=
  result = .error .overloaded ∨ result = .error .samplingExhausted

/-- What a call returns for a query with a route of at most two links. -/
theorem Answers.short {events : List (Event hashing)} {paths : Paths hashing}
    {cacheEntries cacheBytes searchLimit queueLimit : Nat}
    (run : Run Performs (withLimits cacheEntries cacheBytes searchLimit queueLimit) events paths)
    (sound : Sound events) {query : PathQuery} {result : Except Error Route}
    (answers : Answers events membership query result)
    (valid : query.Valid membership.members.length) (member : pool ∈ membership.pools)
    (inSource : pool.contains query.source = true)
    (inDestination : pool.contains query.destination = true) {other : Route}
    (meets : query.Meets membership other) (short : other.length ≤ 3) :
    Refused result ∨ ∃ route, result = .ok route ∧
      query.Meets membership route ∧ route.length ≤ other.length := by
  obtain ⟨caller, _, created, polled⟩ := answers
  obtain ⟨_, returns⟩ := (sound.recorded run).returns created polled
  have filled := sound.filled caller membership query created
  rcases returns.shortest filled valid ⟨pool, member, inSource, inDestination⟩ meets short with
    overloaded | exhausted | ⟨route, found, least⟩
  · exact .inl (.inl overloaded)
  · exact .inl (.inr exhausted)
  · exact .inr ⟨route, found, (returns.valid filled found).1, least other meets⟩

/-- The mesh survives the loss of any one relay. A valid query between two members of a pool that
must avoid one other member, as a visited member, as a first hop or both, gets a route of at most
two links, unless the call is refused or its draw gives up. With one pool, blocking the detour of
the first level gives the direct link or a relay that no plain query uses. Calls return and are
refused as at any route finder. -/
theorem mesh_survives_relay {hashing : Hashing} {events : List (Event hashing)}
    {paths : Paths hashing} {cacheEntries cacheBytes searchLimit queueLimit : Nat}
    (run : Run Performs (withLimits cacheEntries cacheBytes searchLimit queueLimit) events paths)
    (sound : Sound events) {membership : Membership hashing} {query : PathQuery}
    {result : Except Error Route} (answers : Answers events membership query result)
    (valid : query.Valid membership.members.length) {pool : Pool}
    (member : pool ∈ membership.pools) (inSource : pool.contains query.source = true)
    (inDestination : pool.contains query.destination = true)
    (different : query.source ≠ query.destination) (two : 2 ≤ query.links) :
    (∀ lost, lost ≠ query.source → lost ≠ query.destination →
      (query.visited = [] ∨ query.visited = [lost]) →
      (query.blocked = [] ∨ query.blocked = [lost]) →
      Refused result ∨ ∃ route, result = .ok route ∧ query.Meets membership route ∧
        route.length ≤ 3) ∧
    (∃ block, membership.detour query.source query.destination 1 = some block ∧
      (membership.pools = [pool] → query.visited = [] → query.blocked = block →
        Refused result ∨ ∃ route, result = .ok route ∧ query.Meets membership route ∧
          (route = [query.source, query.destination] ∨
            ∃ relay, route = [query.source, relay, query.destination] ∧
              ∀ plain first, Answers events membership plain (.ok first) →
                plain.source = query.source → plain.destination = query.destination →
                plain.visited = [] → plain.blocked = [] → 2 ≤ plain.links →
                ∃ usual, first = [query.source, usual, query.destination] ∧ usual ≠ relay))) ∧
    paths.Serves searchLimit queueLimit := by
  have filled : membership.Filled := by
    obtain ⟨caller, charge, created, -⟩ := answers
    exact sound.filled caller membership query created
  refine ⟨?_, ?_, sound.serves run⟩
  · intro lost _ notDestination visited blocked
    obtain ⟨other, meets, short⟩ := PathQuery.meets_avoiding filled member inSource inDestination
      different two notDestination
      (fun node listed => by rcases visited with none | one <;> simp_all)
      fun node listed => by rcases blocked with none | one <;> simp_all
    obtain refused | ⟨route, found, meets, least⟩ :=
      answers.short run sound valid member inSource inDestination meets short
    · exact .inl refused
    · exact .inr ⟨route, found, meets, least.trans short⟩
  · obtain ⟨block, detour, notDestination, primaries, only⟩ :=
      Membership.detour_spec filled query.source query.destination 1
    refine ⟨block, detour, fun single visited blocked => ?_⟩
    by_cases linked : membership.Linked query.source query.destination
    · have direct := PathQuery.meets_direct linked two (blocked ▸ notDestination)
      obtain refused | ⟨route, found, meets, least⟩ :=
        answers.short run sound valid member inSource inDestination direct (Nat.le_succ 2)
      · exact .inl refused
      refine .inr ⟨route, found, meets, .inl ?_⟩
      rcases meets.short different (least.trans (Nat.le_succ 2)) with ⟨same, -⟩ | ⟨relay, same, -⟩
      · exact same
      · rw [same] at least
        exact absurd least (Nat.not_succ_le_self 2)
    · rcases Pool.linked_or_relays (membership.regular member) (filled pool member) inSource
        inDestination different with inPool | ⟨primary, alternate, chosen, -, apart, relays⟩
      · exact absurd ⟨pool, member, inPool⟩ linked
      -- the primary relay is all that is blocked
      obtain ⟨notSource, notEnd, -⟩ := relays primary (.inl rfl)
      have primaryBlocked : primary ∈ block :=
        primaries Nat.zero_lt_one different pool member inSource inDestination primary chosen
          notSource notEnd
      have alternateFree : alternate ∉ block := by
        intro listed
        obtain ⟨_, belongs, found⟩ := only Nat.one_lt_two alternate listed
        obtain rfl := mem_singleton.mp (single ▸ belongs)
        exact apart (some.inj (mem_unique chosen found))
      obtain ⟨-, -, first, second⟩ := relays alternate (.inr rfl)
      have around := PathQuery.meets_relay different ⟨pool, member, first⟩ ⟨pool, member, second⟩
        two (visited ▸ not_mem_nil) (blocked ▸ alternateFree)
      obtain refused | ⟨route, found, meets, least⟩ :=
        answers.short run sound valid member inSource inDestination around le_rfl
      · exact .inl refused
      refine .inr ⟨route, found, meets, ?_⟩
      rcases meets.short different least with ⟨same, -⟩ | ⟨relay, same, free⟩
      · exact .inl same
      refine .inr ⟨relay, same, ?_⟩
      intro plain first plainAnswers sameSource sameDestination plainVisited plainBlocked
        plainTwo
      obtain ⟨_, _, created, polled⟩ := plainAnswers
      obtain ⟨_, returns⟩ := (sound.recorded run).returns created polled
      refine ⟨primary, ?_, ?_⟩
      · rw [← sameSource, ← sameDestination] at different linked chosen
        rw [← sameSource] at inSource notSource ⊢
        rw [← sameDestination] at inDestination notEnd ⊢
        exact returns.primary filled single inSource inDestination linked plainVisited
          plainBlocked plainTwo chosen notSource notEnd different
      · rintro rfl
        exact free (blocked ▸ primaryBlocked)

/-- A query between members of the spread membership that are not linked. -/
def spreadQuery (links : Nat) (links_lt : links < 256) (visited blocked : List Nat) : PathQuery :=
  { source := 0, destination := 16, links, visited, blocked, links_lt }

theorem mesh_survives_relay_spread :
    ∃ (events : List (Event Membership.spreadHashing)) (paths : Paths Membership.spreadHashing),
      Run Performs (withLimits 8 4096 1 0) events paths ∧
      Membership.spreadMembership.detour 0 16 1 = some [2] ∧
      Answers events Membership.spreadMembership (spreadQuery 2 (by decide) [] [2])
        (.ok [0, 7, 16]) ∧
      (spreadQuery 2 (by decide) [] [2]).Meets Membership.spreadMembership [0, 7, 16] := by
  let query := spreadQuery 2 (by decide) [] [2]
  let replies : List Reply := [.pending, .pending, .ready (.ok [0, 7, 16])]
  obtain ⟨last, run⟩ := exists_oneCall 1 0 Membership.spreadMembership query replies
    (by decide +kernel)
  have answers : Answers (oneCall _ query replies) Membership.spreadMembership query
      (.ok [0, 7, 16]) := ⟨0, 1, mem_cons_self, by simp [oneCall, replies]⟩
  obtain ⟨avoids, -⟩ := mesh_survives_relay run
    (sound_oneCall Membership.spreadMembership_filled _ _) answers (by decide +kernel)
    (mem_singleton.mpr rfl) (by decide +kernel) (by decide +kernel) (by decide) (by decide)
  refine ⟨_, last, run, by decide +kernel, answers, ?_⟩
  rcases avoids 2 (by decide) (by decide) (.inl rfl) (.inr rfl) with
    (none | none) | ⟨_, same, meets, -⟩
  · cases none
  · cases none
  · cases same
    exact meets

/-- A query that may take all the links a message can say must not have visited anyone: the
check refuses it. -/
theorem spread_invalid :
    ∃ (events : List (Event Membership.spreadHashing)) (paths : Paths Membership.spreadHashing),
      Run Performs (withLimits 8 4096 1 0) events paths ∧ Sound events ∧
      (∃ pool ∈ Membership.spreadMembership.pools,
        pool.contains 0 = true ∧ pool.contains 16 = true ∧ pool.contains 2 = true) ∧
      Answers events Membership.spreadMembership (spreadQuery 255 (by decide) [2] [])
        (.error .invalidQuery) := by
  obtain ⟨last, run⟩ := exists_oneCall 1 0 Membership.spreadMembership
    (spreadQuery 255 (by decide) [2] []) [.ready (.error .invalidQuery)] (by decide +kernel)
  exact ⟨_, last, run, sound_oneCall Membership.spreadMembership_filled _ _,
    ⟨_, mem_singleton.mpr rfl, by decide +kernel, by decide +kernel, by decide +kernel⟩,
    0, 1, mem_cons_self, mem_cons_of_mem _ mem_cons_self⟩

end Paths

end Unbounded.Topology
