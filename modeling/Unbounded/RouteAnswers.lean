/-
This file proves what one route call may return. The key of a query names the
topology it is searched on, and memberships of one topology have the same pools.
The steps of a search lead to the outcome of its key, and one of the equivalent
routes is drawn by weight, or the draw gives up. So a call returns a valid route
that is as short as promised, a refusal, or the reason why there is no route.
-/

import Unbounded.PathRoutes

namespace Unbounded.Topology

open Option List

/-! ### Topologies -/

/-- The memberships have the same IDs, Sites and pools. -/
def Membership.SameTopology {hashing : Hashing} (membership other : Membership hashing) : Prop :=
  (membership.members.map fun member => (member.id, member.site)) =
      (other.members.map fun member => (member.id, member.site)) ∧
    (membership.pools.map fun pool => (pool.id, pool.rank, pool.members)) =
      other.pools.map fun pool => (pool.id, pool.rank, pool.members)

variable {hashing : Hashing}

/-- A pool is determined by its ID, its rank and its members. -/
theorem Membership.pools_eq_map (membership : Membership hashing) :
    membership.pools = (membership.pools.map fun pool => (pool.id, pool.rank, pool.members)).map
      fun entry => ⟨entry.1, entry.2.1,
        Mesh.build hashing (seatsAt membership.members entry.2.2)⟩ := by
  rw [List.map_map]
  refine (map_id _).symm.trans (map_congr_left fun pool member => ?_)
  obtain ⟨_, built⟩ := membership.built pool member
  have mesh := built.mesh
  rw [← built.members_eq] at mesh
  show pool = ⟨pool.id, pool.rank, _⟩
  rw [← mesh]

variable {membership : Membership hashing}

theorem Membership.SameTopology.pools_eq {other : Membership hashing}
    (same : membership.SameTopology other) : membership.pools = other.pools := by
  rw [membership.pools_eq_map, other.pools_eq_map, same.2]
  refine map_congr_left fun entry _ => ?_
  rw [seatsAt_congr (beq_iff_eq.mpr same.1)]

/-! ### Keys -/

/-- What a key made from a query holds. -/
structure PathKey.MadeFrom {hashing : Hashing} (key : PathKey) (membership : Membership hashing)
    (query : PathQuery) : Prop where
  topology : key.membership = membership.topologyIdentity
  source : key.source = query.source
  destination : key.destination = query.destination
  links : key.links = query.links
  visited : ∀ node, node ∈ key.visited ↔ node ∈ query.visited
  blocked : ∀ node, node ∈ key.blocked ↔ node ∈ query.blocked ∧ membership.Linked query.source node
  inside : query.source < membership.members.length ∧ query.destination < membership.members.length

/-- The query keeps the rules on positions and lengths, and visits no member twice. -/
def PathQuery.Valid (query : PathQuery) (count : Nat) : Prop :=
  query.inRange count = true ∧ query.visited.Nodup

instance (query : PathQuery) (count : Nat) : Decidable (query.Valid count) :=
  inferInstanceAs (Decidable (_ ∧ _))

/-- Sorting finds every repetition. -/
theorem insertionSort_isChain_ne {list : List Nat} :
    (list.insertionSort (· ≤ ·)).IsChain (· ≠ ·) ↔ list.Nodup := by
  rw [← (list.perm_insertionSort (· ≤ ·)).nodup_iff]
  have sorted := list.pairwise_insertionSort (· ≤ ·)
  generalize list.insertionSort (· ≤ ·) = sortedList at sorted
  exact ⟨fun chain => (ascending_of_distinct sorted chain).imp ne_of_lt, List.Pairwise.isChain⟩

/-- Checking a query never panics on a membership without empty columns, and accepts the valid
ones. -/
theorem PathKey.new_spec (filled : membership.Filled) (query : PathQuery) :
    ∃ answer, PathKey.new membership query = some answer ∧
      (∀ key, answer = .ok key → key.MadeFrom membership query) ∧
      ∀ failure, answer = .error failure →
        failure = .invalidQuery ∧ ¬ query.Valid membership.members.length := by
  unfold PathKey.new
  by_cases inRange : query.inRange membership.members.length
  · rw [if_neg (not_not.mpr inRange)]
    simp only [insertionSort_isChain_ne]
    by_cases distinct : query.visited.Nodup
    · rw [if_neg (not_not.mpr distinct)]
      obtain ⟨kept, found, mem_kept⟩ : ∃ kept,
          keptBlocked membership query.source query.blocked = some kept ∧
            ∀ node, node ∈ kept ↔ node ∈ query.blocked ∧ membership.Linked query.source node := by
        unfold keptBlocked
        cases empty : query.blocked with
        | nil => exact ⟨[], rfl, fun node => by simp⟩
        | cons =>
          obtain ⟨_, looked, -, linked, -⟩ := Membership.neighbors_spec filled query.source
          rw [looked]
          refine ⟨_, rfl, fun node => ?_⟩
          rw [mem_filter, mem_sortDedup, contains_iff_mem, linked]
      rw [found]
      refine ⟨_, rfl, fun key same => ?_, fun failure none => (nomatch none)⟩
      cases same
      simp only [PathQuery.inRange, Bool.and_eq_true, decide_eq_true_eq] at inRange
      exact {
        topology := rfl
        source := rfl
        destination := rfl
        links := rfl
        visited := fun node => mem_insertionSort _
        blocked := mem_kept
        inside := ⟨inRange.1.1.1.1.1.1, inRange.1.1.1.1.1.2⟩ }
    · rw [if_pos distinct]
      refine ⟨_, rfl, nofun, fun failure same => ?_⟩
      cases same
      exact ⟨rfl, fun valid => distinct valid.2⟩
  · rw [if_pos inRange]
    refine ⟨_, rfl, nofun, fun failure same => ?_⟩
    cases same
    exact ⟨rfl, fun valid => inRange valid.1⟩

variable {key : PathKey} {route : Route}

/-- A route keeps the constraints of a key exactly when it keeps those of the query: the first
hop of a route is a neighbor of the source. -/
theorem PathKey.MadeFrom.carried_iff {query : PathQuery} (made : key.MadeFrom membership query) :
    key.Carried membership route ↔ membership.Carries query.source query.destination query.links
      query.visited query.blocked route := by
  unfold PathKey.Carried
  rw [made.source, made.destination, made.links]
  constructor
  · rintro ⟨starts, ends, distinct, edges, length, between, firstHop⟩
    refine ⟨starts, ends, distinct, edges, length, fun node member visited => ?_, ?_⟩
    · exact between node member ((made.visited node).mpr visited)
    · intro hop first blocked
      refine firstHop hop first ((made.blocked hop).mpr ⟨blocked, ?_⟩)
      match route, starts, first, edges with
      | source :: hop :: rest, rfl, rfl, edges => exact (isChain_cons_cons.mp edges).1
  · rintro ⟨starts, ends, distinct, edges, length, between, firstHop⟩
    refine ⟨starts, ends, distinct, edges, length, fun node member visited => ?_, ?_⟩
    · exact between node member ((made.visited node).mp visited)
    · intro hop first blocked
      exact firstHop hop first ((made.blocked hop).mp blocked).1

/-! ### Draws -/

variable {weights : List Nat}

theorem ticketIndex_spec {ticket : Nat} (below : ticket < weights.sum) :
    ∃ index, ticketIndex ticket weights = some index ∧ index < weights.length := by
  induction weights generalizing ticket with
  | nil => simp at below
  | cons weight rest ih =>
    unfold ticketIndex
    by_cases here : ticket < weight
    · rw [if_pos here]
      exact ⟨0, rfl, Nat.zero_lt_succ _⟩
    · rw [if_neg here]
      rw [sum_cons] at below
      obtain ⟨index, found, inside⟩ := ih
        (show ticket - weight < rest.sum by omega)
      rw [found]
      exact ⟨index + 1, rfl, Nat.succ_lt_succ inside⟩

/-- A ticket falls in the weight whose share of the sum it is in. -/
theorem ticketIndex_eq_some {ticket index : Nat} (inside : index < weights.length) :
    ticketIndex ticket weights = some index ↔ (weights.take index).sum ≤ ticket ∧
      ticket < (weights.take index).sum + weights[index] := by
  induction weights generalizing ticket index with
  | nil => cases inside
  | cons _ _ ih =>
    unfold ticketIndex
    cases index with
    | zero =>
      split
      · rename_i here
        simpa using here
      · rename_i past
        simpa using past
    | succ =>
      have inside := Nat.lt_of_succ_lt_succ inside
      rw [take_succ_cons, sum_cons, getElem_cons_succ]
      split
      · exact iff_of_false nofun (by omega)
      rw [map_eq_some_iff]
      simp only [Nat.add_right_cancel_iff, exists_eq_right, ih inside]
      omega

/-- As many tickets fall in a weight as it says. -/
theorem ticketIndex_count {index : Nat} (inside : index < weights.length) :
    weights.sum.count (fun ticket => ticketIndex (ticket % weights.sum) weights = some index) =
      weights[index] := by
  have share : (weights.take index).sum + weights[index] ≤ weights.sum := by
    rw [← sum_take_succ, ← sum_take_add_sum_drop weights (index + 1)]
    exact Nat.le_add_right _ _
  have hits : ((Finset.range weights.sum).filter fun ticket =>
      ticketIndex (ticket % weights.sum) weights = some index) =
        Finset.Ico (weights.take index).sum ((weights.take index).sum + weights[index]) := by
    ext ticket
    rw [Finset.mem_filter, Finset.mem_range, Finset.mem_Ico]
    constructor
    · rintro ⟨below, found⟩
      rwa [Nat.mod_eq_of_lt below, ticketIndex_eq_some inside] at found
    · intro among
      have below := among.2.trans_le share
      rw [Nat.mod_eq_of_lt below, ticketIndex_eq_some inside]
      exact ⟨below, among⟩
  rw [Nat.count_eq_card_filter_range, hits, Nat.card_Ico, Nat.add_sub_cancel_left]

/-- Whole periods hold the same number of hits each. -/
theorem count_periodic {hits : Nat → Prop} [DecidablePred hits] {period : Nat}
    (periodic : Function.Periodic hits period) (rounds rest : Nat) :
    (period * rounds + rest).count hits = period.count hits * rounds + rest.count hits := by
  induction rounds with
  | zero => simp
  | succ =>
    have shifted : (fun sample => hits (period + sample)) = hits := by
      funext sample
      rw [Nat.add_comm]
      exact periodic sample
    rw [Nat.mul_succ, Nat.add_comm _ period, Nat.add_assoc, Nat.count_add]
    simp only [shifted]
    rw [Nat.mul_succ]
    omega

/-- If the first samples are rejected, so that whole periods are left, the hits of each period
are accepted. -/
theorem count_accepted {hits accepts : Nat → Prop} [DecidablePred hits] [DecidablePred accepts]
    {period rejected : Nat} (periodic : Function.Periodic hits period)
    (accepted : ∀ sample, accepts sample ↔ rejected ≤ sample ∧ hits sample) (rounds : Nat) :
    (period * rounds + rejected).count accepts = period.count hits * rounds := by
  have all := count_periodic periodic rounds rejected
  have none : rejected.count accepts = 0 :=
    Nat.count_of_forall_not fun sample below hit => below.not_ge ((accepted sample).mp hit).1
  have same : (fun sample => accepts (rejected + sample)) =
      fun sample => hits (rejected + sample) := by
    funext sample
    rw [accepted]
    exact propext (and_iff_right (Nat.le_add_right _ _))
  rw [Nat.add_comm, Nat.count_add] at all ⊢
  simp only [same]
  omega

theorem weightedDraw_spec (positive : 0 < weights.sum) (sample : Nat) :
    ∃ answer, weightedDraw sample weights.sum weights = some answer ∧
      ∀ index, answer = some index → index < weights.length := by
  unfold weightedDraw
  rw [if_neg positive.ne']
  split
  · exact ⟨none, rfl, nofun⟩
  obtain ⟨index, found, inside⟩ := ticketIndex_spec (Nat.mod_lt sample positive)
  rw [found]
  refine ⟨some index, rfl, fun other same => ?_⟩
  cases same
  exact inside

/-- A sample is rejected below the remainder of all samples. -/
theorem weightedDraw_eq (positive : 0 < weights.sum) (fits : weights.sum < 2 ^ 64) (sample : Nat) :
    weightedDraw sample weights.sum weights = if sample < 2 ^ 64 % weights.sum then some none
      else (ticketIndex (sample % weights.sum) weights).map some := by
  unfold weightedDraw
  rw [if_neg positive.ne', Nat.mod_eq_of_lt (Nat.sub_lt (Nat.two_pow_pos 64) positive),
    ← Nat.mod_eq_sub_mod fits.le]

/-- Draws are exactly fair: each index gets its weight's share of the samples, and those that
would bias the result are rejected. -/
theorem weightedDraw_fair (weights : List Nat) (nonempty : weights ≠ [])
    (positive : ∀ weight ∈ weights, 0 < weight) (fits : weights.sum < 2 ^ 64) :
    (∀ sample, weightedDraw sample weights.sum weights ≠ none) ∧
    (∀ index (inside : index < weights.length),
      ((Finset.range (2 ^ 64)).filter fun sample =>
        weightedDraw sample weights.sum weights = some (some index)).card =
          weights[index] * (2 ^ 64 / weights.sum)) ∧
    ((Finset.range (2 ^ 64)).filter fun sample =>
      weightedDraw sample weights.sum weights = some none).card < weights.sum := by
  have total : 0 < weights.sum := by
    obtain ⟨first, _, rfl⟩ := exists_cons_of_ne_nil nonempty
    exact Nat.add_pos_left (positive first mem_cons_self) _
  have draws := weightedDraw_eq total fits
  refine ⟨fun sample => ?_, fun index inside => ?_, ?_⟩
  · obtain ⟨_, drawn, -⟩ := weightedDraw_spec total sample
    rw [drawn]
    nofun
  · have accepted (sample : Nat) : weightedDraw sample weights.sum weights = some (some index) ↔
        2 ^ 64 % weights.sum ≤ sample ∧
          ticketIndex (sample % weights.sum) weights = some index := by
      rw [draws, ← not_lt]
      split
      · exact iff_of_false nofun fun both => both.1 ‹_›
      rw [map_eq_some_iff]
      simp only [some.injEq, exists_eq_right, not_lt]
      exact (and_iff_right (not_lt.mp ‹_›)).symm
    have counted := count_accepted (fun sample => by rw [Nat.add_mod_right]) accepted
      (2 ^ 64 / weights.sum)
    rw [Nat.div_add_mod] at counted
    rw [← Nat.count_eq_card_filter_range, counted, ticketIndex_count inside]
  · have rejected : ((Finset.range (2 ^ 64)).filter fun sample =>
        weightedDraw sample weights.sum weights = some none) ⊆
          Finset.range (2 ^ 64 % weights.sum) := by
      intro sample member
      have drawn := (Finset.mem_filter.mp member).2
      rw [draws] at drawn
      split at drawn
      · rwa [Finset.mem_range]
      · obtain ⟨_, -, same⟩ := map_eq_some_iff.mp drawn
        cases same
    refine (Finset.card_le_card rejected).trans_lt ?_
    rw [Finset.card_range]
    exact Nat.mod_lt _ total

theorem weightedDraw_fair_third :
    ((Finset.range (2 ^ 64)).filter fun sample =>
      weightedDraw sample 3 [1, 2] = some (some 1)).card = 2 * (2 ^ 64 / 3) :=
  (weightedDraw_fair [1, 2] (by decide) (by decide) (by decide)).2.1 1 (by decide)

/-- A draw over positive weights gives an index or runs out of tries. -/
theorem sampleIndex_spec (positive : 0 < weights.sum) (draw : Nat → Nat) :
    ∃ answer, sampleIndex weights weights.sum draw = some answer ∧
      (∀ index, answer = .ok index → index < weights.length) ∧
      ∀ failure, answer = .error failure → failure = .samplingExhausted := by
  have draws := weightedDraw_spec positive
  unfold sampleIndex
  rw [findSomeM?_eq_findSome? (fun counter =>
    (weightedDraw (draw counter) weights.sum weights).getD none) fun counter _ => by
      obtain ⟨answer, found, -⟩ := draws (draw counter)
      rw [found]
      rfl]
  generalize searched : (range 64).findSome? _ = result
  refine ⟨_, rfl, ?_, ?_⟩
  · intro index same
    cases result with
    | none => cases same
    | some =>
      cases same
      obtain ⟨counter, -, here⟩ := exists_of_findSome?_eq_some searched
      obtain ⟨_, drawn, inside⟩ := draws (draw counter)
      rw [drawn] at here
      exact inside _ here
  · intro failure same
    cases result with
    | none =>
      cases same
      rfl
    | some => cases same

variable {alternatives : List Route}

section

variable (nonempty : alternatives ≠ [])
  (inside : ∀ route ∈ alternatives, 2 ≤ route.length ∧ ∀ node ∈ route,
    node < membership.members.length)

include nonempty inside

/-- A traversal that looks up positive weights. -/
theorem weights_spec : ∃ weights, (alternatives.mapM fun path => do
        let hop ← path[1]?
        let member ← membership.members[hop]?
        return member.weight) = some weights ∧
      weights.length = alternatives.length ∧ 0 < weights.sum := by
  have looked : ∀ path ∈ alternatives, ∃ weight, (do
      let hop ← path[1]?
      let member ← membership.members[hop]?
      return member.weight : Option Nat) = some weight ∧ 0 < weight := by
    intro path listed
    obtain ⟨_, within⟩ := inside path listed
    obtain ⟨hop, second⟩ := exists_getElem? (show 1 < path.length by omega)
    obtain ⟨member, found⟩ := exists_getElem? (within hop (mem_of_getElem? second))
    refine ⟨member.weight, ?_, member.weight_pos⟩
    simp only [second, found, bind_eq_bind, bind_some]
    rfl
  obtain ⟨weights, answers, length, mem_weights⟩ := mapM_total fun path listed =>
    (looked path listed).imp fun _ => And.left
  refine ⟨weights, answers, length, ?_⟩
  obtain ⟨path, listed⟩ := exists_mem_of_ne_nil _ nonempty
  obtain ⟨weight, found, positive⟩ := looked path listed
  exact positive.trans_le (le_sum_of_mem ((mem_weights weight).mpr ⟨path, listed, found⟩))

/-- Picking a route among routes of the membership gives one of them or runs out of tries. -/
theorem selectRoute_spec (seed : Bytes) :
    ∃ answer, selectRoute membership alternatives seed = some answer ∧
      (∀ route, answer = .ok route → route ∈ alternatives) ∧
      ∀ failure, answer = .error failure → failure = .samplingExhausted := by
  have picked : ∃ index, (if alternatives.length = 1 then some (.ok 0)
        else weightedIndex membership alternatives seed) = some index ∧
      (∀ place, index = .ok place → place < alternatives.length) ∧
      ∀ failure, index = .error failure → failure = .samplingExhausted := by
    split
    · refine ⟨.ok 0, rfl, fun place same => ?_, fun failure none => ?_⟩
      · cases same
        omega
      · cases none
    · obtain ⟨_, looked, length, positive⟩ := weights_spec nonempty inside
      obtain ⟨path, _, rfl⟩ := exists_cons_of_ne_nil nonempty
      obtain ⟨long, within⟩ := inside path mem_cons_self
      obtain ⟨first, atFirst⟩ := exists_getElem? (show 0 < path.length by omega)
      obtain ⟨last, atLast⟩ : ∃ last, path.getLast? = some last :=
        ne_none_iff_exists'.mp fun none => by
          rw [getLast?_eq_none_iff] at none
          rw [none] at long
          simp at long
      obtain ⟨start, foundStart⟩ := exists_getElem? (within first (mem_of_getElem? atFirst))
      obtain ⟨ending, foundEnding⟩ := exists_getElem? (within last (mem_of_getLast? atLast))
      obtain ⟨answer, sampled, below, failure⟩ := sampleIndex_spec positive fun counter =>
        hashing.nextHop seed start.id ending.id counter % 2 ^ 64
      refine ⟨answer, ?_, fun place same => length ▸ below place same, failure⟩
      unfold weightedIndex
      rw [looked]
      simp only [bind_eq_bind, bind_some, getElem?_cons_zero, atFirst, atLast,
        foundStart, foundEnding]
      exact sampled
  obtain ⟨index, chosen, below, failure⟩ := picked
  cases index with
  | error cause =>
    have staged : selectRoute membership alternatives seed = some (.error cause) := by
      unfold selectRoute
      split at chosen
      · cases chosen
      · rename_i several
        simp only [if_neg several, chosen, bind_eq_bind, bind_some, Option.pure_def]
    refine ⟨_, staged, fun route none => ?_, fun other same => ?_⟩
    · cases none
    · cases same
      exact failure cause rfl
  | ok place =>
    obtain ⟨route, found⟩ := exists_getElem? (below place rfl)
    have staged : selectRoute membership alternatives seed = some (.ok route) := by
      unfold selectRoute
      split at chosen
      · rename_i single
        cases chosen
        simp only [if_pos single, found, bind_eq_bind, bind_some, Option.pure_def]
      · rename_i several
        simp only [if_neg several, chosen, found, bind_eq_bind, bind_some, Option.pure_def]
    refine ⟨_, staged, fun other same => ?_, fun failure none => ?_⟩
    · cases same
      exact mem_of_getElem? found
    · cases none

end

/-! ### The steps of a search -/

/-- A search of these pools for this key that is not done. -/
inductive MeshSearch.Reaches (pools : List Pool) (key : PathKey) : MeshSearch → Prop
  | start : Reaches pools key { pools, key }
  | first {answer : Option (List Route)} (delegates : key.delegates pools = some answer) :
    Reaches pools key { pools, key, steps := 1, result := answer.map .ok }
  | found {routes : List Route} (delegates : key.delegates pools = some (some routes)) :
    Reaches pools key { pools, key, steps := 2, result := some (.ok routes) }
  | second {answer : Option (List Route)} (delegates : key.delegates pools = some none)
      (common : key.common pools = some answer) :
    Reaches pools key { pools, key, steps := 2, result := answer.map .ok }

theorem MeshSearch.Reaches.key_eq {pools : List Pool} {search : MeshSearch}
    (reaches : search.Reaches pools key) : search.key = key := by
  cases reaches <;> rfl

/-- The polls a search still needs. -/
def MeshSearch.left (search : MeshSearch) : Nat := 3 - search.steps

/-- A step of a search goes on with it or gives its outcome. -/
theorem MeshSearch.Reaches.step (filled : membership.Filled) {search : MeshSearch}
    (reaches : search.Reaches membership.pools key) :
    ∃ done next, search.step = some (done, next) ∧
      (done = false → next.Reaches membership.pools key ∧ next.left < search.left ∧ 0 < next.left) ∧
      (done = true → key.outcome membership.pools = some next.finish) := by
  cases reaches with
  | start =>
    obtain ⟨answer, delegates, -⟩ := PathKey.delegates_spec filled key
    refine ⟨false, { pools := membership.pools, key, steps := 1, result := answer.map .ok }, ?_,
      fun _ => ⟨.first delegates, Nat.lt_succ_self 2, Nat.zero_lt_succ 1⟩, nofun⟩
    unfold MeshSearch.step
    simp only [delegates]
    rfl
  | @first answer delegates =>
    cases answer with
    | some =>
      exact ⟨false, _, rfl, fun _ => ⟨.found delegates, Nat.lt_succ_self 1, Nat.zero_lt_one⟩, nofun⟩
    | none =>
      obtain ⟨answer, common, -⟩ := PathKey.common_spec filled key
      refine ⟨false, { pools := membership.pools, key, steps := 2, result := answer.map .ok }, ?_,
        fun _ => ⟨.second delegates common, Nat.lt_succ_self 1, Nat.zero_lt_one⟩,
        nofun⟩
      unfold MeshSearch.step
      simp only [common]
      rfl
  | found delegates =>
    refine ⟨true, _, rfl, nofun, fun _ => ?_⟩
    unfold PathKey.outcome
    rw [delegates]
    rfl
  | @second answer delegates common =>
    cases answer with
    | some =>
      refine ⟨true, _, rfl, nofun, fun _ => ?_⟩
      unfold PathKey.outcome
      rw [delegates, common]
      rfl
    | none =>
      obtain ⟨answer, fallback, -⟩ := PathKey.fallback_spec filled key
      refine ⟨true, { pools := membership.pools, key, steps := 3, result := some answer }, ?_,
        nofun, fun _ => ?_⟩
      · unfold MeshSearch.step
        simp only [fallback]
        rfl
      · unfold PathKey.outcome
        rw [delegates, common, fallback]
        rfl

/-! ### What a call returns -/

variable (membership : Membership hashing) (query : PathQuery) (full : Prop) in
/-- What a route call may return for a query: what its own search finds, or a refusal when the route
finder is full. -/
inductive Membership.Returns : Except Error Route → Prop
  | invalid {failure : Error} (checked : PathKey.new membership query = some (.error failure)) :
    Returns (.error failure)
  | same {key : PathKey} (checked : PathKey.new membership query = some (.ok key))
      (same : key.source = key.destination) : Returns (.ok [key.source])
  | hopless {key : PathKey} (checked : PathKey.new membership query = some (.ok key))
      (different : key.source ≠ key.destination) (hopless : key.links = 0) :
    Returns (.error .unreachable)
  | overloaded (busy : full) : Returns (.error .overloaded)
  | failed {key : PathKey} {failure : Error}
      (checked : PathKey.new membership query = some (.ok key))
      (different : key.source ≠ key.destination)
      (searched : key.outcome membership.pools = some (.error failure)) :
    Returns (.error failure)
  | drawn {key : PathKey} {routes : List Route} {result : Except Error Route}
      (checked : PathKey.new membership query = some (.ok key))
      (different : key.source ≠ key.destination)
      (searched : key.outcome membership.pools = some (.ok routes))
      (drawn : selectRoute membership routes query.seed = some result) :
    Returns result

/-- A route of the membership that keeps the constraints of a query. -/
def PathQuery.Meets {hashing : Hashing} (query : PathQuery) (membership : Membership hashing)
    (route : Route) : Prop :=
  membership.Carries query.source query.destination query.links query.visited query.blocked route

namespace Membership

variable (filled : membership.Filled) {query : PathQuery} {full : Prop}
  {result : Except Error Route}

/-- The members of a path of two or more are members of the membership. -/
theorem lt_of_isChain {first second : Nat} {rest : List Nat}
    (edges : (first :: second :: rest).IsChain membership.Linked) :
    ∀ node ∈ first :: second :: rest, node < membership.members.length := by
  induction rest generalizing first second with
  | nil =>
    have linked := isChain_pair.mp edges
    intro node member
    rcases mem_pair.mp member with rfl | rfl
    · exact linked.lt
    · exact linked.symm.lt
  | cons _ _ ih =>
    obtain ⟨linked, edges⟩ := isChain_cons_cons.mp edges
    exact forall_mem_cons.mpr ⟨linked.lt, ih edges⟩

/-- A route between different members stays inside the membership. -/
theorem Carries.inside {source destination links : Nat} {visited blocked : List Nat}
    (carries : membership.Carries source destination links visited blocked route)
    (different : source ≠ destination) :
    2 ≤ route.length ∧ ∀ node ∈ route, node < membership.members.length := by
  obtain ⟨starts, ends, -, edges, -⟩ := carries
  match route with
  | [] => cases starts
  | [only] =>
    exact absurd ((some.inj starts).symm.trans (some.inj ends)) different
  | first :: second :: rest => exact ⟨Nat.le_add_left _ _, lt_of_isChain edges⟩

include filled

theorem madeFrom_of_new {key : PathKey}
    (checked : PathKey.new membership query = some (.ok key)) : key.MadeFrom membership query := by
  obtain ⟨_, answered, made, -⟩ := PathKey.new_spec filled query
  exact made key (mem_unique answered checked)

/-- A draw among the routes a search found gives one of them or gives up. -/
theorem drawn_spec {key : PathKey} {routes : List Route} (different : key.source ≠ key.destination)
    (searched : key.outcome membership.pools = some (.ok routes)) (seed : Bytes) :
    ∃ answer, selectRoute membership routes seed = some answer ∧
      (∀ route, answer = .ok route → route ∈ routes) ∧
      ∀ failure, answer = .error failure → failure = .samplingExhausted := by
  obtain ⟨_, found, answered⟩ := PathKey.outcome_spec filled different
  obtain rfl := mem_unique found searched
  obtain ⟨nonempty, _, -, carried⟩ := answered.routes routes rfl
  refine selectRoute_spec nonempty (fun route member => ?_) seed
  exact (carried route member).1.inside different

/-- A returned route keeps the constraints of the query and has at most three hops. -/
theorem Returns.valid (returns : membership.Returns query full result)
    (found : result = .ok route) :
    query.Meets membership route ∧ route.length ≤ 4 := by
  cases returns with
  | invalid | hopless | overloaded | failed => cases found
  | same checked same =>
    cases found
    have made := madeFrom_of_new filled checked
    refine ⟨⟨congrArg some made.source, congrArg some (same.trans made.destination),
      nodup_singleton _, isChain_singleton _, Nat.le_add_left _ _,
      nofun, nofun⟩, Nat.le_add_left 1 3⟩
  | drawn checked different searched drawn =>
    obtain ⟨_, outcomeEq, answered⟩ := PathKey.outcome_spec filled different
    obtain rfl := mem_unique outcomeEq searched
    obtain ⟨_, answerEq, picked, -⟩ := drawn_spec filled different searched query.seed
    obtain rfl := mem_unique answerEq drawn
    obtain ⟨-, _, short, carried⟩ := answered.routes _ rfl
    obtain ⟨valid, same⟩ := carried route (picked route found)
    exact ⟨(madeFrom_of_new filled checked).carried_iff.mp valid, same.trans_le short⟩

theorem Returns.busy (returns : membership.Returns query full result)
    (refused : result = .error .overloaded) : full := by
  cases returns with
  | overloaded busy => exact busy
  | same | hopless => cases refused
  | invalid checked =>
    cases refused
    obtain ⟨_, answered, -, failed⟩ := PathKey.new_spec filled query
    cases (failed _ (mem_unique answered checked)).1
  | failed _ different searched =>
    cases refused
    obtain ⟨_, found, answered⟩ := PathKey.outcome_spec filled different
    cases answered.failure _ (mem_unique found searched)
  | drawn _ different searched drawn =>
    obtain ⟨_, found, -, failed⟩ := drawn_spec filled different searched query.seed
    cases failed _ ((mem_unique found drawn).trans refused)

/-- Where a route of at most two hops exists between members of one pool, a call returns a
shortest one, unless it is refused or the draw gives up. -/
theorem Returns.shortest (returns : membership.Returns query full result)
    (valid : query.Valid membership.members.length)
    (shared : ∃ pool ∈ membership.pools, pool.contains query.source = true ∧
      pool.contains query.destination = true)
    {other : Route} (meets : query.Meets membership other) (short : other.length ≤ 3) :
    result = .error .overloaded ∨ result = .error .samplingExhausted ∨
      ∃ route, result = .ok route ∧ ∀ rival, query.Meets membership rival →
        route.length ≤ rival.length := by
  -- between different ends the routes of the search are as short as any
  have searched : ∀ {key : PathKey} {answer : Except Error (List Route)},
      PathKey.new membership query = some (.ok key) → key.source ≠ key.destination →
      key.outcome membership.pools = some answer → ∃ routes, answer = .ok routes ∧
        ∀ route ∈ routes, ∀ rival, query.Meets membership rival → route.length ≤ rival.length := by
    intro key answer checked different found
    have made := madeFrom_of_new filled checked
    obtain ⟨_, outcomeEq, answered⟩ := PathKey.outcome_spec filled different
    obtain rfl := mem_unique outcomeEq found
    have nonempty : key.shared membership.pools ≠ [] := by
      obtain ⟨_, member, source, destination⟩ := shared
      refine ne_nil_of_mem (PathKey.mem_shared.mpr ⟨member, ?_, ?_⟩)
      · rwa [made.source]
      · rwa [made.destination]
    obtain ⟨routes, rfl, least⟩ := answered.shortest nonempty other
      (made.carried_iff.mpr meets) short
    refine ⟨routes, rfl, fun route member rival rivals => ?_⟩
    by_cases long : rival.length ≤ 3
    · obtain ⟨_, same, below⟩ := answered.shortest nonempty rival
        (made.carried_iff.mpr rivals) long
      cases same
      exact below route member
    · have below := least route member
      omega
  cases returns with
  | invalid checked =>
    obtain ⟨answer, answered, -, failed⟩ := PathKey.new_spec filled query
    exact absurd valid (failed _ (mem_unique answered checked)).2
  | overloaded => exact .inl rfl
  | same =>
    refine .inr (.inr ⟨_, rfl, fun rival rivals => ?_⟩)
    exact length_pos_of_ne_nil fun empty => by simpa [empty] using rivals.starts
  | hopless checked different =>
    -- a route without hops has one end
    have made := madeFrom_of_new filled checked
    have apart : query.source ≠ query.destination := by
      rwa [made.source, made.destination] at different
    have two := (meets.inside apart).1
    have length := meets.length
    rw [← made.links] at length
    omega
  | failed checked different found =>
    obtain ⟨routes, none, -⟩ := searched checked different found
    cases none
  | drawn checked different found drawn =>
    obtain ⟨_, same, least⟩ := searched checked different found
    cases same
    obtain ⟨answer, answerEq, picked, failed⟩ := drawn_spec filled different found query.seed
    obtain rfl := mem_unique answerEq drawn
    cases answer with
    | error failure => exact .inr (.inl (congrArg _ (failed failure rfl)))
    | ok route => exact .inr (.inr ⟨route, rfl, least route (picked route rfl)⟩)

end Membership

end Unbounded.Topology
