/-
This file models one route search. A query is checked and turned into a key; a
search for a key takes three steps over the pools of a membership: the direct
link and the delegate paths, then the other common neighbors, then the fallbacks
of three links. The routes found are equivalent; one of them is drawn by the
weight of its first hop.

A function that may panic returns nothing there.
-/

import Unbounded.UnionGraph

namespace Unbounded.Topology

/-- A route: the positions along it, including both ends. -/
abbrev Route := List Nat

/-- A route request. All positions refer to the same membership. -/
structure PathQuery where
  /-- Where the route starts. -/
  source : Nat
  /-- Where the route ends. -/
  destination : Nat
  /-- Most hops the route may take. -/
  links : Nat
  /-- Members the route must not pass through. -/
  visited : List Nat := []
  /-- Neighbors of the source to skip as the first hop. -/
  blocked : List Nat := []
  /-- Picks among equally short routes. -/
  seed : Bytes := []
  links_lt : links < 256

/-- Most blocked entries a query may have. -/
def maxBlocked : Nat := 65536

/-- Longest seed that is accepted. -/
def maxSeedBytes : Nat := 65536

/-- Cache key for a search. Weights and seed are left out. -/
structure PathKey where
  /-- Topology identity of the membership. -/
  membership : Nat
  source : Nat
  destination : Nat
  links : Nat
  visited : List Nat
  blocked : List Nat
  deriving DecidableEq

/-- The query keeps the rules on positions and lengths. -/
def PathQuery.inRange (query : PathQuery) (count : Nat) : Bool :=
  query.source < count && query.destination < count &&
    query.visited.length ≤ 255 - query.links && query.blocked.length ≤ maxBlocked &&
    query.seed.length ≤ maxSeedBytes &&
    query.visited.all (fun v => v < count && v != query.source && v != query.destination) &&
    query.blocked.all (· < count)

/-- The blocked members that are neighbors of the source, ascending. -/
def keptBlocked {hashing : Hashing} (membership : Membership hashing) (source : Nat)
    (blocked : List Nat) : Option (List Nat) :=
  if blocked.isEmpty then some []
  else (membership.neighbors source).map fun neighbors =>
    (sortDedup blocked).filter (neighbors.contains ·)

/-- Check the query and sort its lists so equal queries get equal keys. -/
def PathKey.new {hashing : Hashing} (membership : Membership hashing) (query : PathQuery) :
    Option (Except Error PathKey) :=
  if ¬ query.inRange membership.members.length then some (.error .invalidQuery)
  else
    let visited := query.visited.insertionSort (· ≤ ·)
    if ¬ visited.IsChain (· ≠ ·) then some (.error .invalidQuery)
    else (keptBlocked membership query.source query.blocked).map fun blocked =>
      .ok {
        membership := membership.topologyIdentity
        source := query.source
        destination := query.destination
        links := query.links
        visited
        blocked }

/-! ### The candidates -/

namespace PathKey

variable (key : PathKey) (pools : List Pool)

/-- Whether a node may be the first hop. -/
def firstHop (node : Nat) : Bool :=
  node != key.source && node != key.destination && !key.blocked.contains node &&
    !key.visited.contains node

/-- Pools that have both ends, highest rank first. -/
def shared : List Pool :=
  (pools.filter fun pool => pool.contains key.source && pool.contains key.destination)
    |>.insertionSort fun a b => b.rank ≤ a.rank

/-- The paths of two links through one middle hop of a group of pools, if any. -/
def throughGroup (middle : Pool → Nat → Nat → Option (Option Nat)) (group : List Pool) :
    Option (Option (List Route)) := do
  let hops ← group.mapM (middle · key.source key.destination)
  let hops := sortDedup (hops.reduceOption.filter key.firstHop)
  return if hops.isEmpty then none
    else some (hops.map fun hop => [key.source, hop, key.destination])

/-- The direct link, or the best group of delegate paths, if any. -/
def delegates : Option (Option (List Route)) := do
  let linked ← pools.anyM fun pool => do
    let kind ← pool.edge key.source key.destination
    return kind.isSome
  if key.links = 0 then return none
  if linked && !key.blocked.contains key.destination then
    return some [[key.source, key.destination]]
  if key.links < 2 then return none
  let groups := (key.shared pools).splitBy fun a b => a.rank == b.rank
  [Pool.primary, Pool.alternate].findSomeM? fun middle =>
    groups.findSomeM? (key.throughGroup middle)

/-- Routes of two links through any other common neighbor, if any. -/
def common : Option (Option (List Route)) :=
  if key.links < 2 ∨ (key.shared pools).isEmpty then some none
  else do
    let ends ← unionNeighbors pools key.destination
    let starts ← unionNeighbors pools key.source
    let routes := (starts.filter fun hop => key.firstHop hop && ends.contains hop).map
      fun hop => [key.source, hop, key.destination]
    return if routes.isEmpty then none else some routes

/-- The fallback through one column mate of the source and its delegate, if any. -/
def fallbackThrough (pool : Pool) (target mate : Nat) : Option (Option Route) :=
  (pool.delegate mate target).map fun delegate =>
    delegate.bind fun hop =>
      if hop != key.destination && !key.visited.contains hop then
        some [key.source, mate, hop, key.destination] else none

/-- The fallbacks of one pool. -/
def fallbackIn (pool : Pool) : Option (List Route) :=
  match pool.column key.source, pool.column key.destination with
  | some own, some target =>
    if own = target then some []
    else do
      let routes ← ((pool.columnMembers own).filter key.firstHop).mapM
        (key.fallbackThrough pool target)
      return routes.reduceOption
  | _, _ => some []

/-- Fallbacks of three links through column mates of the source. -/
def fallback : Option (Except Error (List Route)) :=
  if key.links < 3 then some (.error .unreachable)
  else do
    let routes ← (key.shared pools).mapM key.fallbackIn
    let routes := sortDedup routes.flatten
    return if routes.isEmpty then .error .unreachable else .ok routes

end PathKey

/-! ### The search -/

/-- A route computation in three steps. -/
structure MeshSearch where
  pools : List Pool
  key : PathKey
  steps : Nat := 0
  result : Option (Except Error (List Route)) := none

namespace MeshSearch

/-- Run one step. Returns true when done. -/
def step (search : MeshSearch) : Option (Bool × MeshSearch) := do
  let result ← match search.result, search.steps with
    | some result, _ => some (some result)
    | none, 0 => (search.key.delegates search.pools).map (·.map .ok)
    | none, 1 => (search.key.common search.pools).map (·.map .ok)
    | none, 2 => (search.key.fallback search.pools).map some
    | none, _ => some none
  return (decide (2 ≤ search.steps), { search with steps := min (search.steps + 1) 255, result })

/-- Routes of a finished search. -/
def finish (search : MeshSearch) : Except Error (List Route) :=
  match search.result with
  | some result => result
  | none => .error .unreachable

end MeshSearch

/-! ### The draw -/

/-- The index of the weight a ticket falls in. The ticket must be below the sum. -/
def ticketIndex (ticket : Nat) : List Nat → Option Nat
  | [] => none
  | weight :: rest =>
    if ticket < weight then some 0 else (ticketIndex (ticket - weight) rest).map (· + 1)

/-- Turn a random number into an index. There is none for numbers that would bias the
result. -/
def weightedDraw (sample total : Nat) (weights : List Nat) : Option (Option Nat) :=
  if total = 0 then none
  else if sample < (2 ^ 64 - total) % 2 ^ 64 % total then some none
  else (ticketIndex (sample % total) weights).map some

/-- Try up to 64 draws. Give up rather than pick unfairly. -/
def sampleIndex (weights : List Nat) (total : Nat) (draw : Nat → Nat) :
    Option (Except Error Nat) := do
  let index ← (List.range 64).findSomeM? fun counter => weightedDraw (draw counter) total weights
  return match index with
    | some index => .ok index
    | none => .error .samplingExhausted

/-- Pick a route index, weighted by first-hop weight. -/
def weightedIndex {hashing : Hashing} (membership : Membership hashing)
    (alternatives : List Route) (seed : Bytes) : Option (Except Error Nat) := do
  let weights ← alternatives.mapM fun path => do
    let hop ← path[1]?
    let member ← membership.members[hop]?
    return member.weight
  let path ← alternatives[0]?
  let first ← membership.members[← path[0]?]?
  let last ← membership.members[← path.getLast?]?
  sampleIndex weights weights.sum fun counter =>
    hashing.nextHop seed first.id last.id counter % 2 ^ 64

/-- Pick one route using the seed and first-hop weights. -/
def selectRoute {hashing : Hashing} (membership : Membership hashing)
    (alternatives : List Route) (seed : Bytes) : Option (Except Error Route) := do
  let index ← if alternatives.length = 1 then some (.ok 0)
    else weightedIndex membership alternatives seed
  match index with
  | .error failure => return .error failure
  | .ok index =>
    let route ← alternatives[index]?
    return .ok route

end Unbounded.Topology
