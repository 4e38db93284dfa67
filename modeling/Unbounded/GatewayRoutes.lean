/-
This file models the routes a node takes from a gateway peer. The advertised
paths are filtered twice: paths through the node's own site and paths that loop
through one of its pools go first, then, for node and routed CIDRs, paths through
the excluded sites. Each filter measures what it leaves.

What is asked is that a CIDR is taken exactly when one of its paths is left, at the
distance of the shortest. The routes for which this holds are described exactly. The
fallback of a stale advertisement is dropped, a route without paths is kept, of two
paths with one key only the last is measured, and the second filter has no cap.
-/

import Unbounded.SortedList
import Unbounded.Table

namespace Unbounded.Gateway

open List

/-! ### Paths -/

structure PathHop where
  type : String
  name : String
deriving DecidableEq

abbrev Path := List PathHop

def pathHasHop (path : Path) (hopType hopName : String) : Bool :=
  path.any fun hop => hop.type = hopType ∧ hop.name = hopName

def pathHasIntermediatePoolHop (path : Path) (poolName : String) : Bool :=
  path.zipIdx.any fun (hop, i) => (hop.type = "GatewayPool" ∧ hop.name = poolName) ∧
    (i < path.length - 1 ∨ path.length = 1)

def pathHasSiteInSet (path : Path) (sites : Table String Bool) : Bool :=
  path.any fun hop => hop.type = "Site" ∧ sites.lookup hop.name = some true

def routePathLength (paths : List Path) : Nat := ((paths.filter (· ≠ [])).map length).min?.getD 1

def pathKey (path : Path) : String :=
  "->".intercalate (path.map fun hop => hop.type ++ "/" ++ hop.name)

/-- Of several paths with one key, the last is kept. -/
def dedupePathHops (paths : List Path) : List Path :=
  let full := paths.filter (· ≠ [])
  (sortDedup (full.map pathKey)).filterMap fun key => full.reverse.find? (pathKey · = key)

/-- A path is the last of some with its key. -/
def IsLast (paths : List Path) (path : Path) : Prop :=
  paths.reverse.find? (pathKey · = pathKey path) = some path

variable {paths : List Path} {path : Path}

theorem IsLast.mem (last : IsLast paths path) : path ∈ paths :=
  mem_reverse.mp (mem_of_find?_eq_some last)

theorem IsLast.unique {other : Path} (last : IsLast paths path)
    (also : IsLast paths other) (same : pathKey path = pathKey other) : path = other := by
  rw [IsLast, same, show _ = _ from also] at last
  exact (Option.some.inj last).symm

theorem exists_isLast (listed : path ∈ paths) :
    ∃ last, IsLast paths last ∧ pathKey last = pathKey path := by
  cases found : paths.reverse.find? (pathKey · = pathKey path) with
  | none => exact absurd (decide_eq_true rfl) (find?_eq_none.mp found _ (mem_reverse.mpr listed))
  | some last =>
    have same : pathKey last = pathKey path := by simpa using find?_some found
    refine ⟨last, ?_, same⟩
    rw [IsLast, same, found]

section

variable (full : [] ∉ paths)

include full

theorem filter_full : paths.filter (· ≠ []) = paths :=
  filter_eq_self.mpr fun _ listed => decide_eq_true fun empty => full (empty ▸ listed)

theorem mem_dedupePathHops : path ∈ dedupePathHops paths ↔ IsLast paths path := by
  simp only [dedupePathHops, filter_full full, mem_filterMap, mem_sortDedup]
  constructor
  · rintro ⟨key, -, found⟩
    have same : pathKey path = key := by simpa using find?_some found
    rwa [← same] at found
  · exact fun last => ⟨pathKey path, mem_map_of_mem last.mem, last⟩

theorem routePathLength_spec (nonempty : paths ≠ []) :
    ∃ path ∈ paths, routePathLength paths = path.length ∧
      ∀ other ∈ paths, path.length ≤ other.length := by
  rw [routePathLength, filter_full full]
  cases found : (paths.map length).min? with
  | none => exact absurd (map_eq_nil_iff.mp (min?_eq_none_iff.mp found)) nonempty
  | some =>
    obtain ⟨least, below⟩ := min?_eq_some_iff.mp found
    obtain ⟨path, listed, rfl⟩ := mem_map.mp least
    exact ⟨path, listed, rfl, fun other also => below _ (mem_map_of_mem also)⟩

end

/-! ### The two filters -/

/-- An advertised route; what is only copied is left out. -/
structure GatewayNodeRoute where
  type : String
  paths : List Path

/-- A gateway peer. A zero time is no time. -/
structure GatewayPoolNode where
  lastUpdated : Option Int
  routes : Table String GatewayNodeRoute

/-- The entries for one CIDR of the selected routes and of the distances. -/
structure Selected where
  paths : List Path
  distance : Nat

/-- Both filters drop a route without paths. -/
def measured (distance : Nat → Nat) (filteredPaths : List Path) : Option Selected :=
  if filteredPaths = [] then none
  else
    let paths := dedupePathHops filteredPaths
    some ⟨paths, distance (routePathLength paths)⟩

def cappedDistance (pathLength : Nat) : Nat :=
  if pathLength ≤ 1 then 1 else if pathLength - 1 > 20 then 20 else pathLength - 1

/-- The arguments of the node that takes the routes. A route's type is trimmed and put in lower
case by `normalize`. -/
structure Receiver where
  mySiteName : String
  localGatewayPools : List String
  excludedNodeCIDRSites : Table String Bool
  now : Int
  staleAfter : Int
  normalize : String → String

namespace Receiver

variable (receiver : Receiver)

/-- The test of the first filter. -/
def keeps (path : Path) : Bool :=
  path ≠ [] ∧ ¬(receiver.mySiteName ≠ "" ∧ pathHasHop path "Site" receiver.mySiteName) ∧
    ¬receiver.localGatewayPools.any (pathHasIntermediatePoolHop path)

/-- The body of the loop of `FilterGatewayAdvertisedRoutes`. -/
def select (cidr : String) (route : GatewayNodeRoute) : Option Selected :=
  if cidr = "" then none
  else if route.paths = [] then some ⟨[], cappedDistance (routePathLength [])⟩
  else measured cappedDistance (route.paths.filter receiver.keeps)

/-- The node has excluded sites, and the route is a node or a routed CIDR. -/
def restricts (route : GatewayNodeRoute) : Bool :=
  receiver.excludedNodeCIDRSites.keys ≠ [] ∧ (receiver.normalize route.type = "nodecidr" ∨
    receiver.normalize route.type = "routedcidr")

/-- The body of the loop of `routedCIDRsForGatewayPeer`. -/
def exclude (route : GatewayNodeRoute) (selected : Selected) : Option Selected :=
  if receiver.restricts route then
    measured (fun pathLength => if pathLength ≤ 1 then 1 else pathLength - 1)
      (selected.paths.filter (¬pathHasSiteInSet · receiver.excludedNodeCIDRSites))
  else some selected

variable (gatewayNode : GatewayPoolNode) (fallback : List String)

/-- The advertisement is empty or stale. -/
def rejects : Bool :=
  gatewayNode.routes.keys = [] ∨
    gatewayNode.lastUpdated.all (· + receiver.staleAfter < receiver.now)

/-- The maps returned have only keys of the advertisement, and are given by their lookups. -/
def filterGatewayAdvertisedRoutes : List String × (String → Option Selected) :=
  if receiver.rejects gatewayNode then (fallback, fun _ => none)
  else
    let selected cidr := (gatewayNode.routes.lookup cidr).bind (receiver.select cidr)
    (sortDedup (gatewayNode.routes.keys.filter fun cidr => (selected cidr).isSome), selected)

def routedCIDRsForGatewayPeer : List String × (String → Option Selected) :=
  let (_, selectedPlan) := receiver.filterGatewayAdvertisedRoutes gatewayNode fallback
  let selected cidr := (gatewayNode.routes.lookup cidr).bind fun route =>
    (selectedPlan cidr).bind (receiver.exclude route)
  ((gatewayNode.routes.keys.filter fun cidr => (selected cidr).isSome).insertionSort (· ≤ ·),
    selected)

/-! ### What is taken -/

/-- The paths of a route that the first filter leaves. An empty name is no site, and a path has
hops. -/
structure Keeps (route : GatewayNodeRoute) (path : Path) : Prop where
  advertised : path ∈ route.paths
  hops : path ≠ []
  offSite : receiver.mySiteName ≠ "" → pathHasHop path "Site" receiver.mySiteName = false
  loopless : ∀ pool ∈ receiver.localGatewayPools, pathHasIntermediatePoolHop path pool = false

/-- The paths of a route that both filters leave. -/
def Spares (route : GatewayNodeRoute) (path : Path) : Prop :=
  receiver.Keeps route path ∧ (receiver.restricts route →
    pathHasSiteInSet path receiver.excludedNodeCIDRSites = false)

/-- The paths of a CIDR that are left. -/
def Leaves (cidr : String) (path : Path) : Prop :=
  ∃ route ∈ gatewayNode.routes.lookup cidr, receiver.Spares route path

/-- The length of a path minus one, at least 1 and at most 20. -/
def clamped (pathLength : Nat) : Nat := max 1 (min 20 (pathLength - 1))

/-- The distance of the shortest of some paths. -/
def Shortest (left : Path → Prop) (distance : Nat) : Prop :=
  ∃ path, left path ∧ (∀ other, left other → path.length ≤ other.length) ∧
    distance = clamped path.length

/-- What is asked of the entry for a CIDR: there is one when a path is left, at the distance of the
shortest. -/
structure Meets (left : Path → Prop) (entry : Option Selected) : Prop where
  taken : entry.isSome ↔ ∃ path, left path
  distance : ∀ selected ∈ entry, Shortest left selected.distance

/-- Of the paths left, those that were not taken for a later one with the same key. -/
def Measures (route : GatewayNodeRoute) (path : Path) : Prop :=
  receiver.Spares route path ∧ IsLast (route.paths.filter receiver.keeps) path

/-- When the entry for a CIDR is what is asked. A route without paths is not kept. If a path is
left, the CIDR has a name and one measured is as near as any path left, and where sites are excluded
it has at most 21 hops. -/
structure Fits (cidr : String) (route : GatewayNodeRoute) : Prop where
  pathless : route.paths = [] → cidr = "" ∨ receiver.restricts route
  nearest : (∃ path, receiver.Spares route path) → cidr ≠ "" ∧ ∃ path,
    receiver.Measures route path ∧ (receiver.restricts route → path.length ≤ 21) ∧
      ∀ other, receiver.Spares route other → clamped path.length ≤ clamped other.length

/-- Some paths were selected, at the distance of the shortest under a rule. -/
def Selects (left : Path → Prop) (rule : Nat → Nat) : Option Selected → Prop
  | none => ∀ path, ¬left path
  | some selected => (∀ path, path ∈ selected.paths ↔ left path) ∧
    ∃ path, left path ∧ (∀ other, left other → path.length ≤ other.length) ∧
      selected.distance = rule path.length

theorem cappedDistance_eq (pathLength : Nat) : cappedDistance pathLength = clamped pathLength := by
  unfold cappedDistance clamped
  split
  · omega
  · split <;> omega

/-- A filter selects the last paths with their keys. -/
theorem measured_spec {paths : List Path} (full : [] ∉ paths) (rule : Nat → Nat) :
    Selects (IsLast paths) rule (measured rule paths) := by
  unfold measured
  split
  · rename_i empty
    exact fun path last => not_mem_nil (empty ▸ last.mem)
  rename_i nonempty
  have deduped (path : Path) := @mem_dedupePathHops _ path full
  obtain ⟨first, listed⟩ := exists_mem_of_ne_nil paths nonempty
  obtain ⟨last, isLast, -⟩ := exists_isLast listed
  obtain ⟨path, member, length, least⟩ := routePathLength_spec
    (fun empty => full ((deduped []).mp empty).mem) (ne_nil_of_mem ((deduped last).mpr isLast))
  exact ⟨deduped, path, (deduped path).mp member,
    fun other also => least other ((deduped other).mpr also), congrArg rule length⟩

variable {receiver} {cidr : String} {route : GatewayNodeRoute}

theorem mem_filter_keeps {path : Path} :
    path ∈ route.paths.filter receiver.keeps ↔ receiver.Keeps route path := by
  simp only [mem_filter, keeps, decide_eq_true_eq, not_and, Bool.not_eq_true, any_eq_false]
  exact ⟨fun ⟨listed, hops, offSite, loopless⟩ => ⟨listed, hops, offSite, loopless⟩,
    fun ⟨listed, hops, offSite, loopless⟩ => ⟨listed, hops, offSite, loopless⟩⟩

/-- The distance of a path under the filter that measures the route last. -/
def lastRule (receiver : Receiver) (route : GatewayNodeRoute) (pathLength : Nat) : Nat :=
  if receiver.restricts route then max 1 (pathLength - 1) else clamped pathLength

/-- The entry for a route with paths. -/
theorem exclude_spec (named : cidr ≠ "") (pathful : route.paths ≠ []) :
    Selects (receiver.Measures route) (receiver.lastRule route)
      ((receiver.select cidr route).bind (receiver.exclude route)) := by
  have selects := @measured_spec (route.paths.filter receiver.keeps)
    (fun empty => (mem_filter_keeps.mp empty).hops rfl) cappedDistance
  rw [select, if_neg named, if_neg pathful]
  cases found : measured cappedDistance (route.paths.filter receiver.keeps) with
  | none =>
    rw [found] at selects
    exact fun path measures => selects path measures.2
  | some selected =>
    rw [found] at selects
    have kept {path : Path} (last : IsLast (route.paths.filter receiver.keeps) path) :
        receiver.Keeps route path := mem_filter_keeps.mp last.mem
    rw [Option.bind_some, exclude]
    split
    · rename_i restricted
      -- The keys left by the first filter are distinct, so the second drops no path for its key.
      have same : receiver.Measures route = IsLast (selected.paths.filter
          (¬pathHasSiteInSet · receiver.excludedNodeCIDRSites)) := by
        ext path
        have spared : path ∈ selected.paths.filter
            (¬pathHasSiteInSet · receiver.excludedNodeCIDRSites) ↔
              receiver.Measures route path := by
          rw [mem_filter, selects.1]
          simp only [Measures, Spares, restricted, decide_eq_true_eq, Bool.not_eq_true,
            true_imp_iff]
          exact ⟨fun ⟨last, clear⟩ => ⟨⟨kept last, clear⟩, last⟩,
            fun ⟨⟨_, clear⟩, last⟩ => ⟨last, clear⟩⟩
        rw [← spared]
        refine ⟨fun listed => ?_, IsLast.mem⟩
        obtain ⟨last, isLast, equal⟩ := exists_isLast listed
        have first := (selects.1 last).mp (mem_of_mem_filter isLast.mem)
        have second := (selects.1 path).mp (mem_of_mem_filter listed)
        exact first.unique second equal ▸ isLast
      have rule : receiver.lastRule route = fun pathLength =>
          if pathLength ≤ 1 then 1 else pathLength - 1 := by
        ext pathLength
        rw [lastRule, if_pos restricted]
        split <;> omega
      rw [same, rule]
      refine measured_spec (fun empty => ?_) _
      exact (kept ((selects.1 []).mp (mem_of_mem_filter empty))).hops rfl
    · rename_i free
      have same : receiver.Measures route = IsLast (route.paths.filter receiver.keeps) :=
        funext fun path => propext (and_iff_right_of_imp fun last =>
          ⟨kept last, fun restricted => absurd restricted free⟩)
      have rule : receiver.lastRule route = cappedDistance :=
        funext fun _ => (if_neg free).trans (cappedDistance_eq _).symm
      rwa [same, rule]

/-- An entry that measures some of the paths left is the one asked for when one of those measured is
as near as any. -/
theorem meets_iff {entry : Option Selected}
    (selects : Selects (receiver.Measures route) (receiver.lastRule route) entry) :
    Meets (receiver.Spares route) entry ↔ ((∃ path, receiver.Spares route path) → ∃ path,
      receiver.Measures route path ∧ (receiver.restricts route → path.length ≤ 21) ∧
        ∀ other, receiver.Spares route other → clamped path.length ≤ clamped other.length) := by
  cases entry with
  | none =>
    constructor
    · intro meets some
      cases meets.taken.mpr some
    · intro nearest
      refine ⟨iff_of_false nofun fun some => ?_, nofun⟩
      obtain ⟨path, measures, -⟩ := nearest some
      exact selects path measures
  | some selected =>
    obtain ⟨-, path, measures, least, distance⟩ := selects
    constructor
    · rintro ⟨-, shortest⟩ -
      obtain ⟨first, -, shortest, equal⟩ := shortest selected rfl
      rw [distance, lastRule] at equal
      refine ⟨path, measures, fun restricted => ?_, fun other also => ?_⟩
      · rw [if_pos restricted, clamped] at equal
        omega
      · have := shortest other also
        unfold clamped at equal ⊢
        split at equal <;> omega
    · intro nearest
      have spared : ∃ path, receiver.Spares route path := ⟨path, measures.1⟩
      obtain ⟨first, left, shortest⟩ :=
        (measure length).wf.has_min { path | receiver.Spares route path } spared
      obtain ⟨best, also, short, near⟩ := nearest spared
      refine ⟨iff_of_true rfl spared, fun _ same => ⟨first, left, fun other spared =>
        Nat.not_lt.mp (shortest other spared), ?_⟩⟩
      have near := near first left
      have below := least best also
      have above : ¬path.length < first.length := shortest path measures.1
      rw [← Option.some.inj same, distance, lastRule]
      unfold clamped at near ⊢
      split
      · rename_i restricted
        have := short restricted
        omega
      · omega

theorem fits_iff : Meets (receiver.Spares route)
    ((receiver.select cidr route).bind (receiver.exclude route)) ↔ receiver.Fits cidr route := by
  by_cases unnamed : cidr = ""
  · rw [select, if_pos unnamed]
    exact ⟨fun meets => ⟨fun _ => .inl unnamed, fun some => nomatch meets.taken.mpr some⟩,
      fun fits => ⟨iff_of_false nofun fun some => (fits.nearest some).1 unnamed, nofun⟩⟩
  by_cases pathless : route.paths = []
  · have empty (path : Path) : ¬receiver.Spares route path := fun spared =>
      not_mem_nil (pathless ▸ spared.1.advertised)
    rw [select, if_neg unnamed, if_pos pathless, Option.bind_some, exclude]
    split
    · rename_i restricted
      exact iff_of_true ⟨iff_of_false nofun fun ⟨path, spared⟩ => empty path spared, nofun⟩
        ⟨fun _ => .inr restricted, fun ⟨path, spared⟩ => absurd spared (empty path)⟩
    · rename_i free
      refine iff_of_false (fun meets => ?_) fun fits => ?_
      · obtain ⟨path, spared⟩ := meets.taken.mp rfl
        exact empty path spared
      · exact (fits.pathless pathless).elim unnamed free
  · rw [meets_iff (exclude_spec unnamed pathless)]
    exact ⟨fun nearest => ⟨fun none => absurd none pathless, fun some => ⟨unnamed, nearest some⟩⟩,
      fun fits some => (fits.nearest some).2⟩

variable {gatewayNode fallback}

theorem mem_routedCIDRs : cidr ∈ (receiver.routedCIDRsForGatewayPeer gatewayNode fallback).1 ↔
    ((receiver.routedCIDRsForGatewayPeer gatewayNode fallback).2 cidr).isSome := by
  show cidr ∈ insertionSort _ _ ↔ Option.isSome (Option.bind _ _)
  rw [mem_insertionSort, mem_filter]
  refine and_iff_right_of_imp fun taken => ?_
  cases found : gatewayNode.routes.lookup cidr with
  | none => simp [found] at taken
  | some => exact AList.mem_keys.mp (AList.lookup_isSome.mp (by rw [found]; rfl))

/-- The entry for a CIDR of an advertisement that is used. -/
theorem entry_meets (accepted : ¬receiver.rejects gatewayNode) :
    Meets (receiver.Leaves gatewayNode cidr)
      ((receiver.routedCIDRsForGatewayPeer gatewayNode fallback).2 cidr) ↔
    ∀ route ∈ gatewayNode.routes.lookup cidr, receiver.Fits cidr route := by
  unfold routedCIDRsForGatewayPeer filterGatewayAdvertisedRoutes Leaves
  rw [if_neg accepted]
  dsimp only
  cases found : gatewayNode.routes.lookup cidr with
  | none => exact iff_of_true ⟨iff_of_false nofun nofun, nofun⟩ nofun
  | some route => simpa using fits_iff

variable (receiver gatewayNode fallback)

/-- The routes of a peer are those selected, the CIDRs with a path left at the distance of the
shortest, exactly when there is nothing to fall back to and every route fits. -/
theorem peer_routes_selected :
    ((receiver.rejects gatewayNode →
      (receiver.routedCIDRsForGatewayPeer gatewayNode fallback).1 = fallback) ∧
    (¬receiver.rejects gatewayNode → ∀ cidr,
      cidr ∈ (receiver.routedCIDRsForGatewayPeer gatewayNode fallback).1 ↔
        ∃ path, receiver.Leaves gatewayNode cidr path) ∧
    ∀ cidr, ∀ selected ∈ (receiver.routedCIDRsForGatewayPeer gatewayNode fallback).2 cidr,
      Shortest (receiver.Leaves gatewayNode cidr) selected.distance) ↔
    (receiver.rejects gatewayNode → fallback = []) ∧
    (¬receiver.rejects gatewayNode → ∀ cidr, ∀ route ∈ gatewayNode.routes.lookup cidr,
      receiver.Fits cidr route) := by
  by_cases rejected : receiver.rejects gatewayNode
  · have nothing : receiver.routedCIDRsForGatewayPeer gatewayNode fallback =
        ([], fun _ => none) := by
      simp [routedCIDRsForGatewayPeer, filterGatewayAdvertisedRoutes, rejected]
    simp [nothing, rejected, eq_comm]
  constructor
  · rintro ⟨-, taken, distance⟩
    exact ⟨fun rejects => absurd rejects rejected, fun _ cidr => (entry_meets rejected).mp
      ⟨mem_routedCIDRs.symm.trans (taken rejected cidr), distance cidr⟩⟩
  · rintro ⟨-, fits⟩
    have meets (cidr : String) := (@entry_meets _ _ fallback cidr rejected).mpr (fits rejected cidr)
    exact ⟨fun rejects => absurd rejects rejected,
      fun _ cidr => mem_routedCIDRs.trans (meets cidr).taken, fun cidr => (meets cidr).distance⟩

/-- A node without a site or pools of its own. -/
def bareReceiver : Receiver := ⟨"", [], ∅, 1, 1, id⟩

/-- A route over a site and a pool. -/
def siteRoute : GatewayNodeRoute := ⟨"podCIDR", [[⟨"Site", "a"⟩, ⟨"GatewayPool", "b"⟩]]⟩

/-- The same node with an excluded site. -/
def strictReceiver : Receiver :=
  { bareReceiver with excludedNodeCIDRSites := AList.singleton "x" true }

/-- A routed CIDR with a path without hops, one of 23 and one of 3. -/
def longRoute : GatewayNodeRoute :=
  ⟨"routedcidr", [[], replicate 23 ⟨"GatewayPool", "b"⟩, replicate 3 ⟨"Site", "a"⟩]⟩

/-- A path without hops and one of 23 beside one of 3: the CIDR is taken. -/
theorem peer_routes_selected_long : "10.0.0.0/8" ∈ (strictReceiver.routedCIDRsForGatewayPeer
    ⟨some 0, AList.singleton "10.0.0.0/8" longRoute⟩ []).1 := by
  have left : strictReceiver.Spares longRoute (replicate 3 ⟨"Site", "a"⟩) :=
    ⟨⟨by decide, nofun, nofun, nofun⟩, fun _ => by decide⟩
  have last : IsLast (longRoute.paths.filter strictReceiver.keeps) (replicate 3 ⟨"Site", "a"⟩) :=
    find?_cons_of_pos (decide_eq_true rfl)
  refine (((peer_routes_selected strictReceiver _ []).mpr
    ⟨fun _ => rfl, fun _ cidr route found => ?_⟩).2.1 (by decide) _).mpr ⟨_, longRoute, rfl, left⟩
  obtain ⟨rfl, rfl⟩ : cidr = "10.0.0.0/8" ∧ route = longRoute := by
    simpa using Table.mem_entries.mpr found
  refine ⟨nofun, fun _ => ⟨by decide, _, ⟨left, last⟩, fun _ => by decide, fun other spared => ?_⟩⟩
  have advertised := spared.1.advertised
  fin_cases advertised
  · exact absurd rfl spared.1.hops
  · decide
  · decide

/-- The heartbeat is missing, and the fallback list is dropped. -/
theorem stale_drops_fallback :
    bareReceiver.rejects ⟨none, AList.singleton "10.0.0.0/8" siteRoute⟩ = true ∧
      (bareReceiver.routedCIDRsForGatewayPeer ⟨none, AList.singleton "10.0.0.0/8" siteRoute⟩
        ["10.0.0.0/8"]).1 = [] := by
  decide

end Receiver

end Unbounded.Gateway
