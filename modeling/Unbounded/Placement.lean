/-
This file models the placement cache. Rankings are kept by membership identity and
slot in an ordered map with CLOCK eviction; requests for one slot share an entry,
which stays pinned while one of them holds it. Entries of an old membership are
moved to its successor one by one by maintenance, and one more ranking may be
computed at the side for a refresh.

An entry is a shared cell, named by its address; the count of its references is the
number of holders. Requests are futures: they are created, polled any number of times
and possibly dropped, in any order. A step that would panic has no successor.
-/

import Unbounded.RankingUpdate
import Unbounded.Table
import Unbounded.Transition

namespace Unbounded.Topology

/-- Most members scored per poll. -/
def workQuantum : Nat := 256

/-- Most entries CLOCK visits for a refresh. -/
def refreshVisits : Nat := 64

/-- Membership identity, then slot. -/
abbrev CacheKey := Nat × Nat

/-- The order of cache keys: by identity, then by slot. -/
def CacheKey.lt (a b : CacheKey) : Bool := a.1 < b.1 || a.1 == b.1 && a.2 < b.2

/-- CLOCK cache of rankings. -/
structure RankingCache where
  /-- The address of each ranking. -/
  entries : Table CacheKey Nat := ∅
  /-- Where the CLOCK hand last stopped. That entry may be gone. -/
  hand : Option CacheKey := none
  /-- The old membership that maintenance is moving away from. -/
  predecessor : Option Nat := none
  /-- Set when an entry is added for the predecessor, so maintenance rescans. -/
  predecessorDirty : Bool := false

namespace RankingCache

variable (cache : RankingCache)

/-- The keys in order. -/
def keys : List CacheKey := cache.entries.keys.insertionSort pairLe

/-- The first key after another. -/
def after (key : CacheKey) : Option CacheKey := cache.keys.find? key.lt

/-- The first key that is not before another. -/
def startingAt (key : CacheKey) : Option CacheKey := cache.keys.find? fun other => !other.lt key

/-- The entry CLOCK visits next. -/
def next : Option CacheKey := (cache.hand.bind cache.after).or cache.keys.head?

/-- Note that an entry was added for a membership. -/
def noteAdded (identity : Nat) : RankingCache :=
  if cache.predecessor = some identity then { cache with predecessorDirty := true } else cache

end RankingCache

/-- Progress of moving cached entries from the old membership to the new one. -/
structure MaintenanceWork where
  /-- The new membership. Changing it restarts maintenance. -/
  identity : Option Nat := none
  /-- Last old entry moved. Kept after the scan finishes. -/
  cursor : Option CacheKey := none
  /-- A slot being fully rescored, and the address of its ranking. -/
  active : Option (Nat × Nat) := none
  /-- True when the scan is done. -/
  finished : Bool := false

/-- Where a request stands. -/
inductive RankPhase
  | created
  | holding (address : Nat)
  | finished
  deriving DecidableEq

/-- One asynchronous request. -/
structure RankCall (hashing : Hashing) where
  membership : Membership hashing
  key : Bytes
  phase : RankPhase := .created

/-- Picks owners for keys and caches the results. -/
structure Placement (hashing : Hashing) where
  /-- Most cache entries kept. Zero turns caching off. -/
  capacity : Nat
  cache : RankingCache := {}
  maintenance : MaintenanceWork := {}
  /-- One cold resident refresh. -/
  refresh : Option (CacheKey × Ranking) := none
  /-- The rankings by address. -/
  heap : Table Nat Ranking := ∅
  nextAddress : Nat := 0
  calls : Table Nat (RankCall hashing) := ∅

/-- What maintenance reports. -/
inductive Maintenance
  | idle
  | progress
  | blocked

/-- The reply to a poll of a request. -/
inductive RankReply
  | pending
  | ready (owners : Except Error (List Nat))

namespace Placement

variable {hashing : Hashing} (scoring : Scoring) (placement : Placement hashing)

/-- A request or the maintenance holds the ranking. -/
def pinned (address : Nat) : Bool :=
  placement.calls.values.any (fun call => call.phase == .holding address) ||
    placement.maintenance.active.any (·.2 == address)

/-- Set the ranking at an address. -/
def setRanking (address : Nat) (ranking : Ranking) : Placement hashing :=
  { placement with heap := placement.heap.insert address ranking }

/-- Advance CLOCK by some entries. Recently used entries get a second chance first. -/
def evictSteps : Nat → Placement hashing → Option (Bool × Placement hashing)
  | 0, placement => some (false, placement)
  | steps + 1, placement => do
    let key ← placement.cache.next
    let address ← placement.cache.entries.lookup key
    let ranking ← placement.heap.lookup address
    let placement := { placement with cache := { placement.cache with hand := some key } }
    let placement := placement.setRanking address { ranking with referenced := false }
    if !placement.pinned address && !ranking.referenced then
      return (true, { placement with cache := { placement.cache with
        entries := placement.cache.entries.erase key } })
    else evictSteps steps placement

/-- Advance CLOCK by at most a number of entries. -/
def evictBounded (budget : Nat) : Option (Bool × Placement hashing) :=
  evictSteps (min budget (placement.cache.entries.size * 2)) placement

/-- Evict one entry that no request is using. -/
def evict : Option (Bool × Placement hashing) :=
  placement.evictBounded (placement.cache.entries.size * 2)

variable (membership : Membership hashing) (key : CacheKey)

/-- Build the entry of a slot from that of the previous membership, if it is complete. -/
def updatedEntry (slot : Nat) : Option (Option Ranking) :=
  match membership.delta with
  | none => some none
  | some delta =>
    match placement.cache.entries.lookup (delta.base, slot) with
    | none => some none
    | some address => do
      let ranking ← placement.heap.lookup address
      if ranking.cursor = delta.oldCount then
        ranking.updated scoring membership.members slot delta
      else some none

/-- The entry of the slot for the previous membership. -/
def oldEntry (slot : Nat) : Option (CacheKey × Nat) :=
  membership.delta.bind fun delta =>
    (placement.cache.entries.lookup (delta.base, slot)).map ((delta.base, slot), ·)

/-- Make room for a new entry: replace the old entry of the slot, or evict one. False if there
is no room. -/
def makeRoom (slot : Nat) : Option (Bool × Placement hashing) :=
  match placement.oldEntry membership slot with
  | some (key, address) =>
    if !placement.pinned address then
      some (true, { placement with cache := { placement.cache with
        entries := placement.cache.entries.erase key } })
    else if placement.capacity ≠ 0 ∧ placement.cache.entries.size = placement.capacity then
      some (false, placement)
    else some (true, placement)
  | none =>
    if placement.capacity ≠ 0 ∧ placement.cache.entries.size = placement.capacity then
      placement.evict
    else some (true, placement)

/-- Put a ranking into a new cell, and into the cache if there is one. -/
def install (ranking : Ranking) : Nat × Placement hashing :=
  let address := placement.nextAddress
  let placement := { placement with
    heap := placement.heap.insert address ranking
    nextAddress := address + 1 }
  (address, if placement.capacity = 0 then placement
    else { placement with cache := { placement.cache with
      entries := placement.cache.entries.insert key address }.noteAdded key.1 })

/-- Find the cache entry for a slot, or add one. Never evicts an entry that a request is
using. -/
def ranking (membership : Membership hashing) (slot : Nat) :
    Option (Except Error Nat × Placement hashing) :=
  let key := (membership.identity, slot)
  match placement.cache.entries.lookup key with
  | some address => do
    let ranking ← placement.heap.lookup address
    return (.ok address, placement.setRanking address { ranking with referenced := true })
  | none => do
    let updated ← placement.updatedEntry scoring membership slot
    let (room, placement) ← placement.makeRoom membership slot
    if room then
      let (address, placement) := placement.install key (updated.getD {})
      return (.ok address, placement)
    else return (.error .overloaded, placement)

/-- Whether every member has been scored. -/
def complete (ranking : Ranking) (membership : Membership hashing) : Bool :=
  ranking.cursor == membership.members.length

/-- Score more members into the ranking at an address. -/
def advanceAt (address : Nat) (membership : Membership hashing) (slot : Nat)
    (work : Option Nat) : Option (Ranking × Placement hashing) := do
  let ranking ← placement.heap.lookup address
  let ranking ← ranking.advance scoring membership.members slot work
  return (ranking, placement.setRanking address ranking)

/-! ### Requests -/

/-- The owners of a key. Does all the work before returning, and skips a cache that is full of
entries in use. -/
def rank (key : Bytes) :
    Option (List Nat × Placement hashing) := do
  let slot := scoring.slot key
  match ← placement.ranking scoring membership slot with
  | (.ok address, placement) =>
    let (ranking, placement) ← placement.advanceAt scoring address membership slot none
    return (ranking.candidates, placement)
  | (.error _, placement) =>
    let ranking ← Ranking.advance scoring membership.members slot {} none
    return (ranking.candidates, placement)

/-- Set the phase of a request. -/
def setPhase (caller : Nat) (phase : RankPhase) : Placement hashing :=
  { placement with calls := placement.calls.modify caller ({ · with phase }) }

/-- Score some members for a request that holds its ranking. -/
def pollHolding (caller : Nat) (call : RankCall hashing) (address : Nat) :
    Option (RankReply × Placement hashing) := do
  let slot := scoring.slot call.key
  let (ranking, placement) ←
    placement.advanceAt scoring address call.membership slot (some workQuantum)
  if complete ranking call.membership then
    return (.ready (.ok ranking.candidates), placement.setPhase caller .finished)
  else return (.pending, placement)

/-- Poll a request. A request that has returned must not be polled again. -/
def poll (caller : Nat) : Option (RankReply × Placement hashing) := do
  let call ← placement.calls.lookup caller
  match call.phase with
  | .created =>
    match ← placement.ranking scoring call.membership (scoring.slot call.key) with
    | (.error failure, placement) =>
      return (.ready (.error failure), placement.setPhase caller .finished)
    | (.ok address, placement) =>
      (placement.setPhase caller (.holding address)).pollHolding scoring caller call address
  | .holding address => placement.pollHolding scoring caller call address
  | .finished => none

/-- Drop a request. The work done so far is kept. -/
def drop (caller : Nat) : Placement hashing := placement.setPhase caller .finished

/-! ### Cached answers -/

/-- Read the ranking of a complete entry of the current membership. -/
def readCached {Answer : Type} (membership : Membership hashing) (key : Bytes)
    (read : Ranking → Answer) : Option (Option Answer) :=
  match placement.cache.entries.lookup (membership.identity, scoring.slot key) with
  | none => some none
  | some address => do
    let ranking ← placement.heap.lookup address
    return if complete ranking membership then some (read ranking) else none

/-- The cached owners of a key, if they are complete. -/
def cached (key : Bytes) : Option (Option (List Nat)) :=
  placement.readCached scoring membership key Ranking.candidates

/-- The cached members ranked just below the owners. -/
def demoted (key : Bytes) : Option (Option (List Nat)) :=
  placement.readCached scoring membership key Ranking.demoted

/-- Test the cached owners. -/
def isOwner (key : Bytes) (accepts : Nat → Bool) : Option Bool :=
  (placement.readCached scoring membership key (·.isOwner accepts)).map (·.getD false)

/-! ### Refresh and maintenance -/

/-- Make room for the result of a refresh, with a few visits of CLOCK. -/
def refreshRoom : Option (Bool × Placement hashing) :=
  if placement.capacity ≠ 0 ∧ placement.cache.entries.lookup key = none ∧
      placement.capacity ≤ placement.cache.entries.size then
    placement.evictBounded refreshVisits
  else some (true, placement)

/-- Put the result of a refresh in place: into the existing entry, or a new one. -/
def refreshInstall (ranking : Ranking) : Placement hashing :=
  if placement.capacity = 0 then placement
  else match placement.cache.entries.lookup key with
    | some address =>
      { placement.setRanking address ranking with cache := placement.cache.noteAdded key.1 }
    | none => (placement.install key ranking).2

/-- The ranking a refresh of this key goes on with. -/
def refreshWork : Ranking :=
  match placement.refresh with
  | some (other, ranking) => if other = key then ranking else {}
  | none => {}

/-- Refresh one resident key by some scores. -/
def refreshKey (key : Bytes) :
    Option (Option (List Nat) × Placement hashing) := do
  let cacheKey := (membership.identity, scoring.slot key)
  match ← placement.cached scoring membership key with
  | some candidates => return (some candidates, { placement with refresh := none })
  | none =>
    let ranking ← (placement.refreshWork cacheKey).advance scoring membership.members cacheKey.2
      (some workQuantum)
    let placement := { placement with refresh := some (cacheKey, ranking) }
    if !complete ranking membership then return (none, placement)
    let (room, placement) ← placement.refreshRoom cacheKey
    if !room then return (none, placement)
    let placement := { placement with refresh := none }
    return (some ranking.candidates, placement.refreshInstall cacheKey ranking)

/-- Start over for another membership, or rescan after an old entry was added. -/
def restartWork : Placement hashing :=
  let predecessor := membership.delta.map (·.base)
  if placement.maintenance.identity ≠ some membership.identity ∨
      placement.cache.predecessor ≠ predecessor then
    { placement with
      maintenance := { identity := some membership.identity }
      cache := { placement.cache with predecessor, predecessorDirty := false } }
  else if placement.cache.predecessorDirty then
    { placement with
      maintenance := { placement.maintenance with cursor := none, finished := false }
      cache := { placement.cache with predecessorDirty := false } }
  else placement

/-- Score more members of the slot that is being rescored. -/
def maintainActive (slot address : Nat) :
    Option (Maintenance × Placement hashing) := do
  let (ranking, placement) ←
    placement.advanceAt scoring address membership slot (some workQuantum)
  return (.progress, if complete ranking membership then
      { placement with maintenance := { placement.maintenance with active := none } }
    else placement)

/-- The next old entry to move. -/
def nextOld (base : Nat) : Option CacheKey :=
  (match placement.maintenance.cursor with
    | some key => placement.cache.after key
    | none => placement.cache.startingAt (base, 0)).filter (·.1 == base)

/-- Move one old entry. -/
def maintainEntry (key : CacheKey) (address : Nat) :
    Option (Maintenance × Placement hashing) := do
  if placement.pinned address then return (.blocked, placement)
  match ← placement.ranking scoring membership key.2 with
  | (.error _, placement) => return (.blocked, placement)
  | (.ok address, placement) =>
    let placement := { placement with cache := { placement.cache with
      entries := placement.cache.entries.erase key } }
    let ranking ← placement.heap.lookup address
    let active := if complete ranking membership then placement.maintenance.active
      else some (key.2, address)
    return (.progress, { placement with
      maintenance := { placement.maintenance with cursor := some key, active } })

/-- The scan is done. -/
def finishScan : Placement hashing :=
  { placement with maintenance := { placement.maintenance with finished := true } }

/-- Do one step of moving cached entries from the old membership to this one. -/
def maintain : Option (Maintenance × Placement hashing) :=
  let placement := placement.restartWork membership
  if placement.maintenance.finished then some (.idle, placement)
  else match placement.maintenance.active, membership.delta with
    | some (slot, address), _ => placement.maintainActive scoring membership slot address
    | none, none => some (.idle, placement.finishScan)
    | none, some delta =>
      match placement.nextOld delta.base with
      | none => some (.idle, placement.finishScan)
      | some key => do
        let address ← placement.cache.entries.lookup key
        placement.maintainEntry scoring membership key address

/-! ### Runs -/

/-- What happens at a placement, with the answer it gives. -/
inductive Event (hashing : Hashing)
  | rank (membership : Membership hashing) (key : Bytes) (owners : List Nat)
  | create (caller : Nat) (membership : Membership hashing) (key : Bytes)
  | poll (caller : Nat) (reply : RankReply)
  | drop (caller : Nat)
  | cached (membership : Membership hashing) (key : Bytes) (answer : Option (List Nat))
  | demoted (membership : Membership hashing) (key : Bytes) (answer : Option (List Nat))
  | isOwner (membership : Membership hashing) (key : Bytes) (accepts : Nat → Bool)
      (answer : Bool)
  | refresh (membership : Membership hashing) (key : Bytes) (answer : Option (List Nat))
  | maintain (membership : Membership hashing) (outcome : Maintenance)

/-- The steps of a placement. -/
inductive Performs : Placement hashing → Event hashing → Placement hashing → Prop
  | rank {before after membership key owners}
      (ranked : before.rank scoring membership key = some (owners, after)) :
    Performs before (.rank membership key owners) after
  | create {before caller membership key} (fresh : before.calls.lookup caller = none) :
    Performs before (.create caller membership key)
      { before with calls := before.calls.insert caller { membership, key } }
  | poll {before after caller reply} (polled : before.poll scoring caller = some (reply, after)) :
    Performs before (.poll caller reply) after
  | drop {before caller} :
    Performs before (.drop caller) (before.drop caller)
  | cached {before membership key answer}
      (read : before.cached scoring membership key = some answer) :
    Performs before (.cached membership key answer) before
  | demoted {before membership key answer}
      (read : before.demoted scoring membership key = some answer) :
    Performs before (.demoted membership key answer) before
  | isOwner {before membership key accepts answer}
      (read : before.isOwner scoring membership key accepts = some answer) :
    Performs before (.isOwner membership key accepts answer) before
  | refresh {before after membership key answer}
      (refreshed : before.refreshKey scoring membership key = some (answer, after)) :
    Performs before (.refresh membership key answer) after
  | maintain {before after membership outcome}
      (maintained : before.maintain scoring membership = some (outcome, after)) :
    Performs before (.maintain membership outcome) after

/-- A placement with nothing cached and no requests. -/
def new (capacity : Nat) : Placement hashing := { capacity }

end Placement

end Unbounded.Topology
