/-
This file models the route finder: a cache of search results in order of use, the
searches that run now, and the queue of calls that wait for a search slot. Calls
with equal keys share one search, whichever membership they were made with, and
each poll of a call that holds a search runs one of its steps. Dropping the last
call that holds a search cancels it.

A call is a future. It is created with its membership and query, polled any
number of times and possibly dropped, and any number of calls do this in any
order. A step that would panic has no successor.
-/

import Unbounded.PathRoutes
import Unbounded.Table
import Unbounded.Transition

namespace Unbounded.Topology

/-! ### The cache -/

/-- One cached result plus its links to older and newer entries. -/
structure CacheEntry where
  alternatives : List Route
  older : Option PathKey
  newer : Option PathKey
  bytes : Nat

/-- LRU cache of search results, limited by entry count and bytes. -/
structure PathCache where
  entries : Table PathKey CacheEntry := ∅
  oldest : Option PathKey := none
  newest : Option PathKey := none
  bytes : Nat := 0

namespace PathCache

variable (cache : PathCache)

/-- Change the entry of a key, which must be there. -/
def change (key : PathKey) (update : CacheEntry → CacheEntry) : Option PathCache :=
  (cache.entries.lookup key).map fun entry =>
    { cache with entries := cache.entries.insert key (update entry) }

/-- Link the newer entry of a place in the chain, or the end of the chain. -/
def linkNewer (older newer : Option PathKey) : Option PathCache :=
  match older with
  | some key => cache.change key ({ · with newer })
  | none => some { cache with oldest := newer }

/-- Link the older entry of a place in the chain, or the end of the chain. -/
def linkOlder (newer older : Option PathKey) : Option PathCache :=
  match newer with
  | some key => cache.change key ({ · with older })
  | none => some { cache with newest := older }

/-- Remove an entry from the chain by linking its neighbors together. -/
def unlink (older newer : Option PathKey) : Option PathCache := do
  let cache ← cache.linkNewer older newer
  cache.linkOlder newer older

/-- Put an entry that is in no chain at the newest end. -/
def touch (key : PathKey) : Option PathCache := do
  let newest := cache.newest
  let cache ← match newest with
    | some newest => cache.change newest ({ · with newer := some key })
    | none => some cache
  let cache ← cache.change key ({ · with older := newest, newer := none })
  return { cache with newest := some key }

/-- Return a cached result and mark it as most recently used. -/
def get (key : PathKey) : Option (Option (List Route) × PathCache) :=
  match cache.entries.lookup key with
  | none => some (none, cache)
  | some entry =>
    if entry.newer.isSome then do
      let cache ← cache.unlink entry.older entry.newer
      let cache ← cache.touch key
      return (some entry.alternatives, cache)
    else some (some entry.alternatives, cache)

/-- Drop the oldest entry. The cache must not be empty. -/
def evict : Option PathCache := do
  let key ← cache.oldest
  let entry ← cache.entries.lookup key
  let cache := { cache with oldest := none, entries := cache.entries.erase key }
  let cache ← cache.unlink none entry.newer
  return { cache with bytes := cache.bytes - entry.bytes }

/-- Evict while the cache is over its limits. Every eviction drops an entry, so one step more
than there are entries is enough. -/
def makeRoom (entries bytes : Nat) : Nat → PathCache → Option PathCache
  | 0, cache => some cache
  | steps + 1, cache =>
    if entries ≤ cache.entries.size ∨ bytes < cache.bytes then do
      let cache ← cache.evict
      makeRoom entries bytes steps cache
    else some cache

/-- Link the newest entry to a key that is added, or start the chain with it. -/
def linkLast (key : PathKey) : Option PathCache :=
  match cache.newest with
  | some newest => cache.change newest ({ · with newer := some key })
  | none => some { cache with oldest := some key }

/-- Add a result at the newest end. -/
def append (key : PathKey) (alternatives : List Route) (charge : Nat) : Option PathCache :=
  (cache.linkLast key).map fun linked =>
    { linked with
      newest := some key
      entries := linked.entries.insert key
        { alternatives, older := cache.newest, newer := none, bytes := charge }
      bytes := linked.bytes + charge }

/-- Add a result, evicting old entries to stay within limits. Skips duplicates and results too
big to fit at all. -/
def store (key : PathKey) (alternatives : List Route) (charge : Nat)
    (entries bytes : Nat) : Option PathCache :=
  if entries = 0 ∨ bytes = 0 ∨ (cache.entries.lookup key).isSome then some cache
  else if bytes < charge then some cache
  else do
    let cache ← makeRoom entries (bytes - charge) (cache.entries.size + 1) cache
    cache.append key alternatives charge

end PathCache

/-! ### Searches and calls -/

/-- A search that several calls may be waiting on. -/
inductive SharedSearch
  | working (search : MeshSearch)
  | done (result : Except Error (List Route))

/-- Where a call stands. -/
inductive Phase
  /-- Not polled yet. -/
  | created
  /-- Waiting for a search slot. -/
  | queued (key : PathKey) (ticket : Nat)
  /-- Holding a search, named by its address. -/
  | joined (key : PathKey) (address : Nat)
  /-- Returned, or dropped. -/
  | finished
  deriving DecidableEq

/-- One route call. -/
structure Call (hashing : Hashing) where
  membership : Membership hashing
  query : PathQuery
  phase : Phase := .created

/-- Calls waiting, in arrival order, for a free search slot, each with the waker it left. -/
structure SearchQueue where
  next : Nat := 0
  waiting : List (Nat × Option Nat) := []

/-- The route finder, and the calls made on it. -/
structure Paths (hashing : Hashing) where
  cacheEntries : Nat
  cacheBytes : Nat
  searchLimit : Nat
  queueLimit : Nat
  cache : PathCache := {}
  /-- The running searches by key, named by their address. -/
  inflight : Table PathKey Nat := ∅
  queue : SearchQueue := {}
  /-- The searches by address. -/
  searches : Table Nat SharedSearch := ∅
  nextAddress : Nat := 0
  calls : Table Nat (Call hashing) := ∅
  /-- The calls woken so far. -/
  wakes : List Nat := []

namespace Paths

variable {hashing : Hashing} (paths : Paths hashing)

/-- Wake the first waiting call, if any, so it can check for a slot. -/
def wakeQueueHead : Paths hashing :=
  match paths.queue.waiting with
  | (ticket, some waker) :: rest =>
    { paths with
      queue := { paths.queue with waiting := (ticket, none) :: rest }
      wakes := paths.wakes ++ [waker] }
  | _ => paths

/-- Join a running search for the key, or start one in a free slot. None when every slot is
busy. A free slot goes to the head of the queue, or to a new call only while nobody waits. -/
def admitSearch (membership : Membership hashing) (key : PathKey) (head : Bool) :
    Option (Nat × Paths hashing) :=
  match paths.inflight.lookup key with
  | some address => some (address, paths)
  | none =>
    if paths.searchLimit ≤ paths.inflight.size ∨ (!head ∧ paths.queue.waiting ≠ []) then none
    else
      let search := SharedSearch.working { pools := membership.pools, key }
      some (paths.nextAddress, { paths with
        inflight := paths.inflight.insert key paths.nextAddress
        searches := paths.searches.insert paths.nextAddress search
        nextAddress := paths.nextAddress + 1 })

variable (caller : Nat)

/-- Set the phase of a call. -/
def setPhase (phase : Phase) : Paths hashing :=
  { paths with calls := paths.calls.modify caller ({ · with phase }) }

/-- Leave the queue and wake the next call. -/
def dropTicket (ticket : Nat) : Paths hashing :=
  { paths with queue := { paths.queue with
      waiting := paths.queue.waiting.eraseP (·.1 == ticket) } }.wakeQueueHead

/-- The calls that hold a search. -/
def holders (address : Nat) : List Nat :=
  (paths.calls.entries.filter fun entry => match entry.2.phase with
    | .joined _ held => held == address
    | _ => false).map (·.1)

/-- Drop one call's hold on a search. The last one cancels it. -/
def dropAdmission (key : PathKey) (address : Nat) : Paths hashing :=
  if paths.inflight.lookup key = some address ∧ (paths.holders address).length = 1 then
    { paths with inflight := paths.inflight.erase key }.wakeQueueHead
  else paths

/-- Run one small step of a search. When done, cache the result and share it with every
waiter. -/
def pollSearch (key : PathKey) (address charge : Nat) :
    Option (Option (Except Error (List Route)) × Paths hashing) := do
  match ← paths.searches.lookup address with
  | .done result => return (some result, paths)
  | .working search =>
    let (finished, search) ← search.step
    if !finished then
      return (none, { paths with
        searches := paths.searches.insert address (.working search)
        wakes := paths.wakes ++ [caller] })
    let result := search.finish
    let cache ← match result with
      | .ok alternatives =>
        paths.cache.store key alternatives charge paths.cacheEntries paths.cacheBytes
      | .error _ => some paths.cache
    let paths := { paths with cache, inflight := paths.inflight.erase key }.wakeQueueHead
    return (some result, { paths with searches := paths.searches.insert address (.done result) })

/-! ### Calls -/

/-- The reply to a poll. -/
inductive Reply
  | pending
  | ready (result : Except Error Route)
  deriving DecidableEq

/-- Return from a call. -/
def finish (result : Except Error Route) : Reply × Paths hashing :=
  (.ready result, paths.setPhase caller .finished)

variable (call : Call hashing)

/-- Pick a route and return from a call. -/
def returnRoute (alternatives : List Route) : Option (Reply × Paths hashing) :=
  (selectRoute call.membership alternatives call.query.seed).map (paths.finish caller)

/-- Poll the search a call holds. -/
def pollJoined (key : PathKey) (address charge : Nat) :
    Option (Reply × Paths hashing) := do
  match ← paths.pollSearch caller key address charge with
  | (none, paths) => return (.pending, paths)
  | (some (.error failure), paths) =>
    return (paths.dropAdmission key address).finish caller (.error failure)
  | (some (.ok alternatives), paths) =>
    (paths.dropAdmission key address).returnRoute caller call alternatives

/-- Hold a search and poll it. -/
def join (key : PathKey) (address charge : Nat) : Option (Reply × Paths hashing) :=
  (paths.setPhase caller (.joined key address)).pollJoined caller call key address charge

/-- Poll a call that waits in the queue. -/
def pollQueued (key : PathKey) (ticket charge : Nat) :
    Option (Reply × Paths hashing) := do
  let (cached, cache) ← paths.cache.get key
  let paths := { paths with cache }
  match cached with
  | some alternatives => (paths.dropTicket ticket).returnRoute caller call alternatives
  | none =>
    let head := paths.queue.waiting.head?.any (·.1 == ticket)
    match paths.admitSearch call.membership key head with
    | some (address, paths) => (paths.dropTicket ticket).join caller call key address charge
    | none =>
      return (.pending, { paths with queue := { paths.queue with
        waiting := paths.queue.waiting.map fun entry =>
          if entry.1 = ticket then (ticket, some caller) else entry } })

/-- Wait in the queue, unless it is full. -/
def wait (key : PathKey) (charge : Nat) : Option (Reply × Paths hashing) :=
  if paths.queueLimit ≤ paths.queue.waiting.length then
    some (paths.finish caller (.error .overloaded))
  else
    let ticket := paths.queue.next
    let paths := { paths with
      queue := { next := ticket + 1, waiting := paths.queue.waiting ++ [(ticket, none)] } }
    (paths.setPhase caller (.queued key ticket)).pollQueued caller call key ticket charge

/-- The first poll of a call. -/
def pollCreated (charge : Nat) :
    Option (Reply × Paths hashing) := do
  match ← PathKey.new call.membership call.query with
  | .error failure => return paths.finish caller (.error failure)
  | .ok key =>
    if key.source = key.destination then return paths.finish caller (.ok [key.source])
    if key.links = 0 then return paths.finish caller (.error .unreachable)
    let (cached, cache) ← paths.cache.get key
    let paths := { paths with cache }
    match cached with
    | some alternatives => paths.returnRoute caller call alternatives
    | none =>
      match paths.admitSearch call.membership key false with
      | some (address, paths) => paths.join caller call key address charge
      | none => paths.wait caller call key charge

/-- Poll a call. A call that has returned must not be polled again. -/
def poll (charge : Nat) : Option (Reply × Paths hashing) := do
  let call ← paths.calls.lookup caller
  match call.phase with
  | .created => paths.pollCreated caller call charge
  | .queued key ticket => paths.pollQueued caller call key ticket charge
  | .joined key address => paths.pollJoined caller call key address charge
  | .finished => none

/-- Drop a call, which cancels it. -/
def drop : Option (Paths hashing) := do
  let call ← paths.calls.lookup caller
  let dropped := match call.phase with
    | .queued _ ticket => paths.dropTicket ticket
    | .joined key address => paths.dropAdmission key address
    | _ => paths
  return dropped.setPhase caller .finished

/-! ### Runs -/

/-- What happens at the route finder: a call is created, polled or dropped. A poll that caches a
result is charged the bytes the entry is estimated at. -/
inductive Event (hashing : Hashing)
  | create (caller : Nat) (membership : Membership hashing) (query : PathQuery)
  | poll (caller charge : Nat) (reply : Reply)
  | drop (caller : Nat)

/-- The steps of the route finder. -/
inductive Performs : Paths hashing → Event hashing → Paths hashing → Prop
  | create {before caller membership query} (fresh : before.calls.lookup caller = none) :
    Performs before (.create caller membership query)
      { before with calls := before.calls.insert caller { membership, query } }
  | poll {before after caller charge reply}
      (polled : before.poll caller charge = some (reply, after)) :
    Performs before (.poll caller charge reply) after
  | drop {before after caller} (dropped : before.drop caller = some after) :
    Performs before (.drop caller) after

/-- A route finder with nothing cached and no calls. -/
def withLimits (cacheEntries cacheBytes searchLimit queueLimit : Nat) : Paths hashing :=
  { cacheEntries, cacheBytes, searchLimit, queueLimit }

end Paths

end Unbounded.Topology
