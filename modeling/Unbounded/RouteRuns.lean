/-
This file proves that the routes a route finder returns are valid and as short as
promised, however calls interleave. A cached result and a running search belong
to a key, and the key names the topology it was searched on; memberships with one
topology identity have the same pools, so whoever reads the result reads what its
own search would have found.

The invariant says just that of every cache entry, every search and every call.
A poll of a live call keeps it and never panics, and what the call returns is an
answer of its own search, drawn by weight.
-/

import Unbounded.PathCacheOrder
import Unbounded.RouteAnswers

namespace Unbounded.Topology.Paths

open Table Option List Transition

variable {hashing : Hashing}

/-! ### The invariant -/

section Invariant

variable (allowed : Membership hashing → Prop)

/-- The result is that of a search for the key on an allowed membership. -/
def Settled (key : PathKey) (result : Except Error (List Route)) : Prop :=
  ∃ membership, allowed membership ∧ key.membership = membership.topologyIdentity ∧
    key.outcome membership.pools = some result

/-- A shared search is under way on an allowed membership, or has its result. -/
def Searching (key : PathKey) : SharedSearch → Prop
  | .working search => ∃ membership, allowed membership ∧
      key.membership = membership.topologyIdentity ∧ search.Reaches membership.pools key
  | .done result => Settled allowed key result

/-- The address names a search for the key. -/
def Holds (paths : Paths hashing) (key : PathKey) (address : Nat) : Prop :=
  ∃ search, paths.searches.lookup address = some search ∧ Searching allowed key search

/-- The key was made for the call, whose ends differ. -/
def KeyOf (call : Call hashing) (key : PathKey) : Prop :=
  PathKey.new call.membership call.query = some (.ok key) ∧ key.source ≠ key.destination

/-- A waiting call has its key, and a call that holds a search holds one for its key. -/
def Stands (paths : Paths hashing) (call : Call hashing) : Phase → Prop
  | .queued key _ => KeyOf call key
  | .joined key address => KeyOf call key ∧ paths.Holds allowed key address
  | _ => True

/-- The chain of the cache is whole, and every cached result is that of a search. -/
structure CacheSettled (cache : PathCache) : Prop where
  chain : ∃ chain, cache.Ordered chain
  settled : ∀ key held, cache.payload key = some held → Settled allowed key (.ok held.1)

/-- Results and searches belong to their keys, and calls hold what belongs to theirs. -/
structure Consistent (paths : Paths hashing) : Prop where
  cache : CacheSettled allowed paths.cache
  running : ∀ key address, paths.inflight.lookup key = some address →
    paths.Holds allowed key address
  fresh : ∀ address search, paths.searches.lookup address = some search →
    address < paths.nextAddress
  calls : ∀ caller call, paths.calls.lookup caller = some call →
    allowed call.membership ∧ paths.Stands allowed call call.phase

end Invariant

variable {allowed : Membership hashing → Prop} {paths : Paths hashing}

theorem Searching.key_eq {key : PathKey} {search : MeshSearch}
    (searching : Searching allowed key (.working search)) : search.key = key := by
  obtain ⟨_, -, -, reaches⟩ := searching
  exact reaches.key_eq

variable {after : Paths hashing} {call : Call hashing}

theorem Stands.mono {phase : Phase} (stands : paths.Stands allowed call phase)
    (holds : ∀ key address, paths.Holds allowed key address → after.Holds allowed key address) :
    after.Stands allowed call phase := by
  cases phase with
  | created | finished => trivial
  | queued => exact stands
  | joined key address => exact ⟨stands.1, holds key address stands.2⟩

theorem wakeQueueHead_eq (paths : Paths hashing) :
    ∃ queue wakes, paths.wakeQueueHead = { paths with queue, wakes } := by
  unfold wakeQueueHead
  split
  · exact ⟨_, _, rfl⟩
  · exact ⟨paths.queue, paths.wakes, rfl⟩

theorem dropTicket_eq (paths : Paths hashing) (ticket : Nat) :
    ∃ queue wakes, paths.dropTicket ticket = { paths with queue, wakes } := by
  obtain ⟨queue, wakes, same⟩ := wakeQueueHead_eq { paths with queue := { paths.queue with
    waiting := paths.queue.waiting.eraseP (·.1 == ticket) } }
  exact ⟨queue, wakes, same⟩

/-- The queue is full, and every slot is taken or someone waits. -/
def Full (paths : Paths hashing) : Prop :=
  paths.queueLimit ≤ paths.queue.waiting.length ∧
    (paths.searchLimit ≤ paths.inflight.size ∨ paths.queue.waiting ≠ [])

/-- A newcomer finds every slot taken or someone who waits. -/
theorem busy_of_admitSearch {membership : Membership hashing} {key : PathKey}
    (refused : paths.admitSearch membership key false = none) :
    paths.searchLimit ≤ paths.inflight.size ∨ paths.queue.waiting ≠ [] := by
  unfold admitSearch at refused
  split at refused
  · cases refused
  · split at refused
    · rename_i busy
      simpa using busy
    · cases refused

/-- Dropping a hold frees a slot at most. -/
theorem dropAdmission_eq (paths : Paths hashing) (key : PathKey) (address : Nat) :
    ∃ inflight queue wakes,
      paths.dropAdmission key address = { paths with inflight, queue, wakes } ∧
      ∀ other found, inflight.lookup other = some found →
        paths.inflight.lookup other = some found := by
  unfold dropAdmission
  split
  · obtain ⟨queue, wakes, same⟩ :=
      wakeQueueHead_eq { paths with inflight := paths.inflight.erase key }
    refine ⟨paths.inflight.erase key, queue, wakes, same, fun other found looked => ?_⟩
    obtain ⟨-, looked⟩ := lookup_erase_some.mp looked
    exact looked
  · exact ⟨paths.inflight, paths.queue, paths.wakes, rfl, fun _ _ looked => looked⟩

section Operations

variable (filled : ∀ membership, allowed membership → membership.Filled)
  (identified : ∀ membership other, allowed membership → allowed other →
    membership.topologyIdentity = other.topologyIdentity → membership.SameTopology other)
  {key : PathKey} {address caller : Nat} {result : Except Error (List Route)}

include identified in
/-- A result for the key of a call is that of its own search. -/
theorem Settled.own (settled : Settled allowed key result) (permitted : allowed call.membership)
    (named : key.membership = call.membership.topologyIdentity) :
    key.outcome call.membership.pools = some result := by
  obtain ⟨_, other, same, _⟩ := settled
  rwa [← (identified _ _ other permitted (same.symm.trans named)).pools_eq]

/-- A search moves on: whoever holds its address holds it for the same key. -/
theorem Holds.insert {search : MeshSearch} {next : SharedSearch}
    (working : paths.searches.lookup address = some (.working search))
    (known : search.key = key) (searching : Searching allowed key next)
    (searches : after.searches = paths.searches.insert address next) (key' : PathKey)
    (address' : Nat) (holds : paths.Holds allowed key' address') :
    after.Holds allowed key' address' := by
  obtain ⟨held, looked, held_searching⟩ := holds
  unfold Holds
  rw [searches]
  by_cases same : address' = address
  · subst same
    obtain rfl := mem_unique working looked
    obtain rfl := held_searching.key_eq.symm.trans known
    exact ⟨next, AList.lookup_insert _, searching⟩
  · exact ⟨held, by rw [lookup_insert_eq, if_neg same, looked], held_searching⟩

/-- The steps the search at an address still needs. -/
def left (paths : Paths hashing) (address : Nat) : Nat :=
  match paths.searches.lookup address with
  | some (.working search) => search.left
  | _ => 0

/-- A result is stored for its key. -/
theorem CacheSettled.store {cache : PathCache} (settled : CacheSettled allowed cache)
    (found : Settled allowed key result) (charge entries bytes : Nat) :
    ∃ next, (match result with
      | .ok alternatives => cache.store key alternatives charge entries bytes
      | .error _ => some cache) = some next ∧ CacheSettled allowed next := by
  cases result with
  | error => exact ⟨cache, rfl, settled⟩
  | ok alternatives =>
    obtain ⟨chain, ordered⟩ := settled.chain
    obtain ⟨next, stored, effect, adds⟩ := ordered.store key alternatives charge entries bytes
    have chained : ∃ other, next.Ordered other := by
      rcases effect with ⟨-, rfl⟩ | ⟨-, _, ordered, -⟩
      · exact ⟨chain, ordered⟩
      · exact ⟨_, ordered⟩
    refine ⟨next, stored, chained, fun key' held looked => ?_⟩
    rcases adds key' held looked with old | ⟨rfl, same⟩
    · exact settled.settled key' held old
    · exact same ▸ found

/-! ### Calls -/

/-- The call of a caller is in some phase. -/
def HasCall (paths : Paths hashing) (caller : Nat) (call : Call hashing) : Prop :=
  ∃ phase, paths.calls.lookup caller = some { call with phase }

theorem HasCall.setPhase (has : paths.HasCall caller call) (phase : Phase) :
    (paths.setPhase caller phase).calls.lookup caller = some { call with phase } := by
  obtain ⟨_, looked⟩ := has
  rw [Paths.setPhase, lookup_modify, if_pos rfl, looked]
  rfl

/-- The limits on the searches that run and on the calls that wait. -/
def limits (paths : Paths hashing) : Nat × Nat := (paths.searchLimit, paths.queueLimit)

/-- The limits are as they were, and every call is still there, in some phase. -/
structure Frame (paths after : Paths hashing) : Prop where
  limits : after.limits = paths.limits
  calls : ∀ caller call, paths.HasCall caller call → after.HasCall caller call

theorem Frame.of_calls (limits : after.limits = paths.limits) (calls : after.calls = paths.calls) :
    paths.Frame after where
  limits := limits
  calls _ _ has := by rwa [HasCall, calls]

theorem Frame.trans {middle : Paths hashing} (first : paths.Frame middle)
    (second : middle.Frame after) : paths.Frame after where
  limits := second.limits.trans first.limits
  calls _ _ has := second.calls _ _ (first.calls _ _ has)

theorem frame_setPhase (paths : Paths hashing) (caller : Nat) (phase : Phase) :
    paths.Frame (paths.setPhase caller phase) where
  limits := rfl
  calls other call has := by
    by_cases same : other = caller
    · exact ⟨phase, same ▸ has.setPhase phase⟩
    · rwa [HasCall, Paths.setPhase, lookup_modify, if_neg same]

theorem frame_dropTicket (paths : Paths hashing) (ticket : Nat) :
    paths.Frame (paths.dropTicket ticket) := by
  obtain ⟨_, _, same⟩ := paths.dropTicket_eq ticket
  rw [same]
  exact .of_calls rfl rfl

theorem frame_dropAdmission (paths : Paths hashing) (key : PathKey) (address : Nat) :
    paths.Frame (paths.dropAdmission key address) := by
  obtain ⟨_, _, _, same, -⟩ := paths.dropAdmission_eq key address
  rw [same]
  exact .of_calls rfl rfl

/-- What a poll of a call leaves: the limits and the calls as they are, and a result of its own
search if it returns, or a refusal when the route finder is full. -/
structure Polled (allowed : Membership hashing → Prop) (full : Prop) (paths : Paths hashing)
    (call : Call hashing) (reply : Reply) (after : Paths hashing) : Prop where
  consistent : after.Consistent allowed
  frame : paths.Frame after
  returned : ∀ result, reply = .ready result → call.membership.Returns call.query full result

variable {full : Prop}

theorem Polled.framed {middle : Paths hashing} {reply : Reply}
    (polled : middle.Polled allowed full call reply after) (frame : paths.Frame middle) :
    paths.Polled allowed full call reply after :=
  { polled with frame := frame.trans polled.frame }

/-! ### Steps that keep the invariant -/

variable (consistent : paths.Consistent allowed)

include consistent

/-- A change that keeps the calls, and every search for its key. -/
theorem Consistent.change (cache : CacheSettled allowed after.cache)
    (holds : ∀ key address, paths.Holds allowed key address → after.Holds allowed key address)
    (running : ∀ key address, after.inflight.lookup key = some address →
      paths.inflight.lookup key = some address ∨ after.Holds allowed key address)
    (fresh : ∀ address search, after.searches.lookup address = some search →
      address < after.nextAddress)
    (calls : after.calls = paths.calls) : after.Consistent allowed where
  cache := cache
  running key address found := by
    rcases running key address found with old | new
    · exact holds key address (consistent.running key address old)
    · exact new
  fresh := fresh
  calls caller call found := by
    rw [calls] at found
    obtain ⟨permitted, stands⟩ := consistent.calls caller call found
    exact ⟨permitted, stands.mono holds⟩

theorem Consistent.queue (queue : SearchQueue)
    (wakes : List Nat) : ({ paths with queue, wakes } : Paths hashing).Consistent allowed :=
  consistent.change consistent.cache (fun _ _ holds => holds) (fun _ _ found => .inl found)
    consistent.fresh rfl

theorem Consistent.dropTicket (ticket : Nat) : (paths.dropTicket ticket).Consistent allowed := by
  obtain ⟨queue, wakes, same⟩ := paths.dropTicket_eq ticket
  rw [same]
  exact consistent.queue queue wakes

theorem Consistent.dropAdmission (key : PathKey)
    (address : Nat) : (paths.dropAdmission key address).Consistent allowed := by
  obtain ⟨_, _, _, same, smaller⟩ := paths.dropAdmission_eq key address
  rw [same]
  exact consistent.change consistent.cache (fun _ _ holds => holds)
    (fun other found looked => .inl (smaller other found looked)) consistent.fresh rfl

/-- A call moves to a phase it may be in. -/
theorem Consistent.setPhase {caller : Nat} {phase : Phase}
    (stands : ∀ call, paths.calls.lookup caller = some call → paths.Stands allowed call phase) :
    (paths.setPhase caller phase).Consistent allowed where
  __ := consistent
  calls other call found := by
    simp only [Paths.setPhase, lookup_modify] at found
    split at found
    · obtain ⟨old, looked, rfl⟩ := map_eq_some_iff.mp found
      refine ⟨(consistent.calls caller old looked).1, ?_⟩
      -- the key of a phase depends on the membership and the query only
      have moved := stands old looked
      cases phase <;> exact moved
    · exact consistent.calls other call found

/-- Reading the cache gives results of searches only. -/
theorem Consistent.get (key : PathKey) :
    ∃ cached cache, paths.cache.get key = some (cached, cache) ∧
      ({ paths with cache } : Paths hashing).Consistent allowed ∧
      ∀ alternatives, cached = some alternatives → Settled allowed key (.ok alternatives) := by
  obtain ⟨chain, ordered⟩ := consistent.cache.chain
  obtain ⟨cache, looked, ordered, same⟩ := ordered.get key
  refine ⟨_, cache, looked, ?_, fun alternatives found => ?_⟩
  · refine consistent.change ⟨⟨_, ordered⟩, fun key' held found => ?_⟩
      (fun _ _ holds => holds) (fun _ _ found => .inl found) consistent.fresh rfl
    rw [same.payload] at found
    exact consistent.cache.settled key' held found
  · obtain ⟨held, payload, rfl⟩ := map_eq_some_iff.mp found
    exact consistent.cache.settled key held payload

/-- Joining or starting a search for the key of a call gives one for that key. -/
theorem Consistent.admitSearch {membership : Membership hashing} (permitted : allowed membership)
    (named : key.membership = membership.topologyIdentity) {head : Bool}
    (joined : paths.admitSearch membership key head = some (address, after)) :
    after.Consistent allowed ∧ after.Holds allowed key address ∧ paths.Frame after := by
  unfold Paths.admitSearch at joined
  split at joined
  · rename_i running found
    cases joined
    exact ⟨consistent, consistent.running key _ found, .of_calls rfl rfl⟩
  · split at joined
    · cases joined
    cases joined
    have started : Searching allowed key (.working { pools := membership.pools, key }) :=
      ⟨membership, permitted, named, .start⟩
    have holds : ∀ key' address', paths.Holds allowed key' address' → ({ paths with
            inflight := paths.inflight.insert key paths.nextAddress
            searches := paths.searches.insert paths.nextAddress
              (.working { pools := membership.pools, key })
            nextAddress := paths.nextAddress + 1 } : Paths hashing).Holds allowed key'
          address' := by
      rintro _ _ ⟨search, looked, searching⟩
      refine ⟨search, ?_, searching⟩
      rw [lookup_insert_eq, if_neg (consistent.fresh _ _ looked).ne, looked]
    refine ⟨consistent.change consistent.cache holds ?_ ?_ rfl, ?_, .of_calls rfl rfl⟩
    · exact forall_insert (fun _ _ => .inl) (.inr ⟨_, AList.lookup_insert _, started⟩)
    · exact forall_insert
        (fun _ _ looked => Nat.lt_succ_of_lt (consistent.fresh _ _ looked)) (Nat.lt_succ_self _)
    · exact ⟨_, AList.lookup_insert _, started⟩

/-- Dropping a call keeps the others. -/
theorem Consistent.drop (dropped : paths.drop caller = some after) :
    after.Consistent allowed ∧ paths.Frame after := by
  unfold Paths.drop at dropped
  rw [bind_eq_bind, bind_eq_some_iff] at dropped
  obtain ⟨call, looked, dropped⟩ := dropped
  obtain ⟨middle, kept, frame, rfl⟩ : ∃ middle : Paths hashing, middle.Consistent allowed ∧
      paths.Frame middle ∧ after = middle.setPhase caller .finished := by
    cases dropped
    cases call.phase with
    | created | finished => exact ⟨paths, consistent, .of_calls rfl rfl, rfl⟩
    | queued key ticket =>
      exact ⟨_, consistent.dropTicket ticket, paths.frame_dropTicket ticket, rfl⟩
    | joined key address =>
      exact ⟨_, consistent.dropAdmission key address, paths.frame_dropAdmission key address, rfl⟩
  exact ⟨kept.setPhase fun _ _ => trivial, frame.trans (middle.frame_setPhase caller _)⟩

theorem Consistent.stay : paths.Polled allowed full call .pending paths where
  consistent := consistent
  frame := .of_calls rfl rfl
  returned _ none := nomatch none

/-- A call returns. -/
theorem Consistent.finish {result : Except Error Route}
    (returns : call.membership.Returns call.query full result) :
    paths.Polled allowed full call (paths.finish caller result).1
      (paths.finish caller result).2 where
  consistent := consistent.setPhase fun _ _ => trivial
  frame := paths.frame_setPhase caller .finished
  returned other same := by
    cases same
    exact returns

include filled

/-- A poll of a held search moves it on or gives its result. -/
theorem Consistent.pollSearch (holds : paths.Holds allowed key address) (caller charge : Nat) :
    ∃ result after, paths.pollSearch caller key address charge = some (result, after) ∧
      after.Consistent allowed ∧ after.limits = paths.limits ∧ after.calls = paths.calls ∧
      (∀ outcome, result = some outcome → Settled allowed key outcome) ∧
      (result = none → after.Holds allowed key address ∧
        0 < after.left address ∧ after.left address < paths.left address) := by
  obtain ⟨search, looked, searching⟩ := holds
  cases search with
  | done result =>
    refine ⟨some result, paths, ?_, consistent, rfl, rfl, fun outcome same => ?_, nofun⟩
    · unfold Paths.pollSearch
      rw [looked]
      rfl
    · exact some.inj same ▸ searching
  | working =>
    have known := searching.key_eq
    have fresh (next : SharedSearch) : ∀ other found,
        (paths.searches.insert address next).lookup other = some found →
          other < paths.nextAddress :=
      forall_insert consistent.fresh (consistent.fresh _ _ looked)
    obtain ⟨membership, permitted, named, reaches⟩ := searching
    obtain ⟨finished, next, stepped, going, done⟩ := reaches.step (filled _ permitted)
    cases finished with
    | false =>
      obtain ⟨reaches, less, positive⟩ := going rfl
      have searching : Searching allowed key (.working next) :=
        ⟨membership, permitted, named, reaches⟩
      refine ⟨none, { paths with
        searches := paths.searches.insert address (.working next)
        wakes := paths.wakes ++ [caller] }, ?_, ?_, rfl, rfl, nofun, fun _ => ?_⟩
      · unfold Paths.pollSearch
        simp only [looked, stepped, bind_eq_bind, bind_some]
        rfl
      · exact consistent.change consistent.cache (.insert looked known searching rfl)
          (fun _ _ found => .inl found) (fresh _) rfl
      · refine ⟨⟨_, AList.lookup_insert _, searching⟩, ?_⟩
        simp only [left, AList.lookup_insert, looked]
        exact ⟨positive, less⟩
    | true =>
      have settled : Settled allowed key next.finish := ⟨membership, permitted, named, done rfl⟩
      obtain ⟨cache, stored, cacheSettled⟩ :=
        consistent.cache.store settled charge paths.cacheEntries paths.cacheBytes
      obtain ⟨queue, wakes, woken⟩ := wakeQueueHead_eq { paths with
        cache, inflight := paths.inflight.erase key }
      refine ⟨some next.finish, { paths with
        cache, inflight := paths.inflight.erase key, queue, wakes
        searches := paths.searches.insert address (.done next.finish) }, ?_, ?_, rfl, rfl,
        fun outcome same => some.inj same ▸ settled, nofun⟩
      · unfold Paths.pollSearch
        simp only [looked, stepped, bind_eq_bind, bind_some]
        cases outcome : next.finish with
        | error =>
          rw [outcome] at stored
          cases stored
          simp only [woken]
          rfl
        | ok =>
          rw [outcome] at stored
          simp only [stored, bind_some, woken]
          rfl
      · have searching : Searching allowed key (.done next.finish) := settled
        refine consistent.change cacheSettled (.insert looked known searching rfl)
          (fun key' address' found => ?_) (fresh _) rfl
        obtain ⟨-, found⟩ := lookup_erase_some.mp found
        exact .inl found

/-- A call draws one of the routes its search found. -/
theorem Consistent.returnRoute (permitted : allowed call.membership) (keyed : KeyOf call key)
    {alternatives : List Route}
    (searched : key.outcome call.membership.pools = some (.ok alternatives)) :
    ∃ result after, paths.returnRoute caller call alternatives = some (.ready result, after) ∧
      paths.Polled allowed full call (.ready result) after := by
  obtain ⟨result, drawn, -⟩ := Membership.drawn_spec (filled _ permitted) keyed.2 searched
    call.query.seed
  refine ⟨result, (paths.finish caller result).2, ?_,
    consistent.finish (.drawn keyed.1 keyed.2 searched drawn)⟩
  unfold Paths.returnRoute
  rw [drawn]
  rfl

include identified

/-- A call polls the search it holds: it returns, or the search needs one step less. -/
theorem Consistent.pollJoined (permitted : allowed call.membership) (keyed : KeyOf call key)
    (holds : paths.Holds allowed key address)
    (looked : paths.calls.lookup caller = some { call with phase := .joined key address })
    (charge : Nat) :
    ∃ reply after, paths.pollJoined caller call key address charge = some (reply, after) ∧
      paths.Polled allowed full call reply after ∧
      (reply = .pending →
        after.calls.lookup caller = some { call with phase := .joined key address } ∧
        0 < after.left address ∧ after.left address < paths.left address) := by
  have named := (Membership.madeFrom_of_new (filled _ permitted) keyed.1).topology
  obtain ⟨result, middle, polled, middleConsistent, limits, calls, settled, going⟩ :=
    consistent.pollSearch filled holds caller charge
  have frame : paths.Frame middle := .of_calls limits calls
  unfold Paths.pollJoined
  rw [polled]
  cases result with
  | none =>
    obtain ⟨-, positive, less⟩ := going rfl
    exact ⟨.pending, middle, rfl, middleConsistent.stay.framed frame,
      fun _ => ⟨calls ▸ looked, positive, less⟩⟩
  | some outcome =>
    have searched := (settled outcome rfl).own identified permitted named
    have frame := frame.trans (middle.frame_dropAdmission key address)
    have dropped := middleConsistent.dropAdmission key address
    cases outcome with
    | error =>
      exact ⟨_, _, rfl, (dropped.finish (.failed keyed.1 keyed.2 searched)).framed frame, nofun⟩
    | ok =>
      obtain ⟨_, after, returned, finished⟩ := dropped.returnRoute filled permitted keyed searched
      exact ⟨_, after, returned, finished.framed frame, nofun⟩

section

variable (has : paths.HasCall caller call) (permitted : allowed call.membership)

include has permitted

/-- A call joins a search and polls it. -/
theorem Consistent.join
    (keyed : KeyOf call key) (holds : paths.Holds allowed key address) (charge : Nat) :
    ∃ reply after, paths.join caller call key address charge = some (reply, after) ∧
      paths.Polled allowed full call reply after := by
  have consistent : (paths.setPhase caller (.joined key address)).Consistent allowed := by
    refine consistent.setPhase fun found looked => ?_
    obtain ⟨_, same⟩ := has
    obtain rfl := mem_unique looked same
    exact ⟨keyed, holds⟩
  obtain ⟨reply, after, polled, left, -⟩ := consistent.pollJoined filled identified permitted keyed
    holds (has.setPhase _) charge
  exact ⟨reply, after, polled, left.framed (paths.frame_setPhase caller _)⟩

/-- A call that waits in the queue is polled. -/
theorem Consistent.pollQueued (keyed : KeyOf call key) (ticket charge : Nat) :
    ∃ reply after, paths.pollQueued caller call key ticket charge = some (reply, after) ∧
      paths.Polled allowed full call reply after := by
  have named := (Membership.madeFrom_of_new (filled _ permitted) keyed.1).topology
  obtain ⟨cached, cache, looked, read, settled⟩ := consistent.get key
  unfold Paths.pollQueued
  rw [looked]
  simp only [bind_eq_bind, bind_some]
  cases cached with
  | some alternatives =>
    have searched := (settled alternatives rfl).own identified permitted named
    obtain ⟨queue, wakes, dropped⟩ := dropTicket_eq { paths with cache } ticket
    rw [dropped]
    obtain ⟨_, after, returned, finished⟩ :=
      (read.queue queue wakes).returnRoute filled permitted keyed searched
    exact ⟨_, after, returned, finished.framed (.of_calls rfl rfl)⟩
  | none =>
    generalize ({ paths with cache } : Paths hashing).queue.waiting.head?.any (·.1 == ticket) = head
    cases joined : ({ paths with cache } : Paths hashing).admitSearch call.membership key head with
    | none => exact ⟨_, _, rfl, (read.queue _ _).stay.framed (.of_calls rfl rfl)⟩
    | some entry =>
      obtain ⟨address, middle⟩ := entry
      obtain ⟨middleConsistent, holds, admitted⟩ := read.admitSearch permitted named joined
      have admitted : paths.Frame middle := ⟨admitted.limits, admitted.calls⟩
      have frame := admitted.trans (middle.frame_dropTicket ticket)
      have holds : (middle.dropTicket ticket).Holds allowed key address := by
        obtain ⟨_, _, dropped⟩ := middle.dropTicket_eq ticket
        rw [dropped]
        exact holds
      obtain ⟨reply, after, polled, left⟩ := (middleConsistent.dropTicket ticket).join filled
        identified (frame.calls _ _ has) permitted keyed holds charge
      exact ⟨reply, after, polled, left.framed frame⟩

/-- A call that finds no slot is refused or waits. -/
theorem Consistent.wait (keyed : KeyOf call key)
    (busy : paths.queueLimit ≤ paths.queue.waiting.length → full) (charge : Nat) :
    ∃ reply after, paths.wait caller call key charge = some (reply, after) ∧
      paths.Polled allowed full call reply after := by
  unfold Paths.wait
  split
  · exact ⟨_, _, rfl, consistent.finish (.overloaded (busy ‹_›))⟩
  generalize paths.queue.next = ticket
  have queued := consistent.queue
    ⟨ticket + 1, paths.queue.waiting ++ [(ticket, none)]⟩ paths.wakes
  dsimp only
  generalize queuedEq : ({ paths with
    queue := ⟨ticket + 1, paths.queue.waiting ++ [(ticket, none)]⟩ } : Paths hashing) = waiting
  have frame : paths.Frame waiting := queuedEq ▸ .of_calls rfl rfl
  have has := frame.calls _ _ has
  have phased : (waiting.setPhase caller (.queued key ticket)).Consistent allowed := by
    refine (queuedEq ▸ queued).setPhase fun found looked => ?_
    obtain ⟨_, same⟩ := has
    obtain rfl := mem_unique looked same
    exact keyed
  obtain ⟨reply, after, polled, left⟩ := phased.pollQueued filled identified
    ⟨_, has.setPhase _⟩ permitted keyed ticket charge
  exact ⟨reply, after, polled, left.framed (frame.trans (waiting.frame_setPhase caller _))⟩

/-- The first poll of a call. -/
theorem Consistent.pollCreated (charge : Nat) :
    ∃ reply after, paths.pollCreated caller call charge = some (reply, after) ∧
      paths.Polled allowed paths.Full call reply after := by
  obtain ⟨answer, checked, -⟩ := PathKey.new_spec (filled _ permitted) call.query
  unfold Paths.pollCreated
  rw [checked]
  simp only [bind_eq_bind, bind_some]
  cases answer with
  | error => exact ⟨_, _, rfl, consistent.finish (.invalid checked)⟩
  | ok key =>
    by_cases same : key.source = key.destination
    · simp only [if_pos same]
      exact ⟨_, _, rfl, consistent.finish (.same checked same)⟩
    by_cases hopless : key.links = 0
    · simp only [if_neg same, if_pos hopless]
      exact ⟨_, _, rfl, consistent.finish (.hopless checked same hopless)⟩
    simp only [if_neg same, if_neg hopless]
    have named := (Membership.madeFrom_of_new (filled _ permitted) checked).topology
    obtain ⟨cached, cache, looked, read, settled⟩ := consistent.get key
    simp only [looked, bind_some]
    cases cached with
    | some alternatives =>
      have searched := (settled alternatives rfl).own identified permitted named
      obtain ⟨_, after, returned, finished⟩ :=
        read.returnRoute filled permitted ⟨checked, same⟩ searched
      exact ⟨_, after, returned, finished.framed (.of_calls rfl rfl)⟩
    | none =>
      cases joined : ({ paths with cache } : Paths hashing).admitSearch call.membership key
        false with
      | none =>
        have taken := busy_of_admitSearch joined
        have busy (long : paths.queueLimit ≤ paths.queue.waiting.length) : paths.Full :=
          ⟨long, taken⟩
        obtain ⟨reply, after, polled, left⟩ := read.wait filled identified has permitted
          ⟨checked, same⟩ busy charge
        exact ⟨reply, after, polled, left.framed (.of_calls rfl rfl)⟩
      | some entry =>
        obtain ⟨_, middle⟩ := entry
        obtain ⟨middleConsistent, holds, admitted⟩ := read.admitSearch permitted named joined
        have frame : paths.Frame middle := ⟨admitted.limits, admitted.calls⟩
        obtain ⟨reply, after, polled, left⟩ := middleConsistent.join filled identified
          (frame.calls _ _ has) permitted ⟨checked, same⟩ holds charge
        exact ⟨reply, after, polled, left.framed frame⟩

end

/-- A live call can be polled. -/
theorem Consistent.poll (looked : paths.calls.lookup caller = some call)
    (live : call.phase ≠ .finished) (charge : Nat) :
    ∃ reply after, paths.poll caller charge = some (reply, after) ∧
      paths.Polled allowed paths.Full call reply after ∧
      ∀ key address, call.phase = .joined key address → reply = .pending →
        after.calls.lookup caller = some call ∧
        0 < after.left address ∧ after.left address < paths.left address := by
  obtain ⟨permitted, stands⟩ := consistent.calls caller call looked
  obtain ⟨_, _, phase⟩ := call
  unfold Paths.poll
  rw [looked]
  cases phase with
  | created =>
    obtain ⟨reply, after, polled, left⟩ :=
      consistent.pollCreated filled identified ⟨_, looked⟩ permitted charge
    exact ⟨reply, after, polled, left, nofun⟩
  | queued key ticket =>
    obtain ⟨reply, after, polled, left⟩ :=
      consistent.pollQueued filled identified ⟨_, looked⟩ permitted stands ticket charge
    exact ⟨reply, after, polled, left, nofun⟩
  | joined =>
    obtain ⟨reply, after, polled, left, going⟩ := consistent.pollJoined filled identified permitted
      stands.1 stands.2 looked charge
    refine ⟨reply, after, polled, left, fun key' address' same pending => ?_⟩
    cases same
    exact going pending
  | finished => exact absurd rfl live

/-- A call that holds a search returns once it has polled as often as the search needs. -/
theorem Consistent.returns
    (looked : paths.calls.lookup caller = some call) (joined : call.phase = .joined key address)
    (charge : Nat) :
    ∃ count result after, count ≤ paths.left address - 1 ∧
      Run Performs paths (List.replicate count (.poll caller charge .pending) ++
        [.poll caller charge (.ready result)]) after := by
  -- every pending poll lowers what the search still needs
  induction needed : paths.left address using Nat.strong_induction_on generalizing paths with
  | _ needed ih =>
    have live : call.phase ≠ .finished := by
      rw [joined]
      exact Phase.noConfusion
    obtain ⟨reply, after, polled, left, going⟩ :=
      consistent.poll filled identified looked live charge
    cases reply with
    | ready result => exact ⟨0, result, after, Nat.zero_le _, Run.single (.poll polled)⟩
    | pending =>
      obtain ⟨looked, _, less⟩ := going key address joined rfl
      obtain ⟨count, result, last, _, run⟩ := ih (after.left address)
        (needed ▸ less) left.consistent looked rfl
      refine ⟨count + 1, result, last, by omega, ?_⟩
      exact Run.cons (.poll polled) run

/-! ### Runs -/

omit consistent

omit filled identified in
theorem live_of_poll {charge : Nat} {reply : Reply}
    (polled : paths.poll caller charge = some (reply, after)) :
    ∃ call, paths.calls.lookup caller = some call ∧ call.phase ≠ .finished := by
  unfold Paths.poll at polled
  rw [bind_eq_bind, bind_eq_some_iff] at polled
  obtain ⟨call, looked, polled⟩ := polled
  refine ⟨call, looked, fun finished => ?_⟩
  rw [finished] at polled
  cases polled

/-- What an event leaves: the call it makes is there, and the result it returns is one of the
call's own search. -/
def Accounts (paths : Paths hashing) : Event hashing → Prop
  | .create caller membership query => paths.HasCall caller { membership, query }
  | .poll caller _ (.ready result) =>
    ∃ call full, paths.HasCall caller call ∧ call.membership.Returns call.query full result
  | _ => True

/-- The limits are as given, and the route finder accounts for the events so far. -/
structure Recorded (allowed : Membership hashing → Prop) (limits : Nat × Nat)
    (events : List (Event hashing)) (paths : Paths hashing) : Prop where
  consistent : paths.Consistent allowed
  limits : paths.limits = limits
  accounts : ∀ event ∈ events, paths.Accounts event

variable {events : List (Event hashing)} {event : Event hashing} {limits : Nat × Nat}

omit filled identified in
theorem Frame.accounts (frame : paths.Frame after) (accounts : paths.Accounts event) :
    after.Accounts event := by
  match event with
  | .create .. => exact frame.calls _ _ accounts
  | .poll _ _ (.ready _) =>
    obtain ⟨call, full, has, returns⟩ := accounts
    exact ⟨call, full, frame.calls _ _ has, returns⟩
  | .poll _ _ .pending | .drop _ => trivial

omit filled identified in
/-- A step that keeps the calls and accounts for its event. -/
theorem Recorded.next (recorded : Recorded allowed limits events paths)
    (consistent : after.Consistent allowed) (frame : paths.Frame after)
    (own : after.Accounts event) : Recorded allowed limits (events ++ [event]) after where
  consistent := consistent
  limits := frame.limits.trans recorded.limits
  accounts := forall_mem_append.mpr
    ⟨fun event member => frame.accounts (recorded.accounts event member),
      forall_mem_singleton.mpr own⟩

/-- Every step keeps the record. -/
theorem Recorded.step (recorded : Recorded allowed limits events paths)
    (performs : Performs paths event after)
    (permitted : ∀ caller membership query, event = .create caller membership query →
      allowed membership) : Recorded allowed limits (events ++ [event]) after := by
  have consistent := recorded.consistent
  cases performs with
  | @create caller _ _ fresh =>
    refine recorded.next { consistent with calls := ?_ } ⟨rfl, fun caller' call has => ?_⟩
      ⟨.created, AList.lookup_insert _⟩
    · exact forall_insert consistent.calls ⟨permitted _ _ _ rfl, trivial⟩
    · obtain ⟨phase, looked⟩ := has
      have other : caller' ≠ caller := by
        rintro rfl
        cases fresh.symm.trans looked
      exact ⟨phase, by rw [lookup_insert_eq, if_neg other, looked]⟩
  | @poll _ caller charge _ polled =>
    obtain ⟨call, looked, live⟩ := live_of_poll polled
    obtain ⟨reply, _, polled', left, -⟩ := consistent.poll filled identified looked live charge
    obtain ⟨rfl, rfl⟩ := Prod.mk.inj (mem_unique polled' polled)
    refine recorded.next left.consistent left.frame ?_
    cases reply with
    | pending => trivial
    | ready result =>
      exact ⟨call, _, left.frame.calls _ _ ⟨call.phase, looked⟩, left.returned result rfl⟩
  | drop dropped =>
    obtain ⟨kept, frame⟩ := consistent.drop dropped
    exact recorded.next kept frame trivial

end Operations

theorem left_le (paths : Paths hashing) (address : Nat) : paths.left address ≤ 3 := by
  unfold left
  split
  · exact Nat.sub_le 3 _
  · exact Nat.zero_le 3

/-- A route finder with nothing in it is consistent. -/
theorem recorded_withLimits (allowed : Membership hashing → Prop)
    (cacheEntries cacheBytes searchLimit queueLimit : Nat) :
    Recorded allowed (searchLimit, queueLimit) []
      (withLimits cacheEntries cacheBytes searchLimit queueLimit) where
  consistent := {
    cache := ⟨⟨[], PathCache.ordered_empty⟩, nofun⟩
    running := nofun
    fresh := nofun
    calls := nofun }
  limits := rfl
  accounts := nofun

variable {events : List (Event hashing)} {limits : Nat × Nat}

theorem Recorded.returns (recorded : Recorded allowed limits events paths)
    {caller charge : Nat} {membership : Membership hashing} {query : PathQuery}
    {result : Except Error Route} (created : .create caller membership query ∈ events)
    (polled : .poll caller charge (.ready result) ∈ events) :
    ∃ full, membership.Returns query full result := by
  obtain ⟨_, looked⟩ := recorded.accounts _ created
  obtain ⟨_, full, ⟨_, looked'⟩, returns⟩ := recorded.accounts _ polled
  obtain ⟨sameMembership, sameQuery, -⟩ := Call.mk.inj (mem_unique looked' looked)
  rw [sameMembership, sameQuery] at returns
  exact ⟨full, returns⟩

/-- The memberships of the calls of a run have no empty column, and two of them with one topology
identity have one topology. -/
structure Sound (events : List (Event hashing)) : Prop where
  filled : ∀ caller membership query, .create caller membership query ∈ events → membership.Filled
  identified : ∀ caller membership query caller' membership' query',
    .create caller membership query ∈ events → .create caller' membership' query' ∈ events →
    membership.topologyIdentity = membership'.topologyIdentity → membership.SameTopology membership'

/-- The memberships a call was made with. -/
def Used (events : List (Event hashing)) (membership : Membership hashing) : Prop :=
  ∃ caller query, .create caller membership query ∈ events

theorem Sound.used_filled (sound : Sound events)
    (membership : Membership hashing) (used : Used events membership) : membership.Filled := by
  obtain ⟨caller, query, member⟩ := used
  exact sound.filled caller membership query member

theorem Sound.used_identified (sound : Sound events) (membership other : Membership hashing)
    (used : Used events membership) (usedOther : Used events other)
    (same : membership.topologyIdentity = other.topologyIdentity) :
    membership.SameTopology other := by
  obtain ⟨_, _, member⟩ := used
  obtain ⟨_, _, member'⟩ := usedOther
  exact sound.identified _ _ _ _ _ _ member member' same

/-- The calls of a run are recorded at its end. -/
theorem Sound.recorded {cacheEntries cacheBytes searchLimit queueLimit : Nat} (sound : Sound events)
    (run : Run Performs (withLimits cacheEntries cacheBytes searchLimit queueLimit) events paths) :
    Recorded (Used events) (searchLimit, queueLimit) events paths := by
  have guarded := run.guarded
    (fun event => ∀ caller membership query, event = .create caller membership query →
      Used events membership)
    fun event member caller membership query same => ⟨caller, query, same ▸ member⟩
  exact guarded.history (Recorded (Used events) (searchLimit, queueLimit))
    (fun _ _ _ _ recorded step =>
      recorded.step sound.used_filled sound.used_identified step.1 step.2)
    (recorded_withLimits _ _ _ _ _)

/-- How calls fare at a route finder with these limits: no poll of a live call panics, a call that
holds a search returns by its third poll, and a call is refused only when the queue is full and
every slot is taken or someone waits. -/
structure Serves (searchLimit queueLimit : Nat) (paths : Paths hashing) : Prop where
  polls : ∀ caller call charge, paths.calls.lookup caller = some call →
    call.phase ≠ .finished → (paths.poll caller charge).isSome
  returns : ∀ caller call charge, paths.calls.lookup caller = some call →
    (∃ key address, call.phase = .joined key address) → ∃ count ≤ 2, ∃ result after,
      Run Performs paths (List.replicate count (.poll caller charge .pending) ++
        [.poll caller charge (.ready result)]) after
  refuses : ∀ caller charge after,
    paths.poll caller charge = some (.ready (.error .overloaded), after) →
      queueLimit ≤ paths.queue.waiting.length ∧
        (searchLimit ≤ paths.inflight.size ∨ paths.queue.waiting ≠ [])

theorem Sound.serves {cacheEntries cacheBytes searchLimit queueLimit : Nat} (sound : Sound events)
    (run : Run Performs (withLimits cacheEntries cacheBytes searchLimit queueLimit) events paths) :
    paths.Serves searchLimit queueLimit := by
  have recorded := sound.recorded run
  have poll {caller : Nat} {call : Call hashing} (looked : paths.calls.lookup caller = some call) :=
    recorded.consistent.poll sound.used_filled sound.used_identified looked
  refine ⟨fun caller call charge looked live => ?_, fun caller call charge looked => ?_,
    fun caller charge after refused => ?_⟩
  · obtain ⟨_, after, polled, -⟩ := poll looked live charge
    rw [polled]
    rfl
  · rintro ⟨_, address, joined⟩
    obtain ⟨count, result, after, _, run⟩ :=
      recorded.consistent.returns sound.used_filled sound.used_identified looked joined charge
    have most := paths.left_le address
    exact ⟨count, by omega, result, after, run⟩
  · obtain ⟨call, looked, live⟩ := live_of_poll refused
    obtain ⟨_, _, polled, left, -⟩ := poll looked live charge
    cases mem_unique polled refused
    have allowed := (recorded.consistent.calls caller call looked).1
    have full := (left.returned _ rfl).busy (sound.used_filled _ allowed) rfl
    obtain ⟨rfl, rfl⟩ := Prod.mk.inj recorded.limits
    exact full

/-- Routes are valid and as short as promised, whatever the interleaving of calls that share a
route finder. A returned route keeps the constraints of its query and has at most three hops.
Where a valid query has a route of at most two hops between members of one pool, the call
returns a shortest route, unless it is refused or the draw gives up. -/
theorem routes_valid_and_short {cacheEntries cacheBytes searchLimit queueLimit : Nat}
    {events : List (Event hashing)} {paths : Paths hashing}
    (run : Run Performs (withLimits cacheEntries cacheBytes searchLimit queueLimit) events paths)
    (sound : Sound events) :
    (∀ caller membership query charge result, .create caller membership query ∈ events →
      .poll caller charge (.ready result) ∈ events →
      (∀ route, result = .ok route → query.Meets membership route ∧ route.length ≤ 4) ∧
      (query.Valid membership.members.length →
        (∃ pool ∈ membership.pools, pool.contains query.source = true ∧
          pool.contains query.destination = true) →
        (∃ other, query.Meets membership other ∧ other.length ≤ 3) →
        result = .error .overloaded ∨ result = .error .samplingExhausted ∨
          ∃ route, result = .ok route ∧
            ∀ rival, query.Meets membership rival → route.length ≤ rival.length)) ∧
    paths.Serves searchLimit queueLimit := by
  refine ⟨fun caller membership query charge result created polled => ?_, sound.serves run⟩
  obtain ⟨_, returns⟩ := (sound.recorded run).returns created polled
  have filled := sound.filled caller membership query created
  refine ⟨fun route found => returns.valid filled found, fun valid shared => ?_⟩
  rintro ⟨_, meets, short⟩
  exact returns.shortest filled valid shared meets short

/-- The replies to so many polls of the first call, and the route finder after them. -/
def replies (paths : Paths hashing) : Nat → Option (List Reply × Paths hashing)
  | 0 => some ([], paths)
  | count + 1 => (paths.poll 0 1).bind fun polled =>
    (polled.2.replies count).map fun rest => (polled.1 :: rest.1, rest.2)

theorem replies_run {count : Nat} {replied : List Reply × Paths hashing}
    (replies : paths.replies count = some replied) :
    Run Performs paths (replied.1.map (.poll 0 1)) replied.2 := by
  induction count generalizing paths replied with
  | zero =>
    cases replies
    exact .nil paths
  | succ _ ih =>
    obtain ⟨⟨_, _⟩, polled, further⟩ := bind_eq_some_iff.mp replies
    obtain ⟨_, replied, rfl⟩ := map_eq_some_iff.mp further
    exact .cons (.poll polled) (ih replied)

/-- The events of one call and its replies. -/
def oneCall (membership : Membership hashing) (query : PathQuery) (replies : List Reply) :
    List (Event hashing) :=
  .create 0 membership query :: replies.map (.poll 0 1)

/-- One call that gets these replies is a run. -/
theorem exists_oneCall (searchLimit queueLimit : Nat) (membership : Membership hashing)
    (query : PathQuery) (replies : List Reply)
    (replied : (({ cacheEntries := 8, cacheBytes := 4096, searchLimit, queueLimit
                   calls := AList.insert 0 { membership, query } ∅ } : Paths hashing).replies
      replies.length).any (·.1 = replies)) :
    ∃ last, Run Performs (withLimits 8 4096 searchLimit queueLimit)
      (oneCall membership query replies) last := by
  rw [Option.any_eq_true] at replied
  obtain ⟨⟨_, last⟩, replied, same⟩ := replied
  obtain rfl := of_decide_eq_true same
  exact ⟨last, .cons (.create rfl) (replies_run replied)⟩

theorem sound_oneCall {membership : Membership hashing} (filled : membership.Filled)
    (query : PathQuery) (replies : List Reply) : Sound (oneCall membership query replies) := by
  have made {caller : Nat} {other : Membership hashing} {asked : PathQuery}
      (member : .create caller other asked ∈ oneCall membership query replies) :
      other = membership := by
    rcases mem_cons.mp member with same | polled
    · cases same
      rfl
    · obtain ⟨_, -, none⟩ := mem_map.mp polled
      cases none
  exact {
    filled := fun _ _ _ member => made member ▸ filled
    identified := fun _ _ _ _ _ _ member member' _ => made member ▸ made member' ▸ ⟨rfl, rfl⟩ }

/-- Two members in one pool. -/
def pairMembership : Membership Membership.spreadHashing where
  members := Membership.spreadMembers.take 2
  pools := [⟨[], 0, Mesh.build Membership.spreadHashing
    (seatsAt (Membership.spreadMembers.take 2) [0, 1])⟩]
  since := [0, 0]
  ordered := by decide +kernel
  built := by
    intro pool member
    rw [List.mem_singleton] at member
    subst member
    exact ⟨[0, 1], by decide, by decide, rfl⟩

theorem pairMembership_filled : pairMembership.Filled := by
  intro _ member
  rw [show pairMembership.pools = [_] from rfl, mem_singleton] at member
  subst member
  decide +kernel

/-- A route from the first to the second member. -/
def pairQuery : PathQuery := { source := 0, destination := 1, links := 2, links_lt := by decide }

theorem pairQuery_meets : pairQuery.Meets pairMembership [0, 1] := by
  obtain ⟨_, found, linked⟩ := Membership.isNeighbor_spec pairMembership_filled 0 1
  have neighbor : pairMembership.isNeighbor 0 1 = some true := by decide +kernel
  have edge := linked.mp (mem_unique found neighbor)
  exact ⟨rfl, rfl, by decide, isChain_pair.mpr edge, by decide, nofun, nofun⟩

theorem pairQuery_shared : ∃ pool ∈ pairMembership.pools,
    pool.contains pairQuery.source = true ∧ pool.contains pairQuery.destination = true :=
  ⟨_, mem_singleton.mpr rfl, by decide +kernel, by decide +kernel⟩

theorem routes_valid_and_short_pair :
    ∃ (events : List (Event Membership.spreadHashing)) (paths : Paths Membership.spreadHashing),
      Run Performs (withLimits 8 4096 1 0) events paths ∧
      .create 0 pairMembership pairQuery ∈ events ∧
      .poll 0 1 (.ready (.ok [0, 1])) ∈ events ∧
      ∀ rival, pairQuery.Meets pairMembership rival → 2 ≤ rival.length := by
  obtain ⟨last, run⟩ := exists_oneCall 1 0 pairMembership pairQuery
    [.pending, .pending, .ready (.ok [0, 1])] (by decide +kernel)
  obtain ⟨returned, -⟩ := routes_valid_and_short run (sound_oneCall pairMembership_filled _ _)
  obtain ⟨-, shortest⟩ := returned 0 pairMembership pairQuery 1 (.ok [0, 1]) mem_cons_self
    (by simp [oneCall])
  refine ⟨_, last, run, mem_cons_self, by simp [oneCall], ?_⟩
  rcases shortest (by decide +kernel) pairQuery_shared ⟨_, pairQuery_meets, by decide⟩ with
    none | none | ⟨_, same, least⟩
  · cases none
  · cases none
  · cases same
    exact least

/-- A call that finds no slot and no place in the queue is refused, though the members are
linked. -/
theorem pair_refused :
    ∃ (events : List (Event Membership.spreadHashing)) (paths : Paths Membership.spreadHashing),
      Run Performs (withLimits 8 4096 0 0) events paths ∧
      pairMembership.Filled ∧ pairQuery.Valid pairMembership.members.length ∧
      (∃ pool ∈ pairMembership.pools, pool.contains pairQuery.source = true ∧
        pool.contains pairQuery.destination = true) ∧
      pairQuery.Meets pairMembership [0, 1] ∧
      .create 0 pairMembership pairQuery ∈ events ∧
      .poll 0 1 (.ready (.error .overloaded)) ∈ events := by
  obtain ⟨last, run⟩ := exists_oneCall 0 0 pairMembership pairQuery
    [.ready (.error .overloaded)] (by decide +kernel)
  exact ⟨_, last, run, pairMembership_filled, by decide +kernel, pairQuery_shared, pairQuery_meets,
    mem_cons_self, mem_cons_of_mem _ mem_cons_self⟩

end Unbounded.Topology.Paths
