/-
This file models the token-based subscription scheduler. A contract is admitted
request by request; an admitted request selects one page, and the fanout shares
the page's acquisition with every other receiver that selects it. Methods that
take a time first expire deadlines at that time.

Memberships, receivers, versions, payloads and errors are parameters. Sequence
numbers and budgets are natural numbers with the saturation of their machine
types; the replay window is the 64-bit map it is.
-/

import Unbounded.Fanout
import Unbounded.Intervals
import Unbounded.ListUpdate

namespace Unbounded.Subscriptions

open ListUpdate

/-- Largest number of selections one subscription may request in flight. The replay window is a
64-bit map, so no contract may grant more than this. -/
def maxSubscriptionFlights : Nat := 64

/-- Bytes of one page. -/
def pageBytes : Nat := 16 * 1024 * 1024

/-- Bytes the requester debits per selection when it issues a request. -/
def reserveBytes : Nat := pageBytes + 16

/-- Retained spent contracts outlive their deadline by the signature freshness window, so
replaying one cannot renew it. -/
def retainMs : Nat := 60000

/-- Contracts are pruned at most this often. -/
def pruneIntervalMs : Nat := 100

/-- Most intervals one demand may carry. -/
def maxDemandIntervals : Nat := 64

structure SubscriptionLimits where
  maxEntries : Nat
  /-- Node-wide total, not a per-subscription allocation. -/
  maxCompletedIntervals : Nat
  maxInflight : Nat
  /-- Includes unconsumed completed/error responses, not just active waiters. -/
  maxPending : Nat
  /-- Most selections one subscription may have pending at once. -/
  maxFlightsPerSubscription : Nat
  deriving DecidableEq, Repr

/-- Every limit is nonzero and the per-subscription flights fit the others. -/
def SubscriptionLimits.valid (limits : SubscriptionLimits) : Bool :=
  limits.maxEntries != 0 && limits.maxCompletedIntervals != 0 && limits.maxInflight != 0 &&
    limits.maxPending != 0 && limits.maxFlightsPerSubscription != 0 &&
    decide (limits.maxFlightsPerSubscription ≤ limits.maxInflight) &&
    decide (limits.maxFlightsPerSubscription ≤ limits.maxPending) &&
    decide (limits.maxFlightsPerSubscription ≤ maxSubscriptionFlights)

/-- Canonical intervals of 64-bit page numbers, never an expanded list of pages. -/
structure Demand where
  intervals : List Interval
  canonical : canonical intervals maxDemandIntervals = true
  bounded : ∀ interval ∈ intervals, interval.stop < 2 ^ 64

/-- Failures the scheduler itself produces. -/
inductive Kind
  | deadlineExceeded
  | cancelled
  | overloaded
  | unavailable
  | staleFlight
  | replay
  | invalidRequest
  deriving DecidableEq, Repr

/-- An error type that can carry the scheduler's own failures. -/
class OfKind (Error : Type*) where
  ofKind : Kind → Error

instance : OfKind Kind := ⟨id⟩

/-- One request on a contract. -/
structure Contract (Version : Type*) where
  id : BitVec 128
  version : Version
  demand : Demand
  sequence : Nat
  pageBudget : Nat
  byteBudget : Nat
  flights : Option Nat

structure EntryKey (Membership Receiver : Type*) where
  membership : Membership
  receiver : Receiver
  id : BitVec 128
  deriving DecidableEq, Repr

/-- An admitted request: its contract and sequence. -/
abbrev Admitted (Membership Receiver : Type*) := EntryKey Membership Receiver × Nat

/-- Grant reported relative to the selecting request. -/
structure Grant (Membership Receiver Version : Type*) where
  subscriptionId : BitVec 128
  sequence : Nat
  version : Version
  page : Nat
  membership : Membership
  receiver : Receiver
  deadline : Nat
  remainingPageBudget : Nat
  remainingByteBudget : Nat
  flights : Option Nat

/-- A completed response: the shared payload and this receiver's grant. -/
structure Delivery (Payload Membership Receiver Version : Type*) where
  payload : Payload
  grant : Grant Membership Receiver Version

/-- A committed selection. `work` is the acquisition owner token when this request leads the
flight; followers only wait. -/
structure Selected (Version : Type*) where
  waiter : Nat
  work : Option Nat
  version : Version
  page : Nat

/-- Result of polling a response slot. -/
inductive Polled (Result : Type*)
  | ready (result : Result)
  | pending

structure Reservation where
  sequence : Nat
  demand : Demand
  pageBudget : Nat
  byteBudget : Nat
  deadline : Nat
  flights : Option Nat
  coveredPage : Bool
  coveredBytes : Nat

structure Flight where
  token : Nat
  page : Nat
  reservation : Reservation
  settled : Bool

/-- What a newer ceiling granted on account of a request that has not arrived. -/
structure Pledge where
  sequence : Nat
  page : Bool
  bytes : Nat

structure Entry (Version : Type*) where
  subscription : Contract Version
  deadline : Nat
  completed : List Interval
  flights : Nat
  seen : BitVec 64
  admitted : List Reservation
  pending : List Flight
  pledges : List Pledge

structure FlightKey (Membership Version : Type*) where
  membership : Membership
  version : Version
  page : Nat
  deriving DecidableEq, Repr

/-! ### One contract -/

namespace Entry

variable {Version : Type*}

def reservation (subscription : Contract Version) (deadline : Nat) : Reservation where
  sequence := subscription.sequence
  demand := subscription.demand
  pageBudget := subscription.pageBudget
  byteBudget := subscription.byteBudget
  deadline := deadline
  flights := subscription.flights
  coveredPage := false
  coveredBytes := 0

variable (entry : Entry Version)

/-- Forfeit what newer ceilings granted on account of a request that will not consume it. -/
def forfeit (page : Bool) (bytes : Nat) : Entry Version :=
  { entry with subscription := { entry.subscription with
      pageBudget :=
        if page then entry.subscription.pageBudget - 1 else entry.subscription.pageBudget
      byteBudget := entry.subscription.byteBudget - bytes } }

/-- Whether a sequence this far below the highest was admitted. -/
def hasSeen (offset : Nat) : Bool := entry.seen &&& (1#64 <<< offset) != 0#64

/-- Lower sequences in the window that have not arrived. -/
def unseen (sequence : Nat) : List Nat :=
  (((List.range (min entry.flights 64)).drop 1).filter fun offset =>
    decide (offset ≤ sequence) && !entry.hasSeen offset).map (sequence - ·)

/-- The share of one request in a widening. -/
def coverAdmitted (sequence : Nat) : Nat → Nat → List Reservation → List Reservation × Nat × Nat
  | pages, bytes, [] => ([], pages, bytes)
  | pages, bytes, request :: rest =>
    if request.sequence ≠ sequence then
      let (covered, left) :=
        coverAdmitted sequence (pages - 1) (bytes - min bytes reserveBytes) rest
      ({ request with
          coveredPage := decide (0 < pages)
          coveredBytes := min bytes reserveBytes } :: covered, left)
    else
      let (covered, left) := coverAdmitted sequence pages bytes rest
      (request :: covered, left)

def coverPending : Nat → List Flight → List Flight × Nat
  | bytes, [] => ([], bytes)
  | bytes, flight :: rest =>
    if flight.settled then
      let (covered, left) := coverPending bytes rest
      (flight :: covered, left)
    else
      let (covered, left) := coverPending (bytes - min bytes reserveBytes) rest
      ({ flight with reservation := { flight.reservation with
          coveredBytes := min bytes reserveBytes } } :: covered, left)

def coverUnseen : Nat → Nat → List Nat → List Pledge
  | _, _, [] => []
  | pages, bytes, sequence :: rest =>
    ⟨sequence, decide (0 < pages), min bytes reserveBytes⟩ ::
      coverUnseen (pages - 1) (bytes - min bytes reserveBytes) rest

/-- Apply a newer request's ceilings. They already exclude every earlier outstanding request's
reservation, so widen them by at most those reservations (never above current budgets) and record
the widening; each outstanding request must charge or forfeit its share. -/
def applyCeiling (sequence pageBudget byteBudget : Nat) : Entry Version :=
  let unseen := entry.unseen sequence
  let pages := (entry.admitted.filter fun request => decide (request.sequence ≠ sequence)).length +
    unseen.length
  let flights := pages + (entry.pending.filter fun flight => !flight.settled).length
  let newPages := min entry.subscription.pageBudget
    (Word.saturatingAdd 32 pageBudget (min pages (2 ^ 32 - 1)))
  let newBytes := min entry.subscription.byteBudget
    (Word.saturatingAdd 64 byteBudget (Word.saturatingMul 64 reserveBytes flights))
  let (admitted, pagesLeft, bytesLeft) :=
    coverAdmitted sequence (newPages - pageBudget) (newBytes - byteBudget) entry.admitted
  let (pending, bytesLeft) := coverPending bytesLeft entry.pending
  { entry with
    subscription := { entry.subscription with pageBudget := newPages, byteBudget := newBytes }
    admitted
    pending
    pledges := coverUnseen pagesLeft bytesLeft unseen }

/-- Hand a late request the allowance pledged for its sequence, if any. -/
def takePledge (reservation : Reservation) : Entry Version × Reservation :=
  match locate (fun pledge => decide (pledge.sequence = reservation.sequence)) entry.pledges with
  | none => (entry, reservation)
  | some (index, pledge) =>
    ({ entry with pledges := swapRemove entry.pledges index },
      { reservation with coveredPage := pledge.page, coveredBytes := pledge.bytes })

/-- The admitted request with the lowest sequence. -/
def oldest : Option (Nat × Reservation) :=
  locate (fun request => entry.admitted.all fun other =>
    decide (request.sequence ≤ other.sequence)) entry.admitted

/-- Take a flight slot for `reservation`, superseding the oldest admitted request if every slot
is taken. A request older than every admitted one would be superseded at once, so it is a
replay. -/
def reserve (reservation : Reservation) : Except Kind (Entry Version) :=
  if entry.flights ≤ entry.pending.length then .error .overloaded
  else if entry.flights ≤ entry.admitted.length + entry.pending.length then
    match entry.oldest with
    -- A free flight slot is admitted, so that there is an oldest request.
    | none => .error .overloaded
    | some (index, superseded) =>
      if reservation.sequence < superseded.sequence then .error .replay
      else
        let entry := ({ entry with admitted := swapRemove entry.admitted index }).forfeit
          superseded.coveredPage superseded.coveredBytes
        .ok { entry with admitted := entry.admitted ++ [reservation] }
  else .ok { entry with admitted := entry.admitted ++ [reservation] }

/-- Admit a request below the highest sequence: within the window, and never before. -/
def admitLate [DecidableEq Version] (entry : Entry Version) (subscription : Contract Version)
    (deadline : Nat) : Except Kind (Entry Version) :=
  let offset := entry.subscription.sequence - subscription.sequence
  if entry.flights ≤ offset || entry.hasSeen offset then .error .replay
  else if entry.subscription.version ≠ subscription.version then .error .invalidRequest
  else
    match entry.reserve (reservation subscription deadline) with
    | .error kind => .error kind
    | .ok entry =>
      -- The request just reserved is funded from the allowance a newer ceiling excluded for it.
      let (entry, funded) := ({ entry with admitted := entry.admitted.dropLast }).takePledge
        (entry.admitted.getLastD (reservation subscription deadline))
      .ok { entry with
        admitted := entry.admitted ++ [funded]
        seen := entry.seen ||| (1#64 <<< offset) }

/-- Admit a request above the highest sequence. The entry is returned also on failure. -/
def admitNewer [DecidableEq Version] (entry : Entry Version) (subscription : Contract Version)
    (deadline granted : Nat) : Entry Version × Except Kind Unit :=
  if entry.subscription.version ≠ subscription.version ∨
      (entry.flights = 1 ∧ (entry.deadline < deadline ∨
        entry.subscription.pageBudget < subscription.pageBudget ∨
        entry.subscription.byteBudget < subscription.byteBudget)) then
    (entry, .error .invalidRequest)
  else
    let flights := min entry.flights granted
    if flights ≤ entry.pending.length then (entry, .error .overloaded)
    else
      match ({ entry with flights }).reserve (reservation subscription deadline) with
      | .error kind => ({ entry with flights }, .error kind)
      | .ok reserved =>
        let shift := subscription.sequence - entry.subscription.sequence
        let entry := ({ reserved with
          seen := (if 64 ≤ shift then 0#64 else reserved.seen <<< shift) ||| 1#64
          deadline := min reserved.deadline deadline }).applyCeiling subscription.sequence
            subscription.pageBudget subscription.byteBudget
        ({ entry with subscription := { subscription with
            pageBudget := entry.subscription.pageBudget
            byteBudget := entry.subscription.byteBudget } }, .ok ())

/-- A contract's first request. -/
def fresh (subscription : Contract Version) (deadline granted : Nat) : Entry Version where
  subscription := subscription
  deadline := deadline
  completed := []
  flights := granted
  seen := 1#64
  admitted := [reservation subscription deadline]
  pending := []
  pledges := []

/-- Drop an admitted request that will not select. -/
def release (sequence : Nat) : Entry Version :=
  match locate (fun request => decide (request.sequence = sequence)) entry.admitted with
  | none => entry
  | some (index, request) =>
    ({ entry with admitted := swapRemove entry.admitted index }).forfeit
      request.coveredPage request.coveredBytes

/-- Commit a selection of an admitted request. -/
def commit (sequence token page : Nat) (reservation : Reservation) : Entry Version :=
  { entry with
    subscription := { entry.subscription with pageBudget := entry.subscription.pageBudget - 1 }
    admitted := entry.admitted.filter fun request => decide (request.sequence ≠ sequence)
    -- The page debit consumes any page a newer ceiling granted.
    pending := entry.pending ++ [⟨token, page, { reservation with coveredPage := false }, false⟩] }

/-- The response slot of a flight is gone. -/
def drop (token : Nat) : Entry Version :=
  match locate (fun flight => decide (flight.token = token)) entry.pending with
  | none => entry
  | some (index, flight) =>
    let entry := { entry with pending := swapRemove entry.pending index }
    if flight.settled then entry else entry.forfeit false flight.reservation.coveredBytes

end Entry

/-! ### The scheduler -/

/-- The contracts by their key. -/
abbrev Entries (Membership Receiver Version : Type*) :=
  Table (EntryKey Membership Receiver) (Entry Version)

abbrev Slots (Membership Receiver Version Payload Error : Type*) :=
  Fanout (FlightKey Membership Version) (EntryKey Membership Receiver)
    (Delivery Payload Membership Receiver Version) Error Nat

/-- The subscription scheduler. -/
structure Scheduler (Membership Receiver Version Payload Error : Type*) where
  limits : SubscriptionLimits
  now : Nat
  nextPrune : Nat
  entries : Entries Membership Receiver Version
  fanout : Slots Membership Receiver Version Payload Error
  completedIntervals : Nat
  wake : List Nat

namespace Scheduler

variable {Membership Receiver Version Payload Error : Type*} [DecidableEq Membership]
  [DecidableEq Receiver] [DecidableEq Version] [OfKind Error]

/-- A scheduler without contracts; `none` when the limits are invalid. -/
def new (limits : SubscriptionLimits) :
    Option (Scheduler Membership Receiver Version Payload Error) :=
  if limits.valid then some ⟨limits, 0, 0, ∅, {}, 0, []⟩ else none

variable (scheduler : Scheduler Membership Receiver Version Payload Error)

/-- Tokens of parked response slots made ready since the last call. -/
def takeWakes : Scheduler Membership Receiver Version Payload Error × List Nat :=
  ({ scheduler with wake := [] }, scheduler.wake)

/-- Drop the contracts whose retention is over. -/
def prune : Scheduler Membership Receiver Version Payload Error :=
  let spent (entry : Entry Version) : Bool :=
    decide (Word.saturatingAdd 64 entry.deadline retainMs ≤ scheduler.now)
  { scheduler with
    nextPrune := Word.saturatingAdd 64 scheduler.now pruneIntervalMs
    entries := scheduler.entries.retain fun _ entry => !spent entry
    completedIntervals := scheduler.completedIntervals -
      ((scheduler.entries.values.filter spent).map (·.completed.length)).sum }

/-- Advance time: expire response slots and prune spent contracts. Time never moves backward. -/
def advance (nowMs : Nat) : Scheduler Membership Receiver Version Payload Error :=
  let now := max scheduler.now nowMs
  let (fanout, woken) := scheduler.fanout.expire now (OfKind.ofKind .deadlineExceeded)
  let scheduler := { scheduler with now, fanout, wake := scheduler.wake ++ woken }
  if now < scheduler.nextPrune then scheduler else scheduler.prune

/-- Admit one request on its contract. -/
def admitAt (subscription : Contract Version) (membership : Membership) (receiver : Receiver)
    (deadline : Nat) :
    Scheduler Membership Receiver Version Payload Error ×
      Except Kind (Admitted Membership Receiver) :=
  let granted := min (subscription.flights.getD 1) scheduler.limits.maxFlightsPerSubscription
  if deadline ≤ scheduler.now then (scheduler, .error .deadlineExceeded)
  else
    let key : EntryKey Membership Receiver := ⟨membership, receiver, subscription.id⟩
    match scheduler.entries.lookup key with
    | some entry =>
      if subscription.sequence ≤ entry.subscription.sequence then
        match entry.admitLate subscription deadline with
        | .error kind => (scheduler, .error kind)
        | .ok entry =>
          ({ scheduler with entries := scheduler.entries.insert key entry },
            .ok (key, subscription.sequence))
      else
        let (entry, result) := entry.admitNewer subscription deadline granted
        ({ scheduler with entries := scheduler.entries.insert key entry },
          result.map fun _ => (key, subscription.sequence))
    | none =>
      -- A node aggregates all local readers under one logical contract. Changing IDs cannot
      -- obtain duplicate transfers or extra votes.
      if scheduler.entries.entries.any fun other =>
          decide (other.1.membership = membership) && decide (other.1.receiver = receiver) &&
            decide (other.2.subscription.version = subscription.version) &&
            decide (scheduler.now < other.2.deadline) then
        (scheduler, .error .overloaded)
      else if scheduler.limits.maxEntries ≤ scheduler.entries.size then
        (scheduler, .error .overloaded)
      else
        ({ scheduler with
           entries := scheduler.entries.insert key (.fresh subscription deadline granted) },
          .ok (key, subscription.sequence))

/-- Drop an admitted request that will not select. A no-op after it selected. -/
def release (admitted : Admitted Membership Receiver) :
    Scheduler Membership Receiver Version Payload Error :=
  { scheduler with entries := scheduler.entries.modify admitted.1 (·.release admitted.2) }

/-- The demand one contract votes with. The target votes with the selecting request's own
demand, excluding pages it already has in flight. Other receivers vote with their latest
demand. -/
def demandOf (target : EntryKey Membership Receiver) (version : Version) (demand : List Interval)
    (key : EntryKey Membership Receiver) (entry : Entry Version) :
    Option (Receiver × Bool × List Interval) :=
  if key.membership ≠ target.membership ∨ entry.subscription.version ≠ version ∨
      entry.deadline ≤ scheduler.now ∨ entry.subscription.byteBudget = 0 ∨
      (entry.subscription.pageBudget = 0 ∧ entry.pending = []) then none
  else if key ≠ target then
    some (key.receiver, false, outstanding entry.subscription.demand.intervals entry.completed)
  else
    let done := entry.pending.foldl (fun done flight => includeItem done flight.page)
      entry.completed
    some (key.receiver, true, outstanding demand done)

/-- Sweep endpoints, not pages. Count distinct receivers, not subscription IDs, so one receiver
cannot boost its priority with duplicate IDs. -/
def vote (target : EntryKey Membership Receiver) (version : Version) (demand : List Interval)
    (eligible : Nat → Option Bool) : Except Nat (Option Nat) :=
  select (scheduler.entries.entries.filterMap fun other =>
    scheduler.demandOf target version demand other.1 other.2) eligible

/-- Select one page for an admitted request. An endpoint whose eligibility is unknown is returned
without reserving a flight, so the caller can rank it and repeat. -/
def selectAt (admitted : Admitted Membership Receiver) (eligible : Nat → Option Bool) :
    Scheduler Membership Receiver Version Payload Error ×
      Except Kind (Except Nat (Selected Version)) :=
  let (key, sequence) := admitted
  match scheduler.entries.lookup key with
  | none => (scheduler, .error .deadlineExceeded)
  | some entry =>
    if entry.deadline ≤ scheduler.now then (scheduler, .error .deadlineExceeded)
    else if entry.flights ≤ entry.pending.length then (scheduler, .error .overloaded)
    else
      match entry.admitted.find? fun request => decide (request.sequence = sequence) with
      | none => (scheduler, .error .replay)
      | some reservation =>
        if entry.subscription.pageBudget = 0 ∨ entry.subscription.byteBudget = 0 ∨
            reservation.pageBudget = 0 ∨ reservation.byteBudget = 0 then
          (scheduler, .error .unavailable)
        else if scheduler.limits.maxPending ≤ scheduler.fanout.pending.size then
          (scheduler, .error .overloaded)
        else
          let version := entry.subscription.version
          match scheduler.vote key version reservation.demand.intervals eligible with
          | .error page => (scheduler, .ok (.error page))
          | .ok none => (scheduler, .error .unavailable)
          | .ok (some page) =>
            match scheduler.fanout.attach ⟨key.membership, version, page⟩ key
                (min entry.deadline reservation.deadline) scheduler.now
                scheduler.limits.maxPending scheduler.limits.maxInflight with
            | none => (scheduler, .error .overloaded)
            | some (fanout, token, flight, leader) =>
              ({ scheduler with
                 fanout
                 entries := scheduler.entries.insert key
                   (entry.commit sequence token page reservation) },
                .ok (.ok ⟨token, if leader then some flight else none, version, page⟩))

/-- Remove a response slot, and what the contract keeps for it. -/
def removePending (token : Nat) :
    Scheduler Membership Receiver Version Payload Error ×
      Option (Pending (EntryKey Membership Receiver)
        (Delivery Payload Membership Receiver Version) Error Nat) :=
  match scheduler.fanout.remove token with
  | (_, none) => (scheduler, none)
  | (fanout, some slot) =>
    ({ scheduler with
       fanout, entries := scheduler.entries.modify slot.owner (·.drop token) }, some slot)

/-- Construct the response of one slot, charging its contract. The contracts and the node's
completed intervals are the state. -/
def settle (limit : Nat) (result : Except Error (Payload × Nat))
    (state : Entries Membership Receiver Version × Nat) (token : Nat)
    (owner : EntryKey Membership Receiver) (key : FlightKey Membership Version) :
    (Entries Membership Receiver Version × Nat) ×
      Except Error (Delivery Payload Membership Receiver Version) :=
  match result with
  | .error error => (state, .error error)
  | .ok (payload, bytes) =>
    match state.1.lookup owner with
    | none => (state, .error (OfKind.ofKind .deadlineExceeded))
    | some entry =>
      match locate (fun flight => decide (flight.token = token)) entry.pending with
      | none => (state, .error (OfKind.ofKind .staleFlight))
      | some (index, flight) =>
        -- Charge at least what newer ceilings set aside for this flight.
        match Word.checkedSub entry.subscription.byteBudget
            (max bytes flight.reservation.coveredBytes),
          Word.checkedSub flight.reservation.byteBudget bytes with
        | some contract, some remaining =>
          let grant : Grant Membership Receiver Version := {
            subscriptionId := owner.id
            sequence := flight.reservation.sequence
            version := key.version
            page := key.page
            membership := owner.membership
            receiver := owner.receiver
            deadline := min entry.deadline flight.reservation.deadline
            remainingPageBudget := flight.reservation.pageBudget - 1
            remainingByteBudget := remaining
            -- Never grant more than this request asked for.
            flights := flight.reservation.flights.map fun requested => min entry.flights requested }
          let completed := includeItem entry.completed key.page
          let count := state.2 - entry.completed.length + completed.length
          if limit < count then (state, .error (OfKind.ofKind .overloaded))
          else
            ((state.1.insert owner { entry with
                completed
                subscription := { entry.subscription with byteBudget := contract }
                pending := entry.pending.set index { flight with settled := true } },
              count), .ok ⟨payload, grant⟩)
        | _, _ => (state, .error (OfKind.ofKind .unavailable))

/-- Finish an acquisition. An origin rejection says nothing about another credential supplier:
it elects exactly one retained follower to retry with its own. -/
def finish (flight : Nat) (result : Except Error (Payload × Nat)) (promote : Bool) :
    Scheduler Membership Receiver Version Payload Error :=
  let (fanout, (entries, completedIntervals), wake) := scheduler.fanout.finish flight
    (promote && !result.isOk) (settle scheduler.limits.maxCompletedIntervals result)
    (scheduler.entries, scheduler.completedIntervals) scheduler.wake
  { scheduler with fanout, entries, completedIntervals, wake }

/-- Abandon acquisition `work`. -/
def cancelWork (work : Nat) : Scheduler Membership Receiver Version Payload Error :=
  scheduler.finish work (.error (OfKind.ofKind .cancelled)) false

/-- Take acquisition ownership if credential failure elected this waiter: the work token, its
version and its page. -/
def takeWork (waiter : Nat) :
    Scheduler Membership Receiver Version Payload Error × Option (Nat × Version × Nat) :=
  match scheduler.fanout.pending.lookup waiter with
  | none => (scheduler, none)
  | some slot =>
    if !slot.promoted || slot.result.isSome then (scheduler, none)
    else
      ({ scheduler with fanout := { scheduler.fanout with
          pending := scheduler.fanout.pending.insert waiter { slot with promoted := false } } },
        (scheduler.fanout.flights.lookup slot.flight).map fun key =>
          (slot.flight, key.version, key.page))

/-- Poll a response slot. A ready result consumes the slot; the token is then stale. A pending
slot is parked until its token is woken. -/
def poll (waiter : Nat) :
    Scheduler Membership Receiver Version Payload Error ×
      Polled (Except Error (Delivery Payload Membership Receiver Version)) :=
  match scheduler.fanout.pending.lookup waiter with
  | none => (scheduler, .ready (.error (OfKind.ofKind .staleFlight)))
  | some slot =>
    match slot.result with
    | none =>
      ({ scheduler with fanout := { scheduler.fanout with
          pending := scheduler.fanout.pending.insert waiter { slot with waker := some waiter } } },
        .pending)
    | some result =>
      let (scheduler, _) := scheduler.removePending waiter
      -- Expiry may win before the elected waiter takes its work. There is no acquisition owner
      -- left to fence this flight.
      (if slot.promoted then scheduler.cancelWork slot.flight else scheduler, .ready result)

/-- Abandon a response slot. An elected but untaken acquisition is cancelled with it. -/
def cancelWaiter (waiter : Nat) : Scheduler Membership Receiver Version Payload Error :=
  match scheduler.removePending waiter with
  | (scheduler, some slot) =>
    if slot.promoted then scheduler.cancelWork slot.flight else scheduler
  | (scheduler, none) => scheduler

end Scheduler

end Unbounded.Subscriptions
