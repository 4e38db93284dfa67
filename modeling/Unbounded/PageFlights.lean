/-
This file models the page single-flight rules and the table of page flights. A
join attaches a caller to the page's flight, or starts one; a poll tells a caller
to acquire, hands it a settled result, or parks it; the leader retains
operations, lets them complete and finishes. Every method first refreshes the
entry at the table's clock.

A call of the table is one turn: the clock it ran at, what it returned, and the
entry of its page before and after.
-/

import Unbounded.Flight
import Unbounded.ReadDecisions
import Unbounded.Transition

namespace Unbounded.Flights

open Read (Error)

/-! ### Gates and results -/

/-- Table bounds. -/
structure FlightLimits where
  entries : Nat := 1024
  waitersPerFlight : Nat := 256
  generationsPerFlight : Nat := 1024

/-- Reject a join when the new waiter's budget cannot act. A caller with no attempts may still
join a flight that holds a reusable partial result. -/
def joinBudgetGate (now deadline attempts : Nat) (partialHeld : Bool) : Except Error Unit :=
  if deadline ≤ now then .error .deadlineExceeded
  else if attempts = 0 ∧ partialHeld = false then .error .unavailable
  else .ok ()

/-- Table entry cap for a new flight. -/
def entryCapGate (entries : Nat) (limits : FlightLimits) : Except Error Unit :=
  if limits.entries ≤ entries then .error .overloaded else .ok ()

/-- A settled result a caller can use without waiting. -/
inductive Settled (Whole Part : Type*)
  | complete (value : Whole)
  /-- The retained partial (ciphertext) result. -/
  | partially (value : Part)

/-- Why a join on an existing flight was refused. -/
inductive JoinReject
  | failed (error : Error)
  | waiterCap

def JoinReject.error : JoinReject → Error
  | failed error => error
  | waiterCap => .overloaded

/-- Result of the copy-only join gates. -/
inductive CopyJoin (Whole Part : Type*)
  | miss
  | settled (result : Settled Whole Part)
  | register

/-- What a polled waiter should do next. -/
inductive Wait (Whole Part : Type*)
  /-- Elected to acquire with its own budget. -/
  | lead
  | ready (result : Settled Whole Part)
  | failed (error : Error)
  /-- Parked; the wake target was stored. -/
  | pending

/-- How a failed leader settles its flight. -/
inductive FailureKind
  | originRejected
  | originForbidden
  | terminal (error : Error)

/-- Resource a join reserves, in production order. -/
inductive Reserve
  | waiter
  | flight

/-- Result of a join. -/
inductive Joined (Whole Part : Type*)
  /-- No acquisition to wait for (copy joins only). -/
  | miss
  | settled (result : Settled Whole Part)
  | waiter (id : Nat)

/-! ### One flight -/

/-- The transition state of a page flight: a waiter's policy is its deadline, its failures are
read errors and its wake target is a token. -/
abbrev PageState (Whole Part Publication : Type*) := State Whole Part Publication Nat Error Nat

/-- A simulated waiter fails once the table's clock reaches its deadline. -/
def policyAt (now : Nat) : WaiterPolicy Nat Error where
  check deadline := if deadline ≤ now then some .deadlineExceeded else none
  deadline := id

section

variable {Whole Part Publication : Type*} (state : PageState Whole Part Publication)

/-- Gates of an acquisition join on an existing, refreshed flight. -/
def joinExisting (plaintext : Bool)
    (limits : FlightLimits) : Except JoinReject (Option (Settled Whole Part)) :=
  match state.phase, plaintext, state.partialResult with
  | .complete value, _, _ => .ok (some (.complete value))
  | _, false, some value => .ok (some (.partially value))
  | .failed error, _, _ => .error (.failed error)
  | _, _, _ => if limits.waitersPerFlight ≤ state.waiters.size then .error .waiterCap else .ok none

/-- Gates of a copy-only join on an existing, refreshed flight. -/
def joinCopyExisting (limits : FlightLimits) : Except Error (CopyJoin Whole Part) :=
  match state.phase, state.partialResult with
  | .complete value, _ => .ok (.settled (.complete value))
  | _, some value => .ok (.settled (.partially value))
  | .failed _, none => .ok .miss
  | .draining _, none => .ok .miss
  | _, none =>
    if limits.waitersPerFlight ≤ state.waiters.size then .error .overloaded else .ok .register

/-- Poll copy waiter of a refreshed flight: its recorded error, a settled failure, a complete
result, then the partial result. It is parked otherwise. -/
def copyWait (id : Nat) (waiter : Waiter Nat Error Nat)
    (token : Nat) : PageState Whole Part Publication × Wait Whole Part :=
  match waiter.error, state.phase, state.partialResult with
  | some error, _, _ => (state, .failed error)
  | none, .failed error, _ => (state, .failed error)
  | none, .complete value, _ => (state, .ready (.complete value))
  | none, _, some value => (state, .ready (.partially value))
  | none, _, none =>
    ({ state with waiters := state.waiters.insert id { waiter with waker := some token } },
      .pending)

end

/-- One entry of the table. -/
structure Flight (Whole Part Publication : Type*) where
  state : PageState Whole Part Publication := {}
  identity : Identity := ⟨0⟩
  /-- Retained leader operations still running. -/
  operations : Nat := 0

namespace Flight

variable {Whole Part Publication : Type*}
  (flight : Flight Whole Part Publication) (split : Publication → Published Whole Part)

def idle : Bool := decide (flight.operations = 0)

/-- Expire waiters, revoke or hand over a lost leader, and settle drained outcomes. -/
def refresh (now : Nat) : Flight Whole Part Publication :=
  { flight with
    state := flight.state.refresh (policyAt now) flight.idle .unavailable .cancelled now split }

/-- Expose a drained outcome once no retained operation runs. -/
def settle : Flight Whole Part Publication :=
  { flight with state := flight.state.settle flight.idle .unavailable split }

/-- Elect a waiter that may act on a pending retry. Its own budget is checked again; an exhausted
generation fails the cohort. -/
def lead (now limit deadline attempts id : Nat) : Flight Whole Part Publication × Wait Whole Part :=
  if deadline ≤ now ∨ (attempts = 0 ∧ flight.state.partialResult.isNone) then
    let error := if attempts = 0 then .unavailable else .deadlineExceeded
    (refresh { flight with state := flight.state.cancel id error } split now, .failed error)
  else
    match flight.state.elect id flight.identity limit with
    | none =>
      (settle { flight with state := flight.state.beginCompletion (.failed .unavailable) } split,
        .failed .unavailable)
    | some (state, identity, _) => ({ flight with state, identity }, .lead)

/-- Poll an acquisition waiter of a refreshed flight: the waiter's recorded error, a complete
result, a partial result for a ciphertext waiter, a settled failure; then on a pending retry an
unissued waiter is elected. It is parked otherwise. -/
def wait (now limit deadline attempts id token : Nat) (waiter : Waiter Nat Error Nat) :
    Flight Whole Part Publication × Wait Whole Part :=
  match waiter.error with
  | some error => (flight, .failed error)
  | none =>
    match flight.state.phase, waiter.complete, flight.state.partialResult with
    | .complete value, _, _ => (flight, .ready (.complete value))
    | _, false, some value => (flight, .ready (.partially value))
    | .failed error, _, _ => (flight, .failed error)
    | phase, _, _ =>
      if phase.isRetryPending && !waiter.issued then
        flight.lead split now limit deadline attempts id
      else
        ({ flight with
           state := { flight.state with
             waiters := flight.state.waiters.insert id { waiter with waker := some token } } },
          .pending)

/-- The validated leader published. Waiters wake on settlement only. -/
def publish (value : Publication) : Flight Whole Part Publication :=
  settle { flight with state := flight.state.beginCompletion (.published value) } split

/-- What a failed leader's acquisition comes to: the state with the caller marked, and the
outcome. A credential-specific origin rejection fails only the caller; after a handover a lost
deadline retries for the adopter. Other errors fail the cohort. -/
def failure (caller : Nat) (state : PageState Whole Part Publication) :
    FailureKind → PageState Whole Part Publication × Outcome Publication Error
  | .originRejected => (state.cancel caller .originRejected, .retry)
  | .originForbidden => (state.cancel caller .originForbidden, .retry)
  | .terminal error =>
    if state.handedOver = true ∧ (error = .deadlineExceeded ∨ error = .cancelled) then
      (state, .retry)
    else (state, .failed error)

/-- The validated leader failed. Waiters are notified at once, before retained operations
drain. -/
def fail (caller : Nat) (kind : FailureKind) : Flight Whole Part Publication :=
  let decided := failure caller flight.state kind
  settle { flight with state := (decided.1.beginCompletion decided.2).notify } split

/-- Attach a caller. -/
def register (now id deadline : Nat) (acquisition complete : Bool) :
    Flight Whole Part Publication :=
  { flight with state := flight.state.register (policyAt now) id deadline acquisition complete }

/-- The entry with an empty vector of wakes. -/
def hushed : Flight Whole Part Publication :=
  { flight with state := { flight.state with wakes := [] } }

/-- No waiters and no retained operations. -/
def quiescent : Bool := flight.state.waiters.entries.isEmpty && flight.idle

end Flight

/-! ### The table -/

/-- Single-owner page flight table with an explicit clock. -/
structure PageFlights (Page Whole Part Publication : Type*) where
  flights : Table Page (Flight Whole Part Publication) := ∅
  limits : FlightLimits
  split : Publication → Published Whole Part
  now : Nat
  nextId : Nat := 0

namespace PageFlights

variable {Page Whole Part Publication : Type*} [DecidableEq Page]

/-- A table without flights. -/
def new (limits : FlightLimits) (split : Publication → Published Whole Part) (now : Nat) :
    PageFlights Page Whole Part Publication :=
  { limits, split, now }

variable (table : PageFlights Page Whole Part Publication) (page : Page)

/-- The flight of a page, refreshed at the table's clock. -/
def refreshed : Option (Flight Whole Part Publication) :=
  (table.flights.lookup page).map (Flight.refresh · table.split table.now)

/-- Write the flight of a page back. -/
def store (flight : Flight Whole Part Publication) : PageFlights Page Whole Part Publication :=
  { table with flights := table.flights.insert page flight }

/-- Attach a caller whose gates passed: the waiter reservation, then for a new flight the entry
cap and the flight reservation. -/
def attach (deadline : Nat) (acquisition complete : Bool) (reserve : Reserve → Except Error Unit) :
    PageFlights Page Whole Part Publication × Except Error (Joined Whole Part) :=
  match reserve .waiter with
  | .error error => (table, .error error)
  | .ok () =>
    let id := table.nextId
    let counted := { table with nextId := id + 1 }
    match table.flights.lookup page with
    | some flight =>
      (counted.store page (flight.register table.now id deadline acquisition complete),
        .ok (.waiter id))
    | none =>
      match entryCapGate table.flights.size table.limits with
      | .error error => (counted, .error error)
      | .ok () =>
        match reserve .flight with
        | .error error => (counted, .error error)
        | .ok () =>
          (counted.store page
            (Flight.register {} table.now id deadline acquisition complete), .ok (.waiter id))

/-- Acquisition join: the existing flight's gates, the budget gate, then the reservations. -/
def join (now deadline attempts : Nat) (plaintext : Bool) (reserve : Reserve → Except Error Unit) :
    PageFlights Page Whole Part Publication × Except Error (Joined Whole Part) :=
  let arrived := { table with now }
  match arrived.refreshed page with
  | none =>
    match joinBudgetGate now deadline attempts false with
    | .error error => (arrived, .error error)
    | .ok () => arrived.attach page deadline true plaintext reserve
  | some flight =>
    let stored := arrived.store page flight
    match joinExisting flight.state plaintext table.limits with
    | .error reject => (stored, .error reject.error)
    | .ok (some settled) => (stored, .ok (.settled settled))
    | .ok none =>
      match joinBudgetGate now deadline attempts flight.state.partialResult.isSome with
      | .error error => (stored, .error error)
      | .ok () => stored.attach page deadline true plaintext reserve

/-- Copy-only join: never creates a flight, leads, or adopts. -/
def joinCopy (now deadline : Nat) (reserve : Reserve → Except Error Unit) :
    PageFlights Page Whole Part Publication × Except Error (Joined Whole Part) :=
  let arrived := { table with now }
  match arrived.refreshed page with
  | none => (arrived, .ok .miss)
  | some flight =>
    let stored := arrived.store page flight
    match joinCopyExisting flight.state table.limits with
    | .error error => (stored, .error error)
    | .ok .miss => (stored, .ok .miss)
    | .ok (.settled settled) => (stored, .ok (.settled settled))
    | .ok .register => stored.attach page deadline false false reserve

/-- What a poll answers. The source asserts that the polled waiter is still registered after the
refresh; `panicked` is that assertion's failure. -/
inductive Polled (Whole Part : Type*)
  | answered (result : Except Error (Wait Whole Part))
  | panicked

/-- Poll a waiter with its remaining attempts; parks the token when nothing is ready. A canceled
waiter fails as such, and so does one past its deadline. -/
def poll (id now attempts token : Nat) :
    PageFlights Page Whole Part Publication × Polled Whole Part :=
  let arrived := { table with now }
  match arrived.flights.lookup page with
  | none => (arrived, .answered (.error .internal))
  | some flight =>
    match flight.state.waiters.lookup id with
    | none => (arrived, .answered (.error .internal))
    | some waiter =>
      if waiter.error = some .cancelled then (arrived, .answered (.ok (.failed .cancelled)))
      else if waiter.policy ≤ now then
        let expired : Flight Whole Part Publication :=
          { flight with state := flight.state.cancel id .deadlineExceeded }
        (arrived.store page (expired.refresh table.split now),
          .answered (.ok (.failed .deadlineExceeded)))
      else
        let acting := flight.refresh table.split now
        match acting.state.waiters.lookup id with
        | none => (arrived.store page acting, .panicked)
        | some current =>
          if waiter.acquisition then
            let waited := acting.wait table.split now table.limits.generationsPerFlight
              waiter.policy attempts id token current
            (arrived.store page waited.1, .answered (.ok waited.2))
          else
            let waited := copyWait acting.state id current token
            (arrived.store page { acting with state := waited.1 }, .answered (.ok waited.2))

/-- Act as the leader of the refreshed flight, or be refused as a stale one. -/
def asLeader (id : Nat) (act : Flight Whole Part Publication → Flight Whole Part Publication) :
    PageFlights Page Whole Part Publication × Except Error Unit :=
  match table.refreshed page with
  | none => (table, .error .internal)
  | some flight =>
    if flight.state.validateLeader id then (table.store page (act flight), .ok ())
    else (table.store page flight, .error .internal)

/-- The leader finished. -/
def finish (id : Nat) (result : Except FailureKind Publication) :
    PageFlights Page Whole Part Publication × Except Error Unit :=
  table.asLeader page id fun flight =>
    match result with
    | .ok value => flight.publish table.split value
    | .error kind => flight.fail table.split id kind

/-- Let the leader's running acquisition pass to another live waiter when the leader expires or
is canceled. -/
def allowHandover (id : Nat) : PageFlights Page Whole Part Publication × Except Error Unit :=
  table.asLeader page id fun flight => { flight with state := flight.state.allowHandover }

/-- Retain one operation for the leader before it starts. -/
def retainOperation (id : Nat) : PageFlights Page Whole Part Publication × Except Error Unit :=
  table.asLeader page id fun flight => { flight with operations := flight.operations + 1 }

/-- Remove an entry without waiters and retained operations. -/
def removeQuiescent : PageFlights Page Whole Part Publication :=
  if (table.flights.lookup page).any Flight.quiescent then
    { table with flights := table.flights.erase page }
  else table

/-- The retained operation finished: settle, notify, and remove a quiescent entry. -/
def completeOperation : PageFlights Page Whole Part Publication × Except Error Unit :=
  match table.flights.lookup page with
  | none => (table, .error .internal)
  | some flight =>
    match flight.operations with
    | 0 => (table, .error .internal)
    | remaining + 1 =>
      let acting := Flight.refresh { flight with operations := remaining } table.split table.now
      ((table.store page { acting with state := acting.state.notify }).removeQuiescent page, .ok ())

/-- The leader's driver was dropped without an outcome: revoke at once, never hand over. -/
def abandon (id : Nat) : PageFlights Page Whole Part Publication :=
  match table.flights.lookup page with
  | none => table
  | some flight =>
    if flight.state.validateLeader id then
      table.store page
        (Flight.settle { flight with state := flight.state.revoke .cancelled } table.split)
    else table

/-- Cancel a waiter. -/
def cancel (id : Nat) : PageFlights Page Whole Part Publication :=
  match table.flights.lookup page with
  | none => table
  | some flight =>
    table.store page
      (Flight.refresh { flight with state := flight.state.cancel id .cancelled } table.split
        table.now)

/-- Detach a waiter, removing a quiescent flight. -/
def detach (id : Nat) : PageFlights Page Whole Part Publication :=
  match table.flights.lookup page with
  | none => table
  | some flight =>
    (table.store page (Flight.refresh { flight with
      state := flight.state.detach (policyAt table.now) id } table.split
        table.now)).removeQuiescent page

/-- Expire waiters whose deadline passed and settle outcomes. -/
def refresh (now : Nat) : PageFlights Page Whole Part Publication :=
  let arrived := { table with now }
  match arrived.refreshed page with
  | none => arrived
  | some flight => arrived.store page flight

end PageFlights

/-! ### Turns and runs -/

section

variable (Page Whole Part Publication : Type*)

/-- The methods of the table that change an entry. -/
inductive Call
  | join (now deadline attempts : Nat) (plaintext : Bool) (reserve : Reserve → Except Error Unit)
  | joinCopy (now deadline : Nat) (reserve : Reserve → Except Error Unit)
  | poll (id now attempts token : Nat)
  | finish (id : Nat) (result : Except FailureKind Publication)
  | allowHandover (id : Nat)
  | retainOperation (id : Nat)
  | completeOperation
  | abandon (id : Nat)
  | cancel (id : Nat)
  | detach (id : Nat)
  | refresh (now : Nat)

/-- What a method returns. -/
inductive Reply
  | joined (result : Except Error (Joined Whole Part))
  | polled (result : PageFlights.Polled Whole Part)
  | done (result : Except Error Unit)

/-- One call: the page it names, the clock it ran at, what it returned, and the entry of the page
before and after. -/
structure Turn where
  page : Page
  call : Call Publication
  reply : Reply Whole Part
  now : Nat
  before : Option (Flight Whole Part Publication)
  after : Option (Flight Whole Part Publication)

end

namespace PageFlights

variable {Page Whole Part Publication : Type*} [DecidableEq Page]
  (table : PageFlights Page Whole Part Publication)

/-- The methods by name. -/
def answer (page : Page) :
    Call Publication → PageFlights Page Whole Part Publication × Reply Whole Part
  | .join now deadline attempts plaintext reserve =>
    let (next, result) := table.join page now deadline attempts plaintext reserve
    (next, .joined result)
  | .joinCopy now deadline reserve =>
    let (next, result) := table.joinCopy page now deadline reserve
    (next, .joined result)
  | .poll id now attempts token =>
    let (next, result) := table.poll page id now attempts token
    (next, .polled result)
  | .finish id result =>
    let (next, result) := table.finish page id result
    (next, .done result)
  | .allowHandover id =>
    let (next, result) := table.allowHandover page id
    (next, .done result)
  | .retainOperation id =>
    let (next, result) := table.retainOperation page id
    (next, .done result)
  | .completeOperation =>
    let (next, result) := table.completeOperation page
    (next, .done result)
  | .abandon id => (table.abandon page id, .done (.ok ()))
  | .cancel id => (table.cancel page id, .done (.ok ()))
  | .detach id => (table.detach page id, .done (.ok ()))
  | .refresh now => (table.refresh page now, .done (.ok ()))

/-- Every call is handed an empty vector of wakes. -/
def hushed (page : Page) : PageFlights Page Whole Part Publication :=
  { table with flights := table.flights.modify page Flight.hushed }

/-- One call. -/
def perform (page : Page) (call : Call Publication) :
    Turn Page Whole Part Publication × PageFlights Page Whole Part Publication :=
  let quiet := table.hushed page
  let (next, reply) := quiet.answer page call
  ({ page, call, reply, now := next.now
     before := quiet.flights.lookup page, after := next.flights.lookup page }, next)

/-- The steps of the table. -/
def Performs
    (turn : Turn Page Whole Part Publication) (next : PageFlights Page Whole Part Publication) :
    Prop :=
  table.perform turn.page turn.call = (turn, next)

/-- A script of calls, one after the other. -/
def replay : List (Page × Call Publication) → PageFlights Page Whole Part Publication →
    List (Turn Page Whole Part Publication) × PageFlights Page Whole Part Publication
  | [], table => ([], table)
  | (page, call) :: rest, table =>
    let (turn, next) := table.perform page call
    let (turns, last) := replay rest next
    (turn :: turns, last)

open Transition

theorem replay_run (script : List (Page × Call Publication))
    (table : PageFlights Page Whole Part Publication) :
    Run Performs table (table.replay script).1 (table.replay script).2 := by
  induction script generalizing table with
  | nil => exact Run.nil table
  | cons first _ ih =>
    exact Run.cons (show Performs table (table.perform first.1 first.2).1 _ from rfl)
      (ih (table.perform first.1 first.2).2)

end PageFlights

end Unbounded.Flights
