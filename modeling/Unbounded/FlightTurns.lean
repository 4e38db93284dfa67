/-
This file inverts the calls of the page flight table and runs them. A call on a
page with an entry opens, moves and closes; one on a page without an entry may
start a flight. The entries of other pages are not touched, so what holds of one
entry across its own calls holds across every interleaving with the others.
-/

import Unbounded.FlightMoves

namespace Unbounded.Flights

open Read (Error)
open Relation (ReflTransGen)
open Table Option Transition

variable {Page Whole Part Publication : Type*} [DecidableEq Page]

/-! ### The three parts of a call -/

/-- The poll told its caller to acquire. -/
def Reply.leads : Reply Whole Part → Bool
  | .polled (.answered (.ok .lead)) => true
  | _ => false

/-- The caller a call detaches. -/
def Call.detached : Call Publication → Option Nat
  | .detach id => some id
  | _ => none

namespace Flight

/-- An entry whose state moved; its operations and its generation are as they were. -/
structure Evolves (split : Publication → Published Whole Part)
    (before after : Flight Whole Part Publication) : Prop where
  operations : after.operations = before.operations
  identity : after.identity = before.identity
  chain : ReflTransGen (State.Moves before.idle .unavailable split) before.state after.state

/-- The entry with one of its waiters elected under a new generation. -/
def elected (flight : Flight Whole Part Publication) (id : Nat) (waiter : Waiter Nat Error Nat)
    (identity : Identity) : Flight Whole Part Publication :=
  { flight with
    identity
    state := { flight.state with
      phase := .acquiring
      leader := some id
      elected := some id
      handover := false
      waiters := flight.state.waiters.insert id { waiter with issued := true } } }

/-- The entry with one of its waiters parked. -/
def parking (flight : Flight Whole Part Publication) (id : Nat) (waiter : Waiter Nat Error Nat)
    (token : Nat) : Flight Whole Part Publication :=
  { flight with
    state := { flight.state with
      waiters := flight.state.waiters.insert id { waiter with waker := some token } } }

/-- How a call on an entry begins. -/
inductive Opens : Call Publication → Flight Whole Part Publication →
    Flight Whole Part Publication → Prop
  | plain {call} (stays : call.detached = none) (flight : Flight Whole Part Publication) :
      Opens call flight flight
  | detaches (id : Nat) (view : WaiterPolicy Nat Error) (flight : Flight Whole Part Publication) :
      Opens (.detach id) flight { flight with state := flight.state.detach view id }
  | relieves (remaining : Nat) (flight : Flight Whole Part Publication)
      (retained : flight.operations = remaining + 1) :
      Opens .completeOperation flight { flight with operations := remaining }

variable (split : Publication → Published Whole Part) (nextId : Nat) in
/-- How a call on an entry ends. -/
inductive Closes :
    Call Publication → Reply Whole Part → Flight Whole Part Publication →
      Option (Flight Whole Part Publication) → Prop
  | stays {call reply flight} (quiet : reply.leads = false) : Closes call reply flight (some flight)
  | removes {call reply flight} (quiet : reply.leads = false)
      (quiescent : flight.quiescent = true) : Closes call reply flight none
  | registers {call flight now deadline acquisition complete}
      (needs : complete = true → acquisition = true) :
      Closes call (.joined (.ok (.waiter nextId))) flight
        (some (flight.register now nextId deadline acquisition complete))
  | elects {id now attempts token limit flight waiter identity}
      (pending : flight.state.phase = .retryPending)
      (found : flight.state.waiters.lookup id = some waiter) (eligible : waiter.eligible = true)
      (advanced : flight.identity.advance limit = some identity) :
      Closes (.poll id now attempts token) (.polled (.answered (.ok .lead))) flight
        (some (flight.elected id waiter identity))
  | parks {id now attempts token flight waiter}
      (found : flight.state.waiters.lookup id = some waiter) :
      Closes (.poll id now attempts token) (.polled (.answered (.ok .pending))) flight
        (some (flight.parking id waiter token))
  | allows {id flight} (running : flight.state.phase = .acquiring) :
      Closes (.allowHandover id) (.done (.ok ())) flight
        (some { flight with state := { flight.state with handover := true } })
  | retains {id flight} (running : flight.state.phase = .acquiring) :
      Closes (.retainOperation id) (.done (.ok ())) flight
        (some { flight with operations := flight.operations + 1 })
  | finishes {id result flight next marked outcome} (running : flight.state.phase = .acquiring)
      (marks : flight.state.Marks marked) (lost : outcome = .retry → marked.Lost marked.elected)
      (chain : ({ flight with state := marked.beginCompletion outcome } :
        Flight Whole Part Publication).Evolves split next) :
      Closes (.finish id result) (.done (.ok ())) flight (some next)

/-- What a call does to an entry. -/
structure Handles (split : Publication → Published Whole Part) (nextId : Nat)
    (call : Call Publication) (reply : Reply Whole Part) (before : Flight Whole Part Publication)
    (after : Option (Flight Whole Part Publication)) : Prop where
  parts : ∃ start middle, Opens call before start ∧ start.Evolves split middle ∧
    Closes split nextId call reply middle after

section

variable {split : Publication → Published Whole Part}

theorem Evolves.refl (flight : Flight Whole Part Publication) : flight.Evolves split flight :=
  ⟨rfl, rfl, .refl⟩

theorem Evolves.trans {first second third : Flight Whole Part Publication}
    (earlier : first.Evolves split second) (later : second.Evolves split third) :
    first.Evolves split third := by
  refine ⟨later.operations.trans earlier.operations, later.identity.trans earlier.identity, ?_⟩
  have idle : second.idle = first.idle := by
    unfold idle
    rw [earlier.operations]
  exact earlier.chain.trans (idle ▸ later.chain)

theorem refresh_evolves (flight : Flight Whole Part Publication)
    (split : Publication → Published Whole Part) (now : Nat) :
    flight.Evolves split (flight.refresh split now) :=
  ⟨rfl, rfl, State.refresh_moves (policyAt now) .cancelled now⟩

theorem settle_evolves (flight : Flight Whole Part Publication) :
    flight.Evolves split (flight.settle split) :=
  ⟨rfl, rfl, State.settle_moves⟩

variable {flight : Flight Whole Part Publication} {waiter : Waiter Nat Error Nat}

theorem marks_evolves
    {marked : PageState Whole Part Publication} (marks : flight.state.Marks marked) :
    flight.Evolves split { flight with state := marked } :=
  ⟨rfl, rfl, .single (.marks marks)⟩

variable {reply : Reply Whole Part} {nextId : Nat}

theorem Handles.moved {call : Call Publication} {before after : Flight Whole Part Publication}
    (evolves : before.Evolves split after) (stays : call.detached = none)
    (quiet : reply.leads = false) : Handles split nextId call reply before (some after) :=
  ⟨before, after, .plain stays before, evolves, .stays quiet⟩

/-- A poll of a waiter that may act on a pending retry elects it, unless its budget or the
generations are exhausted. -/
theorem lead_handles (nextId now limit deadline attempts id token : Nat)
    (pending : flight.state.phase = .retryPending)
    (found : flight.state.waiters.lookup id = some waiter) (eligible : waiter.eligible = true) :
    ∃ middle, flight.Evolves split middle ∧ Closes split nextId (.poll id now attempts token)
        (.polled (.answered (.ok (flight.lead split now limit deadline attempts id).2)))
        middle (some (flight.lead split now limit deadline attempts id).1) := by
  unfold lead
  split
  · refine ⟨_, ?_, .stays rfl⟩
    exact (marks_evolves (State.cancel_marks id _)).trans (refresh_evolves _ _ _)
  · unfold State.elect
    rw [if_pos (Phase.isRetryPending_iff.mpr pending), found, filter_some, if_pos eligible]
    cases advanced : flight.identity.advance limit with
    | none =>
      have exhausted : flight.Evolves split
          { flight with state := flight.state.beginCompletion (.failed .unavailable) } :=
        ⟨rfl, rfl, .single (.exhausts pending)⟩
      exact ⟨_, exhausted.trans (settle_evolves _), .stays rfl⟩
    | some => exact ⟨flight, .refl flight, .elects pending found eligible advanced⟩

/-- A poll of an acquisition waiter elects it, parks it, or moves the entry. -/
theorem wait_handles (split : Publication → Published Whole Part)
    (nextId now limit deadline attempts id token : Nat)
    (found : flight.state.waiters.lookup id = some waiter) (acquires : waiter.acquisition = true) :
    ∃ middle, flight.Evolves split middle ∧ Closes split nextId (.poll id now attempts token)
      (.polled (.answered (.ok (flight.wait split now limit deadline attempts id token waiter).2)))
        middle (some (flight.wait split now limit deadline attempts id token waiter).1) := by
  unfold wait
  split
  · exact ⟨flight, .refl flight, .stays rfl⟩
  rename_i live
  split
  · exact ⟨flight, .refl flight, .stays rfl⟩
  · exact ⟨flight, .refl flight, .stays rfl⟩
  · exact ⟨flight, .refl flight, .stays rfl⟩
  · split
    · rename_i unissued
      obtain ⟨pending, fresh⟩ := Bool.and_eq_true_iff.mp unissued
      refine lead_handles nextId now limit deadline attempts id token
        (Phase.isRetryPending_iff.mp pending) found ?_
      unfold Waiter.eligible
      rw [acquires, fresh, live]
      rfl
    · exact ⟨flight, .refl flight, .parks found⟩

variable {state : PageState Whole Part Publication}

theorem validateLeader_iff {id : Nat} : state.validateLeader id = true ↔
      state.phase = .acquiring ∧ (state.leader = some id ∨ state.elected = some id) := by
  unfold State.validateLeader
  rw [Bool.and_eq_true, Phase.isAcquiring_iff, Bool.or_eq_true, decide_eq_true_iff,
    decide_eq_true_iff]

/-- A rejection marks the caller; when the acquisition comes to a retry, the elected caller has
failed or is gone: it is the rejected one, or it lost the acquisition to an adopter. -/
theorem failure_lost {caller : Nat} (sound : state.Sound nextId)
    (leads : state.validateLeader caller = true) (kind : FailureKind) :
    state.Marks (failure caller state kind).1 ∧ ((failure caller state kind).2 = .retry →
        (failure caller state kind).1.Lost (failure caller state kind).1.elected) := by
  obtain ⟨running, holder⟩ := validateLeader_iff.mp leads
  have rejected (error : Error) : state.Marks (state.cancel caller error) ∧
      (state.cancel caller error).Lost (state.cancel caller error).elected := by
    have marks : state.Marks _ := State.cancel_marks caller error
    refine ⟨marks, ?_⟩
    rw [marks.elected]
    by_cases same : state.elected = some caller
    · rw [same]
      exact State.cancel_lost caller error
    · have led := holder.resolve_right same
      exact marks.lost (sound.handed running fun equal => same (equal ▸ led))
  unfold failure
  cases kind with
  | originRejected | originForbidden => exact ⟨(rejected _).1, fun _ => (rejected _).2⟩
  | terminal =>
    dsimp only
    split
    · rename_i handed
      have differs : state.leader ≠ state.elected :=
        of_decide_eq_true (Bool.and_eq_true_iff.mp handed.1).2
      exact ⟨.refl, fun _ => sound.handed running differs⟩
    · exact ⟨.refl, nofun⟩

/-- An accepted finish begins its outcome and may settle it at once. -/
theorem finish_closes {id : Nat} (sound : flight.state.Sound nextId)
    (leads : flight.state.validateLeader id = true) (result : Except FailureKind Publication) :
    Closes split nextId (.finish id result) (.done (.ok ())) flight (some (match result with
      | .ok value => flight.publish split value
      | .error kind => flight.fail split id kind)) := by
  have running := (validateLeader_iff.mp leads).1
  cases result with
  | ok value =>
    have settles : Evolves split
        { flight with state := flight.state.beginCompletion (.published value) }
        (flight.publish split value) := settle_evolves _
    refine .finishes running .refl (fun retried => ?_) settles
    cases retried
  | error kind =>
    obtain ⟨marks, lost⟩ := failure_lost sound leads kind
    refine .finishes running marks lost (.trans ?_ (settle_evolves _))
    exact marks_evolves State.notify_marks

end

end Flight

/-! ### The calls of the table -/

namespace PageFlights

variable {table : PageFlights Page Whole Part Publication} {page : Page}

theorem store_lookup (table : PageFlights Page Whole Part Publication) (page : Page)
    (flight : Flight Whole Part Publication) :
    (table.store page flight).flights.lookup page = some flight :=
  AList.lookup_insert table.flights

variable {before : Flight Whole Part Publication}

/-- A call that acts as the leader moves the entry and then acts, or is refused. -/
theorem asLeader_handles {id : Nat}
    {call : Call Publication} {act : Flight Whole Part Publication → Flight Whole Part Publication}
    (present : table.flights.lookup page = some before) (stays : call.detached = none)
    (acts : ∀ acting, before.Evolves table.split acting → acting.state.validateLeader id = true →
      Flight.Closes table.split table.nextId call (.done (.ok ())) acting (some (act acting))) :
    Flight.Handles table.split table.nextId call (.done (table.asLeader page id act).2) before
      ((table.asLeader page id act).1.flights.lookup page) := by
  have evolves := before.refresh_evolves table.split table.now
  unfold asLeader refreshed
  rw [present]
  dsimp only [map_some]
  split
  · rename_i leads
    rw [store_lookup]
    exact ⟨before, _, .plain stays before, evolves, acts _ evolves leads⟩
  · rw [store_lookup]
    exact .moved evolves stays rfl

/-- An entry that moved and may be removed when it is quiescent. -/
theorem removeQuiescent_closes {call : Call Publication} {reply : Reply Whole Part}
    (quiet : reply.leads = false) (flight : Flight Whole Part Publication) :
    Flight.Closes table.split table.nextId call reply flight
      (((table.store page flight).removeQuiescent page).flights.lookup page) := by
  unfold removeQuiescent
  rw [store_lookup]
  split
  · rename_i quiescent
    have gone : ((table.store page flight).flights.erase page).lookup page = none :=
      AList.lookup_erase page _
    rw [gone]
    exact .removes quiet quiescent
  · rw [store_lookup]
    exact .stays quiet

theorem attach_handles {call : Call Publication}
    {acquisition complete : Bool} (needs : complete = true → acquisition = true) (deadline : Nat)
    (reserve : Reserve → Except Error Unit) (flight : Flight Whole Part Publication)
    (present : table.flights.lookup page = some flight) (stays : call.detached = none)
    (evolves : before.Evolves table.split flight) :
    Flight.Handles table.split table.nextId call
      (.joined (table.attach page deadline acquisition complete reserve).2) before
      ((table.attach page deadline acquisition complete reserve).1.flights.lookup page) := by
  unfold attach
  split
  · rw [present]
    exact .moved evolves stays rfl
  · rw [present]
    rw [store_lookup]
    exact ⟨before, flight, .plain stays before, evolves, .registers needs⟩

/-- A poll elects its waiter, parks it, or moves the entry. -/
theorem poll_handles
    (present : table.flights.lookup page = some before) (id now attempts token : Nat) :
    Flight.Handles table.split table.nextId (.poll id now attempts token)
      (.polled (table.poll page id now attempts token).2) before
      ((table.poll page id now attempts token).1.flights.lookup page) := by
  have evolves := before.refresh_evolves table.split now
  unfold poll
  dsimp only
  rw [present]
  dsimp only
  split
  · rw [present]
    exact .moved (.refl before) rfl rfl
  · rename_i waiter found
    split
    · rw [present]
      exact .moved (.refl before) rfl rfl
    split
    · rw [store_lookup]
      exact .moved ((Flight.marks_evolves (State.cancel_marks id _)).trans
        (Flight.refresh_evolves _ _ _)) rfl rfl
    · split
      · rw [store_lookup]
        exact .moved evolves rfl rfl
      · rename_i current refound
        split
        · rename_i acquires
          obtain ⟨_, earlier, same⟩ := State.Moves.chain_found evolves.chain refound
          have kept : current.acquisition = true := by
            rw [same, ← mem_unique found earlier]
            exact acquires
          rw [store_lookup]
          obtain ⟨middle, further, closes⟩ := Flight.wait_handles table.split table.nextId now
            table.limits.generationsPerFlight waiter.policy attempts id token refound kept
          exact ⟨before, middle, .plain rfl before, evolves.trans further, closes⟩
        · -- A copy waiter is parked or reads the entry.
          rw [store_lookup]
          refine ⟨before, _, .plain rfl before, evolves, ?_⟩
          unfold copyWait
          split
          · exact .stays rfl
          · exact .stays rfl
          · exact .stays rfl
          · exact .stays rfl
          · exact .parks refound

/-- A call on a page with an entry opens, moves and closes. -/
theorem answer_handles (sound : before.state.Sound table.nextId)
    (present : table.flights.lookup page = some before) (call : Call Publication) :
    Flight.Handles table.split table.nextId call (table.answer page call).2 before
      ((table.answer page call).1.flights.lookup page) := by
  cases call with
  | join now deadline attempts _ reserve =>
    have evolves := before.refresh_evolves table.split now
    simp only [answer, join, refreshed, present, map_some]
    have stored := store_lookup { table with now } page (before.refresh table.split now)
    split
    · rw [stored]
      exact .moved evolves rfl rfl
    · rw [stored]
      exact .moved evolves rfl rfl
    · split
      · rw [stored]
        exact .moved evolves rfl rfl
      · exact attach_handles (fun _ => rfl) deadline reserve _ stored rfl evolves
  | joinCopy now deadline reserve =>
    have evolves := before.refresh_evolves table.split now
    simp only [answer, joinCopy, refreshed, present, map_some]
    have stored := store_lookup { table with now } page (before.refresh table.split now)
    split
    · rw [stored]
      exact .moved evolves rfl rfl
    · rw [stored]
      exact .moved evolves rfl rfl
    · rw [stored]
      exact .moved evolves rfl rfl
    · refine attach_handles (fun needs => ?_) deadline reserve _ stored rfl evolves
      cases needs
  | poll id now attempts token => exact poll_handles present id now attempts token
  | finish id result =>
    exact asLeader_handles present rfl fun acting evolves leads =>
      Flight.finish_closes (sound.chain evolves.chain) leads result
  | allowHandover =>
    refine asLeader_handles present rfl fun acting evolves leads => ?_
    have running := (Flight.validateLeader_iff.mp leads).1
    unfold State.allowHandover
    rw [if_pos (Phase.isAcquiring_iff.mpr running)]
    exact .allows running
  | retainOperation =>
    exact asLeader_handles present rfl fun acting evolves leads =>
      .retains (Flight.validateLeader_iff.mp leads).1
  | completeOperation =>
    simp only [answer, completeOperation]
    rw [present]
    dsimp only
    split
    · rw [present]
      exact .moved (.refl before) rfl rfl
    · rename_i remaining retained
      exact ⟨_, _, .relieves remaining before retained, (Flight.refresh_evolves _ _ _).trans
          (Flight.marks_evolves State.notify_marks), removeQuiescent_closes rfl _⟩
  | abandon id =>
    simp only [answer, abandon]
    rw [present]
    dsimp only
    split
    · rename_i leads
      rw [store_lookup]
      have running := (Flight.validateLeader_iff.mp leads).1
      have revoked : before.Evolves table.split
          { before with state := before.state.revoke .cancelled } :=
        ⟨rfl, rfl, State.revoke_moves _ running⟩
      exact .moved (revoked.trans (Flight.settle_evolves _)) rfl rfl
    · rw [present]
      exact .moved (.refl before) rfl rfl
  | cancel id =>
    simp only [answer, cancel]
    rw [present]
    rw [store_lookup]
    exact .moved ((Flight.marks_evolves (State.cancel_marks id _)).trans
      (Flight.refresh_evolves _ _ _)) rfl rfl
  | detach id =>
    simp only [answer, detach]
    rw [present]
    exact ⟨_, _, .detaches id (policyAt table.now) before, Flight.refresh_evolves _ _ _,
      removeQuiescent_closes rfl _⟩
  | refresh now =>
    simp only [answer, refresh, refreshed, present, map_some, store_lookup]
    exact .moved (Flight.refresh_evolves _ _ _) rfl rfl

/-- A page without an entry gets one by a join, or none. -/
theorem answer_absent (absent : table.flights.lookup page = none) (call : Call Publication) :
    (table.answer page call).2.leads = false ∧
      ((table.answer page call).1.flights.lookup page = none ∨
        ∃ now deadline plaintext,
          (table.answer page call).2 = .joined (.ok (.waiter table.nextId)) ∧
          (table.answer page call).1.flights.lookup page =
            some (Flight.register {} now table.nextId deadline true plaintext)) := by
  cases call with
  | join now deadline attempts plaintext reserve =>
    refine ⟨rfl, ?_⟩
    simp only [answer, join, refreshed, absent, map_none]
    split
    · exact .inl absent
    unfold attach
    split
    · exact .inl absent
    rw [absent]
    dsimp only
    split
    · exact .inl absent
    split
    · exact .inl absent
    · rw [store_lookup]
      exact .inr ⟨now, deadline, plaintext, rfl, rfl⟩
  | joinCopy now =>
    refine ⟨rfl, .inl ?_⟩
    simp only [answer, joinCopy, refreshed, absent, map_none]
  | poll id now =>
    simp only [answer, poll, absent]
    exact ⟨rfl, .inl trivial⟩
  | finish id | allowHandover id | retainOperation id =>
    refine ⟨rfl, .inl ?_⟩
    show (table.asLeader page id _).1.flights.lookup page = none
    unfold asLeader refreshed
    rw [absent]
    exact absent
  | completeOperation | abandon id | cancel id | detach | refresh =>
    refine ⟨rfl, .inl ?_⟩
    simp [answer, completeOperation, abandon, cancel, detach, refresh, refreshed, absent]

/-- What a call leaves to the rest of the table: identifiers are only allocated, and the entries
of other pages stay. -/
structure Steady (page : Page) (before after : PageFlights Page Whole Part Publication) : Prop where
  split : after.split = before.split
  nextId : before.nextId ≤ after.nextId
  others : ∀ other, other ≠ page → after.flights.lookup other = before.flights.lookup other

theorem Steady.arrived (now : Nat) : Steady page table { table with now } :=
  ⟨rfl, Nat.le_refl _, fun _ _ => rfl⟩

theorem Steady.refl : Steady page table table := ⟨rfl, Nat.le_refl _, fun _ _ => rfl⟩

theorem Steady.trans {first second third : PageFlights Page Whole Part Publication}
    (earlier : Steady page first second) (later : Steady page second third) :
    Steady page first third :=
  ⟨later.split.trans earlier.split, earlier.nextId.trans later.nextId, fun other differs =>
    (later.others other differs).trans (earlier.others other differs)⟩

theorem Steady.stored (flight : Flight Whole Part Publication) :
    Steady page table (table.store page flight) :=
  ⟨rfl, Nat.le_refl _, fun _ differs => AList.lookup_insert_ne differs⟩

theorem Steady.removed : Steady page table (table.removeQuiescent page) := by
  unfold removeQuiescent
  split
  · exact ⟨rfl, Nat.le_refl _, fun _ differs => AList.lookup_erase_ne differs⟩
  · exact .refl

theorem Steady.attached {before : PageFlights Page Whole Part Publication}
    (steady : Steady page before table) (deadline : Nat) (acquisition complete : Bool)
    (reserve : Reserve → Except Error Unit) :
    Steady page before (table.attach page deadline acquisition complete reserve).1 ∧
      ∀ id, Reply.joined (table.attach page deadline acquisition complete reserve).2 =
          .joined (.ok (.waiter id)) →
        id < (table.attach page deadline acquisition complete reserve).1.nextId := by
  have counted : Steady page before { table with nextId := table.nextId + 1 } :=
    steady.trans ⟨rfl, Nat.le_succ _, fun _ _ => rfl⟩
  unfold attach
  split
  · exact ⟨steady, nofun⟩
  split
  · refine ⟨counted.trans (.stored _), fun id same => ?_⟩
    cases same
    exact Nat.lt_succ_self _
  · split
    · exact ⟨counted, nofun⟩
    split
    · exact ⟨counted, nofun⟩
    refine ⟨counted.trans (.stored _), fun id same => ?_⟩
    cases same
    exact Nat.lt_succ_self _

theorem Steady.asLeader (id : Nat)
    (act : Flight Whole Part Publication → Flight Whole Part Publication) :
    Steady page table (table.asLeader page id act).1 := by
  unfold PageFlights.asLeader
  split
  · exact .refl
  · split <;> exact .stored _

theorem Steady.answer (table : PageFlights Page Whole Part Publication) (page : Page)
    (call : Call Publication) :
    Steady page table (table.answer page call).1 ∧
      ∀ id, (table.answer page call).2 = .joined (.ok (.waiter id)) →
        id < (table.answer page call).1.nextId := by
  cases call with
  | join now deadline attempts plaintext reserve =>
    have arrived : Steady page table { table with now } := .arrived now
    simp only [PageFlights.answer, join]
    split
    · split
      · exact ⟨arrived, nofun⟩
      exact arrived.attached deadline true plaintext reserve
    · rename_i flight _
      have stored := arrived.trans (.stored flight)
      split
      · exact ⟨stored, nofun⟩
      · exact ⟨stored, nofun⟩
      · split
        · exact ⟨stored, nofun⟩
        exact stored.attached deadline true plaintext reserve
  | joinCopy now deadline reserve =>
    have arrived : Steady page table { table with now } := .arrived now
    simp only [PageFlights.answer, joinCopy]
    split
    · exact ⟨arrived, nofun⟩
    rename_i flight _
    have stored := arrived.trans (.stored flight)
    split
    · exact ⟨stored, nofun⟩
    · exact ⟨stored, nofun⟩
    · exact ⟨stored, nofun⟩
    · exact stored.attached deadline false false reserve
  | poll id now =>
    refine ⟨?_, nofun⟩
    have arrived : Steady page table { table with now } := .arrived now
    simp only [PageFlights.answer, poll]
    split
    · exact arrived
    split
    · exact arrived
    split
    · exact arrived
    split
    · exact arrived.trans (.stored _)
    split
    · exact arrived.trans (.stored _)
    · split <;> exact arrived.trans (.stored _)
  | finish id | allowHandover id | retainOperation id => exact ⟨.asLeader id _, nofun⟩
  | completeOperation =>
    refine ⟨?_, nofun⟩
    simp only [PageFlights.answer, completeOperation]
    split
    · exact .refl
    split
    · exact .refl
    · exact (Steady.stored _).trans .removed
  | abandon id =>
    refine ⟨?_, nofun⟩
    simp only [PageFlights.answer, abandon]
    split
    · exact .refl
    split
    · exact .stored _
    · exact .refl
  | cancel id =>
    refine ⟨?_, nofun⟩
    simp only [PageFlights.answer, cancel]
    split
    · exact .refl
    · exact .stored _
  | detach =>
    refine ⟨?_, nofun⟩
    simp only [PageFlights.answer, detach]
    split
    · exact .refl
    · exact (Steady.stored _).trans .removed
  | refresh now =>
    refine ⟨?_, nofun⟩
    have arrived : Steady page table { table with now } := .arrived now
    simp only [PageFlights.answer, refresh]
    split
    · exact arrived
    · exact arrived.trans (.stored _)

end PageFlights

/-! ### What every reachable entry keeps -/

namespace Flight

/-- Nothing is exposed while an operation of the acquisition runs. -/
def Fenced (flight : Flight Whole Part Publication) : Prop :=
  flight.state.phase.isRunning = false → flight.operations = 0

/-- The two invariants of an entry. -/
structure Kept (nextId : Nat) (flight : Flight Whole Part Publication) : Prop where
  sound : flight.state.Sound nextId
  fenced : flight.Fenced

variable {split : Publication → Published Whole Part} {nextId : Nat}
  {after before : Flight Whole Part Publication}

/-- A property of states that every move keeps holds of an entry that evolved. -/
theorem Evolves.keeps (property : PageState Whole Part Publication → Prop)
    (evolves : before.Evolves split after) (kept : ∀ state next, property state →
      State.Moves before.idle .unavailable split state next → property next)
    (start : property before.state) : property after.state := by
  have chain := evolves.chain
  revert chain
  generalize after.state = last
  intro chain
  induction chain with
  | refl => exact start
  | tail _ moves ih => exact kept _ _ ih moves

variable {call : Call Publication}

theorem Opens.kept {start : Flight Whole Part Publication} (opens : Opens call before start)
    (kept : before.Kept nextId) : start.Kept nextId := by
  cases opens with
  | plain => exact kept
  | detaches =>
    unfold State.detach
    split
    · exact kept
    exact ⟨⟨forall_erase kept.sound.fresh, kept.sound.electedFresh,
      forall_erase kept.sound.needs, forall_erase kept.sound.spent,
      fun running differs other read held found => kept.sound.handed running differs other read
        held (lookup_erase_some.mp found).2⟩, kept.fenced⟩
  | relieves _ _ retained =>
    refine ⟨kept.sound, fun ended => ?_⟩
    have none := kept.fenced ended
    rw [retained] at none
    cases none

theorem Evolves.kept (evolves : before.Evolves split after) (kept : before.Kept nextId) :
    after.Kept nextId := by
  refine ⟨kept.sound.chain evolves.chain, ?_⟩
  have fenced := evolves.keeps (fun state => state.phase.isRunning = false → before.operations = 0)
    (fun state next fenced moves ended => ?_) kept.fenced
  · intro ended
    rw [evolves.operations]
    exact fenced ended
  · cases moves with
    | marks marks => exact fenced (marks.phase ▸ ended)
    | adopts => exact fenced ended
    | revokes | exhausts => cases ended
    | settles drained => exact of_decide_eq_true drained

theorem Closes.kept {reply : Reply Whole Part} {middle : Flight Whole Part Publication}
    {allocated : Nat}
    (closes : Closes split nextId call reply middle (some after)) (kept : middle.Kept nextId)
    (grows : nextId ≤ allocated)
    (registered : ∀ id, reply = .joined (.ok (.waiter id)) → id < allocated) :
    after.Kept allocated := by
  have sound := kept.sound.grows grows
  cases closes with
  | stays => exact ⟨sound, kept.fenced⟩
  | registers needs =>
    refine ⟨⟨forall_insert sound.fresh (registered _ rfl), sound.electedFresh,
      forall_insert sound.needs needs, forall_insert sound.spent nofun, ?_⟩,
      kept.fenced⟩
    intro running differs id waiter held found
    rcases lookup_insert_some.mp found with ⟨same, _⟩ | ⟨_, earlier⟩
    · exact absurd (kept.sound.electedFresh id held) (by rw [same]; exact Nat.lt_irrefl _)
    · exact sound.handed running differs id waiter held earlier
  | @elects id _ _ _ _ _ waiter _ pending found =>
    refine ⟨⟨forall_insert sound.fresh (sound.fresh id waiter found), ?_,
      forall_insert sound.needs (sound.needs id waiter found),
      forall_insert ?_ (fun _ _ _ => .inr ⟨rfl, .inl rfl⟩),
      fun _ differs => absurd rfl differs⟩, nofun⟩
    · intro other held
      exact some_inj.mp held ▸ sound.fresh id waiter found
    · intro other read earlier issued complete live
      exact absurd (sound.spent other read earlier issued complete live) (State.not_spends pending)
  | @parks id _ _ _ _ waiter found =>
    refine ⟨⟨forall_insert sound.fresh (sound.fresh id waiter found), sound.electedFresh,
      forall_insert sound.needs (sound.needs id waiter found),
      forall_insert sound.spent (sound.spent id waiter found), ?_⟩, kept.fenced⟩
    intro running differs other read held refound
    rcases lookup_insert_some.mp refound with ⟨same, rfl⟩ | ⟨_, earlier⟩
    · exact sound.handed running differs id waiter (same ▸ held) found
    · exact sound.handed running differs other read held earlier
  | allows =>
    exact ⟨{ sound with }, kept.fenced⟩
  | retains running =>
    refine ⟨sound, fun ended => ?_⟩
    have still : middle.state.phase.isRunning = false := ended
    rw [running] at still
    cases still
  | finishes running marks lost chain =>
    refine chain.kept ⟨?_, nofun⟩
    exact (sound.marks marks).begins (marks.phase.trans running) lost

end Flight

namespace PageFlights

/-- Every entry of the table keeps the invariants. -/
def Ordered (table : PageFlights Page Whole Part Publication) : Prop :=
  ∀ page flight, table.flights.lookup page = some flight → flight.Kept table.nextId

variable {table next : PageFlights Page Whole Part Publication}
  {turn : Turn Page Whole Part Publication}

theorem hushed_lookup (table : PageFlights Page Whole Part Publication) (page other : Page) :
    (table.hushed page).flights.lookup other =
      if other = page then (table.flights.lookup page).map Flight.hushed
      else table.flights.lookup other :=
  lookup_modify table.flights page other _

theorem Ordered.hushed (ordered : table.Ordered) (page : Page) : (table.hushed page).Ordered := by
  intro other flight found
  rw [hushed_lookup] at found
  split at found
  · obtain ⟨old, earlier, rfl⟩ := map_eq_some_iff.mp found
    have kept := ordered page old earlier
    exact ⟨⟨kept.sound.fresh, kept.sound.electedFresh, kept.sound.needs, kept.sound.spent,
      kept.sound.handed⟩, kept.fenced⟩
  · exact ordered other flight found

section

variable (performs : table.Performs turn next)
include performs

/-- The parts of a turn. -/
theorem Performs.turn_eq : turn.reply = ((table.hushed turn.page).answer turn.page turn.call).2 ∧
      turn.before = (table.hushed turn.page).flights.lookup turn.page ∧
      turn.after = next.flights.lookup turn.page ∧
      next = ((table.hushed turn.page).answer turn.page turn.call).1 ∧ turn.now = next.now := by
  have turns : (table.perform turn.page turn.call).1 = turn := congrArg Prod.fst performs
  have nexts : (table.perform turn.page turn.call).2 = next := congrArg Prod.snd performs
  rw [← nexts]
  refine ⟨?_, ?_, ?_, rfl, ?_⟩ <;> conv_lhs => rw [← turns]
  all_goals rfl

theorem Performs.handles (ordered : table.Ordered) {before : Flight Whole Part Publication}
    (present : turn.before = some before) :
    before.Kept table.nextId ∧
      Flight.Handles table.split table.nextId turn.call turn.reply before turn.after := by
  obtain ⟨reply, found, after, last, _⟩ := performs.turn_eq
  have kept := ordered.hushed turn.page turn.page before (found.symm.trans present)
  refine ⟨kept, ?_⟩
  rw [reply, after, last]
  exact answer_handles kept.sound (found.symm.trans present) turn.call

theorem Performs.steady : Steady turn.page table next ∧
      ∀ id, turn.reply = .joined (.ok (.waiter id)) → id < next.nextId := by
  obtain ⟨reply, _, _, last, _⟩ := performs.turn_eq
  have hushed : Steady turn.page table (table.hushed turn.page) := by
    refine ⟨rfl, Nat.le_refl _, fun other differs => ?_⟩
    rw [hushed_lookup, if_neg differs]
  rw [reply, last]
  obtain ⟨steady, allocated⟩ := Steady.answer (table.hushed turn.page) turn.page turn.call
  exact ⟨hushed.trans steady, allocated⟩

/-- Every call keeps the invariants of every entry. -/
theorem Performs.ordered (ordered : table.Ordered) : next.Ordered := by
  obtain ⟨steady, allocated⟩ := performs.steady
  obtain ⟨reply, found, after, last, _⟩ := performs.turn_eq
  intro page flight present
  by_cases same : page = turn.page
  · subst same
    rw [← after] at present
    cases earlier : turn.before with
    | some =>
      obtain ⟨kept, ⟨_, _, opens, evolves, closes⟩⟩ := performs.handles ordered earlier
      rw [present] at closes
      exact closes.kept (evolves.kept (opens.kept kept)) steady.nextId allocated
    | none =>
      have absent := (answer_absent (found.symm.trans earlier) turn.call).2
      rw [← last, ← after, present, ← reply] at absent
      rcases absent with none | ⟨now, deadline, plaintext, joined, made⟩
      · cases none
      cases made
      have empty : Flight.Kept table.nextId ({} : Flight Whole Part Publication) :=
        ⟨⟨nofun, nofun, nofun, nofun, nofun⟩, fun _ => rfl⟩
      have closes : Flight.Closes table.split table.nextId turn.call turn.reply {}
          (some (.register {} now table.nextId deadline true plaintext)) := by
        rw [joined]
        exact .registers fun _ => rfl
      exact closes.kept empty steady.nextId allocated
  · rw [steady.others page same] at present
    have kept := ordered page flight present
    exact ⟨kept.sound.grows steady.nextId, kept.fenced⟩

end

theorem run_ordered {limits : FlightLimits} {split : Publication → Published Whole Part}
    {now : Nat} {turns : List (Turn Page Whole Part Publication)}
    (run : Run Performs (new limits split now) turns table) :
    table.Ordered ∧ table.split = split :=
  run.invariant (fun table => table.Ordered ∧ table.split = split) (fun _ _ _ kept performs =>
      ⟨performs.ordered kept.1, performs.steady.1.split.trans kept.2⟩) ⟨nofun, rfl⟩

end PageFlights

end Unbounded.Flights
