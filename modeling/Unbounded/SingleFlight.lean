/-
This file proves that page flights acquire one at a time. An elected waiter's
acquisition runs until it is settled, and it is settled only when none of its
retained operations runs; no other waiter is told to acquire before that, and the
one told next holds a larger generation. Results appear under the same fence. A
waiter whose acquisition is over is refused, unless it came to hold a later one.

The argument follows an entry through its own calls. Calls on other pages leave
the entry alone, and an entry ends when it is removed.
-/

import Unbounded.FlightTurns

namespace Unbounded.Flights

open Read (Error)
open Relation (ReflTransGen)
open List Transition

variable {Page Whole Part Publication : Type*} [DecidableEq Page]

/-! ### The generation and the fence -/

theorem Identity.advance_generation {identity advanced : Identity} {limit : Nat}
    (advance : identity.advance limit = some advanced) :
    advanced.generation = identity.generation + 1 := by
  unfold Identity.advance at advance
  split at advance
  · cases advance
  · obtain ⟨_, added, rfl⟩ := Option.map_eq_some_iff.mp advance
    exact (Word.checkedAdd_eq_some.mp added).2

namespace Flight

/-- The acquisition of this generation has begun and is not settled. -/
def Runs (generation : Nat) (flight : Flight Whole Part Publication) : Prop :=
  flight.identity.generation = generation ∧ flight.state.phase.isRunning = true

/-- The acquisition of this generation may still publish. -/
def Acquires (generation : Nat) (flight : Flight Whole Part Publication) : Prop :=
  flight.identity.generation = generation ∧ flight.state.phase = .acquiring

instance (generation : Nat) (flight : Flight Whole Part Publication) :
    Decidable (flight.Runs generation) := inferInstanceAs (Decidable (_ ∧ _))

variable {split : Publication → Published Whole Part} {nextId generation : Nat}
  {call : Call Publication} {reply : Reply Whole Part}
  {before start middle after : Flight Whole Part Publication}

theorem Opens.same (opens : Opens call before start) :
    start.identity = before.identity ∧ start.state.phase = before.state.phase ∧
      start.state.elected = before.state.elected ∧
      start.state.partialResult = before.state.partialResult := by
  cases opens with
  | plain | relieves => exact ⟨rfl, rfl, rfl, rfl⟩
  | detaches =>
    unfold State.detach
    split <;> exact ⟨rfl, rfl, rfl, rfl⟩

/-- While an entry moves, the acquisition runs on or was settled without a running operation. -/
theorem Evolves.runs (evolves : start.Evolves split middle) {generation : Nat}
    (runs : start.Runs generation) :
    middle.Runs generation ∨ middle.operations = 0 := by
  have running := evolves.keeps (fun state => state.phase.isRunning = true ∨ start.operations = 0)
    (fun state next running moves => ?_) (.inl runs.2)
  · rcases running with running | none
    · exact .inl ⟨evolves.identity ▸ runs.1, running⟩
    · exact .inr (evolves.operations.trans none)
  · cases moves with
    | marks marks => exact running.imp_left fun running => marks.phase ▸ running
    | adopts => exact running
    | revokes | exhausts => exact .inl rfl
    | settles drained => exact .inr (of_decide_eq_true drained)

section

variable (handles : Handles split nextId call reply before (some after))

include handles

/-- A call on an entry leaves its acquisition running, or settled without a running operation. -/
theorem Handles.runs (kept : before.Kept nextId) (runs : before.Runs generation) :
    after.Runs generation ∨ after.operations = 0 := by
  obtain ⟨start, middle, opens, evolves, closes⟩ := handles
  have fenced := (evolves.kept (opens.kept kept)).fenced
  obtain ⟨identity, phase, _⟩ := opens.same
  have moved := evolves.runs (⟨identity ▸ runs.1, phase ▸ runs.2⟩ : start.Runs generation)
  have numbered : middle.identity.generation = generation := by
    rw [evolves.identity, identity]
    exact runs.1
  cases closes with
  | stays | registers | parks | allows => exact moved
  | elects pending =>
    exact .inr (fenced (by rw [pending]; rfl))
  | retains running =>
    exact .inl ⟨numbered, by rw [running]; rfl⟩
  | finishes _ _ _ chain => exact chain.runs ⟨numbered, rfl⟩

/-- The generation of an entry never goes back. A caller told to acquire holds a larger one than
the entry had, and the acquisition is its own. -/
theorem Handles.numbered : before.identity.generation ≤ after.identity.generation ∧
      (reply.leads = true → before.identity.generation < after.identity.generation ∧
        after.state.phase = .acquiring ∧
        ∀ id now attempts token, call = .poll id now attempts token →
          after.state.elected = some id) := by
  obtain ⟨_, middle, opens, evolves, closes⟩ := handles
  have same : middle.identity = before.identity := evolves.identity.trans opens.same.1
  cases closes with
  | stays quiet =>
    exact ⟨Nat.le_of_eq (by rw [same]), fun leads => Bool.noConfusion (quiet.symm.trans leads)⟩
  | registers | parks | allows | retains =>
    exact ⟨Nat.le_of_eq (congrArg Identity.generation same.symm), nofun⟩
  | elects _ _ _ advanced =>
    have next := Identity.advance_generation advanced
    rw [same] at next
    have larger : before.identity.generation < _ :=
      Nat.lt_of_lt_of_eq (Nat.lt_succ_self _) next.symm
    refine ⟨Nat.le_of_lt larger, fun _ => ⟨larger, rfl, fun id now attempts token polled => ?_⟩⟩
    cases polled
    rfl
  | finishes _ _ _ chain =>
    refine ⟨Nat.le_of_eq ?_, nofun⟩
    rw [chain.identity]
    exact congrArg Identity.generation same.symm

end

/-- While an entry moves, its partial result stays or no operation runs. -/
theorem Evolves.partialResult (evolves : start.Evolves split middle) :
    middle.state.partialResult = start.state.partialResult ∨
      (middle.operations = 0 ∧ middle.state.phase ≠ .acquiring) := by
  rw [evolves.operations]
  refine evolves.keeps (fun state => state.partialResult = start.state.partialResult ∨
    (start.operations = 0 ∧ state.phase ≠ .acquiring)) (fun state next same moves => ?_) (.inl rfl)
  cases moves with
  | marks marks => rw [marks.partialResult, marks.phase]; exact same
  | adopts => exact same
  | revokes | exhausts => exact same.imp_right fun none => ⟨none.1, nofun⟩
  | settles drained held => exact .inr ⟨of_decide_eq_true drained, State.settle_ne_acquiring held⟩

/-- A partial result appears, or gives way, when no operation runs. -/
theorem Handles.partialResult (handles : Handles split nextId call reply before (some after)) :
    after.state.partialResult = before.state.partialResult ∨ after.operations = 0 := by
  obtain ⟨_, _, opens, evolves, closes⟩ := handles
  have moved := evolves.partialResult
  rw [opens.same.2.2.2] at moved
  cases closes with
  | stays | registers | parks | allows | elects => exact moved.imp_right And.left
  | retains running =>
    exact .inl (moved.resolve_right fun none => none.2 running)
  | finishes running marks _ chain =>
    have same := moved.resolve_right fun none => none.2 running
    rcases chain.partialResult with kept | none
    · exact .inl (kept.trans (marks.partialResult.trans same))
    · exact .inr none.1

/-! ### Waiters that lost their claim -/

/-- The waiter has failed or is detached, and does not hold the running acquisition. -/
structure Barred (id : Nat) (state : PageState Whole Part Publication) : Prop where
  lost : state.Lost (some id)
  stale : state.phase = .acquiring → state.leader ≠ some id ∧ state.elected ≠ some id

variable {state : PageState Whole Part Publication} {id : Nat}

/-- A failed waiter is not eligible. -/
theorem ne_of_eligible {other : Nat} {waiter : Waiter Nat Error Nat} (lost : state.Lost (some id))
    (found : state.waiters.lookup other = some waiter) (eligible : waiter.eligible = true) :
    some other ≠ some id := by
  intro same
  have failed := lost other waiter same.symm found
  unfold Waiter.eligible at eligible
  rw [Bool.and_eq_true] at eligible
  cases live : waiter.error with
  | none => rw [live] at failed; cases failed
  | some => rw [live] at eligible; cases eligible.2

variable {outcome : Outcome Publication Error}

theorem settle_lost (held : state.phase = .draining outcome) {holder : Option Nat}
    (lost : state.Lost holder) : (state.settle true .unavailable split).Lost holder := by
  intro id _ same found
  obtain ⟨old, earlier, _, _, error, _⟩ := State.settle_found held found
  rw [error]
  exact lost id old same earlier

variable {next : PageState Whole Part Publication}

theorem Barred.moves {idle : Bool} (barred : Barred id state)
    (moves : State.Moves idle .unavailable split state next) : Barred id next := by
  cases moves with
  | marks marks =>
    refine ⟨marks.lost barred.lost, fun running => ?_⟩
    rw [marks.leader, marks.elected]
    exact barred.stale (marks.phase.symm.trans running)
  | adopts running lost found eligible =>
    exact ⟨barred.lost, fun _ => ⟨ne_of_eligible barred.lost found eligible,
      (barred.stale running).2⟩⟩
  | revokes | exhausts => exact ⟨barred.lost, nofun⟩
  | settles _ held =>
    exact ⟨settle_lost held barred.lost, fun running =>
      absurd running (State.settle_ne_acquiring held)⟩

theorem Barred.opens (opens : Opens call before start) (barred : Barred id before.state) :
    Barred id start.state := by
  cases opens with
  | plain | relieves => exact barred
  | detaches =>
    unfold State.detach
    split
    · exact barred
    refine ⟨fun holder waiter same found => barred.lost holder waiter same ?_, barred.stale⟩
    obtain ⟨-, found⟩ := Table.lookup_erase_some.mp found
    exact found

theorem Barred.closes (closes : Closes split nextId call reply middle (some after))
    (barred : Barred id middle.state) (allocated : id < nextId) : Barred id after.state := by
  cases closes with
  | stays | allows | retains => exact { barred with }
  | registers =>
    refine ⟨fun holder waiter same found => ?_, barred.stale⟩
    rcases Table.lookup_insert_some.mp found with ⟨new, _⟩ | ⟨_, earlier⟩
    · exact absurd allocated (by rw [Option.some_inj.mp same, new]; exact Nat.lt_irrefl _)
    · exact barred.lost holder waiter same earlier
  | elects _ found eligible =>
    have other := ne_of_eligible barred.lost found eligible
    refine ⟨fun holder waiter same refound => ?_, fun _ => ⟨other, other⟩⟩
    rcases Table.lookup_insert_some.mp refound with ⟨new, _⟩ | ⟨_, earlier⟩
    · exact absurd (congrArg some new.symm |>.trans same.symm) other
    · exact barred.lost holder waiter same earlier
  | parks found =>
    refine ⟨fun holder waiter same refound => ?_, barred.stale⟩
    rcases Table.lookup_insert_some.mp refound with ⟨new, rfl⟩ | ⟨_, earlier⟩
    · have failed := barred.lost _ _ (same.trans (congrArg some new)) found
      exact failed
    · exact barred.lost holder waiter same earlier
  | finishes _ marks lost chain =>
    refine chain.keeps (Barred id) (fun state next barred moves => barred.moves moves) ?_
    exact ⟨marks.lost barred.lost, nofun⟩

/-- A waiter that lost its claim does not regain it. -/
theorem Handles.barred (handles : Handles split nextId call reply before (some after))
    (barred : Barred id before.state) (allocated : id < nextId) : Barred id after.state := by
  obtain ⟨_, _, opens, evolves, closes⟩ := handles
  exact .closes closes (evolves.keeps (Barred id)
    (fun state next barred moves => barred.moves moves) (barred.opens opens)) allocated

/-! ### What becomes of an elected waiter -/

/-- The waiter was elected for the acquisition in progress; before a retry it has failed or is
detached. -/
structure Holding (id : Nat) (state : PageState Whole Part Publication) : Prop where
  elected : state.elected = some id
  running : state.phase.isRunning = true
  lost : state.phase = .draining .retry → state.Lost (some id)

/-- What becomes of a waiter elected once: its acquisition is in progress, it lost its claim, the
flight is over, or a partial result renewed it. -/
def Claim (own : Prop) (id : Nat) (state : PageState Whole Part Publication) : Prop :=
  (own ∧ Holding id state) ∨ Barred id state ∨ state.phase.isFinal = true ∨
    state.partialResult.isSome = true

theorem Holding.begins (holding : Holding id state)
    (lost : outcome = .retry → state.Lost state.elected) :
    Holding id (state.beginCompletion outcome) := by
  refine ⟨holding.elected, rfl, fun retried => ?_⟩
  have lost := lost (Phase.draining.inj retried)
  rw [holding.elected] at lost
  exact lost

/-- A settlement is final, leaves a partial result, or is a retry. -/
theorem settle_result (split : Publication → Published Whole Part)
    (held : state.phase = .draining outcome) :
    (state.settle true .unavailable split).phase.isFinal = true ∨
      (state.settle true .unavailable split).partialResult.isSome = true ∨
      (outcome = .retry ∧
        (state.settle true .unavailable split).partialResult = state.partialResult) := by
  rw [State.settle_held held]
  cases outcome with
  | published value =>
    show (State.exposePublished _ (split value)).phase.isFinal = true ∨
      (State.exposePublished _ (split value)).partialResult.isSome = true ∨ _
    cases split value with
    | complete => exact .inl rfl
    | partially => exact .inr (.inl rfl)
  | failed => exact .inl rfl
  | retry => exact .inr (.inr ⟨rfl, rfl⟩)

variable {own : Prop}

theorem Claim.moves {idle : Bool} (claim : Claim own id state)
    (moves : State.Moves idle .unavailable split state next) : Claim own id next := by
  rcases claim with ⟨owned, holding⟩ | barred | final | renewed
  · cases moves with
    | marks marks =>
      refine .inl ⟨owned, marks.elected.trans holding.elected, marks.phase ▸ holding.running, ?_⟩
      exact fun retried => marks.lost (holding.lost (marks.phase.symm.trans retried))
    | adopts =>
      refine .inl ⟨owned, holding.elected, holding.running, fun retried => ?_⟩
      exact holding.lost retried
    | revokes running lost => exact .inl ⟨owned, holding.begins fun _ => lost⟩
    | exhausts pending =>
      have running := holding.running
      rw [pending] at running
      cases running
    | settles drained held =>
      rcases settle_result split held with final | renewed | ⟨rfl, _⟩
      · exact .inr (.inr (.inl final))
      · exact .inr (.inr (.inr renewed))
      · refine .inr (.inl ⟨settle_lost held (holding.lost held), fun running => ?_⟩)
        exact absurd running (State.settle_ne_acquiring held)
  · exact .inr (.inl (barred.moves moves))
  · cases moves with
    | marks marks => exact .inr (.inr (.inl (marks.phase ▸ final)))
    | adopts running | revokes running | exhausts running | settles _ running =>
      rw [running] at final
      cases final
  · cases moves with
    | marks marks => exact .inr (.inr (.inr (marks.partialResult ▸ renewed)))
    | adopts | revokes | exhausts => exact .inr (.inr (.inr renewed))
    | settles _ held =>
      rcases settle_result split held with final | renewed | ⟨_, same⟩
      · exact .inr (.inr (.inl final))
      · exact .inr (.inr (.inr renewed))
      · exact .inr (.inr (.inr (same ▸ renewed)))

theorem Claim.opens (opens : Opens call before start) (claim : Claim own id before.state) :
    Claim own id start.state := by
  rcases claim with ⟨owned, holding⟩ | barred | rest
  · refine .inl ⟨owned, opens.same.2.2.1.trans holding.elected, opens.same.2.1 ▸ holding.running,
      fun retried => ?_⟩
    rw [opens.same.2.1] at retried
    have barred : Barred id before.state := ⟨holding.lost retried, fun running => ?_⟩
    · exact (barred.opens opens).lost
    · rw [retried] at running
      cases running
  · exact .inr (.inl (barred.opens opens))
  · refine .inr (.inr ?_)
    rw [opens.same.2.1, opens.same.2.2.2]
    exact rest

/-- What becomes of a waiter elected once, as a call closes: it does so without touching the phase,
by an election, or by a finish. -/
theorem Claim.closes (closes : Closes split nextId call reply middle (some after))
    (claim : Claim own id middle.state) (allocated : id < nextId) :
    Claim (own ∧ after.identity = middle.identity) id after.state := by
  have stays (barred : Barred id middle.state) := Barred.closes closes barred allocated
  cases closes with
  | stays | registers | parks | allows | retains =>
    rcases claim with ⟨owned, holding⟩ | barred | rest
    · refine .inl ⟨⟨owned, rfl⟩, holding.elected, holding.running, fun retried => ?_⟩
      refine (stays ⟨holding.lost retried, fun running => ?_⟩).lost
      cases running.symm.trans retried
    · exact .inr (.inl (stays barred))
    · exact .inr (.inr rest)
  | elects pending =>
    rcases claim with ⟨_, holding⟩ | barred | final | renewed
    · have running := holding.running
      rw [pending] at running
      cases running
    · exact .inr (.inl (stays barred))
    · rw [pending] at final
      cases final
    · exact .inr (.inr (.inr renewed))
  | finishes running marks lost chain =>
    refine chain.keeps (Claim _ id) (fun state next claim moves => claim.moves moves) ?_
    rcases claim with ⟨owned, holding⟩ | barred | final | renewed
    · have held : Holding id _ := ⟨marks.elected.trans holding.elected,
        marks.phase ▸ holding.running, fun retried => by
          rw [marks.phase, running] at retried
          cases retried⟩
      exact .inl ⟨⟨owned, chain.identity⟩, held.begins lost⟩
    · exact .inr (.inl ⟨marks.lost barred.lost, nofun⟩)
    · rw [running] at final
      cases final
    · exact .inr (.inr (.inr (marks.partialResult ▸ renewed)))

/-- What becomes of a waiter elected once, across a call. -/
theorem Handles.claim (handles : Handles split nextId call reply before (some after))
    (claim : Claim (before.identity.generation = generation) id before.state)
    (allocated : id < nextId) : Claim (after.identity.generation = generation) id after.state := by
  obtain ⟨_, _, opens, evolves, closes⟩ := handles
  have closed := Claim.closes closes (evolves.keeps (Claim _ id)
    (fun state next claim moves => claim.moves moves) (claim.opens opens)) allocated
  refine closed.imp_left fun held => ⟨?_, held.2⟩
  rw [held.1.2, evolves.identity, opens.same.1]
  exact held.1.1

/-- An entry that may publish after it moved could before, for the same elected waiter. -/
theorem Evolves.acquiring (evolves : start.Evolves split middle)
    (acquiring : middle.state.phase = .acquiring) :
    start.state.phase = .acquiring ∧ middle.state.elected = start.state.elected := by
  refine evolves.keeps (fun state => state.phase = .acquiring →
    start.state.phase = .acquiring ∧ state.elected = start.state.elected)
    (fun state next same moves running => ?_) (fun running => ⟨running, rfl⟩) acquiring
  cases moves with
  | marks marks =>
    rw [marks.elected]
    exact same (marks.phase.symm.trans running)
  | adopts => exact same running
  | revokes | exhausts => cases running
  | settles _ held => exact absurd running (State.settle_ne_acquiring held)

section

variable (handles : Handles split nextId call reply before (some after))

include handles

/-- An acquisition keeps its elected waiter across a call. -/
theorem Handles.owned (numbered : generation ≤ before.identity.generation)
    (owned : before.Acquires generation → before.state.elected = some id)
    (acquires : after.Acquires generation) : after.state.elected = some id := by
  have same : before.identity.generation = generation :=
    Nat.le_antisymm (handles.numbered.1.trans_eq acquires.1) numbered
  obtain ⟨_, _, opens, evolves, closes⟩ := handles
  obtain ⟨identity, phase, elected, _⟩ := opens.same
  cases closes with
  | stays | registers | parks | allows | retains =>
    obtain ⟨running, held⟩ := evolves.acquiring acquires.2
    exact held.trans (elected.trans (owned ⟨same, phase.symm.trans running⟩))
  | elects _ _ _ advanced =>
    have next := Identity.advance_generation advanced
    rw [evolves.identity, identity, same] at next
    exact absurd (acquires.1.symm.trans next) (Nat.ne_of_lt (Nat.lt_succ_self _))
  | finishes _ _ _ chain => cases (chain.acquiring acquires.2).1

/-- An acquisition that ends without an accepted finish bars the waiter elected for it. -/
theorem Handles.revokes (acquires : before.Acquires generation)
    (elected : before.state.elected = some id) (allocated : id < nextId)
    (ended : ¬ after.Acquires generation) (unfinished : ∀ caller result, call = .finish caller
    result → reply ≠ .done (.ok ()) ) : Barred id after.state := by
  obtain ⟨_, middle, opens, evolves, closes⟩ := handles
  obtain ⟨identity, phase, held, _⟩ := opens.same
  have moved : (middle.state.phase = .acquiring ∧ middle.state.elected = some id) ∨
      Barred id middle.state := by
    refine evolves.keeps (fun state => (state.phase = .acquiring ∧ state.elected = some id) ∨
      Barred id state) (fun state next moved moves => ?_)
      (.inl ⟨phase.trans acquires.2, held.trans elected⟩)
    rcases moved with ⟨running, elected⟩ | barred
    · cases moves with
      | marks marks => exact .inl ⟨marks.phase.trans running, marks.elected.trans elected⟩
      | adopts => exact .inl ⟨running, elected⟩
      | revokes _ lost => exact .inr ⟨elected ▸ lost, nofun⟩
      | exhausts pending | settles _ pending => rw [running] at pending; cases pending
    · exact .inr (barred.moves moves)
  rcases moved with ⟨running, _⟩ | barred
  · have numbered : middle.identity.generation = generation := by
      rw [evolves.identity, identity]
      exact acquires.1
    cases closes with
    | stays | registers | parks | allows | retains =>
      exact absurd ⟨numbered, running⟩ ended
    | elects pending => rw [running] at pending; cases pending
    | finishes => exact absurd rfl (unfinished _ _ rfl)
  · exact .closes closes barred allocated

end

end Flight

/-! ### Turns of one entry -/

namespace Turn

variable (turn : Turn Page Whole Part Publication) (page : Page)

/-- The call leaves the entry of the page in place. -/
def Keeps : Prop :=
  turn.page = page → turn.after.isSome = true

/-- The call is a poll that told its waiter to acquire. -/
def Leads (id : Nat) (led : Flight Whole Part Publication) : Prop :=
  turn.page = page ∧ turn.reply.leads = true ∧ turn.after = some led ∧
    ∃ now attempts token, turn.call = .poll id now attempts token

/-- The acquisition of this generation was in progress before the call and is settled after it,
without a retained operation. -/
def Settles (generation : Nat) : Prop :=
  turn.page = page ∧ ∃ before after, turn.before = some before ∧ turn.after = some after ∧
    before.Runs generation ∧ ¬ after.Runs generation ∧ after.operations = 0

/-- The call made an outcome visible: a final phase, or a change of the partial result. -/
def Exposes (after : Flight Whole Part Publication) :
    Prop :=
  (after.state.phase.isFinal = true ∧
      ∀ before, turn.before = some before → before.state.phase ≠ after.state.phase) ∨
    after.state.partialResult ≠ turn.before.bind fun before => before.state.partialResult

/-- The acquisition of this generation could publish before the call and cannot after it, and the
call is not its accepted finish. -/
def Revokes (generation : Nat) : Prop :=
  turn.page = page ∧
    (∃ before after, turn.before = some before ∧ turn.after = some after ∧
      before.Acquires generation ∧ ¬ after.Acquires generation) ∧
    ∀ caller result, turn.call = .finish caller result → turn.reply ≠ .done (.ok ())

/-- The call acts as the leader: it finishes or retains an operation. -/
def ActsAs (id : Nat) : Prop :=
  turn.page = page ∧ (turn.call = .retainOperation id ∨ ∃ result, turn.call = .finish id result)

/-- The call was refused, and left what a refresh alone leaves. -/
def Refused (acting : Flight Whole Part Publication) :
    Prop :=
  turn.reply = .done (.error .internal) ∧ turn.after = some acting

end Turn

namespace PageFlights

variable {table next : PageFlights Page Whole Part Publication}
  {turns between : List (Turn Page Whole Part Publication)}
  {before flight led : Flight Whole Part Publication}
  {after last middle : PageFlights Page Whole Part Publication}

/-- A property of an entry that its own calls keep holds as long as the entry stays. -/
theorem run_entry (page : Page)
    (property : List (Turn Page Whole Part Publication) → Flight Whole Part Publication → Prop)
    (hushes : ∀ turns flight, property turns flight → property turns flight.hushed)
    (passes : ∀ turns turn flight, turn.page ≠ page → property turns flight →
      property (turns ++ [turn]) flight)
    (kept : ∀ turns turn nextId before after, table.nextId ≤ nextId → before.Kept nextId →
      turn.page = page → turn.before = some before → turn.after = some after →
      Flight.Handles table.split nextId turn.call turn.reply before (some after) →
      property turns before → property (turns ++ [turn]) after) (ordered : table.Ordered)
    (run : Run Performs table turns last) (stays : ∀ turn ∈ turns, turn.Keeps page)
    (present : table.flights.lookup page = some flight) (start : property [] flight) :
    (last.Ordered ∧ last.split = table.split ∧ table.nextId ≤ last.nextId) ∧
      ∃ flight, last.flights.lookup page = some flight ∧ property turns flight := by
  induction run with
  | nil => exact ⟨⟨ordered, rfl, Nat.le_refl _⟩, flight, present, start⟩
  | @snoc _ _ _ turn _ performs ih =>
    obtain ⟨⟨orderly, split, grows⟩, entry, held, holds⟩ := ih
      fun turn member => stays turn (mem_append_left _ member)
    have steady := performs.steady.1
    refine ⟨⟨performs.ordered orderly, steady.split.trans split, grows.trans steady.nextId⟩, ?_⟩
    by_cases same : turn.page = page
    · obtain ⟨_, before, after, _⟩ := performs.turn_eq
      rw [hushed_lookup, if_pos rfl, same, held] at before
      have remains := stays turn (mem_append_right _ mem_cons_self) same
      obtain ⟨next, left⟩ := Option.isSome_iff_exists.mp remains
      obtain ⟨keeps, handles⟩ := performs.handles orderly before
      rw [left, split] at handles
      refine ⟨next, ?_, kept _ _ _ _ _ grows keeps same before left handles (hushes _ _ holds)⟩
      rw [← same, ← after, left]
    · refine ⟨entry, ?_, passes _ _ _ same holds⟩
      rw [steady.others page (Ne.symm same), held]

variable {page : Page}

section

variable {turn : Turn Page Whole Part Publication} (performs : table.Performs turn next)

include performs

/-- The entry a poll that leads leaves. -/
theorem leads_entry (ordered : table.Ordered) {id : Nat} (leads : turn.Leads page id led) :
    ∃ before, turn.before = some before ∧ before.Kept table.nextId ∧
      before.identity.generation < led.identity.generation ∧ led.state.phase = .acquiring ∧
      led.state.elected = some id ∧ next.flights.lookup page = some led ∧ id < next.nextId := by
  obtain ⟨same, replied, after, now, attempts, token, polled⟩ := leads
  obtain ⟨reply, found, left, _⟩ := performs.turn_eq
  cases present : turn.before with
  | none =>
    have quiet := (answer_absent (found.symm.trans present) turn.call).1
    rw [← reply, replied] at quiet
    cases quiet
  | some before =>
    obtain ⟨kept, handles⟩ := performs.handles ordered present
    rw [after] at handles
    obtain ⟨larger, acquiring, elected⟩ := handles.numbered.2 replied
    have entry : next.flights.lookup page = some led := by rw [← same, ← left, after]
    have own := elected id now attempts token polled
    have allocated := (performs.ordered ordered page led entry).sound.electedFresh id own
    exact ⟨before, rfl, kept, larger, acquiring, own, entry, allocated⟩

/-- A waiter that does not hold the running acquisition is refused. -/
theorem acts_refused {id : Nat} (acts : turn.ActsAs page id) (present : turn.before = some before)
    (stale : (before.refresh table.split turn.now).state.validateLeader id = false) :
    turn.Refused (before.refresh table.split turn.now) := by
  obtain ⟨reply, found, left, last, clock⟩ := performs.turn_eq
  have refreshes : (table.hushed turn.page).refreshed turn.page =
      some (before.refresh table.split table.now) := by
    unfold refreshed
    rw [← found, present]
    rfl
  have keepsClock (act : Flight Whole Part Publication → Flight Whole Part Publication) :
      ((table.hushed turn.page).asLeader turn.page id act).1.now = table.now := by
    unfold asLeader
    rw [refreshes]
    dsimp only
    split <;> rfl
  have refused (act : Flight Whole Part Publication → Flight Whole Part Publication)
      (stale : (before.refresh table.split table.now).state.validateLeader id = false) :
      (table.hushed turn.page).asLeader turn.page id act =
        ((table.hushed turn.page).store turn.page (before.refresh table.split table.now),
          .error .internal) := by
    unfold asLeader
    rw [refreshes]
    dsimp only
    rw [stale]
    rfl
  obtain ⟨act, answered⟩ : ∃ act, (table.hushed turn.page).answer turn.page turn.call =
      (((table.hushed turn.page).asLeader turn.page id act).1,
        .done ((table.hushed turn.page).asLeader turn.page id act).2) := by
    rcases acts.2 with retains | ⟨_, finishes⟩
    · rw [retains]
      exact ⟨_, rfl⟩
    · rw [finishes]
      exact ⟨_, rfl⟩
  rw [answered] at reply last
  have sameClock : turn.now = table.now := by
    rw [clock, last]
    exact keepsClock act
  rw [sameClock] at stale ⊢
  refine ⟨?_, ?_⟩
  · rw [reply, refused act stale]
  · rw [left, last, refused act stale]
    exact store_lookup _ _ _

end

variable {first second : Turn Page Whole Part Publication}

/-- A call in a run, another one later, and what lies between them. -/
theorem run_around {earlier later : List (Turn Page Whole Part Publication)}
    (run : Run Performs table (earlier ++ first :: (between ++ second :: later)) last) :
    ∃ before next middle after, Run Performs table earlier before ∧ before.Performs first next ∧
      Run Performs next between middle ∧ middle.Performs second after := by
  obtain ⟨before, opening, rest⟩ := run.between
  obtain ⟨next, performs, rest⟩ := rest.uncons
  obtain ⟨middle, inside, rest⟩ := rest.between
  obtain ⟨after, again, _⟩ := rest.uncons
  exact ⟨before, next, middle, after, opening, performs, inside, again⟩

theorem before_eq {turn : Turn Page Whole Part Publication} (performs : table.Performs turn next)
    (same : turn.page = page) (present : table.flights.lookup page = some flight) :
    turn.before = some flight.hushed := by
  rw [performs.turn_eq.2.1, hushed_lookup, if_pos rfl, same, present, Option.map_some]

/-- Between two elections of one entry the first acquisition was settled without a retained
operation. -/
theorem settled_between {id other : Nat} {again : Flight Whole Part Publication}
    (ordered : table.Ordered) (performs : table.Performs first next)
    (leads : first.Leads page id led) (inside : Run Performs next between middle)
    (stays : ∀ turn ∈ between, turn.Keeps page) (performsAgain : middle.Performs second after)
    (leadsAgain : second.Leads page other again) :
    led.identity.generation < again.identity.generation ∧
      ∃ turn ∈ between ++ [second], turn.Settles page led.identity.generation := by
  obtain ⟨_, _, _, _, acquiring, _, entry, _⟩ := leads_entry performs ordered leads
  obtain ⟨⟨orderly, _, grows⟩, flight, held, numbered, progress⟩ := run_entry page
    (fun turns flight => led.identity.generation ≤ flight.identity.generation ∧
      (flight.Runs led.identity.generation ∨
        ∃ turn ∈ turns, turn.Settles page led.identity.generation))
    (fun _ _ holds => holds)
    (fun turns turn flight _ holds => ⟨holds.1, holds.2.imp_right fun ⟨settling, member, settles⟩ =>
      ⟨settling, mem_append_left _ member, settles⟩⟩)
    (fun turns turn nextId before after grows kept same found left handles holds => by
      refine ⟨holds.1.trans handles.numbered.1, ?_⟩
      rcases holds.2 with runs | ⟨settling, member, settles⟩
      · by_cases still : after.Runs led.identity.generation
        · exact .inl still
        · exact .inr ⟨turn, mem_append_right _ mem_cons_self, same, before, after, found,
            left, runs, still, (handles.runs kept runs).resolve_left still⟩
      · exact .inr ⟨settling, mem_append_left _ member, settles⟩)
    (performs.ordered ordered) inside stays entry
    ⟨Nat.le_refl _, .inl ⟨rfl, by rw [acquiring]; rfl⟩⟩
  obtain ⟨_, found, kept, larger, _⟩ := leads_entry performsAgain orderly leadsAgain
  have same := before_eq performsAgain leadsAgain.1 held
  rw [found] at same
  cases same
  have increases : led.identity.generation < again.identity.generation :=
    Nat.lt_of_le_of_lt numbered larger
  refine ⟨increases, ?_⟩
  rcases progress with runs | ⟨settling, member, settles⟩
  · have concluded : ¬ again.Runs led.identity.generation := fun runs =>
      Nat.ne_of_lt increases runs.1.symm
    obtain ⟨_, handles⟩ := performsAgain.handles orderly found
    rw [leadsAgain.2.2.1] at handles
    exact ⟨second, mem_append_right _ mem_cons_self, leadsAgain.1, _, again, found,
      leadsAgain.2.2.1, runs, concluded, (handles.runs kept runs).resolve_left concluded⟩
  · exact ⟨settling, mem_append_left _ member, settles⟩

/-- An outcome becomes visible only when no retained operation runs. -/
theorem exposes_idle {turn : Turn Page Whole Part Publication} (performs : table.Performs turn next)
    (ordered : table.Ordered) {after : Flight Whole Part Publication}
    (left : turn.after = some after) (exposes : turn.Exposes after) : after.operations = 0 := by
  obtain ⟨_, found, entry, last, _⟩ := performs.turn_eq
  have kept := performs.ordered ordered turn.page after (entry.symm.trans left)
  rcases exposes with ⟨final, _⟩ | changed
  · refine kept.fenced ?_
    cases phase : after.state.phase with
    | complete | failed | retryPending => rfl
    | acquiring | draining => rw [phase] at final; cases final
  · cases present : turn.before with
    | some =>
      obtain ⟨_, handles⟩ := performs.handles ordered present
      rw [left] at handles
      rw [present] at changed
      exact handles.partialResult.resolve_left changed
    | none =>
      have absent := (answer_absent (found.symm.trans present) turn.call).2
      rw [← last, ← entry, left] at absent
      rcases absent with none | ⟨_, _, _, _, made⟩
      · cases none
      · cases made
        rfl

/-- What is known of a waiter elected for a generation after some calls on its entry. -/
structure Tracked (page : Page) (generation id : Nat)
    (turns : List (Turn Page Whole Part Publication)) (flight : Flight Whole Part Publication) :
    Prop where
  numbered : generation ≤ flight.identity.generation
  owned : flight.Acquires generation → flight.state.elected = some id
  claim : Flight.Claim (flight.identity.generation = generation) id flight.state
  barred : (∃ revoking ∈ turns, revoking.Revokes page generation) → Flight.Barred id flight.state

omit [DecidableEq Page] in
theorem Tracked.hushed {generation id : Nat} (tracked : Tracked page generation id turns flight) :
    Tracked page generation id turns flight.hushed := by
  have barred (barred : Flight.Barred id flight.state) : Flight.Barred id flight.hushed.state :=
    { barred with }
  refine { tracked with claim := ?_, barred := fun revoked => barred (tracked.barred revoked) }
  rcases tracked.claim with ⟨own, holding⟩ | lost | rest
  · exact .inl ⟨own, { holding with }⟩
  · exact .inr (.inl (barred lost))
  · exact .inr (.inr rest)

omit [DecidableEq Page] in
/-- A call on the entry keeps track of the waiter. -/
theorem Tracked.turn {generation id nextId : Nat} {split : Publication → Published Whole Part}
    {turn : Turn Page Whole Part Publication} {after : Flight Whole Part Publication}
    (tracked : Tracked page generation id turns before) (allocated : id < nextId)
    (found : turn.before = some before) (left : turn.after = some after)
    (handles : Flight.Handles split nextId turn.call turn.reply before (some after)) :
    Tracked page generation id (turns ++ [turn]) after := by
  refine ⟨tracked.numbered.trans handles.numbered.1, handles.owned tracked.numbered tracked.owned,
    handles.claim tracked.claim allocated, ?_⟩
  rintro ⟨revoking, member, revokes⟩
  rcases mem_append.mp member with earlier | latest
  · exact handles.barred (tracked.barred ⟨revoking, earlier, revokes⟩) allocated
  cases mem_singleton.mp latest
  obtain ⟨_, ⟨_, _, first_eq, last_eq, acquires, ended⟩, unfinished⟩ := revokes
  cases found.symm.trans first_eq
  cases left.symm.trans last_eq
  exact handles.revokes acquires (tracked.owned acquires) allocated ended unfinished

/-- A waiter whose acquisition is over is refused, unless a partial result renewed it and it came
to hold a later acquisition; after a revocation it is refused. -/
theorem refused_after {turn : Turn Page Whole Part Publication} {id : Nat} (ordered : table.Ordered)
    (performs : table.Performs first next) (leads : first.Leads page id led)
    (inside : Run Performs next between middle) (stays : ∀ turn ∈ between, turn.Keeps page)
    (acting : middle.Performs turn after) (acts : turn.ActsAs page id)
    (found : turn.before = some before) :
    ((∃ revoking ∈ between, revoking.Revokes page led.identity.generation) →
        turn.Refused (before.refresh table.split turn.now)) ∧
      (¬ (before.refresh table.split turn.now).Acquires led.identity.generation →
        turn.Refused (before.refresh table.split turn.now) ∨
          ((before.refresh table.split turn.now).state.validateLeader id = true ∧
            led.identity.generation < (before.refresh table.split turn.now).identity.generation ∧
            (before.refresh table.split turn.now).state.partialResult.isSome = true)) := by
  obtain ⟨_, _, _, _, acquiring, elected, entry, allocated⟩ := leads_entry performs ordered leads
  have start : Tracked page led.identity.generation id [] led := by
    refine ⟨Nat.le_refl _, fun _ => elected, .inl ⟨rfl, elected, ?_, fun retried => ?_⟩, ?_⟩
    · rw [acquiring]
      rfl
    · rw [acquiring] at retried
      cases retried
    · rintro ⟨_, member, _⟩
      cases member
  obtain ⟨⟨_, split, _⟩, flight, held, tracked⟩ := run_entry page
    (Tracked page led.identity.generation id) (fun _ _ tracked => tracked.hushed)
    (fun turns turn flight differs tracked => { tracked with
      barred := fun ⟨revoking, member, revokes⟩ => by
        rcases mem_append.mp member with earlier | latest
        · exact tracked.barred ⟨revoking, earlier, revokes⟩
        · cases mem_singleton.mp latest
          exact absurd revokes.1 differs })
    (fun _ _ _ _ _ grows _ _ found left handles tracked =>
      tracked.turn (allocated.trans_le grows) found left handles)
    (performs.ordered ordered) inside stays entry start
  have same := before_eq acting acts.1 held
  rw [found] at same
  cases same
  have splits : middle.split = table.split := split.trans performs.steady.1.split
  rw [← splits]
  generalize refreshed : Flight.refresh flight.hushed middle.split turn.now = refresh
  have evolves : flight.hushed.Evolves middle.split refresh :=
    refreshed ▸ Flight.refresh_evolves _ _ _
  have refuses (stale : refresh.state.validateLeader id = false) : turn.Refused refresh := by
    rw [← refreshed] at stale ⊢
    exact acts_refused acting acts found stale
  have staleOf (barred : Flight.Barred id refresh.state) :
      refresh.state.validateLeader id = false := by
    rw [Bool.eq_false_iff]
    intro valid
    obtain ⟨running, holder⟩ := Flight.validateLeader_iff.mp valid
    obtain ⟨leader, elected⟩ := barred.stale running
    exact holder.elim leader elected
  refine ⟨fun revoked => refuses (staleOf ?_), fun concluded => ?_⟩
  · exact evolves.keeps (Flight.Barred id) (fun _ _ barred moves => barred.moves moves)
      (tracked.hushed.barred revoked)
  · cases valid : refresh.state.validateLeader id with
    | false => exact .inl (refuses valid)
    | true =>
      obtain ⟨running, _⟩ := Flight.validateLeader_iff.mp valid
      have claim := evolves.keeps (Flight.Claim _ id) (fun _ _ claim moves => claim.moves moves)
        tracked.hushed.claim
      have numbered : led.identity.generation ≤ refresh.identity.generation := by
        rw [evolves.identity]
        exact tracked.numbered
      have larger : led.identity.generation < refresh.identity.generation :=
        Nat.lt_of_le_of_ne numbered fun equal => concluded ⟨equal.symm, running⟩
      refine .inr ⟨rfl, larger, ?_⟩
      rcases claim with ⟨own, _⟩ | barred | final | renewed
      · rw [evolves.identity] at larger
        exact absurd own (Nat.ne_of_gt larger)
      · rw [staleOf barred] at valid
        cases valid
      · rw [running] at final
        cases final
      · exact renewed

/-- Page flights acquire one at a time, under increasing generations, and expose outcomes only
when no retained operation runs; a waiter whose acquisition is over is refused, unless it came to
hold a later one. -/
theorem single_flight {limits : FlightLimits} {split : Publication → Published Whole Part}
    {start : Nat} {turns : List (Turn Page Whole Part Publication)}
    {last : PageFlights Page Whole Part Publication}
    (run : Run Performs (new limits split start) turns last) :
    (∀ earlier first between second later page id other led again,
      turns = earlier ++ first :: (between ++ second :: later) →
      first.Leads page id led → second.Leads page other again →
      (∀ turn ∈ between, turn.Keeps page) →
      led.identity.generation < again.identity.generation ∧
        ∃ turn ∈ between ++ [second], turn.Settles page led.identity.generation) ∧
    (∀ turn ∈ turns, ∀ after, turn.after = some after → turn.Exposes after → after.operations = 0) ∧
    (∀ earlier first between turn later page id led before,
      turns = earlier ++ first :: (between ++ turn :: later) →
      first.Leads page id led → (∀ turn ∈ between, turn.Keeps page) →
      turn.ActsAs page id → turn.before = some before →
      ((∃ revoking ∈ between, revoking.Revokes page led.identity.generation) →
        turn.Refused (before.refresh split turn.now)) ∧
      (¬ (before.refresh split turn.now).Acquires led.identity.generation →
        turn.Refused (before.refresh split turn.now) ∨
          ((before.refresh split turn.now).state.validateLeader id = true ∧
            led.identity.generation < (before.refresh split turn.now).identity.generation ∧
            (before.refresh split turn.now).state.partialResult.isSome = true))) := by
  refine ⟨?_, ?_, ?_⟩
  · rintro earlier first between _ later page id _ led _ rfl leads leadsAgain stays
    obtain ⟨before, next, middle, after, opening, performs, inside, performsAgain⟩ := run_around run
    exact settled_between (run_ordered opening).1 performs leads inside stays performsAgain
      leadsAgain
  · intro turn member after left exposes
    obtain ⟨earlier, later, rfl⟩ := append_of_mem member
    obtain ⟨before, opening, rest⟩ := run.between
    obtain ⟨next, performs, _⟩ := rest.uncons
    exact exposes_idle performs (run_ordered opening).1 left exposes
  · rintro _ _ _ _ _ _ _ _ _ rfl leads stays acts found
    obtain ⟨_, _, _, _, opening, performs, inside, acting⟩ := run_around run
    have refused := refused_after (run_ordered opening).1 performs leads inside stays acting acts
      found
    rw [(run_ordered opening).2] at refused
    exact refused

/-! ### A renewed waiter that adopts -/

/-- Tables of numbered pages whose contents are numbers. -/
abbrev NatFlights := PageFlights Nat Nat Nat (Published Nat Nat)

abbrev NatTurn := Turn Nat Nat Nat (Published Nat Nat)

/-- Two callers that need the complete page. -/
def bothJoin : List (Nat × Call (Published Nat Nat)) :=
  [(0, .join 0 10 1 true fun _ => .ok ()), (0, .join 0 10 1 true fun _ => .ok ())]

/-- The first publishes a part of the page; the second leads, retains an operation and is
canceled, so that its acquisition passes to the first. -/
def passedOn : List (Nat × Call (Published Nat Nat)) :=
  [(0, .finish 0 (.ok (.partially 1))), (0, .poll 1 0 1 8), (0, .allowHandover 1),
    (0, .retainOperation 1), (0, .cancel 1)]

/-- The table once both callers have joined. -/
def joined : NatFlights := ((new {} id 0).replay bothJoin).2

/-- The poll that elects the first caller. -/
def firstPoll : NatTurn × NatFlights :=
  joined.perform 0 (.poll 0 0 1 7)

/-- The poll that elects the second caller. -/
def secondPoll : NatTurn × NatFlights :=
  (firstPoll.2.replay (passedOn.take 1)).2.perform 0 (.poll 1 0 1 8)

/-- The finish of the first caller after it adopted. -/
def adopterFinish : NatTurn × NatFlights :=
  (firstPoll.2.replay passedOn).2.perform 0 (.finish 0 (.ok (.complete 2)))

/-- The call is no poll of the first caller. -/
def spares : Call (Published Nat Nat) → Bool
  | .poll 0 _ _ _ => false
  | _ => true

/-- The call was accepted. -/
def accepts : Reply Nat Nat → Bool
  | .done (.ok ()) => true
  | _ => false

theorem accepts_iff {reply : Reply Nat Nat} : accepts reply = true ↔ reply = .done (.ok ()) := by
  unfold accepts
  split <;> simp_all

/-- The whole page is published once the operations end. -/
def publishes : Phase Nat (Published Nat Nat) Error → Bool
  | .draining (.published (.complete 2)) => true
  | _ => false

theorem publishes_iff {phase : Phase Nat (Published Nat Nat) Error} :
    publishes phase = true ↔ phase = .draining (.published (.complete 2)) := by
  unfold publishes
  split <;> simp_all

theorem firstPoll_leads : ∃ led, firstPoll.1.Leads 0 0 led ∧ led.identity.generation = 1 := by
  have left : ∃ led ∈ firstPoll.1.after, led.identity.generation = 1 := by decide +kernel
  obtain ⟨led, after, numbered⟩ := left
  exact ⟨led, ⟨rfl, by decide +kernel, after, 0, 1, 7, rfl⟩, numbered⟩

theorem secondPoll_leads : ∃ again, secondPoll.1.Leads 0 1 again := by
  have left : secondPoll.1.after.isSome = true := by decide +kernel
  obtain ⟨again, after⟩ := Option.isSome_iff_exists.mp left
  exact ⟨again, rfl, by decide +kernel, after, 0, 1, 8, rfl⟩

/-- The finish of the first caller after the second was elected. -/
def lateFinish : NatTurn × NatFlights :=
  secondPoll.2.perform 0 (.finish 0 (.ok (.complete 2)))

/-- The first of two callers leads and publishes a part of the page, which becomes visible when no
operation runs. The second needs the whole page and leads the next generation; the first, which
finishes once more, is refused. -/
theorem single_flight_retry :
    ∃ earlier first between second led again before,
      Run Performs (new {} id 0 : NatFlights)
        (earlier ++ first :: (between ++ [second, lateFinish.1])) lateFinish.2 ∧
      first.Leads 0 0 led ∧ second.Leads 0 1 again ∧
      led.identity.generation < again.identity.generation ∧
      (∃ turn ∈ between ++ [second], turn.Settles 0 led.identity.generation) ∧
      (∃ turn ∈ between, ∃ after,
        turn.after = some after ∧ turn.Exposes after ∧ after.operations = 0) ∧
      lateFinish.1.before = some before ∧
      lateFinish.1.Refused (before.refresh id lateFinish.1.now) := by
  obtain ⟨led, leads, numbered⟩ := firstPoll_leads
  obtain ⟨again, leadsAgain⟩ := secondPoll_leads
  have run : Run Performs (new {} id 0 : NatFlights)
      (((new {} id 0).replay bothJoin).1 ++ firstPoll.1 ::
        ((firstPoll.2.replay (passedOn.take 1)).1 ++ [secondPoll.1, lateFinish.1])) lateFinish.2 :=
    (replay_run bothJoin _).trans (.cons (rfl : joined.Performs firstPoll.1 firstPoll.2)
      ((replay_run (passedOn.take 1) firstPoll.2).trans (.cons rfl (.single rfl))))
  have kept : ∀ turn ∈ (firstPoll.2.replay (passedOn.take 1)).1, turn.after.isSome := by
    decide +kernel
  have exposed : ∃ turn ∈ (firstPoll.2.replay (passedOn.take 1)).1, ∃ after ∈ turn.after,
      after.state.partialResult ≠ turn.before.bind fun before => before.state.partialResult := by
    decide +kernel
  have stale : ∃ before ∈ lateFinish.1.before,
      (before.refresh id lateFinish.1.now).identity.generation = 2 ∧
        (before.refresh id lateFinish.1.now).state.validateLeader 0 = false := by decide +kernel
  obtain ⟨settled, idle, refuses⟩ := single_flight run
  obtain ⟨grows, settling⟩ := settled _ _ _ _ _ 0 0 1 led again rfl leads leadsAgain
    fun turn member _ => kept turn member
  obtain ⟨turn, member, after, left, changed⟩ := exposed
  obtain ⟨before, found, renumbered, unled⟩ := stale
  have shown : turn.Exposes after := .inr changed
  have ended : ¬ (before.refresh id lateFinish.1.now).Acquires led.identity.generation := by
    intro acquires
    rw [acquires.1, numbered] at renumbered
    cases renumbered
  refine ⟨_, _, _, _, led, again, before, run, leads, leadsAgain, grows, settling,
    ⟨turn, member, after, left, shown, idle turn ?_ after left shown⟩, found, ?_⟩
  · exact mem_append_right _ (mem_cons_of_mem _ (mem_append_left _ member))
  · refine ((refuses _ _ _ _ [] 0 0 led before (congrArg (_ ++ _ :: ·) (append_cons _ _ _)) leads ?_
      ⟨rfl, .inr ⟨_, rfl⟩⟩ found).2 ended).resolve_right fun adopts =>
        Bool.noConfusion (unled.symm.trans adopts.1)
    exact forall_mem_append.mpr ⟨fun turn member _ => kept turn member,
      forall_mem_singleton.mpr fun _ => by rw [leadsAgain.2.2.1]; rfl⟩

/-- The finish of a waiter whose own acquisition was settled, and that was not elected again, is
accepted and decides the outcome: it adopted the running acquisition. -/
theorem adopter_finish_accepted :
    ∃ (earlier between : List NatTurn) (first turn : _) (last : NatFlights) (led before after : _),
      Run Performs (new {} id 0) (earlier ++ first :: (between ++ [turn])) last ∧
      first.Leads 0 0 led ∧ (∀ later ∈ between, later.Keeps 0) ∧
      (∃ settling ∈ between, settling.Settles 0 led.identity.generation) ∧
      (∀ later ∈ between, later.reply.leads = true →
        ∀ now attempts token, later.call ≠ .poll 0 now attempts token) ∧
      turn.ActsAs 0 0 ∧ turn.before = some before ∧
      ¬ (before.refresh id turn.now).Acquires led.identity.generation ∧
      turn.reply = .done (.ok ()) ∧ turn.after = some after ∧
      after.state.phase = .draining (.published (.complete 2)) := by
  obtain ⟨led, leads, numbered⟩ := firstPoll_leads
  have run : Run Performs (new {} id 0 : NatFlights)
      (((new {} id 0).replay bothJoin).1 ++ firstPoll.1 ::
        ((firstPoll.2.replay passedOn).1 ++ [adopterFinish.1])) adopterFinish.2 :=
    (replay_run bothJoin _).trans (.cons (rfl : joined.Performs firstPoll.1 firstPoll.2)
      (.snoc (replay_run passedOn firstPoll.2) rfl))
  have kept : ∀ turn ∈ (firstPoll.2.replay passedOn).1, turn.after.isSome := by decide +kernel
  have settled : ∃ turn ∈ (firstPoll.2.replay passedOn).1, turn.page = 0 ∧
      ∃ before ∈ turn.before, before.Runs 1 ∧
        ∃ after ∈ turn.after, ¬ after.Runs 1 ∧ after.operations = 0 := by decide +kernel
  have others : ∀ turn ∈ (firstPoll.2.replay passedOn).1, spares turn.call := by decide +kernel
  have found : ∃ before ∈ adopterFinish.1.before,
      (before.refresh id adopterFinish.1.now).identity.generation = 2 := by decide +kernel
  have accepted : accepts adopterFinish.1.reply := by decide +kernel
  have decided : ∃ after ∈ adopterFinish.1.after, publishes after.state.phase := by decide +kernel
  obtain ⟨before, present, renumbered⟩ := found
  obtain ⟨after, left, outcome⟩ := decided
  refine ⟨_, _, firstPoll.1, adopterFinish.1, _, led, before, after, run, leads,
    fun turn member _ => kept turn member, ?_, ?_, ⟨rfl, .inr ⟨_, rfl⟩⟩, present, ?_,
    accepts_iff.mp accepted, left, publishes_iff.mp outcome⟩
  · obtain ⟨turn, member, same, old, earlier, runs, new, later, concluded⟩ := settled
    rw [numbered]
    exact ⟨turn, member, same, old, new, earlier, later, runs, concluded⟩
  · intro turn member _ now attempts token polls
    have other := others turn member
    rw [polls] at other
    cases other
  · rw [numbered]
    intro acquires
    rw [acquires.1] at renumbered
    cases renumbered

end PageFlights

end Unbounded.Flights
