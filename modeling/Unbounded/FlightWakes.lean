/-
This file proves that a page flight strands nobody. A pending retry always has a
caller left to take it, or holds a partial result while every live caller that
needs the complete one may still be elected; and whenever an outcome is settled,
every parked caller's wake target is enqueued exactly once.

The second part is a conservation law: what is parked and what has been enqueued
stay the same targets together, through every move; a settlement parks nobody.
-/

import Unbounded.SingleFlight

namespace Unbounded.Flights

open Read (Error)
open Relation (ReflTransGen)
open List Transition

variable {Page Whole Part Publication Policy Failure Target : Type*} [DecidableEq Page]

namespace State

variable {idle : Bool} {unavailable : Failure} {split : Publication → Published Whole Part}

/-! ### Wakes of a settlement -/

variable {before after state origin : State Whole Part Publication Policy Failure Target}

/-- Changing the callers but not their wake targets parks the same targets. -/
theorem parked_mapValues (change : Waiter Policy Failure Target → Waiter Policy Failure Target)
    (same : ∀ waiter, (change waiter).waker = waiter.waker)
    (changed : after.waiters = before.waiters.mapValues change) :
    after.parked.Perm before.parked := by
  refine (after.parked_perm.trans ?_).trans before.parked_perm.symm
  rw [changed]
  show ((before.waiters.entries.map fun entry => ⟨entry.1, change entry.2⟩).filterMap
    fun entry : (_ : Nat) × Waiter Policy Failure Target => entry.2.waker).Perm _
  rw [filterMap_map]
  refine List.Perm.of_eq (filterMap_congr fun entry _ => ?_)
  exact same entry.2

/-- Interpreting an outcome wakes nobody. -/
theorem expose_parked (unavailable : Failure) (split : Publication → Published Whole Part)
    (state : State Whole Part Publication Policy Failure Target)
    (outcome : Outcome Publication Failure) :
    (state.expose unavailable split outcome).parked.Perm state.parked ∧
      (state.expose unavailable split outcome).wakes = state.wakes := by
  cases outcome with
  | published value =>
    show (exposePublished state (split value)).parked.Perm _ ∧
      (exposePublished state (split value)).wakes = _
    cases split value with
    | complete => exact ⟨List.Perm.refl _, rfl⟩
    | partially =>
      refine ⟨parked_mapValues (fun waiter =>
        if waiter.complete then { waiter with issued := false } else waiter) (fun waiter => ?_) rfl,
        rfl⟩
      by_cases needs : waiter.complete = true
      · rw [if_pos needs]
      · rw [if_neg needs]
  | failed | retry => exact ⟨List.Perm.refl _, rfl⟩

/-- A settlement enqueues the wake target of every parked caller exactly once. -/
theorem settle_wakes (unavailable : Failure) (split : Publication → Published Whole Part)
    {outcome : Outcome Publication Failure} (held : state.phase = .draining outcome) :
    (state.settle true unavailable split).parked = [] ∧
      ∃ woken, (state.settle true unavailable split).wakes = state.wakes ++ woken ∧
        woken.Perm state.parked := by
  rw [settle_held held]
  obtain ⟨parked, wakes⟩ := expose_parked unavailable split
    { state with leader := none, elected := none, handover := false } outcome
  refine ⟨notify_parked, _, ?_, parked⟩
  show (expose _ unavailable split outcome).wakes ++ _ = _
  rw [wakes]

/-! ### Conservation of wake targets -/

/-- No outcome was settled since: the partial result is the same, and so is the phase, unless an
acquisition ended and drains. -/
structure Unsettled (before after : State Whole Part Publication Policy Failure Target) : Prop where
  partialResult : after.partialResult = before.partialResult
  phase : after.phase = before.phase ∨ after.phase.isRunning = true

/-- The parked and the enqueued targets stay the same together; after a settlement nobody is
parked. -/
structure Wakes (before after : State Whole Part Publication Policy Failure Target) : Prop where
  conserved : (after.wakes ++ after.parked).Perm (before.wakes ++ before.parked)
  settled : after.parked = [] ∨ before.Unsettled after

section

variable (wakes : origin.Wakes before)

include wakes

theorem Wakes.marks (marks : before.Marks after) : origin.Wakes after := by
  obtain ⟨_, enqueued, taken⟩ := marks.tokens
  refine ⟨?_, ?_⟩
  · rw [enqueued, append_assoc]
    exact (taken.symm.append_left before.wakes).trans wakes.conserved
  · rcases wakes.settled with none | unsettled
    · rw [none] at taken
      exact .inl (append_eq_nil_iff.mp (taken.symm.eq_nil)).2
    · refine .inr ⟨marks.partialResult.trans unsettled.partialResult, ?_⟩
      rw [marks.phase]
      exact unsettled.phase

theorem Wakes.begins (outcome : Outcome Publication Failure) :
    origin.Wakes (before.beginCompletion outcome) :=
  ⟨wakes.conserved, wakes.settled.imp_right fun unsettled => ⟨unsettled.partialResult, .inr rfl⟩⟩

theorem Wakes.moves (moves : Moves idle unavailable split before after) : origin.Wakes after := by
  cases moves with
  | marks marks => exact wakes.marks marks
  | adopts =>
    exact ⟨wakes.conserved, wakes.settled.imp_right fun unsettled =>
      ⟨unsettled.partialResult, unsettled.phase⟩⟩
  | revokes | exhausts => exact wakes.begins _
  | settles _ held =>
    obtain ⟨none, _, enqueued, taken⟩ := settle_wakes unavailable split held
    refine ⟨?_, .inl none⟩
    rw [enqueued, none, append_nil]
    exact (taken.append_left before.wakes).trans wakes.conserved

end

theorem anyEligible_iff : state.anyEligible = true ↔
      ∃ id waiter, state.waiters.lookup id = some waiter ∧ waiter.eligible = true := by
  unfold anyEligible
  rw [any_eq_true]
  constructor
  · rintro ⟨entry, listed, eligible⟩
    exact ⟨entry.1, entry.2, Table.mem_entries.mp ((mem_insertionSort _).mp listed), eligible⟩
  · rintro ⟨id, waiter, found, eligible⟩
    exact ⟨⟨id, waiter⟩, (mem_insertionSort _).mpr (Table.mem_entries.mpr found), eligible⟩

/-- What fails a stranded retry leaves none behind. -/
theorem failStranded_pending
    (pending : (state.failStranded true unavailable split).phase = .retryPending) :
    (state.failStranded true unavailable split).anyEligible = true ∨
      (state.failStranded true unavailable split).partialResult.isSome = true := by
  unfold failStranded at pending ⊢
  split at pending
  · cases pending
  rename_i attended
  rw [if_neg attended]
  rw [pending] at attended
  by_cases eligible : state.anyEligible = true
  · exact .inl eligible
  refine .inr (Option.isSome_iff_ne_none.mpr fun none => attended ?_)
  rw [none, Bool.eq_false_iff.mpr eligible]
  rfl

/-- Nobody is left behind after a refresh: a pending retry has a caller to take it, or holds a
partial result that leaves to every live caller its opportunity. -/
theorem refresh_eligible (view : WaiterPolicy Policy Failure) (unavailable canceled : Failure)
    (split : Publication → Published Whole Part) (now : Nat) {nextId : Nat}
    {next : State Whole Part Publication Policy Failure Target} (sound : state.Sound nextId)
    (refreshed : state.refresh view true unavailable canceled now split = next)
    (pending : next.phase = .retryPending) :
    (∃ id waiter, next.waiters.lookup id = some waiter ∧ waiter.eligible = true) ∨
      (next.partialResult.isSome = true ∧
        ∀ id waiter, next.waiters.lookup id = some waiter → waiter.error = none →
          waiter.complete = true → waiter.eligible = true) := by
  have chain : ReflTransGen (Moves true unavailable split) state next :=
    refreshed ▸ refresh_moves view canceled now
  have kept := sound.chain chain
  have attended : next.anyEligible = true ∨ next.partialResult.isSome = true := by
    rw [← refreshed] at pending ⊢
    exact failStranded_pending pending
  refine attended.imp anyEligible_iff.mp fun held => ⟨held, ?_⟩
  intro id waiter found live needs
  have unissued : waiter.issued = false := by
    rw [Bool.eq_false_iff]
    exact fun issued => not_spends pending (kept.spent id waiter found issued needs live)
  unfold Waiter.eligible
  rw [kept.needs id waiter found needs, unissued, live]
  rfl

end State

/-! ### Wakes of a call -/

/-- The wake targets of the parked callers besides one that is detached. -/
def State.parkedBut (gone : Option Nat)
    (state : State Whole Part Publication Policy Failure Target) : List Target :=
  (state.attached.filter fun entry => decide (some entry.1 ≠ gone)).filterMap fun entry =>
    entry.2.waker

namespace Flight

variable {split : Publication → Published Whole Part} {nextId : Nat} {call : Call Publication}
  {reply : Reply Whole Part} {before start middle after : Flight Whole Part Publication}

/-- An outcome was settled: a final phase, a pending retry after an acquisition, another partial
result, or an election after the acquisition that was in progress. -/
def SettledSince (before after : Flight Whole Part Publication) : Prop :=
  (after.state.phase.isFinal = true ∧ before.state.phase.isFinal = false) ∨
    (before.state.phase.isRunning = true ∧ after.state.phase = .retryPending) ∨
    after.state.partialResult ≠ before.state.partialResult ∨
    (before.state.phase.isRunning = true ∧ before.identity.generation < after.identity.generation)

theorem detach_lookup (view : WaiterPolicy Nat Error) (id other : Nat)
    (state : PageState Whole Part Publication) :
    (state.detach view id).waiters.lookup other =
      if other = id then none else state.waiters.lookup other := by
  unfold State.detach
  split
  · rename_i absent
    split
    · rename_i same
      rw [same, absent]
    · rfl
  · exact Table.lookup_erase_eq state.waiters id other

/-- The targets parked when a call begins are those of the callers it does not detach. -/
theorem Opens.parked (opens : Opens call before start) (quiet : before.state.wakes = []) :
    start.state.wakes = [] ∧ start.state.parked.Perm (before.state.parkedBut call.detached) := by
  have everyone : before.state.parkedBut none = before.state.parked := by
    unfold State.parkedBut State.parked
    rw [filter_eq_self.mpr fun _ _ => decide_eq_true (Option.some_ne_none _)]
  cases opens with
  | plain stays =>
    rw [stays, everyone]
    exact ⟨quiet, List.Perm.refl _⟩
  | detaches id view =>
    refine ⟨?_, ?_⟩
    · unfold State.detach
      split <;> exact quiet
    · have left : (before.state.detach view id).waiters.entries.Perm
          (before.state.waiters.retain fun other _ => decide (some other ≠ some id)).entries := by
        refine lookup_ext (AList.nodupKeys _) (AList.nodupKeys _) fun other waiter => ?_
        show (before.state.detach view id).waiters.lookup other = some waiter ↔
          (before.state.waiters.retain _).lookup other = some waiter
        rw [detach_lookup, Table.lookup_retain]
        rw [Option.filter_eq_some_iff]
        by_cases same : other = id
        · rw [if_pos same]
          exact iff_of_false nofun fun both => of_decide_eq_true both.2 (congrArg some same)
        · rw [if_neg same]
          exact ⟨fun found => ⟨found, decide_eq_true fun equal => same (Option.some_inj.mp equal)⟩,
            And.left⟩
      refine (State.parked_perm _).trans ((left.filterMap _).trans ?_)
      exact ((perm_insertionSort _ _).symm.filter _).filterMap _
  | relieves =>
    show before.state.wakes = [] ∧ before.state.parked.Perm (before.state.parkedBut none)
    rw [everyone]
    exact ⟨quiet, List.Perm.refl _⟩

theorem isRunning_of_isFinal {phase : Phase Whole Publication Error}
    (final : phase.isFinal = true) : phase.isRunning = false := by
  cases phase with
  | acquiring | retryPending | draining => cases final
  | complete | failed => rfl

/-- An entry that moved without a settlement shows none. -/
theorem not_settledSince (unsettled : before.state.Unsettled after.state)
    (same : after.identity = before.identity) : ¬ before.SettledSince after := by
  rintro (⟨final, unfinished⟩ | ⟨running, pending⟩ | changed | ⟨_, larger⟩)
  · rcases unsettled.phase with kept | running
    · rw [kept, unfinished] at final
      cases final
    · rw [isRunning_of_isFinal final] at running
      cases running
  · rcases unsettled.phase with kept | still
    · rw [← kept, pending] at running
      cases running
    · rw [pending] at still
      cases still
  · exact changed unsettled.partialResult
  · rw [same] at larger
    exact absurd larger (Nat.lt_irrefl _)

/-- A call that settles an outcome enqueues the wake target of every parked caller exactly once. -/
theorem Handles.wakes (handles : Handles split nextId call reply before (some after))
    (quiet : before.state.wakes = []) (settled : before.SettledSince after) :
    after.state.wakes.Perm (before.state.parkedBut call.detached) := by
  obtain ⟨start, middle, opens, evolves, closes⟩ := handles
  obtain ⟨hushed, parked⟩ := opens.parked quiet
  obtain ⟨identity, phase, _, partialResult⟩ := opens.same
  have numbered : middle.identity = before.identity := evolves.identity.trans identity
  have moved : start.state.Wakes middle.state :=
    evolves.keeps (State.Wakes start.state) (fun _ _ wakes moves => wakes.moves moves)
      ⟨List.Perm.refl _, .inr ⟨rfl, .inl rfl⟩⟩
  -- Once nobody is parked, what was enqueued is what was parked at first.
  have enqueued {state : PageState Whole Part Publication} (wakes : start.state.Wakes state)
      (none : state.parked = []) : state.wakes.Perm (before.state.parkedBut call.detached) := by
    have conserved := wakes.conserved
    rw [none, append_nil, hushed] at conserved
    exact conserved.trans parked
  have unchanged {state : PageState Whole Part Publication} (since : start.state.Unsettled state) :
      before.state.Unsettled state :=
    ⟨since.partialResult.trans partialResult, phase ▸ since.phase⟩
  cases closes with
  | stays | registers | parks | allows | retains =>
    rcases moved.settled with none | unsettled
    · have all := enqueued moved none
      exact all
    · have still := unchanged unsettled
      exact absurd settled (not_settledSince ⟨still.partialResult, still.phase⟩ numbered)
  | elects pending =>
    rcases moved.settled with none | unsettled
    · have all := enqueued moved none
      exact all
    · have still := unchanged unsettled
      have same : before.state.phase = .retryPending := by
        rcases still.phase with kept | running
        · exact kept.symm.trans pending
        · rw [pending] at running
          cases running
      rcases settled with ⟨final, _⟩ | ⟨running, _⟩ | changed | ⟨running, _⟩
      · cases final
      · rw [same] at running
        cases running
      · exact absurd still.partialResult changed
      · rw [same] at running
        cases running
  | finishes _ marks _ chain =>
    have ended := chain.keeps (State.Wakes start.state) (fun _ _ wakes moves => wakes.moves moves)
      ((moved.marks marks).begins _)
    rcases ended.settled with none | unsettled
    · exact enqueued ended none
    · exact absurd settled (not_settledSince (unchanged unsettled) (chain.identity.trans numbered))

/-- A call that removes the entry leaves nobody parked. -/
theorem Handles.removed (handles : Handles split nextId call reply before none)
    (quiet : before.state.wakes = []) : before.state.parkedBut call.detached = [] := by
  obtain ⟨start, middle, opens, evolves, closes⟩ := handles
  obtain ⟨_, parked⟩ := opens.parked quiet
  have quiescent : middle.quiescent = true := by
    generalize last : (none : Option (Flight Whole Part Publication)) = result at closes
    cases closes with
    | removes _ quiescent => exact quiescent
    | stays | registers | elects | parks | allows | retains | finishes => cases last
  have empty := isEmpty_iff.mp (Bool.and_eq_true_iff.mp quiescent).1
  have vacant : start.state.waiters.entries = [] := by
    rw [eq_nil_iff_forall_not_mem]
    intro entry member
    have absent : middle.state.waiters.lookup entry.1 = none := by
      cases present : middle.state.waiters.lookup entry.1 with
      | none => rfl
      | some =>
        have listed := Table.mem_entries.mpr present
        rw [empty] at listed
        cases listed
    have found := Table.mem_entries.mp member
    rw [State.Moves.chain_absent evolves.chain absent] at found
    cases found
  refine List.Perm.eq_nil (parked.symm.trans ((State.parked_perm _).trans ?_))
  rw [vacant]
  exact List.Perm.refl _

end Flight

namespace PageFlights

/-- No waiter is stranded: after a refresh a pending retry has somebody to take it, or holds a
partial result and leaves to every live caller its opportunity; and a settled outcome wakes every
parked caller exactly once. -/
theorem no_waiter_stranded {limits : FlightLimits} {split : Publication → Published Whole Part}
    {start : Nat} {turns : List (Turn Page Whole Part Publication)}
    {last : PageFlights Page Whole Part Publication}
    (run : Run Performs (new limits split start) turns last) :
    (∀ page flight now next, last.flights.lookup page = some flight →
      flight.state.refresh (policyAt now) true .unavailable .cancelled now split = next →
      next.phase = .retryPending →
      (∃ id waiter, next.waiters.lookup id = some waiter ∧ waiter.eligible = true) ∨
        (next.partialResult.isSome = true ∧
          ∀ id waiter, next.waiters.lookup id = some waiter → waiter.error = none →
            waiter.complete = true → waiter.eligible = true)) ∧
    (∀ page flight outcome, last.flights.lookup page = some flight →
      flight.state.phase = .draining outcome →
      (flight.state.settle true .unavailable split).parked = [] ∧
        ∃ woken, (flight.state.settle true .unavailable split).wakes =
          flight.state.wakes ++ woken ∧ woken.Perm flight.state.parked) ∧
    (∀ turn ∈ turns, ∀ before, turn.before = some before →
      (∀ after, turn.after = some after → before.SettledSince after →
        after.state.wakes.Perm (before.state.parkedBut turn.call.detached)) ∧
      (turn.after = none → before.state.parkedBut turn.call.detached = [])) := by
  refine ⟨?_, ?_, ?_⟩
  · intro page flight now next present refreshed pending
    exact State.refresh_eligible (policyAt now) .unavailable .cancelled split now
      ((run_ordered run).1 page flight present).sound refreshed pending
  · intro page flight outcome _ held
    exact State.settle_wakes .unavailable split held
  · intro turn member before present
    obtain ⟨_, _, rfl⟩ := append_of_mem member
    obtain ⟨_, opening, rest⟩ := run.between
    obtain ⟨_, performs, _⟩ := rest.uncons
    obtain ⟨_, handles⟩ := performs.handles (run_ordered opening).1 present
    have quiet : before.state.wakes = [] := by
      have found := performs.turn_eq.2.1
      rw [present, hushed_lookup, if_pos rfl] at found
      obtain ⟨_, _, rfl⟩ := Option.map_eq_some_iff.mp found.symm
      rfl
    refine ⟨fun after left settled => ?_, fun removed => ?_⟩
    · rw [left] at handles
      exact handles.wakes quiet settled
    · rw [removed] at handles
      exact handles.removed quiet

/-- The first caller leads and publishes a part while the second is parked. -/
def partWhileParked : List (Nat × Call (Published Nat Nat)) :=
  bothJoin ++ [(0, .poll 0 0 1 7), (0, .poll 1 0 1 8)]

/-- Two callers need the whole page. When the first publishes a part of it, the token the second
parked is woken, once. -/
theorem no_waiter_stranded_partial :
    ∃ (turns : List NatTurn) (last : NatFlights) (turn : _) (before after : _),
      Run Performs (new {} id 0) turns last ∧ turn ∈ turns ∧ turn.before = some before ∧
      turn.after = some after ∧ before.SettledSince after ∧
      before.state.parkedBut turn.call.detached = [8] ∧ after.state.wakes.Perm [8] := by
  generalize table_eq : ((new {} id 0).replay partWhileParked).2 = table
  generalize turn_eq : table.perform 0 (.finish 0 (.ok (.partially 1))) = finished
  have run : Run Performs (new {} id 0 : NatFlights)
      (((new {} id 0).replay partWhileParked).1 ++ [finished.1]) finished.2 := by
    refine (replay_run partWhileParked _).snoc ?_
    rw [table_eq, ← turn_eq]
    rfl
  have found : ∃ before ∈ finished.1.before, before.state.partialResult = none ∧
      before.state.parkedBut finished.1.call.detached = [8] ∧
        ∃ after ∈ finished.1.after, after.state.partialResult = some 1 := by
    rw [← turn_eq, ← table_eq]
    decide +kernel
  obtain ⟨before, present, none, parked, after, remains, published⟩ := found
  have settled : before.SettledSince after := by
    refine .inr (.inr (.inl ?_))
    rw [none, published]
    nofun
  have member : finished.1 ∈ ((new {} id 0).replay partWhileParked).1 ++ [finished.1] :=
    mem_append_right _ mem_cons_self
  have wakes := ((no_waiter_stranded run).2.2 _ member before present).1 after remains settled
  rw [parked] at wakes
  exact ⟨_, _, finished.1, before, after, run, member, present, remains, settled, parked, wakes⟩

end PageFlights

end Unbounded.Flights
