/-
This file says once what a call of the page flight table can do to an entry. A
state is marked (a caller's error is recorded or its wake target enqueued), the
acquisition is adopted by another caller, it is revoked, or a drained outcome is
settled; a refresh is a chain of such moves. A call opens with one change of its
own, moves, and closes with another: it registers, elects, parks, retains or
finishes. Every result about page flights follows these three parts.
-/

import Unbounded.PageFlights

namespace Unbounded.Flights

open Table Option List

open Read (Error)
open Relation (ReflTransGen)

variable {Page Whole Part Publication Policy Failure Target : Type*} [DecidableEq Page]

/-! ### Marking callers -/

/-- A caller marked: what it may ask for stays, and an error stays an error. -/
structure Waiter.Marked (before after : Waiter Policy Failure Target) : Prop where
  policy : after.policy = before.policy
  acquisition : after.acquisition = before.acquisition
  complete : after.complete = before.complete
  issued : after.issued = before.issued
  error : before.error.isSome = true → after.error.isSome = true

theorem Waiter.Marked.refl (waiter : Waiter Policy Failure Target) : waiter.Marked waiter :=
  ⟨rfl, rfl, rfl, rfl, fun failed => failed⟩

theorem Waiter.Marked.trans {first second third : Waiter Policy Failure Target}
    (earlier : first.Marked second) (later : second.Marked third) : first.Marked third :=
  ⟨later.policy.trans earlier.policy, later.acquisition.trans earlier.acquisition,
    later.complete.trans earlier.complete, later.issued.trans earlier.issued,
    fun failed => later.error (earlier.error failed)⟩

namespace State

variable {state before after : State Whole Part Publication Policy Failure Target}

variable (state) in
/-- The wake targets still parked, for a state read through its table. -/
theorem parked_perm :
    state.parked.Perm (state.waiters.entries.filterMap fun entry => entry.2.waker) :=
  (perm_insertionSort _ _).filterMap _

variable {old : Waiter Policy Failure Target}

/-- Replacing one caller replaces its wake target. -/
theorem parked_insert {id : Nat} (found : state.waiters.lookup id = some old)
    (new : Waiter Policy Failure Target) :
    ∃ others, state.parked.Perm (old.waker.toList ++ others) ∧
      ∀ next : State Whole Part Publication Policy Failure Target,
        next.waiters = state.waiters.insert id new →
        next.parked.Perm (new.waker.toList ++ others) := by
  have front (waiter : Waiter Policy Failure Target)
      (rest : List ((_ : Nat) × Waiter Policy Failure Target)) :
      ((⟨id, waiter⟩ : (_ : Nat) × Waiter Policy Failure Target) :: rest).filterMap
          (fun entry => entry.2.waker) =
        waiter.waker.toList ++ rest.filterMap fun entry => entry.2.waker := by
    rw [filterMap_cons]
    cases waiter.waker <;> rfl
  refine ⟨(state.waiters.erase id).entries.filterMap fun entry => entry.2.waker, ?_, ?_⟩
  · refine state.parked_perm.trans ?_
    rw [← front]
    exact (entries_perm_erase found).filterMap _
  · intro next replaced
    refine next.parked_perm.trans ?_
    rw [replaced, ← front]
    exact List.Perm.refl _

/-- A step that only marks callers and wakes some of them. -/
structure Marks (before after : State Whole Part Publication Policy Failure Target) : Prop where
  phase : after.phase = before.phase
  leader : after.leader = before.leader
  elected : after.elected = before.elected
  handover : after.handover = before.handover
  partialResult : after.partialResult = before.partialResult
  waiters : ∀ id, Option.Rel Waiter.Marked (before.waiters.lookup id) (after.waiters.lookup id)
  /-- Every target taken from a caller is enqueued, and no other. -/
  tokens : ∃ woken, after.wakes = before.wakes ++ woken ∧ before.parked.Perm (woken ++ after.parked)

theorem rel_refl (waiters : Option (Waiter Policy Failure Target)) :
    Option.Rel Waiter.Marked waiters waiters := by
  cases waiters with
  | none => exact .none
  | some waiter => exact .some (.refl waiter)

theorem prune_marks (deadlines : List (Nat × Nat)) : state.Marks { state with deadlines } :=
  ⟨rfl, rfl, rfl, rfl, rfl, fun _ => rel_refl _, [], (append_nil _).symm, List.Perm.refl _⟩

theorem Marks.refl : state.Marks state := prune_marks state.deadlines

theorem Marks.trans {first second third : State Whole Part Publication Policy Failure Target}
    (earlier : first.Marks second) (later : second.Marks third) : first.Marks third where
  phase := later.phase.trans earlier.phase
  leader := later.leader.trans earlier.leader
  elected := later.elected.trans earlier.elected
  handover := later.handover.trans earlier.handover
  partialResult := later.partialResult.trans earlier.partialResult
  waiters id := by
    have before := earlier.waiters id
    have after := later.waiters id
    revert before after
    generalize first.waiters.lookup id = one
    generalize second.waiters.lookup id = two
    generalize third.waiters.lookup id = three
    intro before after
    cases before with
    | none => exact after
    | some marked =>
      cases after with
      | some again => exact .some (marked.trans again)
  tokens := by
    obtain ⟨woken, enqueued, taken⟩ := earlier.tokens
    obtain ⟨more, again, rest⟩ := later.tokens
    refine ⟨woken ++ more, ?_, ?_⟩
    · rw [again, enqueued, append_assoc]
    · rw [append_assoc]
      exact taken.trans (rest.append_left woken)

/-- A change of one caller that takes its wake target or leaves it is a mark. -/
theorem marks_insert {id : Nat} {deadlines : List (Nat × Nat)} {wakes woken : List Target}
    (found : before.waiters.lookup id = some old) (new : Waiter Policy Failure Target)
    (marked : old.Marked new) (enqueued : wakes = before.wakes ++ woken)
    (taken : old.waker.toList = woken ++ new.waker.toList) :
    before.Marks { before with waiters := before.waiters.insert id new, deadlines, wakes } where
  phase := rfl
  leader := rfl
  elected := rfl
  handover := rfl
  partialResult := rfl
  waiters other := by
    rw [lookup_insert_eq]
    by_cases same : other = id
    · rw [if_pos same, same, found]
      exact .some marked
    · rw [if_neg same]
      exact rel_refl _
  tokens := by
    obtain ⟨_, held, left⟩ := parked_insert found new
    refine ⟨woken, enqueued, held.trans ?_⟩
    rw [taken, append_assoc]
    exact (left _ rfl).symm.append_left woken

theorem refreshWaiter_marks (view : WaiterPolicy Policy Failure) (id : Nat) :
    state.Marks (state.refreshWaiter view id) := by
  unfold refreshWaiter
  split
  · exact .refl
  rename_i waiter found
  split
  · exact .refl
  rename_i error _
  exact marks_insert found { waiter with error := some error, waker := none }
    ⟨rfl, rfl, rfl, rfl, fun _ => rfl⟩ rfl (append_nil _).symm

theorem cancel_marks (id : Nat) (error : Failure) : state.Marks (state.cancel id error) := by
  cases found : state.waiters.lookup id with
  | none =>
    have same : state.cancel id error = state := by
      unfold cancel Table.modify
      rw [found]
    rw [same]
    exact .refl
  | some waiter =>
    unfold cancel Table.modify
    rw [found]
    exact marks_insert found { waiter with error := some error }
      ⟨rfl, rfl, rfl, rfl, fun _ => rfl⟩ (append_nil _).symm rfl

theorem notify_parked : state.notify.parked = [] := by
  refine List.Perm.eq_nil (state.notify.parked_perm.trans ?_)
  have none : (state.notify.waiters.entries.filterMap fun entry => entry.2.waker) = [] := by
    rw [filterMap_eq_nil_iff]
    intro entry member
    obtain ⟨_, _, rfl⟩ := mem_map.mp member
    rfl
  rw [none]

theorem notify_marks : state.Marks state.notify where
  phase := rfl
  leader := rfl
  elected := rfl
  handover := rfl
  partialResult := rfl
  waiters id := by
    show Option.Rel _ _ ((state.waiters.mapValues _).lookup id)
    rw [lookup_mapValues]
    cases state.waiters.lookup id with
    | none => exact .none
    | some => exact .some ⟨rfl, rfl, rfl, rfl, fun failed => failed⟩
  tokens := by
    refine ⟨state.parked, rfl, ?_⟩
    rw [notify_parked, append_nil]

theorem expireDue_marks (view : WaiterPolicy Policy Failure) (now count : Nat) :
    state.Marks (expireDue view now count state) := by
  induction count generalizing state with
  | zero => exact .refl
  | succ _ ih =>
    unfold expireDue
    split
    · exact .refl
    rename_i id rest _
    split
    · exact .refl
    · exact ((prune_marks rest).trans (refreshWaiter_marks view id)).trans ih

/-! ### The moves of a state -/

/-- Whoever holds this place is detached or has failed. -/
def Lost (state : State Whole Part Publication Policy Failure Target) (holder : Option Nat) :
    Prop :=
  ∀ id waiter, holder = some id → state.waiters.lookup id = some waiter → waiter.error.isSome = true

variable {waiter : Waiter Policy Failure Target}

theorem cancel_lost (id : Nat) (error : Failure) : (state.cancel id error).Lost (some id) := by
  rintro _ waiter ⟨⟩ found
  have written : (state.waiters.modify id fun waiter => { waiter with error := some error }).lookup
      id = some waiter := found
  rw [lookup_modify, if_pos rfl] at written
  obtain ⟨_, _, rfl⟩ := map_eq_some_iff.mp written
  rfl

section

variable (marks : before.Marks after)

include marks

/-- A caller of a marked state was attached before, and was marked since. -/
theorem Marks.found {id : Nat} (found : after.waiters.lookup id = some waiter) :
    ∃ old, before.waiters.lookup id = some old ∧ old.Marked waiter :=
  exists_of_rel_some (marks.waiters id) found

/-- Marking detaches nobody. -/
theorem Marks.kept {id : Nat} (found : before.waiters.lookup id = some waiter) :
    ∃ new, after.waiters.lookup id = some new ∧ waiter.Marked new :=
  exists_of_some_rel (marks.waiters id) found

theorem Marks.lost {holder : Option Nat} (lost : before.Lost holder) : after.Lost holder := by
  intro id _ held found
  obtain ⟨old, earlier, marked⟩ := marks.found found
  exact marked.error (lost id old held earlier)

end

variable (idle : Bool) (unavailable : Failure) (split : Publication → Published Whole Part) in
/-- What a refresh can do to a state, one move at a time. -/
inductive Moves :
    State Whole Part Publication Policy Failure Target →
      State Whole Part Publication Policy Failure Target → Prop
  | marks {before after : _} (marks : before.Marks after) : Moves before after
  | adopts {state : _} {id waiter} (running : state.phase = .acquiring)
      (lost : state.Lost state.leader)
      (found : state.waiters.lookup id = some waiter) (eligible : waiter.eligible = true) :
      Moves state { state with leader := some id }
  | revokes {state : _} (running : state.phase = .acquiring) (lost : state.Lost state.elected) :
      Moves state (state.beginCompletion .retry)
  | exhausts {state : _} {error} (pending : state.phase = .retryPending) :
      Moves state (state.beginCompletion (.failed error))
  | settles {state : _} {outcome} (drained : idle = true) (held : state.phase = .draining outcome) :
      Moves state (state.settle true unavailable split)

section

variable {idle : Bool} {unavailable : Failure} {split : Publication → Published Whole Part}

theorem settle_moves :
    ReflTransGen (Moves idle unavailable split) state (state.settle idle unavailable split) := by
  cases drained : idle with
  | false => exact .refl
  | true =>
    cases held : state.phase with
    | draining => exact .single (.settles rfl held)
    | acquiring | retryPending | complete | failed =>
      unfold settle
      rw [if_pos rfl, held]

/-- A revocation marks the elected caller first. -/
theorem revoke_moves (error : Failure) (running : state.phase = .acquiring) :
    ReflTransGen (Moves idle unavailable split) state (state.revoke error) := by
  unfold revoke
  have ending (marked : State Whole Part Publication Policy Failure Target)
      (marks : state.Marks marked) (lost : marked.Lost marked.elected) :
      ReflTransGen (Moves idle unavailable split) state (marked.beginCompletion .retry).notify := by
    refine .tail (.tail (.single (.marks marks)) (.revokes (marks.phase.trans running) lost)) ?_
    exact .marks notify_marks
  cases elected : state.elected with
  | none =>
    refine ending state .refl fun id waiter held => ?_
    rw [elected] at held
    cases held
  | some id =>
    exact ending (state.cancel id error) (cancel_marks id error) (elected ▸ cancel_lost id error)

variable (view : WaiterPolicy Policy Failure)

theorem candidates_eligible : ∀ candidate ∈ state.candidates view, ∃ waiter,
      state.waiters.lookup candidate.2 = some waiter ∧ waiter.eligible = true := by
  intro candidate member
  obtain ⟨entry, listed, rfl⟩ := mem_map.mp ((mem_insertionSort _).mp member)
  obtain ⟨listed, chosen⟩ := mem_filter.mp listed
  exact ⟨entry.2, mem_entries.mp ((mem_insertionSort _).mp listed),
    (Bool.and_eq_true_iff.mp chosen).2⟩

/-- A handover marks the candidates it passes over; the adopter was eligible and still is. -/
theorem adoptFirst_spec (pairs : List (Nat × Nat))
    (origin state : State Whole Part Publication Policy Failure Target) (since : origin.Marks state)
    (chosen : ∀ pair ∈ pairs, ∃ waiter,
      origin.waiters.lookup pair.2 = some waiter ∧ waiter.eligible = true) :
    if (adoptFirst view pairs state).2 then
      ∃ middle id waiter, origin.Marks middle ∧ middle.waiters.lookup id = some waiter ∧
        waiter.eligible = true ∧ (adoptFirst view pairs state).1 = { middle with leader := some id }
    else origin.Marks (adoptFirst view pairs state).1 := by
  induction pairs generalizing state with
  | nil => exact since
  | cons first _ ih =>
    have checked := since.trans (refreshWaiter_marks view first.2)
    unfold adoptFirst
    by_cases holds : ((state.refreshWaiter view first.2).waiters.lookup first.2).any
        fun waiter => waiter.error.isNone
    · rw [if_pos holds]
      obtain ⟨waiter, found, live⟩ := any_eq_true _ _ |>.mp holds
      obtain ⟨_, earlier, eligible⟩ := chosen first mem_cons_self
      obtain ⟨new, later, marked⟩ := checked.kept earlier
      have same : new = waiter := mem_unique later found
      subst same
      refine ⟨_, first.2, new, checked, found, ?_, rfl⟩
      unfold Waiter.eligible at eligible ⊢
      rw [Bool.and_eq_true] at eligible ⊢
      rw [marked.acquisition, marked.issued]
      exact ⟨eligible.1, live⟩
    · rw [if_neg holds]
      exact ih _ checked fun pair member => chosen pair (mem_cons_of_mem first member)

theorem replaceLeader_moves (canceled : Failure) :
    ReflTransGen (Moves idle unavailable split) state (state.replaceLeader view idle canceled) := by
  unfold replaceLeader
  by_cases gone : (state.phase.isAcquiring && (state.leader.bind fun id =>
      state.waiters.lookup id).all fun waiter => waiter.error.isSome) = true
  · rw [if_pos gone]
    obtain ⟨acquiring, failed⟩ := Bool.and_eq_true_iff.mp gone
    have running := Phase.isAcquiring_iff.mp acquiring
    have lost : state.Lost state.leader := by
      intro id waiter held found
      rw [held, bind_some, found] at failed
      exact failed
    by_cases permitted : (state.handover && !idle) = true
    · rw [if_pos permitted]
      have spec := adoptFirst_spec view (state.candidates view) state state .refl
        (candidates_eligible view)
      unfold handOver
      by_cases passed : (adoptFirst view (state.candidates view) state).2 = true
      · rw [if_pos passed] at spec ⊢
        obtain ⟨_, _, _, marks, found, eligible, result⟩ := spec
        rw [result]
        refine .tail (.single (.marks marks))
          (.adopts (marks.phase.trans running) ?_ found eligible)
        rw [marks.leader]
        exact marks.lost lost
      · rw [if_neg passed] at spec ⊢
        exact .head (.marks spec) (revoke_moves _ (spec.phase.trans running))
    · rw [if_neg permitted]
      exact revoke_moves _ running
  · rw [if_neg gone]

theorem refreshLeader_marks : state.Marks (state.refreshLeader view) := by
  unfold refreshLeader
  split
  · exact refreshWaiter_marks view _
  · exact .refl

theorem failStranded_moves : ReflTransGen (Moves idle unavailable split) state
      (state.failStranded idle unavailable split) := by
  unfold failStranded
  split
  · rename_i stranded
    rw [Bool.and_assoc, Bool.and_eq_true] at stranded
    exact .head (.exhausts (Phase.isRetryPending_iff.mp stranded.1)) settle_moves
  · exact .refl

theorem refresh_moves (canceled : Failure) (now : Nat) :
    ReflTransGen (Moves idle unavailable split) state
      (state.refresh view idle unavailable canceled now split) := by
  have refreshed : state.Marks _ := refreshLeader_marks view
  have checked := refreshed.trans (expireDue_marks view now 64)
  exact (((ReflTransGen.single (.marks checked)).trans (replaceLeader_moves view canceled)).trans
    settle_moves).trans failStranded_moves

variable {outcome : Outcome Publication Failure}

section

variable (held : state.phase = .draining outcome)
include held

theorem settle_held : state.settle true unavailable split =
    (expose { state with leader := none, elected := none, handover := false } unavailable split
      outcome).notify := by
  unfold settle
  rw [if_pos rfl, held]

/-- A settlement leaves no acquisition running, and nobody elected for one. -/
theorem settle_ends : (state.settle true unavailable split).phase.isRunning = false ∧
      (state.settle true unavailable split).elected = none := by
  rw [settle_held held]
  cases outcome with
  | published value =>
    show (exposePublished _ (split value)).phase.isRunning = false ∧
      (exposePublished _ (split value)).elected = none
    cases split value <;> exact ⟨rfl, rfl⟩
  | failed => exact ⟨rfl, rfl⟩
  | retry =>
    refine ⟨?_, rfl⟩
    show Phase.isRunning (if _ then _ else _) = false
    split <;> rfl

theorem settle_ne_acquiring : (state.settle true unavailable split).phase ≠ .acquiring := by
  have ended : (state.settle true unavailable split).phase.isRunning = false := (settle_ends held).1
  intro running
  rw [running] at ended
  cases ended

/-- A caller of a settled state was attached before. A partial result gives a caller that needs
the complete one another opportunity. -/
theorem settle_found {id : Nat}
    (found : (state.settle true unavailable split).waiters.lookup id = some waiter) :
    ∃ old, state.waiters.lookup id = some old ∧ waiter.acquisition = old.acquisition ∧
      waiter.complete = old.complete ∧ waiter.error = old.error ∧
      (waiter.issued = true → waiter.complete = true → old.issued = true ∧
        ((state.settle true unavailable split).phase.isFinal = true ∨ outcome = .retry)) := by
  rw [settle_held held] at found ⊢
  obtain ⟨middle, between, rfl⟩ := map_eq_some_iff.mp ((lookup_mapValues _ _ id).symm.trans found)
  cases outcome with
  | published value =>
    revert between
    show (exposePublished _ (split value)).waiters.lookup id = some middle → ∃ old, _ ∧ _ ∧ _ ∧ _ ∧
      (_ → _ → _ ∧ ((exposePublished _ (split value)).phase.isFinal = true ∨ _))
    cases split value with
    | complete =>
      intro between
      exact ⟨middle, between, rfl, rfl, rfl, fun issued _ => ⟨issued, .inl rfl⟩⟩
    | partially =>
      intro between
      obtain ⟨old, earlier, rfl⟩ := map_eq_some_iff.mp
        ((lookup_mapValues state.waiters _ id).symm.trans between)
      refine ⟨old, earlier, ?_⟩
      by_cases needs : old.complete = true
      · simp only [if_pos needs]
        exact ⟨trivial, trivial, trivial, nofun⟩
      · simp only [if_neg needs]
        exact ⟨trivial, trivial, trivial, fun _ complete => absurd complete needs⟩
  | failed => exact ⟨middle, between, rfl, rfl, rfl, fun issued _ => ⟨issued, .inl rfl⟩⟩
  | retry => exact ⟨middle, between, rfl, rfl, rfl, fun issued _ => ⟨issued, .inr rfl⟩⟩

end

/-- A move attaches nobody, and leaves to every caller what it may ask for. -/
theorem Moves.found (moves : Moves idle unavailable split before after) {id : Nat}
    (found : after.waiters.lookup id = some waiter) :
    ∃ old, before.waiters.lookup id = some old ∧ waiter.acquisition = old.acquisition := by
  cases moves with
  | marks marks =>
    obtain ⟨old, earlier, marked⟩ := marks.found found
    exact ⟨old, earlier, marked.acquisition⟩
  | adopts | revokes | exhausts => exact ⟨waiter, found, rfl⟩
  | settles _ held =>
    obtain ⟨old, earlier, same, _⟩ := settle_found held found
    exact ⟨old, earlier, same⟩

theorem Moves.chain_found (chain : ReflTransGen (Moves idle unavailable split) before after)
    {id : Nat} (found : after.waiters.lookup id = some waiter) :
    ∃ old, before.waiters.lookup id = some old ∧ waiter.acquisition = old.acquisition := by
  induction chain generalizing waiter with
  | refl => exact ⟨waiter, found, rfl⟩
  | tail _ moves ih =>
    obtain ⟨_, between, same⟩ := moves.found found
    obtain ⟨old, earlier, again⟩ := ih between
    exact ⟨old, earlier, same.trans again⟩

/-- A move detaches nobody. -/
theorem Moves.absent (moves : Moves idle unavailable split before after) {id : Nat}
    (absent : after.waiters.lookup id = none) : before.waiters.lookup id = none := by
  cases moves with
  | marks marks =>
    cases present : before.waiters.lookup id with
    | none => rfl
    | some =>
      obtain ⟨_, found, _⟩ := marks.kept present
      rw [absent] at found
      cases found
  | adopts | revokes | exhausts => exact absent
  | @settles outcome _ held =>
    rw [settle_held held] at absent
    have exposed := map_eq_none_iff.mp ((lookup_mapValues _ _ id).symm.trans absent)
    cases outcome with
    | published value =>
      revert exposed
      show (exposePublished _ (split value)).waiters.lookup id = none → _
      cases split value with
      | complete => exact fun exposed => exposed
      | partially =>
        exact fun exposed => map_eq_none_iff.mp
          ((lookup_mapValues before.waiters _ id).symm.trans exposed)
    | failed | retry => exact exposed

theorem Moves.chain_absent (chain : ReflTransGen (Moves idle unavailable split) before after)
    {id : Nat} (absent : after.waiters.lookup id = none) : before.waiters.lookup id = none := by
  induction chain with
  | refl => exact absent
  | tail _ moves ih => exact ih (moves.absent absent)

/-! ### What every reachable state keeps -/

/-- The opportunity of this caller is spent on a result it gets, or on an acquisition that has
not come to a retry. -/
def Spends (state : State Whole Part Publication Policy Failure Target) (id : Nat) : Prop :=
  state.phase.isFinal = true ∨
    (state.elected = some id ∧
      (state.phase = .acquiring ∨ ∃ outcome, state.phase = .draining outcome ∧ outcome ≠ .retry))

/-- Identifiers are allocated once; a caller that needs the complete result may acquire; its
opportunity is not lost; after a handover the elected caller is gone. -/
structure Sound (nextId : Nat) (state : State Whole Part Publication Policy Failure Target) :
    Prop where
  fresh : ∀ id waiter, state.waiters.lookup id = some waiter → id < nextId
  electedFresh : ∀ id, state.elected = some id → id < nextId
  needs : ∀ id waiter, state.waiters.lookup id = some waiter → waiter.complete = true →
    waiter.acquisition = true
  spent : ∀ id waiter, state.waiters.lookup id = some waiter → waiter.issued = true →
    waiter.complete = true → waiter.error = none → state.Spends id
  handed : state.phase = .acquiring → state.leader ≠ state.elected → state.Lost state.elected

variable {nextId : Nat}

theorem Sound.marks (sound : before.Sound nextId) (marks : before.Marks after) :
    after.Sound nextId where
  fresh id waiter found := by
    obtain ⟨old, earlier, _⟩ := marks.found found
    exact sound.fresh id old earlier
  electedFresh id held := sound.electedFresh id (marks.elected.symm.trans held)
  needs id waiter found complete := by
    obtain ⟨old, earlier, marked⟩ := marks.found found
    rw [marked.complete] at complete
    rw [marked.acquisition]
    exact sound.needs id old earlier complete
  spent id waiter found issued complete live := by
    obtain ⟨old, earlier, marked⟩ := marks.found found
    have alive : old.error = none := by
      cases failed : old.error with
      | none => rfl
      | some =>
        have still := marked.error (by rw [failed]; rfl)
        rw [live] at still
        cases still
    unfold Spends
    rw [marks.phase, marks.elected]
    exact sound.spent id old earlier (marked.issued ▸ issued) (marked.complete ▸ complete) alive
  handed running differs := by
    rw [marks.elected]
    rw [marks.phase] at running
    rw [marks.leader, marks.elected] at differs
    exact marks.lost (sound.handed running differs)

theorem Sound.grows {allocated : Nat} (sound : state.Sound nextId) (grows : nextId ≤ allocated) :
    state.Sound allocated where
  __ := sound
  fresh id waiter found := (sound.fresh id waiter found).trans_le grows
  electedFresh id held := (sound.electedFresh id held).trans_le grows

theorem not_spends {id : Nat} (pending : state.phase = .retryPending) : ¬ state.Spends id := by
  rintro (final | ⟨_, running | ⟨_, held, _⟩⟩)
  · rw [pending] at final
    cases final
  · rw [pending] at running
    cases running
  · rw [pending] at held
    cases held

/-- An outcome begins; before a retry the elected caller is gone. -/
theorem Sound.begins (sound : state.Sound nextId) (running : state.phase = .acquiring)
    (lost : outcome = .retry → state.Lost state.elected) :
    (state.beginCompletion outcome).Sound nextId := by
  refine { sound with spent := ?_, handed := nofun }
  intro id waiter found issued complete live
  rcases sound.spent id waiter found issued complete live with final | ⟨elected, _⟩
  · rw [running] at final
    cases final
  · refine .inr ⟨elected, .inr ⟨outcome, rfl, fun retried => ?_⟩⟩
    have failed := lost retried id waiter elected found
    rw [live] at failed
    cases failed

theorem Sound.moves (sound : before.Sound nextId)
    (moves : Moves idle unavailable split before after) : after.Sound nextId := by
  cases moves with
  | marks marks => exact sound.marks marks
  | adopts running lost =>
    refine { sound with handed := fun _ _ => ?_ }
    by_cases same : before.leader = before.elected
    · exact same ▸ lost
    · exact sound.handed running same
  | revokes running lost => exact sound.begins running fun _ => lost
  | exhausts pending =>
    refine { sound with spent := ?_, handed := nofun }
    intro id waiter found issued complete live
    exact absurd (sound.spent id waiter found issued complete live) (not_spends pending)
  | settles _ held =>
    refine ⟨?_, ?_, ?_, ?_, ?_⟩
    · intro id waiter found
      obtain ⟨old, earlier, _⟩ := settle_found held found
      exact sound.fresh id old earlier
    · intro id elected
      rw [(settle_ends held).2] at elected
      cases elected
    · intro id waiter found complete
      obtain ⟨old, earlier, acquisition, needs, _⟩ := settle_found held found
      rw [acquisition]
      exact sound.needs id old earlier (needs ▸ complete)
    · intro id waiter found issued complete live
      obtain ⟨old, earlier, _, needs, error, spends⟩ := settle_found held found
      obtain ⟨wasIssued, final | retry⟩ := spends issued complete
      · exact .inl final
      rcases sound.spent id old earlier wasIssued (needs ▸ complete) (error ▸ live) with
        final | ⟨_, running | ⟨_, other, kept⟩⟩
      · rw [held] at final
        cases final
      · rw [held] at running
        cases running
      · rw [held] at other
        exact absurd ((Phase.draining.inj other).symm.trans retry) kept
    · exact fun running => absurd running (settle_ne_acquiring held)

theorem Sound.chain (sound : before.Sound nextId)
    (chain : ReflTransGen (Moves idle unavailable split) before after) : after.Sound nextId := by
  induction chain with
  | refl => exact sound
  | tail _ moves ih => exact ih.moves moves

end

end State

end Unbounded.Flights
