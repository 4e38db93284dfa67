/-
This file models the bounded fanout of subscription responses. A flight is one
acquisition in progress; every response slot waits for one flight. Finishing a
flight answers its slots, or promotes one of its followers, which then owns the
flight under its own token.

Keys, owners, results and wakers are parameters: the fanout makes no assumption
about what is acquired or who is notified.
-/

import Unbounded.Table
import Unbounded.Word

namespace Unbounded.Subscriptions

open List

/-- One retained response slot, including completed but unconsumed responses. -/
structure Pending (Owner Value Error Waker : Type*) where
  owner : Owner
  /-- Current acquisition owner, possibly a promoted follower. -/
  flight : Nat
  deadline : Nat
  /-- Completed responses retain their slot until consumed or abandoned. -/
  result : Option (Except Error Value)
  waker : Option Waker
  /-- Whether this waiter has an acquisition owner available to take. -/
  promoted : Bool

/-- Bounded flight and response storage. -/
structure Fanout (Key Owner Value Error Waker : Type*) where
  next : Nat := 0
  flights : Table Nat Key := ∅
  pending : Table Nat (Pending Owner Value Error Waker) := ∅

namespace Fanout

variable {Key Owner Value Error Waker State : Type*} (fanout : Fanout Key Owner Value Error Waker)

/-- A slot still waits for the flight. -/
def awaits (now flight : Nat) : Bool :=
  fanout.pending.values.any fun slot =>
    decide (slot.flight = flight) && slot.result.isNone && decide (now < slot.deadline)

/-- Attach to live work or reserve a unique new acquisition owner: the slot's token, its flight,
and whether it leads the flight. -/
def attach [DecidableEq Key] (key : Key) (owner : Owner)
    (deadline now maxPending maxFlights : Nat) :
    Option (Fanout Key Owner Value Error Waker × Nat × Nat × Bool) :=
  if maxPending ≤ fanout.pending.size then none
  else
    let existing := (fanout.flights.entries.find? fun entry =>
      decide (entry.2 = key) && fanout.awaits now entry.1).map (·.1)
    if existing = none ∧ maxFlights ≤ fanout.flights.size then none
    else
      (Word.checkedAdd 64 fanout.next 1).map fun token =>
        let flight := existing.getD token
        ({ next := token
           flights := if existing = none then fanout.flights.insert flight key else fanout.flights
           pending := fanout.pending.insert token {
             owner, flight, deadline, result := none, waker := none, promoted := false } },
          token, flight, decide (existing = none))

/-- Expire responses without releasing any acquisition owner's capacity. -/
def expire (now : Nat) (error : Error) : Fanout Key Owner Value Error Waker × List Waker :=
  ({ fanout with
     pending := fanout.pending.mapValues fun slot =>
       if slot.deadline ≤ now then { slot with result := some (.error error), waker := none }
       else slot },
    fanout.pending.values.filterMap fun slot => if slot.deadline ≤ now then slot.waker else none)

/-- Consume or abandon exactly one response slot. -/
def remove (token : Nat) :
    Fanout Key Owner Value Error Waker × Option (Pending Owner Value Error Waker) :=
  ({ fanout with pending := fanout.pending.erase token }, fanout.pending.lookup token)

/-- The slots a flight owes an answer, in token order. -/
def unanswered (flight : Nat) : List Nat :=
  ((fanout.pending.entries.filter fun entry =>
    decide (entry.2.flight = flight) && entry.2.result.isNone).map (·.1)).insertionSort (· ≤ ·)

/-- Move one follower to the promoted flight. -/
def retarget (next : Nat)
    (state : Table Nat (Pending Owner Value Error Waker) × List Waker) (token : Nat) :
    Table Nat (Pending Owner Value Error Waker) × List Waker :=
  (state.1.modify token fun slot => { slot with
      flight := next, promoted := decide (token = next), waker := none },
    state.2 ++ ((state.1.lookup token).bind (·.waker)).toList)

/-- Answer one slot. The caller's policy constructs each response. -/
def answer (complete : State → Nat → Owner → Key → State × Except Error Value) (key : Key)
    (state : Table Nat (Pending Owner Value Error Waker) × State × List Waker) (token : Nat) :
    Table Nat (Pending Owner Value Error Waker) × State × List Waker :=
  match state.1.lookup token with
  | none => state
  | some slot =>
    let (policy, result) := complete state.2.1 token slot.owner key
    (state.1.insert token { slot with result := some result, waker := none }, policy,
      state.2.2 ++ slot.waker.toList)

/-- Complete one owner, optionally promoting exactly one retained follower. -/
def finish (flight : Nat) (promote : Bool)
    (complete : State → Nat → Owner → Key → State × Except Error Value) (policy : State)
    (wake : List Waker) : Fanout Key Owner Value Error Waker × State × List Waker :=
  match fanout.flights.lookup flight with
  | none => (fanout, policy, wake)
  | some key =>
    let flights := fanout.flights.erase flight
    let tokens := fanout.unanswered flight
    let followers := tokens.filter fun token => decide (token ≠ flight)
    match promote, followers.head? with
    | true, some next =>
      let (pending, wake) := followers.foldl (retarget next) (fanout.pending, wake)
      let (pending, policy, wake) :=
        (tokens.filter fun token => decide (token = flight)).foldl (answer complete key)
          (pending, policy, wake)
      ({ fanout with flights := flights.insert next key, pending }, policy, wake)
    | _, _ =>
      let (pending, policy, wake) :=
        tokens.foldl (answer complete key) (fanout.pending, policy, wake)
      ({ fanout with flights, pending }, policy, wake)

/-! ### What attaching a slot does -/

/-- What attaching a slot leaves: a new slot that waits for work of its key in progress, or leads
a flight of its own. -/
inductive Attaches (key : Key) (owner : Owner) (deadline : Nat) :
    Fanout Key Owner Value Error Waker × Nat × Nat × Bool → Prop
  | joined {flight} (known : fanout.flights.lookup flight = some key) :
      Attaches key owner deadline
        ({ fanout with
            next := fanout.next + 1
            pending := fanout.pending.insert (fanout.next + 1) {
              owner, flight, deadline, result := none, waker := none, promoted := false } },
          fanout.next + 1, flight, false)
  | led :
      Attaches key owner deadline
        ({  next := fanout.next + 1
            flights := fanout.flights.insert (fanout.next + 1) key
            pending := fanout.pending.insert (fanout.next + 1) {
              owner, flight := fanout.next + 1, deadline, result := none, waker := none,
              promoted := false } },
          fanout.next + 1, fanout.next + 1, true)

variable {fanout} {key : Key} {owner : Owner} {deadline flight token : Nat}

theorem attach_attaches [DecidableEq Key] {now maxPending maxFlights : Nat}
    {attached : Fanout Key Owner Value Error Waker × Nat × Nat × Bool}
    (attaches : fanout.attach key owner deadline now maxPending maxFlights = some attached) :
    Attaches fanout key owner deadline attached := by
  unfold attach at attaches
  split at attaches
  · cases attaches
  dsimp only at attaches
  split at attaches
  · cases attaches
  obtain ⟨_, added, rfl⟩ := Option.map_eq_some_iff.mp attaches
  obtain ⟨-, rfl⟩ := Word.checkedAdd_eq_some.mp added
  cases existing : (fanout.flights.entries.find? fun entry =>
    decide (entry.2 = key) && fanout.awaits now entry.1) with
  | none => exact .led
  | some entry =>
    have passes := find?_some existing
    rw [Bool.and_eq_true, decide_eq_true_eq] at passes
    have member : ⟨entry.1, key⟩ ∈ fanout.flights.entries :=
      passes.1 ▸ mem_of_find?_eq_some existing
    exact .joined (Table.mem_entries.mp member)

/-- A new slot has a new token and waits for work on its key; other slots and flights stay. -/
theorem Attaches.spec {after : Fanout Key Owner Value Error Waker} {leader : Bool}
    (attaches : Attaches fanout key owner deadline (after, token, flight, leader)) :
    token = fanout.next + 1 ∧ after.next = fanout.next + 1 ∧
      after.pending = fanout.pending.insert (fanout.next + 1) {
        owner, flight, deadline, result := none, waker := none, promoted := false } ∧
      after.flights.lookup flight = some key ∧
      ∀ other, other ≠ fanout.next + 1 →
        after.flights.lookup other = fanout.flights.lookup other := by
  cases attaches with
  | joined known => exact ⟨rfl, rfl, rfl, known, fun _ _ => rfl⟩
  | led =>
    exact ⟨rfl, rfl, rfl, AList.lookup_insert _, fun _ differs => AList.lookup_insert_ne differs⟩

/-! ### What finishing a flight does -/

variable (fanout) in
/-- A slot waits for this flight's answer. -/
def Unanswered (flight token : Nat) (slot : Pending Owner Value Error Waker) : Prop :=
  fanout.pending.lookup token = some slot ∧ slot.flight = flight ∧ slot.result = none

theorem mem_unanswered :
    token ∈ fanout.unanswered flight ↔ ∃ slot, fanout.Unanswered flight token slot := by
  unfold unanswered
  rw [(perm_insertionSort _ _).mem_iff, mem_map]
  simp only [mem_filter, Bool.and_eq_true, decide_eq_true_eq, Option.isNone_iff_eq_none]
  constructor
  · rintro ⟨⟨_, slot⟩, ⟨member, waits⟩, rfl⟩
    exact ⟨slot, Table.mem_entries.mp member, waits⟩
  · rintro ⟨slot, found, waits⟩
    exact ⟨⟨token, slot⟩, ⟨Table.mem_entries.mpr found, waits⟩, rfl⟩

theorem unanswered_nodup (fanout : Fanout Key Owner Value Error Waker) (flight : Nat) :
    (fanout.unanswered flight).Nodup := by
  unfold unanswered
  rw [(perm_insertionSort _ _).nodup_iff]
  exact (fanout.pending.nodupKeys.sublist filter_sublist)

variable {complete : State → Nat → Owner → Key → State × Except Error Value} {tokens : List Nat}

/-- Answering slots leaves every other slot alone. -/
theorem answerAll_other
    {state : Table Nat (Pending Owner Value Error Waker) × State × List Waker} {other : Nat}
    (absent : other ∉ tokens) :
    (tokens.foldl (answer complete key) state).1.lookup other = state.1.lookup other := by
  induction tokens generalizing state with
  | nil => rfl
  | cons _ _ ih =>
    rw [mem_cons, not_or] at absent
    rw [foldl_cons, ih absent.2]
    unfold answer
    split
    · rfl
    · exact AList.lookup_insert_ne absent.1

/-- Answering slots gives each of them a result. -/
theorem answerAll_lookup (distinct : tokens.Nodup)
    (state : Table Nat (Pending Owner Value Error Waker) × State × List Waker)
    (member : token ∈ tokens) {slot : Pending Owner Value Error Waker}
    (found : state.1.lookup token = some slot) :
    ∃ result, (tokens.foldl (answer complete key) state).1.lookup token =
      some { slot with result := some result, waker := none } := by
  induction tokens generalizing state with
  | nil => cases member
  | cons first _ ih =>
    obtain ⟨absent, distinct⟩ := nodup_cons.mp distinct
    rw [foldl_cons]
    rcases mem_cons.mp member with rfl | later
    · rw [answerAll_other absent]
      unfold answer
      rw [found]
      exact ⟨_, AList.lookup_insert _⟩
    · refine ih distinct _ later ?_
      have differs : token ≠ first := fun same => absent (same ▸ later)
      unfold answer
      split
      · exact found
      · exact (AList.lookup_insert_ne differs).trans found

/-- Moving followers to the promoted flight changes these slots only. -/
theorem retargetAll_lookup (next : Nat) (distinct : tokens.Nodup)
    (state : Table Nat (Pending Owner Value Error Waker) × List Waker) (token : Nat) :
    (tokens.foldl (retarget next) state).1.lookup token =
      if token ∈ tokens then (state.1.lookup token).map fun slot =>
        { slot with flight := next, promoted := decide (token = next), waker := none }
      else state.1.lookup token := by
  induction tokens generalizing state with
  | nil => rfl
  | cons first tokens ih =>
    obtain ⟨absent, distinct⟩ := nodup_cons.mp distinct
    rw [foldl_cons, ih distinct]
    unfold retarget
    simp only [Table.lookup_modify, mem_cons]
    by_cases same : token = first
    · subst same
      rw [if_neg absent, if_pos rfl, if_pos (.inl rfl)]
    · by_cases later : token ∈ tokens
      · rw [if_pos later, if_neg same, if_pos (.inr later)]
      · rw [if_neg later, if_neg same, if_neg (not_or.mpr ⟨same, later⟩)]

/-- What the caller's policy does to each response, it does to all of them. -/
theorem answerAll_policy (related : State → State → Prop) (reflexive : ∀ state, related state state)
    (transitive : ∀ first second third, related first second → related second third →
      related first third)
    (completes : ∀ state token owner, related state (complete state token owner key).1)
    (tokens : List Nat) (state : Table Nat (Pending Owner Value Error Waker) × State × List Waker) :
    related state.2.1 (tokens.foldl (answer complete key) state).2.1 := by
  induction tokens generalizing state with
  | nil => exact reflexive _
  | cons _ _ ih =>
    refine transitive _ _ _ ?_ (ih _)
    unfold answer
    split
    · exact reflexive _
    · exact completes _ _ _

/-- What every answer keeps of the slots and the caller's state, answering slots one by one
keeps. -/
theorem answerAll_invariant (invariant : Table Nat (Pending Owner Value Error Waker) → State → Prop)
    (waiting : Pending Owner Value Error Waker → Prop) (distinct : tokens.Nodup)
    (step : ∀ table policy token slot, token ∈ tokens → table.lookup token = some slot →
      waiting slot → invariant table policy →
      invariant (table.insert token
      { slot with result := some (complete policy token slot.owner key).2, waker := none })
      (complete policy token slot.owner key).1)
    (state : Table Nat (Pending Owner Value Error Waker) × State × List Waker)
    (waits : ∀ token ∈ tokens, ∃ slot, state.1.lookup token = some slot ∧ waiting slot)
    (start : invariant state.1 state.2.1) : invariant (tokens.foldl (answer complete key) state).1
      (tokens.foldl (answer complete key) state).2.1 := by
  induction tokens generalizing state with
  | nil => exact start
  | cons token _ ih =>
    obtain ⟨absent, distinct⟩ := nodup_cons.mp distinct
    obtain ⟨slot, found, awaits⟩ := waits token mem_cons_self
    have answered : answer complete key state token = (state.1.insert token { slot with
          result := some (complete state.2.1 token slot.owner key).2, waker := none },
          (complete state.2.1 token slot.owner key).1, state.2.2 ++ slot.waker.toList) := by
      unfold answer
      rw [found]
    refine ih distinct
      (fun table policy other slot member => step table policy other slot
        (mem_cons_of_mem _ member)) _ (fun other member => ?_) ?_
    · obtain ⟨next, present, still⟩ := waits other (mem_cons_of_mem _ member)
      have differs : other ≠ token := fun same => absent (same ▸ member)
      refine ⟨next, ?_, still⟩
      rw [answered, Table.lookup_insert_eq, if_neg differs]
      exact present
    · rw [answered]
      exact step _ _ token slot mem_cons_self found awaits start

theorem not_mem_unanswered (none : ∀ slot, ¬ fanout.Unanswered flight token slot) :
    token ∉ fanout.unanswered flight := by
  intro member
  obtain ⟨slot, waits⟩ := mem_unanswered.mp member
  exact none slot waits

theorem elected_waits {elected : Nat}
    (first : ((fanout.unanswered flight).filter fun token => decide (token ≠ flight)).head? =
      some elected) :
    elected ≠ flight ∧ ∃ slot, fanout.Unanswered flight elected slot := by
  obtain ⟨waiting, differs⟩ := mem_filter.mp (mem_of_head? first)
  rw [decide_eq_true_eq] at differs
  exact ⟨differs, mem_unanswered.mp waiting⟩

variable (fanout flight complete key)

theorem finish_policy (related : State → State → Prop) (reflexive : ∀ state, related state state)
    (transitive : ∀ first second third,
      related first second → related second third → related first third)
    (completes : ∀ state token owner key, related state (complete state token owner key).1)
    (promote : Bool) (policy : State) (wake : List Waker) :
    related policy (fanout.finish flight promote complete policy wake).2.1 := by
  unfold finish
  split
  · exact reflexive policy
  rename_i key _
  dsimp only
  split <;>
    exact answerAll_policy related reflexive transitive (completes · · · key) _ (_, policy, _)

/-- What finishing a flight leaves: the flight is gone, each of its slots has a result, or all but
the leader's follow the first of them. -/
inductive Finished (promote : Bool) : Fanout Key Owner Value Error Waker → Prop
  | missing (unknown : fanout.flights.lookup flight = none) : Finished promote fanout
  | answered {key after} (known : fanout.flights.lookup flight = some key)
      (next : after.next = fanout.next) (flights : after.flights = fanout.flights.erase flight)
      (answers : ∀ token slot, fanout.Unanswered flight token slot → ∃ result,
        after.pending.lookup token = some { slot with result := some result, waker := none })
      (others : ∀ token, (∀ slot, ¬ fanout.Unanswered flight token slot) →
        after.pending.lookup token = fanout.pending.lookup token) :
      Finished promote after
  | promoted {key elected follower after} (promotes : promote = true)
      (known : fanout.flights.lookup flight = some key) (next : after.next = fanout.next)
      (waits : fanout.Unanswered flight elected follower) (differs : elected ≠ flight)
      (flights : after.flights = (fanout.flights.erase flight).insert elected key)
      (answers : ∀ slot, fanout.Unanswered flight flight slot → ∃ result,
        after.pending.lookup flight = some { slot with result := some result, waker := none })
      (follows : ∀ token slot, fanout.Unanswered flight token slot → token ≠ flight →
        after.pending.lookup token = some { slot with
          flight := elected, promoted := decide (token = elected), waker := none })
      (others : ∀ token, (∀ slot, ¬ fanout.Unanswered flight token slot) →
        after.pending.lookup token = fanout.pending.lookup token) :
      Finished promote after

/-- Answering every slot of a flight. -/
theorem answered_slots (policy : State) (wake : List Waker) :
    let table := ((fanout.unanswered flight).foldl (answer complete key)
      (fanout.pending, policy, wake)).1
    (∀ token slot, fanout.Unanswered flight token slot → ∃ result,
        table.lookup token = some { slot with result := some result, waker := none }) ∧
      ∀ token, (∀ slot, ¬ fanout.Unanswered flight token slot) →
        table.lookup token = fanout.pending.lookup token := by
  refine ⟨fun token slot waits => ?_, fun token none => ?_⟩
  · exact answerAll_lookup (unanswered_nodup fanout flight) _
      (mem_unanswered.mpr ⟨slot, waits⟩) waits.1
  · exact answerAll_other (not_mem_unanswered none)

/-- Moving every follower of a flight to one of them, and answering the leader. -/
theorem promoted_slots (elected : Nat) (policy : State) (wake : List Waker) :
    let moved := ((fanout.unanswered flight).filter fun token => decide (token ≠ flight)).foldl
      (retarget elected) (fanout.pending, wake)
    let table := (((fanout.unanswered flight).filter fun token => decide (token = flight)).foldl
      (answer complete key) (moved.1, policy, moved.2)).1
    (∀ slot, fanout.Unanswered flight flight slot → ∃ result,
        table.lookup flight = some { slot with result := some result, waker := none }) ∧
      (∀ token slot, fanout.Unanswered flight token slot → token ≠ flight →
        table.lookup token = some { slot with
          flight := elected, promoted := decide (token = elected), waker := none }) ∧
      ∀ token, (∀ slot, ¬ fanout.Unanswered flight token slot) →
        table.lookup token = fanout.pending.lookup token := by
  have listed := unanswered_nodup fanout flight
  refine ⟨fun slot waits => ?_, fun token slot waits follows => ?_, fun token none => ?_⟩
  · have leads : flight ∈ (fanout.unanswered flight).filter fun token =>
        decide (token = flight) :=
      mem_filter.mpr ⟨mem_unanswered.mpr ⟨slot, waits⟩, decide_eq_true rfl⟩
    refine answerAll_lookup (listed.filter _) _ leads ?_
    refine (retargetAll_lookup elected (listed.filter _) _ flight).trans ?_
    rw [if_neg fun leader => by simpa using (mem_filter.mp leader).2]
    exact waits.1
  · refine (answerAll_other ?_).trans ?_
    · exact fun leader => follows (by simpa using (mem_filter.mp leader).2)
    · refine (retargetAll_lookup elected (listed.filter _) _ token).trans ?_
      have among : token ∈ (fanout.unanswered flight).filter fun token =>
          decide (token ≠ flight) :=
        mem_filter.mpr ⟨mem_unanswered.mpr ⟨slot, waits⟩, decide_eq_true follows⟩
      rw [if_pos among, waits.1]
      rfl
  · have absent := not_mem_unanswered none
    refine (answerAll_other ?_).trans ?_
    · exact fun member => absent (mem_of_mem_filter member)
    · refine (retargetAll_lookup elected (listed.filter _) _ token).trans ?_
      exact if_neg fun member => absent (mem_of_mem_filter member)

theorem finish_finished (promote : Bool) (policy : State) (wake : List Waker) :
    Finished fanout flight promote (fanout.finish flight promote complete policy wake).1 := by
  unfold finish
  split
  · rename_i unknown
    exact .missing unknown
  · rename_i key known
    dsimp only
    split
    · rename_i elected first
      obtain ⟨differs, _, waits⟩ := elected_waits first
      obtain ⟨answers, follows, others⟩ :=
        fanout.promoted_slots key flight complete elected policy wake
      exact .promoted rfl known rfl waits differs rfl answers follows others
    · obtain ⟨answers, others⟩ := fanout.answered_slots key flight complete policy wake
      exact .answered known rfl rfl answers others

end Fanout

end Unbounded.Subscriptions
