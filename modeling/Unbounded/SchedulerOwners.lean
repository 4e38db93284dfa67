/-
This file proves that no subscriber is stranded. Every flight in progress has one
owner: the acquisition work handed to a caller, or the response slot an origin
rejection elected to retry. Ownership moves between them as work completes, is
abandoned, taken or cancelled; a slot without a result waits for a flight that
somebody owns.
-/

import Unbounded.SchedulerRuns

namespace Unbounded.Subscriptions

open Table Option List ListUpdate Transition

namespace Fanout

variable {Key Owner Value Error Waker State : Type*}
  {fanout after : Fanout Key Owner Value Error Waker} {work : List Nat} {orphan : Nat → Prop}

/-- What ownership asks of one slot, given the work handed out. -/
structure Placed (work : List Nat) (fanout : Fanout Key Owner Value Error Waker) (token : Nat)
    (slot : Pending Owner Value Error Waker) : Prop where
  /-- A slot without a result waits for a flight in progress. -/
  waits : slot.result = none → (fanout.flights.lookup slot.flight).isSome
  /-- An elected slot owns the flight of its own token, and nobody was handed it. -/
  elected : slot.promoted = true → slot.flight = token ∧ token ∉ work
  /-- A follower's token is no flight, so that it can be elected. -/
  follows : slot.flight ≠ token → fanout.flights.lookup token = none
  known : token ≤ fanout.next

/-- Who owns the flights, given the work handed out. A flight may be an orphan while the slot that
owned it is being removed. -/
structure Owners (work : List Nat) (orphan : Nat → Prop)
    (fanout : Fanout Key Owner Value Error Waker) : Prop where
  placed : ∀ {token slot}, fanout.pending.lookup token = some slot → fanout.Placed work token slot
  distinct : work.Nodup
  held : ∀ flight ∈ work, (fanout.flights.lookup flight).isSome
  owned : ∀ flight, (fanout.flights.lookup flight).isSome → flight ≤ fanout.next ∧
    (flight ∈ work ∨ orphan flight ∨ ∃ slot, fanout.pending.lookup flight = some slot ∧
      slot.promoted = true ∧ slot.flight = flight)

theorem Owners.start : Owners [] orphan ({} : Fanout Key Owner Value Error Waker) :=
  ⟨nofun, nodup_nil, nofun, nofun⟩

/-- Once no work is handed out and no slot elected, every slot has its result. -/
theorem Owners.resolved {token : Nat} {slot : Pending Owner Value Error Waker}
    (owners : fanout.Owners [] fun _ => False)
    (unelected : ∀ token slot, fanout.pending.lookup token = some slot → slot.promoted = false)
    (found : fanout.pending.lookup token = some slot) : slot.result.isSome := by
  rw [isSome_iff_ne_none]
  intro waiting
  obtain handed | lost | ⟨_, present, promoted, -⟩ :=
    (owners.owned slot.flight ((owners.placed found).waits waiting)).2
  · cases handed
  · exact lost
  · cases (unelected _ _ present).symm.trans promoted

theorem Owners.weaken {more : Nat → Prop} (owners : fanout.Owners work orphan)
    (implies : ∀ flight, orphan flight → more flight) : fanout.Owners work more :=
  { owners with
    owned := fun flight found => (owners.owned flight found).imp_right
      (.imp_right (.imp_left (implies flight))) }

/-- Slots that differ in their deadline, owner and waker at most, and in results that arrived. -/
structure Resembles (slot next : Pending Owner Value Error Waker) : Prop where
  flight : next.flight = slot.flight
  promoted : next.promoted = slot.promoted
  result : next.result = none → slot.result = none

variable {slot : Pending Owner Value Error Waker}

theorem Resembles.refl (slot : Pending Owner Value Error Waker) : Resembles slot slot :=
  ⟨rfl, rfl, id⟩

variable {token : Nat} {left : List Nat} {old new : Pending Owner Value Error Waker}

/-- A slot that resembles a placed one is placed, as far as its flight goes on. -/
theorem Placed.congr (placed : fanout.Placed work token old) (resembles : Resembles old new)
    (next : fanout.next ≤ after.next) (handed : token ∈ left → token ∈ work)
    (flies : new.result = none → (fanout.flights.lookup old.flight).isSome →
      (after.flights.lookup old.flight).isSome)
    (fresh : fanout.flights.lookup token = none → after.flights.lookup token = none) :
    after.Placed left token new where
  waits waiting := by
    rw [resembles.flight]
    exact flies waiting (placed.waits (resembles.result waiting))
  elected promoted := by
    obtain ⟨own, unhanded⟩ := placed.elected (resembles.promoted.symm.trans promoted)
    exact ⟨resembles.flight.trans own, fun member => unhanded (handed member)⟩
  follows differs := fresh (placed.follows (resembles.flight ▸ differs))
  known := placed.known.trans next

/-- Results that arrive, and wakers that change, leave ownership alone. -/
theorem Owners.congr (owners : fanout.Owners work orphan) (next : after.next = fanout.next)
    (flights : ∀ flight, after.flights.lookup flight = fanout.flights.lookup flight)
    (slots : ∀ token, Option.Rel Resembles (fanout.pending.lookup token)
      (after.pending.lookup token)) :
    after.Owners work orphan := by
  refine ⟨fun found => ?_, owners.distinct, ?_, ?_⟩
  · obtain ⟨_, before, resembles⟩ := exists_of_rel_some (slots _) found
    refine (owners.placed before).congr resembles next.ge id ?_ ?_
    · exact fun _ flown => by rwa [flights]
    · exact fun none => by rwa [flights]
  · intro flight member
    rw [flights]
    exact owners.held flight member
  · intro flight present
    rw [flights] at present
    obtain ⟨known, owned⟩ := owners.owned flight present
    refine ⟨next ▸ known, owned.imp_right (.imp_right ?_)⟩
    rintro ⟨_, found, promoted, own⟩
    obtain ⟨new, later, resembles⟩ := exists_of_some_rel (slots flight) found
    exact ⟨new, later, resembles.promoted.trans promoted, resembles.flight.trans own⟩

/-- A new slot waits for a flight in progress, or leads its own as handed out. -/
theorem Owners.attach {key : Key} {owner : Owner} {deadline flight : Nat} {leader : Bool}
    (owners : fanout.Owners work orphan)
    (attaches : Attaches fanout key owner deadline (after, token, flight, leader)) :
    after.Owners (work ++ (if leader then some flight else none).toList) orphan := by
  have unused : fanout.pending.lookup (fanout.next + 1) = none ∧
      fanout.flights.lookup (fanout.next + 1) = none := by
    refine ⟨eq_none_iff_forall_ne_some.mpr fun _ found => ?_,
      not_isSome_iff_eq_none.mp fun found => ?_⟩
    · exact absurd (owners.placed found).known (Nat.not_succ_le_self _)
    · exact absurd (owners.owned _ found).1 (Nat.not_succ_le_self _)
  cases attaches with
  | joined known =>
    rw [if_neg Bool.false_ne_true, toList_none, append_nil]
    refine ⟨fun found => ?_, owners.distinct, owners.held, fun other present => ?_⟩
    · rcases lookup_insert_some.mp found with ⟨rfl, rfl⟩ | ⟨-, found⟩
      · exact ⟨fun _ => by rw [known]; rfl, nofun, fun _ => unused.2, le_rfl⟩
      · exact (owners.placed found).congr (.refl _) (Nat.le_succ _) id (fun _ => id) id
    · obtain ⟨known, owned⟩ := owners.owned other present
      refine ⟨Nat.le_succ_of_le known, owned.imp_right (.imp_right ?_)⟩
      rintro ⟨slot, found, own⟩
      refine ⟨slot, ?_, own⟩
      rw [lookup_insert_eq, if_neg]
      · exact found
      · rintro rfl
        rw [unused.1] at found
        cases found
  | led =>
    refine ⟨fun found => ?_, ?_, fun other member => ?_, fun other present => ?_⟩
    · rcases lookup_insert_some.mp found with ⟨rfl, rfl⟩ | ⟨differs, found⟩
      · exact ⟨fun _ => by rw [AList.lookup_insert]; rfl, nofun, absurd rfl, le_rfl⟩
      refine (owners.placed found).congr (.refl _) (Nat.le_succ _) (fun member => ?_)
        (fun _ flown => ?_) fun none => ?_
      · exact (mem_append.mp member).resolve_right fun last => differs (mem_singleton.mp last)
      · rw [lookup_insert_eq]
        split
        · rfl
        · exact flown
      · rwa [lookup_insert_eq, if_neg differs]
    · refine nodup_snoc owners.distinct fun member => ?_
      have held := owners.held _ member
      rw [unused.2] at held
      cases held
    · rw [lookup_insert_eq]
      split
      · rfl
      rename_i differs
      rcases mem_append.mp member with earlier | last
      · exact owners.held other earlier
      · exact absurd (mem_singleton.mp last) differs
    · rw [lookup_insert_eq] at present
      split at present
      · rename_i same
        exact ⟨same.le, .inl (mem_append_right _ (mem_singleton.mpr same))⟩
      · rename_i differs
        obtain ⟨known, owned⟩ := owners.owned other present
        refine ⟨Nat.le_succ_of_le known, owned.imp (mem_append_left _) (.imp_right ?_)⟩
        rintro ⟨slot, found, own⟩
        refine ⟨slot, ?_, own⟩
        rw [lookup_insert_eq, if_neg differs]
        exact found

/-- Work that is over owns nothing. -/
def release (work : List Nat) (flight : Nat) : List Nat :=
  work.filter fun other => decide (other ≠ flight)

theorem mem_release {flight other : Nat} :
    other ∈ release work flight ↔ other ∈ work ∧ other ≠ flight := by
  unfold release
  rw [mem_filter, decide_eq_true_eq]

/-- Releasing the work of a flight leaves the other flights to their owners. -/
theorem Owners.owned_release {flight other : Nat}
    (owners : fanout.Owners work (fun other => other = flight ∨ orphan other))
    (present : (fanout.flights.lookup other).isSome) (differs : other ≠ flight) :
    other ∈ release work flight ∨ orphan other ∨
      ∃ slot, fanout.pending.lookup other = some slot ∧ slot.promoted = true ∧
        slot.flight = other := by
  rcases (owners.owned other present).2 with working | (same | lost) | promoted
  · exact .inl (mem_release.mpr ⟨working, differs⟩)
  · exact absurd same differs
  · exact .inr (.inl lost)
  · exact .inr (.inr promoted)

/-- What finishing a flight does to a slot: it keeps its own flight and has a result if that is
this one, or it follows the elected slot. -/
inductive Fares (fanout : Fanout Key Owner Value Error Waker) (flight : Nat) (elected : Option Nat)
    (token : Nat) (old new : Pending Owner Value Error Waker) : Prop
  | rests (resembles : Resembles old new) (elsewhere : new.result = none → old.flight ≠ flight)
      (unelected : token ∉ elected)
  | follows (waiting : fanout.Unanswered flight token old) (follower : token ≠ flight)
      (moved : new.flight ∈ elected) (promoted : new.promoted = decide (token = new.flight))

/-- What finishing a flight leaves: the slot it elects, if any, had no result; the other flights
stay, and every slot fares one of two ways. -/
theorem Owners.fares {flight : Nat} {promote : Bool} (owners : fanout.Owners work orphan)
    (finished : Finished fanout flight promote after) :
    ∃ elected : Option Nat,
      after.next = fanout.next ∧
      (∀ token ∈ elected, ∃ slot, fanout.Unanswered flight token slot) ∧
      (∀ other, (after.flights.lookup other).isSome ↔
        other ∈ elected ∨ other ≠ flight ∧ (fanout.flights.lookup other).isSome) ∧
      ∀ token, Option.Rel (fanout.Fares flight elected token) (fanout.pending.lookup token)
        (after.pending.lookup token) := by
  have kept {token : Nat} {elected : Option Nat} (unelected : token ∉ elected)
      (waits : ∀ slot, ¬ fanout.Unanswered flight token slot) : Option.Rel
        (fanout.Fares flight elected token) (fanout.pending.lookup token)
        (fanout.pending.lookup token) := by
    cases found : fanout.pending.lookup token with
    | none => exact .none
    | some slot =>
      exact .some (.rests (.refl _) (fun none own => waits slot ⟨found, own, none⟩) unelected)
  cases finished with
  | missing unknown =>
    refine ⟨none, rfl, nofun, fun other => ?_, fun token => kept nofun fun slot waits => ?_⟩
    · by_cases same : other = flight
      · subst same
        simp [unknown]
      · simp [same]
    · have flown := (owners.placed waits.1).waits waits.2.2
      rw [waits.2.1, unknown] at flown
      cases flown
  | answered known next flights answers others =>
    refine ⟨none, next, nofun, fun other => ?_, fun token => ?_⟩
    · rw [flights, lookup_erase_eq]
      split <;> simp [*]
    · by_cases waiting : ∃ slot, fanout.Unanswered flight token slot
      · obtain ⟨slot, waiting⟩ := waiting
        obtain ⟨_, answered⟩ := answers token slot waiting
        rw [answered, waiting.1]
        exact .some (.rests ⟨rfl, rfl, nofun⟩ nofun nofun)
      · rw [others token (not_exists.mp waiting)]
        exact kept nofun (not_exists.mp waiting)
  | @promoted _ elected _ _ _ known next waits differs flights answers follows others =>
    refine ⟨elected, next, ?_, fun other => ?_, fun token => ?_⟩
    · rintro _ ⟨⟩
      exact ⟨_, waits⟩
    · rw [flights, lookup_insert_eq, lookup_erase_eq]
      split
      · simp [*]
      · have unelected : elected ≠ other := Ne.symm ‹_›
        split <;> simp [*]
    · by_cases waiting : ∃ slot, fanout.Unanswered flight token slot
      · obtain ⟨slot, waiting⟩ := waiting
        by_cases leads : token = flight
        · subst leads
          obtain ⟨_, answered⟩ := answers slot waiting
          rw [answered, waiting.1]
          exact .some (.rests ⟨rfl, rfl, nofun⟩ nofun fun same => differs (some.inj same))
        · rw [follows token slot waiting leads, waiting.1]
          exact .some (.follows waiting leads rfl rfl)
      · rw [others token (not_exists.mp waiting)]
        refine kept ?_ (not_exists.mp waiting)
        rintro ⟨⟩
        exact waiting ⟨_, waits⟩

/-- Finishing a flight leaves each other one to its owner. A follower that is elected owns the
flight in its place. -/
theorem Owners.finish {flight : Nat} {promote : Bool}
    (owners : fanout.Owners work (fun other => other = flight ∨ orphan other))
    (finished : Finished fanout flight promote after) :
    after.Owners (release work flight) orphan := by
  have handed {token : Nat} (member : token ∈ release work flight) : token ∈ work :=
    (mem_release.mp member).1
  obtain ⟨elected, next, waits, flights, slots⟩ := owners.fares finished
  refine ⟨@fun token _ found => ?_, owners.distinct.filter _, fun other member => ?_,
    fun other present => ?_⟩
  · obtain ⟨_, before, fares⟩ := exists_of_rel_some (slots token) found
    cases fares with
    | rests resembles elsewhere unelected =>
      refine (owners.placed before).congr resembles next.ge handed (fun waiting flown => ?_)
        fun none => ?_
      · exact (flights _).mpr (.inr ⟨elsewhere waiting, flown⟩)
      · rw [← not_isSome_iff_eq_none, flights, none]
        exact fun flies => flies.elim unelected nofun
    | follows waiting follower moved elects =>
      have placed := owners.placed before
      have unflown := placed.follows (waiting.2.1.trans_ne follower.symm)
      refine ⟨fun _ => (flights _).mpr (.inl moved), fun promoted => ?_, fun elsewhere => ?_,
        next ▸ placed.known⟩
      · refine ⟨(of_decide_eq_true (elects.symm.trans promoted)).symm, fun member => ?_⟩
        have held := owners.held token (handed member)
        rw [unflown] at held
        cases held
      · rw [← not_isSome_iff_eq_none, flights, unflown]
        exact fun flies => flies.elim (fun chosen => elsewhere (mem_unique moved chosen)) nofun
  · obtain ⟨working, concluded⟩ := mem_release.mp member
    exact (flights other).mpr (.inr ⟨concluded, owners.held other working⟩)
  · rcases (flights other).mp present with chosen | ⟨concluded, present⟩
    · obtain ⟨_, waits⟩ := waits other chosen
      obtain ⟨new, later, fares⟩ := exists_of_some_rel (slots other) waits.1
      cases fares with
      | rests _ _ unelected => exact absurd chosen unelected
      | follows _ _ moved promoted =>
        have own := mem_unique moved chosen
        exact ⟨next ▸ (owners.placed waits.1).known,
          .inr (.inr ⟨new, later, promoted.trans (decide_eq_true own.symm), own⟩)⟩
    · refine ⟨next ▸ (owners.owned other present).1,
        (owners.owned_release present concluded).imp_right (.imp_right ?_)⟩
      rintro ⟨_, found, promoted, own⟩
      obtain ⟨new, later, fares⟩ := exists_of_some_rel (slots other) found
      cases fares with
      | rests resembles =>
        exact ⟨new, later, resembles.promoted.trans promoted, resembles.flight.trans own⟩
      | follows waiting => exact absurd (own.symm.trans waiting.2.1) concluded

section

variable (owners : fanout.Owners work orphan) (found : fanout.pending.lookup token = some slot)

include owners found

/-- Removing a slot orphans the flight it was elected for. -/
theorem Owners.remove :
    Owners work (fun other => (slot.promoted = true ∧ other = slot.flight) ∨ orphan other)
      { fanout with pending := fanout.pending.erase token } := by
  refine ⟨fun present => ?_, owners.distinct, owners.held, fun other present =>
    (owners.owned other present).imp_right (.imp_right ?_)⟩
  · obtain ⟨-, present⟩ := lookup_erase_some.mp present
    exact (owners.placed present).congr (.refl _) le_rfl id (fun _ => id) id
  · rintro (lost | ⟨next, elected, promoted, own⟩)
    · exact .inl (.inr lost)
    · by_cases same : other = token
      · rw [same, found] at elected
        cases elected
        exact .inl (.inl ⟨promoted, own.symm⟩)
      · exact .inr ⟨next, lookup_erase_some.mpr ⟨same, elected⟩, promoted, own⟩

/-- Taking the work of an elected slot hands it out. -/
theorem Owners.take (promoted : slot.promoted = true) (waiting : slot.result = none) :
    Owners (work ++ [slot.flight]) orphan { fanout with
      pending := fanout.pending.insert token { slot with promoted := false } } := by
  obtain ⟨own, unhanded⟩ := (owners.placed found).elected promoted
  have flown := (owners.placed found).waits waiting
  refine ⟨fun present => ?_, nodup_snoc owners.distinct (own ▸ unhanded),
    forall_mem_snoc owners.held flown, fun other present =>
    (owners.owned other present).imp_right fun owned => ?_⟩
  · rcases lookup_insert_some.mp present with ⟨rfl, rfl⟩ | ⟨differs, present⟩
    · exact ⟨fun _ => flown, nofun, absurd own, (owners.placed found).known⟩
    refine (owners.placed present).congr (.refl _) le_rfl (fun member => ?_) (fun _ => id) id
    exact (mem_append.mp member).resolve_right fun last =>
      differs ((mem_singleton.mp last).trans own)
  · rcases owned with working | lost | ⟨next, elected, promotes, self⟩
    · exact .inl (mem_append_left _ working)
    · exact .inr (.inl lost)
    · by_cases same : other = token
      · refine .inl (mem_append_right _ (mem_singleton.mpr ?_))
        rw [same, own]
      · exact .inr (.inr ⟨next, lookup_insert_some.mpr (.inr ⟨same, elected⟩), promotes, self⟩)

end

end Fanout

/-! ### What a turn does to the slots -/

/-- A response slot of the scheduler. -/
abbrev Slot (Membership Receiver Version Payload Error : Type*) :=
  Pending (EntryKey Membership Receiver) (Delivery Payload Membership Receiver Version) Error Nat

section

variable {Membership Receiver Version Payload Error : Type*}
  {turn : Turn Membership Receiver Version Payload Error}
  {before after : Scheduler Membership Receiver Version Payload Error}

/-- The work handed out and not over, after a turn. -/
def Turn.worked (work : List Nat) (turn : Turn Membership Receiver Version Payload Error) :
    List Nat :=
  match turn.call, turn.reply with
  | .select _ _, .selected (.ok (.ok selected)) => work ++ selected.work.toList
  | .takeWork _, .work (some (flight, _, _)) => work ++ [flight]
  | .complete flight _ _, _ => Fanout.release work flight
  | .cancelWork flight, _ => Fanout.release work flight
  | _, _ => work

variable (turns : List (Turn Membership Receiver Version Payload Error))
  (scheduler : Scheduler Membership Receiver Version Payload Error)

/-- The work tokens handed out by a selection or taken, and neither completed nor cancelled. -/
def outstandingWork : List Nat := turns.foldl Turn.worked []

variable (turn) in
theorem outstandingWork_snoc :
    outstandingWork (turns ++ [turn]) = turn.worked (outstandingWork turns) := by
  unfold outstandingWork
  rw [foldl_append]
  rfl

variable (turn) in
/-- The waiter whose elected work a turn takes, or whose slot it gives up. -/
def Turn.relieved : Option Nat :=
  match turn.call, turn.reply with
  | .takeWork waiter, .work (some _) => some waiter
  | .poll waiter, .polled (.ready _) => some waiter
  | .cancelWaiter waiter, _ => some waiter
  | _, _ => none

variable (turn) in
/-- A turn completes work and asks for a follower to retry. -/
def Turn.promotes : Bool :=
  match turn.call with
  | .complete _ _ promote => promote
  | _ => false

variable {slot : Slot Membership Receiver Version Payload Error}

variable (turn) (fanout : Slots Membership Receiver Version Payload Error) in
/-- What a turn can do to the slots and flights. -/
inductive Moves : Slots Membership Receiver Version Payload Error → Prop
  | kept (idle : ∀ work, turn.worked work = work)
      (relieves : ∀ waiter, turn.relieved = some waiter → fanout.pending.lookup waiter = none) :
      Moves fanout
  | attached {key owner deadline token flight leader after}
      (attaches : Fanout.Attaches fanout key owner deadline (after, token, flight, leader))
      (hands : ∀ work, turn.worked work =
        work ++ (if leader then some flight else none).toList) (relieves : turn.relieved = none) :
      Moves after
  | finished {flight promote after} (finished : Fanout.Finished fanout flight promote after)
      (concluded : ∀ work, turn.worked work = Fanout.release work flight)
      (relieves : turn.relieved = none) (promotes : promote = true → turn.promotes = true) :
      Moves after
  | taken {waiter slot} (found : fanout.pending.lookup waiter = some slot)
      (promoted : slot.promoted = true) (waiting : slot.result = none)
      (hands : (fanout.flights.lookup slot.flight).isSome →
        ∀ work, turn.worked work = work ++ [slot.flight])
      (relieves : ∀ other, turn.relieved = some other → other = waiter) : Moves { fanout with
        pending := fanout.pending.insert waiter { slot with promoted := false } }
  | parked {waiter slot} (found : fanout.pending.lookup waiter = some slot)
      (idle : ∀ work, turn.worked work = work) (relieves : turn.relieved = none) :
      Moves { fanout with
        pending := fanout.pending.insert waiter { slot with waker := some waiter } }
  | removed {waiter slot} (found : fanout.pending.lookup waiter = some slot)
      (unelected : slot.promoted = false) (idle : ∀ work, turn.worked work = work)
      (relieves : turn.relieved = some waiter) :
      Moves { fanout with pending := fanout.pending.erase waiter }
  | abandoned {waiter slot after} (found : fanout.pending.lookup waiter = some slot)
      (elected : slot.promoted = true)
      (finished : Fanout.Finished { fanout with pending := fanout.pending.erase waiter }
        slot.flight false after) (idle : ∀ work, turn.worked work = work)
      (relieves : turn.relieved = some waiter) : Moves after

section

variable [DecidableEq Membership] [DecidableEq Receiver] [OfKind Error]

theorem Scheduler.finish_finished
    (flight : Nat) (result : Except Error (Payload × Nat)) (promote : Bool) :
    Fanout.Finished scheduler.fanout flight (promote && !result.isOk)
      (scheduler.finish flight result promote).fanout :=
  Fanout.finish_finished _ _ _ _ _ _

/-- Giving up a slot, and the flight it was elected for. -/
theorem Moves.of_remove {scheduler : Scheduler Membership Receiver Version Payload Error}
    {waiter : Nat} (found : scheduler.fanout.pending.lookup waiter = some slot)
    (idle : ∀ work, turn.worked work = work) (relieves : turn.relieved = some waiter) :
    Moves turn scheduler.fanout
      (if slot.promoted then (scheduler.removePending waiter).1.cancelWork slot.flight
        else (scheduler.removePending waiter).1).fanout := by
  have removed : (scheduler.removePending waiter).1.fanout = { scheduler.fanout with
      pending := scheduler.fanout.pending.erase waiter } := by
    unfold Scheduler.removePending Fanout.remove
    rw [found]
  split
  · rename_i elected
    refine .abandoned found elected ?_ idle relieves
    rw [← removed]
    exact (scheduler.removePending waiter).1.finish_finished slot.flight
      (.error (OfKind.ofKind .cancelled)) false
  · rename_i unelected
    rw [removed]
    exact .removed found (Bool.eq_false_iff.mpr unelected) idle relieves

theorem cancelWaiter_eq (acting : Scheduler Membership Receiver Version Payload Error)
    (waiter : Nat) :
    acting.cancelWaiter waiter = match acting.fanout.pending.lookup waiter with
      | none => acting
      | some slot =>
        if slot.promoted then (acting.removePending waiter).1.cancelWork slot.flight
        else (acting.removePending waiter).1 := by
  unfold Scheduler.cancelWaiter Scheduler.removePending Fanout.remove
  cases acting.fanout.pending.lookup waiter <;> rfl

/-- What a turn does to the slots and flights. -/
theorem Performs.moves [DecidableEq Version] (performs : Performs before turn after) :
    Moves turn turn.acting.fanout after.fanout := by
  obtain ⟨_, call, acting, reply⟩ := turn
  have performed := performs.performs
  dsimp only at performed ⊢
  cases call with
  | advance | release | takeWakes =>
    cases performed
    exact .kept (fun _ => rfl) nofun
  | admitRequest subscription membership receiver deadline =>
    have admits := admitAt_admits acting subscription membership receiver deadline
    have performed : (acting.admitAt subscription membership receiver deadline).map id
      Reply.admitted = (after, reply) := performed
    generalize acting.admitAt subscription membership receiver deadline = returned at *
    cases performed
    cases admits with
    | refused | late | newer | narrowed | fresh => exact .kept (fun _ => rfl) nofun
  | select admitted eligible =>
    have selects := selectAt_selects acting admitted eligible
    have performed : (acting.selectAt admitted eligible).map id Reply.selected =
      (after, reply) := performed
    generalize acting.selectAt admitted eligible = returned at *
    cases performed
    cases selects with
    | refused | unknown => exact .kept (fun _ => rfl) nofun
    | selected found _ _ _ _ attached =>
      exact .attached (Fanout.attach_attaches attached) (fun _ => rfl) rfl
  | complete work result promote =>
    cases performed
    refine .finished (acting.finish_finished work result promote) (fun _ => rfl) rfl ?_
    intro promotes
    exact (Bool.and_eq_true _ _ ▸ promotes).1
  | cancelWork work =>
    cases performed
    exact .finished (acting.finish_finished work _ false) (fun _ => rfl) rfl nofun
  | takeWork waiter =>
    have performed : (acting.takeWork waiter).map id Reply.work = (after, reply) := performed
    unfold Scheduler.takeWork at performed
    split at performed
    · cases performed
      exact .kept (fun _ => rfl) nofun
    · rename_i slot found
      split at performed
      · cases performed
        exact .kept (fun _ => rfl) nofun
      · rename_i available
        rw [Bool.or_eq_true, not_or, Bool.not_eq_true', Bool.not_eq_false, Bool.not_eq_true,
          isSome_eq_false_iff, isNone_iff_eq_none] at available
        cases performed
        refine .taken found available.1 available.2 (fun known work => ?_) ?_
        · obtain ⟨_, known⟩ := isSome_iff_exists.mp known
          simp only [known, map_some, Turn.worked]
        · intro other relieved
          cases known : acting.fanout.flights.lookup slot.flight with
          | none =>
            simp only [known, map_none, Turn.relieved] at relieved
            cases relieved
          | some =>
            simp only [known, map_some, Turn.relieved, some_inj] at relieved
            exact relieved.symm
  | poll waiter =>
    have performed : (acting.poll waiter).map id Reply.polled = (after, reply) := performed
    unfold Scheduler.poll at performed
    split at performed
    · rename_i missing
      cases performed
      refine .kept (fun _ => rfl) fun other relieved => ?_
      cases relieved
      exact missing
    · rename_i slot found
      split at performed
      · cases performed
        exact .parked found (fun _ => rfl) rfl
      · cases performed
        exact .of_remove found (fun _ => rfl) rfl
  | cancelWaiter waiter =>
    cases performed
    cases found : acting.fanout.pending.lookup waiter with
    | none =>
      rw [cancelWaiter_eq, found]
      refine .kept (fun _ => rfl) fun other relieved => ?_
      cases relieved
      exact found
    | some =>
      rw [cancelWaiter_eq, found]
      exact .of_remove found (fun _ => rfl) rfl

end

variable {fanout next : Slots Membership Receiver Version Payload Error}

/-- A turn keeps every flight owned. -/
theorem Moves.owners {work : List Nat} (moves : Moves turn fanout next)
    (owners : fanout.Owners work fun _ => False) :
    next.Owners (turn.worked work) fun _ => False := by
  cases moves with
  | kept idle =>
    rw [idle]
    exact owners
  | attached attaches hands =>
    rw [hands]
    exact owners.attach attaches
  | finished finished concluded =>
    rw [concluded]
    exact (owners.weaken fun _ lost => .inr lost).finish finished
  | taken found promoted waiting hands =>
    rw [hands ((owners.placed found).waits waiting)]
    exact owners.take found promoted waiting
  | parked found idle =>
    rw [idle]
    refine owners.congr rfl (fun _ => rfl) fun token => ?_
    rw [lookup_insert_eq]
    split
    · rename_i same
      rw [same, found]
      exact .some ⟨rfl, rfl, id⟩
    · cases fanout.pending.lookup token with
      | none => exact .none
      | some => exact .some ⟨rfl, rfl, id⟩
  | removed found unelected idle =>
    rw [idle]
    refine (owners.remove found).weaken ?_
    rintro flight (⟨elected, -⟩ | lost)
    · rw [unelected] at elected
      cases elected
    · exact lost
  | @abandoned waiter slot _ found elected finished idle _ =>
    rw [idle]
    obtain ⟨own, unhanded⟩ := (owners.placed found).elected elected
    have unworked : Fanout.release work slot.flight = work := by
      refine filter_eq_self.mpr fun other member => decide_eq_true fun same => ?_
      rw [same, own] at member
      exact unhanded member
    rw [← unworked]
    refine ((owners.remove found).weaken ?_).finish finished
    rintro flight (⟨-, same⟩ | lost)
    · exact .inl same
    · exact .inr lost

/-- Without a promotion, finishing a flight elects no slot. -/
theorem Fanout.Finished.elected {Key Owner Value Waker : Type*} {flight token : Nat}
    {fanout after : Fanout Key Owner Value Error Waker}
    {slot : Pending Owner Value Error Waker} (finished : Finished fanout flight false after)
    (found : after.pending.lookup token = some slot) :
    ∃ old, fanout.pending.lookup token = some old ∧ old.promoted = slot.promoted := by
  cases finished with
  | missing => exact ⟨slot, found, rfl⟩
  | answered _ _ _ answers others =>
    by_cases waiting : ∃ slot, fanout.Unanswered flight token slot
    · obtain ⟨old, waiting⟩ := waiting
      obtain ⟨_, answered⟩ := answers token old waiting
      obtain rfl := mem_unique answered found
      exact ⟨old, waiting.1, rfl⟩
    · rw [others token (not_exists.mp waiting)] at found
      exact ⟨slot, found, rfl⟩
  | promoted promotes => cases promotes

/-- Without a promotion, a turn elects no slot, and the waiter it relieves is elected no more. -/
theorem Moves.elected (moves : Moves turn fanout next) (unpromoted : turn.promotes = false)
    {token : Nat} (found : next.pending.lookup token = some slot) (elected : slot.promoted = true) :
    turn.relieved ≠ some token ∧
      ∃ old, fanout.pending.lookup token = some old ∧ old.promoted = true := by
  have unrelieved (none : turn.relieved = none) : turn.relieved ≠ some token := by
    rw [none]
    nofun
  cases moves with
  | kept idle relieves =>
    refine ⟨fun relieved => ?_, slot, found, elected⟩
    rw [relieves token relieved] at found
    cases found
  | attached attaches hands relieves =>
    refine ⟨unrelieved relieves, ?_⟩
    cases attaches with
    | joined | led =>
      rcases lookup_insert_some.mp found with ⟨-, rfl⟩ | ⟨-, found⟩
      · cases elected
      · exact ⟨slot, found, elected⟩
  | @finished _ promote _ finished _ relieves promotes =>
    cases promote with
    | true => rw [promotes rfl] at unpromoted; cases unpromoted
    | false =>
      obtain ⟨old, before, same⟩ := finished.elected found
      exact ⟨unrelieved relieves, old, before, same.trans elected⟩
  | taken before promoted _ _ relieves =>
    rcases lookup_insert_some.mp found with ⟨-, rfl⟩ | ⟨differs, found⟩
    · cases elected
    · exact ⟨fun relieved => differs (relieves token relieved), slot, found, elected⟩
  | parked before idle relieves =>
    rcases lookup_insert_some.mp found with ⟨rfl, rfl⟩ | ⟨-, found⟩
    · exact ⟨unrelieved relieves, _, before, elected⟩
    · exact ⟨unrelieved relieves, slot, found, elected⟩
  | removed before _ idle relieves =>
    obtain ⟨differs, found⟩ := lookup_erase_some.mp found
    refine ⟨fun relieved => differs ?_, slot, found, elected⟩
    exact mem_unique relieved relieves
  | abandoned _ _ finished _ relieves =>
    obtain ⟨old, kept, same⟩ := finished.elected found
    obtain ⟨differs, kept⟩ := lookup_erase_some.mp kept
    refine ⟨fun relieved => differs ?_, old, kept, same.trans elected⟩
    exact mem_unique relieved relieves

section

variable [OfKind Error]

/-- A slot is as it was, or has expired. -/
def Expires (slot next : Slot Membership Receiver Version Payload Error) : Prop :=
  next = slot ∨ next = { slot with
    result := some (.error (OfKind.ofKind .deadlineExceeded)), waker := none }

theorem Expires.resembles {other : Slot Membership Receiver Version Payload Error}
    (expires : Expires slot other) : Fanout.Resembles slot other := by
  rcases expires with rfl | rfl
  · exact .refl _
  · exact ⟨rfl, rfl, nofun⟩

/-- Time that passes expires slots, and does nothing else to them. -/
theorem Scheduler.arrive_fanout (now : Option Nat) :
    (scheduler.arrive now).fanout.next = scheduler.fanout.next ∧
      (scheduler.arrive now).fanout.flights = scheduler.fanout.flights ∧
      ∀ token, Option.Rel Expires (scheduler.fanout.pending.lookup token)
        ((scheduler.arrive now).fanout.pending.lookup token) := by
  cases now with
  | none =>
    refine ⟨rfl, rfl, fun token => ?_⟩
    show Option.Rel _ _ (scheduler.fanout.pending.lookup token)
    cases scheduler.fanout.pending.lookup token with
    | none => exact .none
    | some => exact .some (.inl rfl)
  | some now =>
    have expired : (scheduler.advance now).fanout =
        (scheduler.fanout.expire (max scheduler.now now) (OfKind.ofKind .deadlineExceeded)).1 := by
      unfold Scheduler.advance
      dsimp only
      split <;> rfl
    unfold Scheduler.arrive
    rw [expired]
    refine ⟨rfl, rfl, fun token => ?_⟩
    unfold Fanout.expire
    rw [lookup_mapValues]
    cases scheduler.fanout.pending.lookup token with
    | none => exact .none
    | some =>
      refine .some ?_
      dsimp only
      split
      · exact .inr rfl
      · exact .inl rfl

end

variable [DecidableEq Membership] [DecidableEq Receiver] [DecidableEq Version] [OfKind Error]

section

variable (performs : Performs before turn after)

include performs

/-- The slots a turn acts on: those before it, some of them expired. -/
theorem Performs.acting_fanout : turn.acting.fanout.next = before.fanout.next ∧
      (∀ flight, turn.acting.fanout.flights.lookup flight = before.fanout.flights.lookup flight) ∧
      ∀ token, Option.Rel Expires (before.fanout.pending.lookup token)
        (turn.acting.fanout.pending.lookup token) := by
  obtain ⟨next, flights, slots⟩ := before.arrive_fanout turn.now
  refine ⟨performs.arrives.next.trans next, fun flight => ?_, fun token => ?_⟩
  · rw [performs.arrives.flights.lookup, flights]
  · rw [performs.arrives.pending.lookup]
    exact slots token

theorem Performs.acting_slots (token : Nat) :
    Option.Rel Fanout.Resembles (before.fanout.pending.lookup token)
      (turn.acting.fanout.pending.lookup token) := by
  have expires := performs.acting_fanout.2.2 token
  generalize before.fanout.pending.lookup token = old at expires
  generalize turn.acting.fanout.pending.lookup token = new at expires
  cases expires with
  | none => exact .none
  | some expires => exact .some expires.resembles

/-- Time that passes, and the order of the tables, leave ownership alone. -/
theorem Performs.acting_owners {work : List Nat}
    (owners : before.fanout.Owners work fun _ => False) :
    turn.acting.fanout.Owners work fun _ => False := by
  obtain ⟨next, flights, -⟩ := performs.acting_fanout
  exact owners.congr next flights performs.acting_slots

end

variable {turns : List (Turn Membership Receiver Version Payload Error)}

theorem run_owners {limits : SubscriptionLimits}
    {initial last : Scheduler Membership Receiver Version Payload Error}
    (started : Scheduler.new limits = some initial) (run : Run Performs initial turns last) :
    last.fanout.Owners (outstandingWork turns) fun _ => False := by
  refine run.history (fun turns state => state.fanout.Owners (outstandingWork turns) fun _ => False)
    ?_ ?_
  · intro turns state _ _ owners performs
    rw [outstandingWork_snoc]
    exact performs.moves.owners (performs.acting_owners owners)
  · unfold Scheduler.new at started
    split at started
    · cases started
      exact .start
    · cases started

/-! ### Resolving every slot -/

/-- Over turns that promote nobody, only waiters elected before and not relieved are elected. -/
theorem run_elected {first last : Scheduler Membership Receiver Version Payload Error}
    (run : Run Performs first turns last) (unpromoted : ∀ turn ∈ turns, turn.promotes = false)
    {token : Nat} (found : last.fanout.pending.lookup token = some slot)
    (elected : slot.promoted = true) :
    (∀ turn ∈ turns, turn.relieved ≠ some token) ∧
      ∃ old, first.fanout.pending.lookup token = some old ∧ old.promoted = true := by
  refine run.history (fun turns state => (∀ turn ∈ turns, turn.promotes = false) →
    ∀ slot, state.fanout.pending.lookup token = some slot → slot.promoted = true →
      (∀ turn ∈ turns, turn.relieved ≠ some token) ∧
        ∃ old, first.fanout.pending.lookup token = some old ∧ old.promoted = true)
    ?_ ?_ unpromoted slot found elected
  · intro turns state turn _ earlier performs unpromoted slot found elected
    obtain ⟨relieved, _, acting, promoted⟩ := performs.moves.elected
      (unpromoted turn (mem_concat_self)) found elected
    obtain ⟨old, before, resembles⟩ := exists_of_rel_some (performs.acting_slots token) acting
    obtain ⟨never, origin⟩ := earlier
      (fun turn member => unpromoted turn (mem_append_left _ member)) old before
      (resembles.promoted.symm.trans promoted)
    exact ⟨forall_mem_snoc never relieved, origin⟩
  · exact fun _ slot found elected => ⟨nofun, slot, found, elected⟩

/-- No subscriber is stranded. In every reachable state a slot without a result waits for a flight
in progress, and every flight has one owner: work handed out, or one elected slot. Once the work is
over and no slot is elected, every slot has its result, and so it is after the elected waiters are
relieved while nobody is promoted. -/
theorem no_subscriber_stranded {limits : SubscriptionLimits}
    {initial middle last : Scheduler Membership Receiver Version Payload Error}
    {earlier later : List (Turn Membership Receiver Version Payload Error)}
    (started : Scheduler.new limits = some initial) (reached : Run Performs initial earlier middle)
    (continued : Run Performs middle later last) :
    (∀ waiter slot, middle.fanout.pending.lookup waiter = some slot → slot.result = none →
        (middle.fanout.flights.lookup slot.flight).isSome) ∧
      (outstandingWork earlier).Nodup ∧
      (∀ flight, (middle.fanout.flights.lookup flight).isSome →
        (flight ∈ outstandingWork earlier ∧
          ∀ waiter slot, middle.fanout.pending.lookup waiter = some slot →
            slot.promoted = true → slot.flight ≠ flight) ∨
        (flight ∉ outstandingWork earlier ∧
          ∃! waiter, ∃ slot, middle.fanout.pending.lookup waiter = some slot ∧
            slot.promoted = true ∧ slot.flight = flight)) ∧
      (outstandingWork earlier = [] →
        (∀ waiter slot, middle.fanout.pending.lookup waiter = some slot → slot.promoted = false) →
        ∀ waiter slot, middle.fanout.pending.lookup waiter = some slot → slot.result.isSome) ∧
      ((∀ turn ∈ later, turn.promotes = false) → outstandingWork (earlier ++ later) = [] →
        (∀ waiter slot, middle.fanout.pending.lookup waiter = some slot →
          slot.promoted = true → ∃ turn ∈ later, turn.relieved = some waiter) →
        ∀ waiter slot, last.fanout.pending.lookup waiter = some slot → slot.result.isSome) := by
  have owners := run_owners started reached
  refine ⟨fun _ _ found => (owners.placed found).waits, owners.distinct, fun flight present => ?_,
    fun concluded unelected waiter slot => (concluded ▸ owners).resolved unelected, ?_⟩
  · by_cases working : flight ∈ outstandingWork earlier
    · refine .inl ⟨working, fun waiter slot found promoted own => ?_⟩
      obtain ⟨self, unhanded⟩ := (owners.placed found).elected promoted
      exact unhanded (self.symm.trans own ▸ working)
    · rcases (owners.owned flight present).2 with handed | lost | ⟨slot, found, promoted, own⟩
      · exact absurd handed working
      · exact lost.elim
      · refine .inr ⟨working, flight, ⟨slot, found, promoted, own⟩, ?_⟩
        rintro other ⟨next, elects, promotes, same⟩
        exact ((owners.placed elects).elected promotes).1.symm.trans same
  · intro unpromoted concluded relieved waiter slot found
    have settled := run_owners started (reached.trans continued)
    rw [concluded] at settled
    refine settled.resolved (fun token slot present => ?_) found
    rw [← Bool.not_eq_true]
    intro promoted
    obtain ⟨never, old, before, promotes⟩ := run_elected continued unpromoted present promoted
    obtain ⟨turn, member, relieves⟩ := relieved token old before promotes
    exact never turn member relieves

/-- Two receivers select one page, and the leader's credentials are rejected. -/
def rejectedLeader : List (Option Nat × Call Nat Nat Nat Nat Kind) :=
  let demand : Demand := ⟨[⟨0, 1⟩], by decide, by decide⟩
  [(some 1, .admitRequest ⟨1, 0, demand, 1, 4, 100000000, none⟩ 0 1 100),
    (some 1, .admitRequest ⟨2, 0, demand, 1, 4, 100000000, none⟩ 0 2 100),
    (some 1, .select (⟨0, 1, 1⟩, 1) fun _ => some true),
    (some 1, .select (⟨0, 2, 2⟩, 1) fun _ => some true),
    (none, .complete 1 (.error .unavailable) true)]

/-- The follower takes the work and abandons it: both slots have their result. -/
theorem no_subscriber_stranded_taken :
    ∃ (initial middle last : Scheduler Nat Nat Nat Nat Kind)
        (earlier later : List (Turn Nat Nat Nat Nat Kind)),
      Scheduler.new ⟨4, 4, 4, 4, 2⟩ = some initial ∧ Run Performs initial earlier middle ∧
        Run Performs middle later last ∧
        (middle.fanout.pending.lookup 2).any (fun slot => slot.promoted && slot.result.isNone) ∧
        ∀ waiter slot, last.fanout.pending.lookup waiter = some slot → slot.result.isSome := by
  let abandoned : List (Option Nat × Call Nat Nat Nat Nat Kind) :=
    [(some 2, .takeWork 2), (none, .cancelWork 2)]
  obtain ⟨initial, earlier, middle, started, reached, waits, unpromoted, concluded, relieved⟩ :=
    Scheduler.exists_run ⟨4, 4, 4, 4, 2⟩ rejectedLeader (fun earlier middle =>
      let later := (middle.replay abandoned).1
      (middle.fanout.pending.lookup 2).any (fun slot => slot.promoted && slot.result.isNone) ∧
        (∀ turn ∈ later, turn.promotes = false) ∧ outstandingWork (earlier ++ later) = [] ∧
        ∀ entry ∈ middle.fanout.pending.entries, entry.2.promoted = true →
          ∃ turn ∈ later, turn.relieved = some entry.1) (by decide +kernel)
  have continued := middle.replay_run abandoned
  refine ⟨initial, middle, _, earlier, _, started, reached, continued, waits, ?_⟩
  exact (no_subscriber_stranded started reached continued).2.2.2.2 unpromoted concluded
    fun waiter slot found => relieved ⟨waiter, slot⟩ (mem_entries.mpr found)

/-- The waiter a turn polls. -/
def Turn.polled (turn : Turn Membership Receiver Version Payload Error) : Option Nat :=
  match turn.call with
  | .poll waiter => some waiter
  | _ => none

/-- Polling an elected waiter before its deadline resolves nothing: all the work is over, the only
elected waiter was polled, and its slot has no result. -/
theorem polled_elected_waiter_unresolved :
    ∃ (initial middle last : Scheduler Nat Nat Nat Nat Kind)
        (earlier later : List (Turn Nat Nat Nat Nat Kind)),
      Scheduler.new ⟨4, 4, 4, 4, 2⟩ = some initial ∧ Run Performs initial earlier middle ∧
        Run Performs middle later last ∧ (∀ turn ∈ later, turn.promotes = false) ∧
        outstandingWork (earlier ++ later) = [] ∧
        (∀ waiter slot, middle.fanout.pending.lookup waiter = some slot →
          slot.promoted = true → ∃ turn ∈ later, turn.polled = some waiter) ∧
        (last.fanout.pending.lookup 2).any (·.result.isNone) := by
  let polls : List (Option Nat × Call Nat Nat Nat Nat Kind) := [(some 2, .poll 2)]
  obtain ⟨initial, earlier, middle, started, reached, unpromoted, concluded, polled, waits⟩ :=
    Scheduler.exists_run ⟨4, 4, 4, 4, 2⟩ rejectedLeader (fun earlier middle =>
      let later := (middle.replay polls).1
      (∀ turn ∈ later, turn.promotes = false) ∧ outstandingWork (earlier ++ later) = [] ∧
        (∀ entry ∈ middle.fanout.pending.entries, entry.2.promoted = true →
          ∃ turn ∈ later, turn.polled = some entry.1) ∧
        ((middle.replay polls).2.fanout.pending.lookup 2).any (·.result.isNone)) (by decide +kernel)
  exact ⟨initial, middle, _, earlier, _, started, reached, middle.replay_run polls, unpromoted,
    concluded, fun waiter slot found => polled ⟨waiter, slot⟩ (mem_entries.mpr found), waits⟩

end

end Unbounded.Subscriptions
