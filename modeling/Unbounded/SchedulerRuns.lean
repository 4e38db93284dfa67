/-
This file runs the subscription scheduler. A turn is one call of its caller: time
may pass first, which expires slots and prunes contracts, and the call then acts
on what is left. The hash tables may be visited in any order at every turn.

What a turn can do to one contract is said once. Every result about contracts
follows it: a contract is made by its first request, changed by a later one,
charged for a selection, settled by a completion, or relieved of a request or a
slot that is gone.
-/

import Unbounded.Scheduler
import Unbounded.Transition

namespace Unbounded.Subscriptions

open ListUpdate Transition

section

variable (Membership Receiver Version Payload Error : Type*)

/-- The methods of the scheduler. -/
inductive Call
  | advance
  | admitRequest (subscription : Contract Version) (membership : Membership) (receiver : Receiver)
      (deadline : Nat)
  | release (admitted : Admitted Membership Receiver)
  | select (admitted : Admitted Membership Receiver) (eligible : Nat → Option Bool)
  | complete (work : Nat) (result : Except Error (Payload × Nat)) (promote : Bool)
  | cancelWork (work : Nat)
  | takeWork (waiter : Nat)
  | poll (waiter : Nat)
  | cancelWaiter (waiter : Nat)
  | takeWakes

/-- What a method returns. -/
inductive Reply
  | done
  | admitted (result : Except Kind (Admitted Membership Receiver))
  | selected (result : Except Kind (Except Nat (Selected Version)))
  | work (taken : Option (Nat × Version × Nat))
  | polled (result : Polled (Except Error (Delivery Payload Membership Receiver Version)))
  | wakes (tokens : List Nat)

/-- One call: the time it brings, if any, the state it acts on, and what it returned. -/
structure Turn where
  now : Option Nat
  call : Call Membership Receiver Version Payload Error
  acting : Scheduler Membership Receiver Version Payload Error
  reply : Reply Membership Receiver Version Payload Error

end

variable {Membership Receiver Version Payload Error : Type*}

namespace Scheduler

/-- Two states that differ in the order of their hash tables at most. -/
structure Reordered (first second : Scheduler Membership Receiver Version Payload Error) :
    Prop where
  limits : second.limits = first.limits
  now : second.now = first.now
  nextPrune : second.nextPrune = first.nextPrune
  entries : Table.Reordered second.entries first.entries
  next : second.fanout.next = first.fanout.next
  flights : Table.Reordered second.fanout.flights first.fanout.flights
  pending : Table.Reordered second.fanout.pending first.fanout.pending
  completedIntervals : second.completedIntervals = first.completedIntervals
  wake : second.wake.Perm first.wake

theorem Reordered.refl (scheduler : Scheduler Membership Receiver Version Payload Error) :
    Reordered scheduler scheduler :=
  ⟨rfl, rfl, rfl, List.Perm.refl _, rfl, List.Perm.refl _, List.Perm.refl _, rfl, List.Perm.refl _⟩

end Scheduler

variable [DecidableEq Membership] [DecidableEq Receiver]

namespace Scheduler

variable [OfKind Error]

/-- Time passes before a call, if the call brings one. -/
def arrive (scheduler : Scheduler Membership Receiver Version Payload Error) :
    Option Nat → Scheduler Membership Receiver Version Payload Error
  | none => scheduler
  | some now => scheduler.advance now

/-- What a call does at the scheduler's time. -/
def perform [DecidableEq Version]
    (scheduler : Scheduler Membership Receiver Version Payload Error) :
    Call Membership Receiver Version Payload Error →
      Scheduler Membership Receiver Version Payload Error ×
        Reply Membership Receiver Version Payload Error
  | .advance => (scheduler, .done)
  | .admitRequest subscription membership receiver deadline =>
    (scheduler.admitAt subscription membership receiver deadline).map id .admitted
  | .release admitted => (scheduler.release admitted, .done)
  | .select admitted eligible => (scheduler.selectAt admitted eligible).map id .selected
  | .complete work result promote => (scheduler.finish work result promote, .done)
  | .cancelWork work => (scheduler.cancelWork work, .done)
  | .takeWork waiter => (scheduler.takeWork waiter).map id .work
  | .poll waiter => (scheduler.poll waiter).map id .polled
  | .cancelWaiter waiter => (scheduler.cancelWaiter waiter, .done)
  | .takeWakes => scheduler.takeWakes.map id .wakes

end Scheduler

/-- One turn of the scheduler. -/
structure Performs [DecidableEq Version] [OfKind Error]
    (before : Scheduler Membership Receiver Version Payload Error)
    (turn : Turn Membership Receiver Version Payload Error)
    (after : Scheduler Membership Receiver Version Payload Error) : Prop where
  arrives : Scheduler.Reordered (before.arrive turn.now) turn.acting
  performs : turn.acting.perform turn.call = (after, turn.reply)

/-! ### What a turn does to one contract -/

/-- The request a turn admits on a contract. -/
def Turn.admission (turn : Turn Membership Receiver Version Payload Error)
    (key : EntryKey Membership Receiver) : Option (Contract Version) :=
  match turn.call, turn.reply with
  | .admitRequest subscription membership receiver _, .admitted (.ok _) =>
    if (⟨membership, receiver, subscription.id⟩ : EntryKey Membership Receiver) = key then
      some subscription
    else none
  | _, _ => none

/-- A flight of the contract is completed with a page. -/
inductive Settles (entry : Entry Version) : Entry Version → Prop
  | settle {token page bytes index flight}
      (found : locate (fun flight => decide (flight.token = token)) entry.pending =
        some (index, flight))
      (funded : max bytes flight.reservation.coveredBytes ≤ entry.subscription.byteBudget) :
      Settles entry { entry with
        completed := includeItem entry.completed page
        subscription := { entry.subscription with
          byteBudget := entry.subscription.byteBudget - max bytes flight.reservation.coveredBytes }
        pending := entry.pending.set index { flight with settled := true } }

variable (turn : Turn Membership Receiver Version Payload Error)
  (key : EntryKey Membership Receiver) in
/-- What a turn can do to one contract. -/
inductive Fate [DecidableEq Version] : Option (Entry Version) → Option (Entry Version) → Prop
  | kept {entry} (unadmitted : turn.admission key = none) : Fate entry entry
  | fresh {subscription} (admits : turn.admission key = some subscription) (deadline : Nat)
      {granted} (few : granted ≤ turn.acting.limits.maxFlightsPerSubscription) :
      Fate none (some (.fresh subscription deadline granted))
  | late {entry after subscription} (admits : turn.admission key = some subscription) {deadline}
      (below : subscription.sequence ≤ entry.subscription.sequence)
      (admitted : entry.admitLate subscription deadline = .ok after) :
      Fate (some entry) (some after)
  | newer {entry after subscription} (admits : turn.admission key = some subscription)
      {deadline granted} (above : entry.subscription.sequence < subscription.sequence)
      (admitted : entry.admitNewer subscription deadline granted = (after, .ok ())) :
      Fate (some entry) (some after)
  | refused {entry after} (unadmitted : turn.admission key = none)
      {subscription deadline granted kind}
      (refused : entry.admitNewer subscription deadline granted = (after, .error kind)) :
      Fate (some entry) (some after)
  | released {entry} (unadmitted : turn.admission key = none) (sequence : Nat) :
      Fate (some entry) (some (entry.release sequence))
  | selected {entry} (unadmitted : turn.admission key = none) {sequence token page reservation}
      (found : entry.admitted.find? (fun request => decide (request.sequence = sequence)) =
        some reservation) (funded : entry.subscription.pageBudget ≠ 0) :
      Fate (some entry) (some (entry.commit sequence token page reservation))
  | settled {entry after} (unadmitted : turn.admission key = none)
      (settles : Relation.ReflTransGen Settles entry after) : Fate (some entry) (some after)
  | dropped {entry} (unadmitted : turn.admission key = none) (token : Nat) :
      Fate (some entry) (some (entry.drop token))

namespace Scheduler

variable {scheduler after : Scheduler Membership Receiver Version Payload Error}
  {key : EntryKey Membership Receiver} [OfKind Error]

/-- Advancing only loses contracts. -/
theorem advance_entries {entry : Entry Version} {now : Nat}
    (found : (scheduler.advance now).entries.lookup key = some entry) :
    scheduler.entries.lookup key = some entry := by
  unfold advance at found
  dsimp only at found
  split at found
  · exact found
  unfold prune at found
  rw [Table.lookup_retain, Option.filter_eq_some_iff] at found
  exact found.1

theorem arrive_entries {entry : Entry Version} {now : Option Nat}
    (found : (scheduler.arrive now).entries.lookup key = some entry) :
    scheduler.entries.lookup key = some entry := by
  cases now with
  | none => exact found
  | some => exact advance_entries found

/-- Completions settle flights of contracts that exist, and nothing else. -/
def SettlesAll (before after : Entries Membership Receiver Version) : Prop :=
  ∀ key, (before.lookup key = none ∧ after.lookup key = none) ∨
    ∃ entry settled, before.lookup key = some entry ∧ after.lookup key = some settled ∧
      Relation.ReflTransGen Settles entry settled

theorem SettlesAll.refl (entries : Entries Membership Receiver Version) :
    SettlesAll entries entries := by
  intro key
  cases found : entries.lookup key with
  | none => exact .inl ⟨rfl, rfl⟩
  | some entry => exact .inr ⟨entry, entry, rfl, rfl, .refl⟩

theorem SettlesAll.trans {first second third : Entries Membership Receiver Version}
    (earlier : SettlesAll first second) (later : SettlesAll second third) :
    SettlesAll first third := by
  intro key
  rcases earlier key with ⟨before, between⟩ | ⟨entry, _, before, between, settles⟩
  · rcases later key with ⟨-, after⟩ | ⟨_, _, found, -, -⟩
    · exact .inl ⟨before, after⟩
    · rw [between] at found
      cases found
  · rcases later key with ⟨missing, -⟩ | ⟨_, settled, found, after, settlesMore⟩
    · rw [between] at missing
      cases missing
    · obtain rfl := Option.mem_unique between found
      exact .inr ⟨entry, settled, before, after, settles.trans settlesMore⟩

theorem settle_settles (limit : Nat) (result : Except Error (Payload × Nat))
    (state : Entries Membership Receiver Version × Nat) (token : Nat)
    (owner : EntryKey Membership Receiver) (key : FlightKey Membership Version) :
    SettlesAll state.1 (settle limit result state token owner key).1.1 := by
  unfold settle
  split
  · exact .refl _
  split
  · exact .refl _
  rename_i entry found
  split
  · exact .refl _
  rename_i located
  split
  · rename_i charges _
    obtain ⟨funded, rfl⟩ := Word.checkedSub_eq_some.mp charges
    dsimp only
    split
    · exact .refl _
    intro other
    rw [Table.lookup_insert_eq]
    split
    · rename_i same
      rw [same]
      exact .inr ⟨entry, _, found, rfl, .single (.settle located funded)⟩
    · exact SettlesAll.refl state.1 other
  · exact .refl _

section

variable (scheduler)

theorem finish_entries (flight : Nat) (result : Except Error (Payload × Nat)) (promote : Bool) :
    SettlesAll scheduler.entries (scheduler.finish flight result promote).entries :=
  scheduler.fanout.finish_policy flight (settle scheduler.limits.maxCompletedIntervals result)
    (fun (first second : Entries Membership Receiver Version × Nat) => SettlesAll first.1 second.1)
    (fun state => .refl state.1) (fun _ _ _ earlier later => .trans earlier later)
    (fun state token owner key => settle_settles _ result state token owner key)
    (promote && !result.isOk) (scheduler.entries, scheduler.completedIntervals) scheduler.wake

theorem cancelWork_entries (work : Nat) :
    (scheduler.cancelWork work).entries = scheduler.entries := by
  have same := scheduler.fanout.finish_policy work (settle scheduler.limits.maxCompletedIntervals
      (.error (OfKind.ofKind .cancelled) : Except Error (Payload × Nat)))
    (fun first second => second = first) (fun _ => rfl)
    (fun _ _ _ earlier later => later.trans earlier) (fun _ _ _ _ => rfl) false
    (scheduler.entries, scheduler.completedIntervals) scheduler.wake
  exact congrArg Prod.fst same

omit [OfKind Error] in
theorem removePending_entries (token : Nat) (key : EntryKey Membership Receiver) :
    (scheduler.removePending token).1.entries.lookup key = scheduler.entries.lookup key ∨
      ∃ entry, scheduler.entries.lookup key = some entry ∧
        (scheduler.removePending token).1.entries.lookup key = some (entry.drop token) := by
  unfold removePending Fanout.remove
  cases scheduler.fanout.pending.lookup token with
  | none => exact .inl rfl
  | some slot =>
    rw [Table.lookup_modify]
    split
    · rename_i same
      rw [same]
      cases scheduler.entries.lookup slot.owner with
      | none => exact .inl rfl
      | some entry => exact .inr ⟨entry, rfl, rfl⟩
    · exact .inl rfl

/-- Polling a slot, or abandoning it, relieves its contract of the slot at most. -/
theorem poll_entries (waiter : Nat) (key : EntryKey Membership Receiver) :
    (scheduler.poll waiter).1.entries.lookup key = scheduler.entries.lookup key ∨
      ∃ entry, scheduler.entries.lookup key = some entry ∧
        (scheduler.poll waiter).1.entries.lookup key = some (entry.drop waiter) := by
  unfold poll
  split
  · exact .inl rfl
  split
  · exact .inl rfl
  have removed := scheduler.removePending_entries waiter key
  dsimp only
  split
  · rw [cancelWork_entries]
    exact removed
  · exact removed

theorem cancelWaiter_entries (waiter : Nat) (key : EntryKey Membership Receiver) :
    (scheduler.cancelWaiter waiter).entries.lookup key = scheduler.entries.lookup key ∨
      ∃ entry, scheduler.entries.lookup key = some entry ∧
        (scheduler.cancelWaiter waiter).entries.lookup key = some (entry.drop waiter) := by
  have removed := scheduler.removePending_entries waiter key
  unfold cancelWaiter
  split
  · rename_i next _ equal
    rw [equal] at removed
    split
    · rw [cancelWork_entries]
      exact removed
    · exact removed
  · rename_i next equal
    rw [equal] at removed
    exact removed

end

end Scheduler

/-! ### The fate of a contract -/

section

variable {turn : Turn Membership Receiver Version Payload Error}
  {before after : Scheduler Membership Receiver Version Payload Error}
  {deadline : Nat} {membership : Membership} {subscription : Contract Version}
  {receiver : Receiver}

section

variable (called : turn.call = .admitRequest subscription membership receiver deadline)

include called

theorem admission_of_error {kind : Kind} (replied : turn.reply = .admitted (.error kind))
    (key : EntryKey Membership Receiver) : turn.admission key = none := by
  unfold Turn.admission
  rw [called, replied]

theorem admission_of_ok {admitted : Admitted Membership Receiver}
    (replied : turn.reply = .admitted (.ok admitted)) (key : EntryKey Membership Receiver) :
    turn.admission key =
      if key = ⟨membership, receiver, subscription.id⟩ then some subscription else none := by
  unfold Turn.admission
  rw [called, replied]
  simp only [eq_comm]

end

variable {key : EntryKey Membership Receiver} [DecidableEq Version]

theorem Fate.of_drop {old new : Option (Entry Version)} {token : Nat}
    (unadmitted : turn.admission key = none)
    (drops : new = old ∨ ∃ entry, old = some entry ∧ new = some (entry.drop token)) :
    Fate turn key old new := by
  rcases drops with rfl | ⟨_, rfl, rfl⟩
  · exact .kept unadmitted
  · exact .dropped unadmitted token

variable (scheduler : Scheduler Membership Receiver Version Payload Error)
  (subscription : Contract Version) (deadline : Nat) (key : EntryKey Membership Receiver) in
/-- What admitting a request returns. -/
inductive Admits :
    Scheduler Membership Receiver Version Payload Error ×
      Except Kind (Admitted Membership Receiver) → Prop
  | refused (kind : Kind) : Admits (scheduler, .error kind)
  | late {entry after} (found : scheduler.entries.lookup key = some entry)
      (below : subscription.sequence ≤ entry.subscription.sequence)
      (admitted : entry.admitLate subscription deadline = .ok after) : Admits
        ({ scheduler with entries := scheduler.entries.insert key after },
          .ok (key, subscription.sequence))
  | newer {entry after granted} (found : scheduler.entries.lookup key = some entry)
      (above : entry.subscription.sequence < subscription.sequence)
      (admitted : entry.admitNewer subscription deadline granted = (after, .ok ())) : Admits
        ({ scheduler with entries := scheduler.entries.insert key after },
          .ok (key, subscription.sequence))
  | narrowed {entry after granted kind} (found : scheduler.entries.lookup key = some entry)
      (refused : entry.admitNewer subscription deadline granted = (after, .error kind)) : Admits
        ({ scheduler with entries := scheduler.entries.insert key after }, .error kind)
  | fresh {granted} (missing : scheduler.entries.lookup key = none)
      (few : granted ≤ scheduler.limits.maxFlightsPerSubscription) : Admits
        ({ scheduler with
            entries := scheduler.entries.insert key (.fresh subscription deadline granted) },
          .ok (key, subscription.sequence))

theorem admitAt_admits (scheduler : Scheduler Membership Receiver Version Payload Error)
    (subscription : Contract Version) (membership : Membership) (receiver : Receiver)
    (deadline : Nat) :
    Admits scheduler subscription deadline ⟨membership, receiver, subscription.id⟩
      (scheduler.admitAt subscription membership receiver deadline) := by
  unfold Scheduler.admitAt
  dsimp only
  split
  · exact .refused _
  split
  · rename_i entry found
    split
    · rename_i below
      split
      · exact .refused _
      · rename_i admitted
        exact .late found below admitted
    · rename_i above
      rcases admits : entry.admitNewer subscription deadline
        (min (subscription.flights.getD 1) scheduler.limits.maxFlightsPerSubscription) with
        ⟨_, _ | _⟩
      · exact .narrowed found admits
      · exact .newer found (Nat.not_le.mp above) admits
  · rename_i missing
    split
    · exact .refused _
    split
    · exact .refused _
    · exact .fresh missing (Nat.min_le_right _ _)

theorem Fate.of_insert {other : EntryKey Membership Receiver}
    {entries : Entries Membership Receiver Version} {old : Option (Entry Version)}
    {new : Entry Version} (found : entries.lookup other = old)
    (unadmitted : key ≠ other → turn.admission key = none)
    (changes : key = other → Fate turn key old (some new)) :
    Fate turn key (entries.lookup key) ((entries.insert other new).lookup key) := by
  rw [Table.lookup_insert_eq]
  split
  · rename_i same
    rw [same, found, ← same]
    exact changes same
  · rename_i differs
    exact .kept (unadmitted differs)

/-- What admitting a request does to each contract. -/
theorem Admits.fate {result : Except Kind (Admitted Membership Receiver)}
    (admits : Admits turn.acting subscription deadline ⟨membership, receiver, subscription.id⟩
      (after, result))
    (called : turn.call = .admitRequest subscription membership receiver deadline)
    (replied : turn.reply = .admitted result) (key : EntryKey Membership Receiver) :
    Fate turn key (turn.acting.entries.lookup key) (after.entries.lookup key) := by
  cases admits with
  | refused => exact .kept (admission_of_error called replied key)
  | late found below admitted =>
    have admission := admission_of_ok called replied key
    refine .of_insert found (fun differs => admission.trans (if_neg differs)) fun same => ?_
    exact .late (admission.trans (if_pos same)) below admitted
  | newer found above admitted =>
    have admission := admission_of_ok called replied key
    refine .of_insert found (fun differs => admission.trans (if_neg differs)) fun same => ?_
    exact .newer (admission.trans (if_pos same)) above admitted
  | narrowed found refused =>
    have admission := admission_of_error called replied key
    exact .of_insert found (fun _ => admission) fun _ => .refused admission refused
  | fresh missing few =>
    have admission := admission_of_ok called replied key
    refine .of_insert missing (fun differs => admission.trans (if_neg differs)) fun same => ?_
    exact .fresh (admission.trans (if_pos same)) deadline few

variable (scheduler : Scheduler Membership Receiver Version Payload Error)
  (key : EntryKey Membership Receiver) (sequence : Nat) (eligible : Nat → Option Bool) in
/-- What selecting a page returns. -/
inductive Selects :
    Scheduler Membership Receiver Version Payload Error ×
      Except Kind (Except Nat (Selected Version)) → Prop
  | refused (kind : Kind) : Selects (scheduler, .error kind)
  | unknown (page : Nat) : Selects (scheduler, .ok (.error page))
  | selected {entry reservation page token flight leader fanout}
      (found : scheduler.entries.lookup key = some entry)
      (request : entry.admitted.find? (fun request => decide (request.sequence = sequence)) =
        some reservation) (funded : entry.subscription.pageBudget ≠ 0)
      (asked : reservation.pageBudget ≠ 0)
      (voted : scheduler.vote key entry.subscription.version reservation.demand.intervals eligible =
        .ok (some page))
      (attached : scheduler.fanout.attach ⟨key.membership, entry.subscription.version, page⟩ key
        (min entry.deadline reservation.deadline) scheduler.now scheduler.limits.maxPending
        scheduler.limits.maxInflight = some (fanout, token, flight, leader)) : Selects
        ({ scheduler with
            fanout
            entries := scheduler.entries.insert key
              (entry.commit sequence token page reservation) },
          .ok (.ok ⟨token, if leader then some flight else none, entry.subscription.version, page⟩))

theorem selectAt_selects (scheduler : Scheduler Membership Receiver Version Payload Error)
    (admitted : Admitted Membership Receiver) (eligible : Nat → Option Bool) :
    Selects scheduler admitted.1 admitted.2 eligible (scheduler.selectAt admitted eligible) := by
  unfold Scheduler.selectAt
  dsimp only
  split
  · exact .refused _
  rename_i found
  split
  · exact .refused _
  split
  · exact .refused _
  split
  · exact .refused _
  rename_i request
  split
  · exact .refused _
  rename_i funded
  rw [not_or, not_or, not_or] at funded
  split
  · exact .refused _
  split
  · exact .unknown _
  · exact .refused _
  · rename_i voted
    split
    · exact .refused _
    · rename_i attached
      exact .selected found request funded.1 funded.2.2.1 voted attached

/-- What a turn does to each contract. -/
theorem Performs.fate [OfKind Error] (performs : Performs before turn after)
    (key : EntryKey Membership Receiver) :
    Fate turn key (turn.acting.entries.lookup key) (after.entries.lookup key) := by
  have performed := performs.performs
  obtain ⟨_, call, acting, _⟩ := turn
  dsimp only at performed ⊢
  cases call with
  | admitRequest subscription membership receiver deadline =>
    obtain ⟨rfl, replied⟩ := Prod.mk.inj performed
    exact (admitAt_admits acting subscription membership receiver deadline).fate rfl replied.symm
      key
  | advance | takeWakes =>
    cases performed
    exact .kept rfl
  | release admitted =>
    cases performed
    show Fate _ key _ ((acting.entries.modify _ _).lookup key)
    rw [Table.lookup_modify]
    split
    · rename_i same
      rw [same]
      cases acting.entries.lookup admitted.1 with
      | none => exact .kept rfl
      | some => exact .released rfl admitted.2
    · exact .kept rfl
  | select admitted eligible =>
    cases performed
    have selects := selectAt_selects acting admitted eligible
    show Fate _ key _ ((acting.selectAt admitted eligible).1.entries.lookup key)
    generalize acting.selectAt admitted eligible = returned at selects
    cases selects with
    | refused | unknown => exact .kept rfl
    | selected found request funded =>
      exact .of_insert found (fun _ => rfl) fun _ => .selected rfl request funded
  | complete work result promote =>
    cases performed
    rcases acting.finish_entries work result promote key with
      ⟨missing, gone⟩ | ⟨_, _, found, changed, chain⟩
    · rw [missing, gone]
      exact .kept rfl
    · rw [found, changed]
      exact .settled rfl chain
  | cancelWork =>
    cases performed
    rw [Scheduler.cancelWork_entries]
    exact .kept rfl
  | takeWork waiter =>
    cases performed
    show Fate _ key _ ((acting.takeWork waiter).1.entries.lookup key)
    unfold Scheduler.takeWork
    split
    · exact .kept rfl
    · split <;> exact .kept rfl
  | poll waiter =>
    cases performed
    exact .of_drop rfl (acting.poll_entries waiter key)
  | cancelWaiter waiter =>
    cases performed
    exact .of_drop rfl (acting.cancelWaiter_entries waiter key)

end

/-! ### Scripts -/

namespace Scheduler

variable [DecidableEq Version] [OfKind Error]

/-- Replay a script of calls, each with the time it brings. The tables are visited as they are. -/
def replay (scheduler : Scheduler Membership Receiver Version Payload Error) :
    List (Option Nat × Call Membership Receiver Version Payload Error) →
      List (Turn Membership Receiver Version Payload Error) ×
        Scheduler Membership Receiver Version Payload Error
  | [] => ([], scheduler)
  | (now, call) :: rest =>
    let acting := scheduler.arrive now
    let (after, reply) := acting.perform call
    let (turns, last) := after.replay rest
    (⟨now, call, acting, reply⟩ :: turns, last)

theorem replay_run (scheduler : Scheduler Membership Receiver Version Payload Error)
    (script : List (Option Nat × Call Membership Receiver Version Payload Error)) :
    Run Performs scheduler (scheduler.replay script).1 (scheduler.replay script).2 := by
  induction script generalizing scheduler with
  | nil => exact .nil scheduler
  | cons line _ ih =>
    have performs : Performs scheduler ⟨line.1, line.2, scheduler.arrive line.1,
        ((scheduler.arrive line.1).perform line.2).2⟩
        ((scheduler.arrive line.1).perform line.2).1 := ⟨.refl _, rfl⟩
    exact .cons performs (ih _)

/-- A script whose replay meets a property is a run that meets it. -/
theorem exists_run (limits : SubscriptionLimits)
    (script : List (Option Nat × Call Membership Receiver Version Payload Error))
    (property : List (Turn Membership Receiver Version Payload Error) →
      Scheduler Membership Receiver Version Payload Error → Prop)
    [∀ turns last, Decidable (property turns last)]
    (meets : ((new limits).map (·.replay script)).any (fun played => property played.1 played.2)) :
    ∃ initial turns last, new limits = some initial ∧ Run Performs initial turns last ∧
      property turns last := by
  rw [Option.any_map, Option.any_eq_true] at meets
  obtain ⟨initial, started, meets⟩ := meets
  exact ⟨initial, _, _, started, initial.replay_run script, of_decide_eq_true meets⟩

end Scheduler

end Unbounded.Subscriptions
