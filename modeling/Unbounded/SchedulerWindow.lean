/-
This file proves what the replay window of a contract keeps. The window is a
64-bit map below the highest admitted sequence. Every sequence a contract has
admitted is recorded there, or lies more than 63 below the highest; a request is
admitted only if its sequence is not, and only within the granted flights.
-/

import Unbounded.SchedulerRuns

namespace Unbounded.Subscriptions

open List ListUpdate Transition

namespace Entry

variable {Version : Type*} {entry after : Entry Version}

/-- A sequence was admitted, as far as the window can tell. -/
def Records (entry : Entry Version) (sequence : Nat) : Prop :=
  sequence ≤ entry.subscription.sequence ∧
    (entry.subscription.sequence - sequence < 64 →
      entry.seen.getLsbD (entry.subscription.sequence - sequence) = true)

/-- What every contract keeps: its flights fit the window, and its admitted requests are recorded
and distinct. -/
structure Window (entry : Entry Version) : Prop where
  few : entry.flights ≤ 64
  recorded : ∀ request ∈ entry.admitted, entry.Records request.sequence
  distinct : (entry.admitted.map (·.sequence)).Nodup

theorem hasSeen_eq (entry : Entry Version) (offset : Nat) :
    entry.hasSeen offset = entry.seen.getLsbD offset := by
  unfold hasSeen
  rw [show (1#64 <<< offset) = BitVec.twoPow 64 offset from rfl, BitVec.and_twoPow]
  cases bit : entry.seen.getLsbD offset with
  | false => rw [if_neg Bool.false_ne_true, bne_self_eq_false]
  | true =>
    rw [if_pos rfl, bne_iff_ne]
    intro zero
    have cleared := congrArg (BitVec.getLsbD · offset) zero
    simp only [BitVec.getLsbD_twoPow, BitVec.getLsbD_zero, decide_true, Bool.and_true,
      decide_eq_false_iff_not] at cleared
    exact cleared (BitVec.lt_of_getLsbD bit)

/-! ### Reserving a slot -/

/-- What reserving a slot returns: the request joins the admitted ones, of which the oldest may
have been superseded. -/
inductive Reserves (entry : Entry Version) (reservation : Reservation) : Entry Version → Prop
  | free : Reserves entry reservation { entry with admitted := entry.admitted ++ [reservation] }
  | supersedes {index : Nat} {oldest : Reservation}
      (found : entry.admitted[index]? = some oldest) :
      Reserves entry reservation { ({ entry with
          admitted := swapRemove entry.admitted index }).forfeit oldest.coveredPage
            oldest.coveredBytes with
        admitted := swapRemove entry.admitted index ++ [reservation] }

theorem reserve_reserves {reservation : Reservation}
    (reserved : entry.reserve reservation = .ok after) : Reserves entry reservation after := by
  unfold reserve at reserved
  split at reserved
  · cases reserved
  split at reserved
  · split at reserved
    · cases reserved
    rename_i oldest
    split at reserved
    · cases reserved
    · obtain rfl := Except.ok.inj reserved
      exact .supersedes (locate_eq_some oldest).1
  · obtain rfl := Except.ok.inj reserved
    exact .free

/-! ### Steps that admit nothing -/

/-- A step that leaves the window alone: it may narrow the flights and lose admitted requests. -/
structure Keeps (entry after : Entry Version) : Prop where
  sequence : after.subscription.sequence = entry.subscription.sequence
  seen : after.seen = entry.seen
  flights : after.flights ≤ entry.flights
  admitted : (after.admitted.map (·.sequence)).Subperm (entry.admitted.map (·.sequence))

theorem Keeps.refl (entry : Entry Version) : entry.Keeps entry :=
  ⟨rfl, rfl, le_rfl, List.Subperm.refl _⟩

theorem Keeps.trans {first second third : Entry Version} (earlier : first.Keeps second)
    (later : second.Keeps third) : first.Keeps third :=
  ⟨later.sequence.trans earlier.sequence, later.seen.trans earlier.seen,
    later.flights.trans earlier.flights, later.admitted.trans earlier.admitted⟩

theorem Keeps.records (keeps : entry.Keeps after) {sequence : Nat} :
    after.Records sequence ↔ entry.Records sequence := by
  unfold Records
  rw [keeps.sequence, keeps.seen]

theorem Keeps.window (keeps : entry.Keeps after) (window : entry.Window) : after.Window where
  few := keeps.flights.trans window.few
  recorded := by
    intro _ member
    obtain ⟨other, listed, same⟩ := mem_map.mp (keeps.admitted.subset (mem_map_of_mem member))
    rw [keeps.records, ← same]
    exact window.recorded other listed
  distinct := by
    obtain ⟨_, same, sublist⟩ := keeps.admitted
    exact same.nodup_iff.mp (window.distinct.sublist sublist)

variable {request : Reservation}

theorem Keeps.swapRemove {index : Nat} (found : entry.admitted[index]? = some request) (page : Bool)
    (bytes : Nat) :
    entry.Keeps (({ entry with admitted := ListUpdate.swapRemove entry.admitted index }).forfeit
      page bytes) := by
  refine ⟨rfl, rfl, le_rfl, ?_⟩
  have removed := (swapRemove_perm found).map (·.sequence)
  exact (sublist_cons_self _ _).subperm.trans removed.symm.subperm

theorem release_keeps (entry : Entry Version) (sequence : Nat) :
    entry.Keeps (entry.release sequence) := by
  unfold release
  split
  · exact .refl entry
  · rename_i located
    exact .swapRemove (locate_eq_some located).1 _ _

theorem commit_keeps (entry : Entry Version) (sequence token page : Nat)
    (reservation : Reservation) : entry.Keeps (entry.commit sequence token page reservation) :=
  ⟨rfl, rfl, le_rfl, (filter_sublist.map _).subperm⟩

theorem drop_keeps (entry : Entry Version) (token : Nat) : entry.Keeps (entry.drop token) := by
  unfold drop
  split
  · exact .refl entry
  · split <;> exact ⟨rfl, rfl, le_rfl, List.Subperm.refl _⟩

theorem settlesAll_keeps (settles : Relation.ReflTransGen Settles entry after) :
    entry.Keeps after := by
  induction settles with
  | refl => exact .refl entry
  | tail _ final ih =>
    cases final with
    | settle => exact ih.trans ⟨rfl, rfl, le_rfl, List.Subperm.refl _⟩

theorem reserves_keeps {reservation : Reservation} (reserves : Reserves entry reservation after) :
    ∃ kept : Entry Version, entry.Keeps kept ∧ after.admitted = kept.admitted ++ [reservation] ∧
      after.subscription.sequence = kept.subscription.sequence ∧ after.seen = kept.seen ∧
      after.flights = kept.flights := by
  cases reserves with
  | free => exact ⟨entry, .refl entry, rfl, rfl, rfl, rfl⟩
  | supersedes found => exact ⟨_, .swapRemove found _ _, rfl, rfl, rfl, rfl⟩

variable {subscription : Contract Version} {deadline : Nat} {granted : Nat}

section

variable [DecidableEq Version] {kind : Kind}
  (refused : entry.admitNewer subscription deadline granted = (after, .error kind))

include refused

/-- A refused request at most narrows the window. -/
theorem refused_narrows : ∃ flights ≤ entry.flights, after = { entry with flights } := by
  unfold admitNewer at refused
  split at refused
  · cases refused
    exact ⟨_, le_rfl, rfl⟩
  · dsimp only at refused
    split at refused
    · cases refused
      exact ⟨_, le_rfl, rfl⟩
    · split at refused
      · cases refused
        exact ⟨_, Nat.min_le_left _ _, rfl⟩
      · cases (Prod.mk.inj refused).2

theorem refused_keeps : entry.Keeps after := by
  obtain ⟨_, fewer, rfl⟩ := refused_narrows refused
  exact ⟨rfl, rfl, fewer, List.Subperm.refl _⟩

end

/-! ### Late requests -/

/-- What taking a pledge returns: the request as it is, or with the allowance of one pledge that
is gone. -/
inductive TakesPledge (entry : Entry Version) (reservation : Reservation) :
    Entry Version × Reservation → Prop
  | none : TakesPledge entry reservation (entry, reservation)
  | taken {index : Nat} {pledge : Pledge} (found : entry.pledges[index]? = some pledge) :
      TakesPledge entry reservation ({ entry with pledges := swapRemove entry.pledges index },
        { reservation with coveredPage := pledge.page, coveredBytes := pledge.bytes })

theorem takePledge_takes (entry : Entry Version) (reservation : Reservation) :
    TakesPledge entry reservation (entry.takePledge reservation) := by
  unfold takePledge
  split
  · exact .none
  · rename_i located
    exact .taken (locate_eq_some located).1

/-- What admitting a late request returns. -/
inductive AdmitsLate (entry : Entry Version) (subscription : Contract Version) (deadline : Nat) :
    Entry Version → Prop
  | admits {reserved funded : Entry Version} {kept : List Reservation} {request : Reservation}
      (window : entry.subscription.sequence - subscription.sequence < entry.flights)
      (unseen : entry.hasSeen (entry.subscription.sequence - subscription.sequence) = false)
      (reserves : Reserves entry (reservation subscription deadline) reserved)
      (listed : reserved.admitted = kept ++ [reservation subscription deadline])
      (takes : TakesPledge { reserved with admitted := kept } (reservation subscription deadline)
        (funded, request)) :
      AdmitsLate entry subscription deadline { funded with
        admitted := kept ++ [request]
        seen := entry.seen ||| (1#64 <<< (entry.subscription.sequence - subscription.sequence)) }

theorem admitLate_admits [DecidableEq Version]
    (admitted : entry.admitLate subscription deadline = .ok after) :
    AdmitsLate entry subscription deadline after := by
  unfold admitLate at admitted
  dsimp only at admitted
  split at admitted
  · cases admitted
  rename_i fresh
  rw [Bool.or_eq_true, decide_eq_true_eq, not_or, Nat.not_le, Bool.not_eq_true] at fresh
  split at admitted
  · cases admitted
  split at admitted
  · cases admitted
  rename_i reserved reserving
  have reserves := reserve_reserves reserving
  obtain ⟨before, -, listed, -, seen, -⟩ := reserves_keeps reserves
  have same : reserved.seen = entry.seen := by
    cases reserves with
    | free | supersedes => rfl
  have takes := takePledge_takes { reserved with admitted := before.admitted }
    (reservation subscription deadline)
  rw [listed, dropLast_concat, getLastD_concat] at admitted
  obtain rfl := Except.ok.inj admitted
  generalize ({ reserved with admitted := before.admitted } : Entry Version).takePledge
    (reservation subscription deadline) = taken at takes
  obtain ⟨funded, _⟩ := taken
  have kept : funded.admitted = before.admitted ∧ funded.seen = entry.seen := by
    cases takes with
    | none | taken => exact ⟨rfl, same⟩
  rw [kept.1, kept.2]
  exact .admits fresh.1 fresh.2 reserves listed takes

theorem Reserves.frame {reservation : Reservation} (reserves : Reserves entry reservation after) :
    after.subscription.sequence = entry.subscription.sequence ∧ after.seen = entry.seen ∧
      after.flights = entry.flights := by
  cases reserves with
  | free | supersedes => exact ⟨rfl, rfl, rfl⟩

theorem TakesPledge.frame {reservation : Reservation}
    (takes : TakesPledge entry reservation (after, request)) :
    after.subscription = entry.subscription ∧ after.flights = entry.flights ∧
      request.sequence = reservation.sequence := by
  cases takes with
  | none | taken => exact ⟨rfl, rfl, rfl⟩

/-- The requests that stay admitted when one is reserved were recorded and distinct. -/
theorem Reserves.kept {reservation : Reservation} {kept : List Reservation}
    (window : entry.Window) (reserves : Reserves entry reservation after)
    (listed : after.admitted = kept ++ [reservation]) :
    (∀ request ∈ kept, entry.Records request.sequence) ∧ (kept.map (·.sequence)).Nodup := by
  obtain ⟨before, keeps, equal, -⟩ := reserves_keeps reserves
  have same : kept = before.admitted := by
    rw [listed] at equal
    exact append_cancel_right equal
  have keptWindow := keeps.window window
  rw [same]
  exact ⟨fun request member => keeps.records.mp (keptWindow.recorded request member),
    keptWindow.distinct⟩

/-- Admitting a request that was not recorded keeps the window, where the requests kept were
recorded and every record stays. -/
theorem window_admit {kept : List Reservation} {request : Reservation}
    (before : (∀ other ∈ kept, entry.Records other.sequence) ∧ (kept.map (·.sequence)).Nodup)
    (asked : request.sequence = subscription.sequence)
    (listed : after.admitted.map (·.sequence) = (kept ++ [request]).map (·.sequence))
    (few : after.flights ≤ 64) (unrecorded : ¬ entry.Records subscription.sequence)
    (now : after.Records subscription.sequence)
    (keeps : ∀ sequence, entry.Records sequence → after.Records sequence) :
    after.Window ∧ ¬ entry.Records subscription.sequence ∧ after.Records subscription.sequence ∧
      ∀ sequence, entry.Records sequence → after.Records sequence := by
  refine ⟨⟨few, fun other member => ?_, ?_⟩, unrecorded, now, keeps⟩
  · have found : other.sequence ∈ after.admitted.map (·.sequence) := mem_map_of_mem member
    rw [listed] at found
    obtain ⟨request, earlier, same⟩ := mem_map.mp found
    rw [← same]
    rcases mem_append.mp earlier with earlier | last
    · exact keeps _ (before.1 request earlier)
    · rw [mem_singleton.mp last, asked]
      exact now
  · rw [listed]
    refine nodup_map_snoc before.2 fun other member same => unrecorded ?_
    have same : other.sequence = subscription.sequence := same.trans asked
    exact same ▸ before.1 other member

theorem AdmitsLate.sequence (admits : AdmitsLate entry subscription deadline after) :
    after.subscription.sequence = entry.subscription.sequence := by
  cases admits with
  | admits _ _ reserves _ takes =>
    exact (congrArg Contract.sequence takes.frame.1).trans reserves.frame.1

/-- A late request was not recorded and is now; every record stays. -/
theorem AdmitsLate.window (below : subscription.sequence ≤ entry.subscription.sequence)
    (admits : AdmitsLate entry subscription deadline after) (window : entry.Window) :
    after.Window ∧ ¬ entry.Records subscription.sequence ∧ after.Records subscription.sequence ∧
      ∀ sequence, entry.Records sequence → after.Records sequence := by
  cases admits with
  | @admits _ funded kept _ inside unseen reserves listed takes =>
    obtain ⟨sequence, -, flights⟩ := reserves.frame
    obtain ⟨subscriptions, fundedFlights, asked⟩ := takes.frame
    have latest : funded.subscription.sequence = entry.subscription.sequence := by
      rw [subscriptions]
      exact sequence
    refine window_admit (reserves.kept window listed) asked rfl ?_ ?_ ?_ ?_
    · rw [fundedFlights]
      exact flights.le.trans window.few
    · intro recorded
      rw [hasSeen_eq, recorded.2 (inside.trans_le window.few)] at unseen
      cases unseen
    · unfold Records
      rw [latest]
      refine ⟨below, fun near => ?_⟩
      simp [near]
    · intro _ recorded
      unfold Records
      rw [latest]
      refine ⟨recorded.1, fun near => ?_⟩
      rw [BitVec.getLsbD_or, recorded.2 near, Bool.true_or]

/-! ### Newer requests -/

/-- What admitting a newer request returns. -/
inductive AdmitsNewer (entry : Entry Version) (subscription : Contract Version)
    (deadline granted : Nat) : Entry Version → Prop
  | admits {reserved ceiled : Entry Version}
      (reserves : Reserves { entry with flights := min entry.flights granted }
        (reservation subscription deadline) reserved)
      (ceiling : ceiled = ({ reserved with
        seen := (if 64 ≤ subscription.sequence - entry.subscription.sequence then 0#64
          else entry.seen <<< (subscription.sequence - entry.subscription.sequence)) ||| 1#64
        deadline := min entry.deadline deadline } : Entry Version).applyCeiling
          subscription.sequence subscription.pageBudget subscription.byteBudget) :
      AdmitsNewer entry subscription deadline granted { ceiled with
        subscription := { subscription with
          pageBudget := ceiled.subscription.pageBudget
          byteBudget := ceiled.subscription.byteBudget } }

theorem admitNewer_admits [DecidableEq Version]
    (admitted : entry.admitNewer subscription deadline granted = (after, .ok ())) :
    AdmitsNewer entry subscription deadline granted after := by
  unfold admitNewer at admitted
  split at admitted
  · cases (Prod.mk.inj admitted).2
  dsimp only at admitted
  split at admitted
  · cases (Prod.mk.inj admitted).2
  split at admitted
  · cases (Prod.mk.inj admitted).2
  rename_i reserved reserving
  have reserves := reserve_reserves reserving
  have same : reserved.seen = entry.seen ∧ reserved.deadline = entry.deadline := by
    cases reserves with
    | free | supersedes => exact ⟨rfl, rfl⟩
  cases admitted
  exact .admits reserves (by rw [same.1, same.2])

/-- Covering the admitted requests leaves their sequences alone. -/
theorem coverAdmitted_sequences (sequence pages bytes : Nat) (requests : List Reservation) :
    (coverAdmitted sequence pages bytes requests).1.map (·.sequence) =
      requests.map (·.sequence) := by
  induction requests generalizing pages bytes with
  | nil => rfl
  | cons request _ ih =>
    unfold coverAdmitted
    split <;> exact congrArg (cons request.sequence) (ih _ _)

/-- The window after a jump: what it recorded moves up, and the new sequence is recorded. -/
theorem Records.shift {sequence : Nat} (above : entry.subscription.sequence < subscription.sequence)
    (moved : after.subscription.sequence = subscription.sequence) (seen : after.seen =
      (if 64 ≤ subscription.sequence - entry.subscription.sequence then 0#64
        else entry.seen <<< (subscription.sequence - entry.subscription.sequence)) ||| 1#64)
    (recorded : entry.Records sequence) : after.Records sequence := by
  obtain ⟨_, near⟩ := recorded
  refine ⟨by omega, fun inside => ?_⟩
  rw [moved] at inside ⊢
  rw [seen, if_neg (by omega), BitVec.getLsbD_or, BitVec.getLsbD_shiftLeft]
  have offset : subscription.sequence - sequence -
      (subscription.sequence - entry.subscription.sequence) =
        entry.subscription.sequence - sequence := by omega
  rw [offset, near (by omega), decide_eq_true inside,
    decide_eq_false (show ¬ subscription.sequence - sequence <
      subscription.sequence - entry.subscription.sequence by omega)]
  rfl

/-- A newer request was not recorded and is now; every record stays. -/
theorem AdmitsNewer.window (above : entry.subscription.sequence < subscription.sequence)
    (admits : AdmitsNewer entry subscription deadline granted after) (window : entry.Window) :
    after.Window ∧ ¬ entry.Records subscription.sequence ∧ after.Records subscription.sequence ∧
      ∀ sequence, entry.Records sequence → after.Records sequence := by
  cases admits with
  | @admits _ ceiled reserves ceiling =>
    have narrowed : ({ entry with flights := min entry.flights granted } : Entry Version).Window :=
      { window with few := (Nat.min_le_left _ _).trans window.few }
    obtain ⟨_, -, listed, -⟩ := reserves_keeps reserves
    obtain ⟨-, -, flights⟩ := reserves.frame
    have seen : ceiled.seen = _ := congrArg Entry.seen ceiling
    have kept := reserves.kept narrowed listed
    have asked : (reservation subscription deadline).sequence = subscription.sequence := rfl
    refine window_admit kept asked ?_ ?_ ?_ ?_ fun other recorded => recorded.shift above rfl seen
    · rw [ceiling]
      exact (coverAdmitted_sequences _ _ _ _).trans (congrArg _ listed)
    · exact (congrArg Entry.flights ceiling).trans flights ▸ narrowed.few
    · exact fun recorded => absurd recorded.1 (Nat.not_le.mpr above)
    · refine ⟨le_rfl, fun _ => ?_⟩
      rw [seen]
      simp [applyCeiling]

end Entry

/-! ### Runs -/

section

variable {Membership Receiver Version Payload Error : Type*}
  {turn : Turn Membership Receiver Version Payload Error}
  {before after : Scheduler Membership Receiver Version Payload Error}
  {subscription : Contract Version} {deadline granted : Nat}

theorem Entry.fresh_records :
    (Entry.fresh subscription deadline granted).Records subscription.sequence := by
  refine ⟨le_rfl, fun _ => ?_⟩
  show (1#64).getLsbD (subscription.sequence - subscription.sequence) = true
  rw [Nat.sub_self]
  rfl

theorem Scheduler.arrive_limits [OfKind Error]
    (scheduler : Scheduler Membership Receiver Version Payload Error) (now : Option Nat) :
    (scheduler.arrive now).limits = scheduler.limits := by
  cases now with
  | none => rfl
  | some =>
    unfold arrive advance
    dsimp only
    split <;> rfl

variable [DecidableEq Membership] [DecidableEq Receiver] {key : EntryKey Membership Receiver}
  {log : List (Contract Version)}

/-- A turn keeps the window of every contract. -/
theorem Fate.window [DecidableEq Version] {old new : Option (Entry Version)}
    (fate : Fate turn key old new) (few : turn.acting.limits.maxFlightsPerSubscription ≤ 64)
    (windows : ∀ entry, old = some entry → entry.Window) :
    ∀ entry, new = some entry → entry.Window := by
  rintro _ rfl
  cases fate with
  | kept => exact windows _ rfl
  | fresh admits _ fits =>
    exact ⟨fits.trans few, fun _ member => mem_singleton.mp member ▸ Entry.fresh_records,
      nodup_singleton _⟩
  | late admits below admitted =>
    exact ((Entry.admitLate_admits admitted).window below (windows _ rfl)).1
  | newer _ above admitted =>
    exact ((Entry.admitNewer_admits admitted).window above (windows _ rfl)).1
  | refused unadmitted refused => exact (Entry.refused_keeps refused).window (windows _ rfl)
  | released => exact (Entry.release_keeps _ _).window (windows _ rfl)
  | selected => exact (Entry.commit_keeps ..).window (windows _ rfl)
  | settled _ settles => exact (Entry.settlesAll_keeps settles).window (windows _ rfl)
  | dropped => exact (Entry.drop_keeps _ _).window (windows _ rfl)

namespace Scheduler

variable (scheduler : Scheduler Membership Receiver Version Payload Error)

theorem removePending_limits
    (token : Nat) : (scheduler.removePending token).1.limits = scheduler.limits := by
  unfold removePending
  split <;> rfl

theorem perform_limits [DecidableEq Version] [OfKind Error]
    (call : Call Membership Receiver Version Payload Error) :
    (scheduler.perform call).1.limits = scheduler.limits := by
  cases call with
  | advance | release | complete | cancelWork | takeWakes => rfl
  | admitRequest subscription membership receiver deadline =>
    show (scheduler.admitAt subscription membership receiver deadline).1.limits = _
    have admits := admitAt_admits scheduler subscription membership receiver deadline
    generalize scheduler.admitAt subscription membership receiver deadline = returned at admits
    cases admits with
    | refused | late | newer | narrowed | fresh => rfl
  | select admitted eligible =>
    show (scheduler.selectAt admitted eligible).1.limits = _
    have selects := selectAt_selects scheduler admitted eligible
    generalize scheduler.selectAt admitted eligible = returned at selects
    cases selects with
    | refused | unknown | selected => rfl
  | takeWork waiter =>
    show (scheduler.takeWork waiter).1.limits = _
    unfold takeWork
    split
    · rfl
    · split <;> rfl
  | poll waiter =>
    show (scheduler.poll waiter).1.limits = _
    unfold poll
    split
    · rfl
    split
    · rfl
    · dsimp only
      split <;> exact removePending_limits scheduler waiter
  | cancelWaiter waiter =>
    show (scheduler.cancelWaiter waiter).limits = _
    have removed := removePending_limits scheduler waiter
    unfold cancelWaiter
    split
    · rename_i next _ equal
      rw [equal] at removed
      split <;> exact removed
    · rename_i next equal
      rw [equal] at removed
      exact removed

/-- Every contract of the scheduler has its window, and new ones will. -/
structure Windowed (scheduler : Scheduler Membership Receiver Version Payload Error) : Prop where
  few : scheduler.limits.maxFlightsPerSubscription ≤ 64
  window : ∀ key entry, scheduler.entries.lookup key = some entry → entry.Window

theorem new_windowed {limits : SubscriptionLimits}
    {scheduler : Scheduler Membership Receiver Version Payload Error}
    (started : new limits = some scheduler) : scheduler.Windowed := by
  unfold new at started
  split at started
  · rename_i valid
    cases started
    refine ⟨?_, nofun⟩
    simp only [SubscriptionLimits.valid, Bool.and_eq_true, decide_eq_true_eq] at valid
    exact valid.2
  · cases started

end Scheduler

variable {entry next : Entry Version}

section

variable [DecidableEq Version] [OfKind Error] (performs : Performs before turn after)

include performs

theorem Performs.found (found : turn.acting.entries.lookup key = some entry) :
    before.entries.lookup key = some entry := by
  rw [performs.arrives.entries.lookup] at found
  exact Scheduler.arrive_entries found

theorem Performs.limits : turn.acting.limits = before.limits ∧ after.limits = before.limits := by
  have acting : turn.acting.limits = before.limits :=
    performs.arrives.limits.trans (before.arrive_limits turn.now)
  have performed := turn.acting.perform_limits turn.call
  rw [performs.performs] at performed
  exact ⟨acting, performed.trans acting⟩

theorem Performs.windowed (windowed : before.Windowed) : turn.acting.Windowed ∧ after.Windowed := by
  obtain ⟨acting, now⟩ := performs.limits
  have actingWindowed : turn.acting.Windowed :=
    ⟨acting ▸ windowed.few, fun key entry found => windowed.window key entry (performs.found found)⟩
  refine ⟨actingWindowed, now ▸ windowed.few, fun key => ?_⟩
  exact (performs.fate key).window actingWindowed.few (actingWindowed.window key)

end

/-! ### What a contract has admitted -/

/-- The requests a contract has admitted so far. A contract that is gone starts over. -/
def Turn.logged (key : EntryKey Membership Receiver) (log : List (Contract Version))
    (turn : Turn Membership Receiver Version Payload Error) : List (Contract Version) :=
  (if (turn.acting.entries.lookup key).isSome then log else []) ++ (turn.admission key).toList

/-- The requests admitted over the life of a contract, in order. -/
def admissions (key : EntryKey Membership Receiver)
    (turns : List (Turn Membership Receiver Version Payload Error)) : List (Contract Version) :=
  turns.foldl (Turn.logged key) []

theorem admissions_snoc (key : EntryKey Membership Receiver)
    (turns : List (Turn Membership Receiver Version Payload Error))
    (turn : Turn Membership Receiver Version Payload Error) :
    admissions key (turns ++ [turn]) = turn.logged key (admissions key turns) := by
  unfold admissions
  rw [foldl_append]
  rfl

/-- A contract records what it has admitted, each sequence once, the latest among them. -/
structure Entry.Logged (log : List (Contract Version)) (entry : Entry Version) : Prop where
  recorded : ∀ request ∈ log, entry.Records request.sequence
  distinct : (log.map (·.sequence)).Nodup
  latest : ∃ request ∈ log, request.sequence = entry.subscription.sequence

theorem Entry.Keeps.logged
    (keeps : entry.Keeps next) (logged : entry.Logged log) : next.Logged log where
  recorded := fun request member => keeps.records.mpr (logged.recorded request member)
  distinct := logged.distinct
  latest := by
    rw [keeps.sequence]
    exact logged.latest

/-- A request that was not recorded joins the log. -/
theorem Entry.Logged.snoc {log : List (Contract Version)} (logged : entry.Logged log)
    (unrecorded : ¬ entry.Records subscription.sequence) (now : next.Records subscription.sequence)
    (keeps : ∀ sequence, entry.Records sequence → next.Records sequence)
    (latest : ∃ request ∈ log ++ [subscription], request.sequence = next.subscription.sequence) :
    next.Logged (log ++ [subscription]) where
  recorded := forall_mem_snoc (fun _ earlier => keeps _ (logged.recorded _ earlier)) now
  distinct := nodup_map_snoc logged.distinct fun other listed same =>
    unrecorded (same ▸ logged.recorded other listed)
  latest := latest

section

variable (found : turn.acting.entries.lookup key = some entry)

include found

theorem Turn.logged_none (unadmitted : turn.admission key = none) : turn.logged key log = log := by
  unfold Turn.logged
  rw [found, unadmitted]
  exact append_nil log

theorem Turn.logged_some (admits : turn.admission key = some subscription) :
    turn.logged key log = log ++ [subscription] := by
  unfold Turn.logged
  rw [found, admits]
  rfl

end

theorem Turn.logged_fresh (missing : turn.acting.entries.lookup key = none)
    (admits : turn.admission key = some subscription) : turn.logged key log = [subscription] := by
  unfold Turn.logged
  rw [missing, admits]
  rfl

/-- A turn keeps the log of every contract. -/
theorem Fate.logged [DecidableEq Version] {old new : Option (Entry Version)}
    (fate : Fate turn key old new)
    (acting : turn.acting.entries.lookup key = old)
    (windows : ∀ entry, old = some entry → entry.Window)
    (logs : ∀ entry, old = some entry → entry.Logged log) :
    ∀ entry, new = some entry → entry.Logged (turn.logged key log) := by
  rintro entry rfl
  cases fate with
  | kept unadmitted =>
    rw [turn.logged_none acting unadmitted]
    exact logs _ rfl
  | @fresh subscription admits deadline granted _ =>
    rw [turn.logged_fresh acting admits]
    refine ⟨?_, nodup_singleton _, subscription, mem_singleton.mpr rfl, rfl⟩
    exact fun _ member => mem_singleton.mp member ▸ Entry.fresh_records
  | @late entry after subscription admits deadline below admitted =>
    rw [turn.logged_some acting admits]
    have admits := Entry.admitLate_admits admitted
    obtain ⟨-, unrecorded, now, keeps⟩ := admits.window below (windows _ rfl)
    refine (logs _ rfl).snoc unrecorded now keeps ?_
    obtain ⟨request, member, same⟩ := (logs _ rfl).latest
    exact ⟨request, mem_append_left _ member, same.trans admits.sequence.symm⟩
  | @newer _ _ subscription admits _ _ above admitted =>
    rw [turn.logged_some acting admits]
    have admits := Entry.admitNewer_admits admitted
    obtain ⟨-, unrecorded, now, keeps⟩ := admits.window above (windows _ rfl)
    refine (logs _ rfl).snoc unrecorded now keeps ?_
    refine ⟨subscription, mem_concat_self, ?_⟩
    cases admits with
    | admits => rfl
  | refused unadmitted refused =>
    rw [turn.logged_none acting unadmitted]
    exact (Entry.refused_keeps refused).logged (logs _ rfl)
  | released unadmitted =>
    rw [turn.logged_none acting unadmitted]
    exact (Entry.release_keeps _ _).logged (logs _ rfl)
  | selected unadmitted =>
    rw [turn.logged_none acting unadmitted]
    exact (Entry.commit_keeps ..).logged (logs _ rfl)
  | settled unadmitted settles =>
    rw [turn.logged_none acting unadmitted]
    exact (Entry.settlesAll_keeps settles).logged (logs _ rfl)
  | dropped unadmitted =>
    rw [turn.logged_none acting unadmitted]
    exact (Entry.drop_keeps _ _).logged (logs _ rfl)

/-- Every contract is windowed and logged, in every reachable state. -/
structure Scheduler.Recorded (turns : List (Turn Membership Receiver Version Payload Error))
    (scheduler : Scheduler Membership Receiver Version Payload Error) : Prop where
  windowed : scheduler.Windowed
  logged : ∀ key entry, scheduler.entries.lookup key = some entry →
    entry.Logged (admissions key turns)

variable [DecidableEq Version] [OfKind Error]
  {turns : List (Turn Membership Receiver Version Payload Error)}

theorem Performs.recorded (performs : Performs before turn after)
    (recorded : before.Recorded turns) :
    after.Recorded (turns ++ [turn]) := by
  obtain ⟨acting, now⟩ := performs.windowed recorded.windowed
  refine ⟨now, fun key => ?_⟩
  rw [admissions_snoc]
  exact (performs.fate key).logged rfl (acting.window key)
    fun entry found => recorded.logged key entry (performs.found found)

theorem run_recorded {limits : SubscriptionLimits}
    {initial last : Scheduler Membership Receiver Version Payload Error}
    (started : Scheduler.new limits = some initial) (run : Run Performs initial turns last) :
    last.Recorded turns := by
  refine run.history (fun turns state => state.Recorded turns)
    (fun turns state turn next recorded performs => performs.recorded recorded) ?_
  refine ⟨Scheduler.new_windowed started, fun key entry found => ?_⟩
  unfold Scheduler.new at started
  split at started
  · cases started
    cases found
  · cases started

end

end Unbounded.Subscriptions
