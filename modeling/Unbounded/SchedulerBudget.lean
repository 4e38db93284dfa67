/-
This file proves the budget law of a contract. A newer request's ceilings exclude
what earlier requests may still consume, so the contract keeps more than they say
and records the excess as covered. Every later step charges or forfeits at least
as much as it stops covering: what is left of a budget without the covered part
stays below the ceiling of the highest request.
-/

import Unbounded.SchedulerWindow

namespace Unbounded.Subscriptions

open List ListUpdate Transition

namespace Entry

variable {Version : Type*} {entry after : Entry Version}

/-- Pages newer ceilings granted on account of requests that are still to consume them. -/
def coveredPages (entry : Entry Version) : Nat :=
  entry.admitted.countP (·.coveredPage) + entry.pledges.countP (·.page)

/-- Covered bytes of the flights that are not settled. -/
def unsettledBytes (pending : List Flight) : Nat :=
  (pending.map fun flight => if flight.settled then 0 else flight.reservation.coveredBytes).sum

/-- Bytes newer ceilings granted on account of outstanding requests. -/
def coveredBytes (entry : Entry Version) : Nat :=
  (entry.admitted.map (·.coveredBytes)).sum + unsettledBytes entry.pending +
    (entry.pledges.map (·.bytes)).sum

/-- The budgets are within a request's ceilings, but for what is covered. -/
structure Within (entry : Entry Version) (ceiling : Contract Version) : Prop where
  pages : entry.subscription.pageBudget - entry.coveredPages ≤ ceiling.pageBudget
  bytes : entry.subscription.byteBudget - entry.coveredBytes ≤ ceiling.byteBudget

/-- Budgets and deadline do not grow. -/
structure Shrinks (entry after : Entry Version) : Prop where
  pages : after.subscription.pageBudget ≤ entry.subscription.pageBudget
  bytes : after.subscription.byteBudget ≤ entry.subscription.byteBudget
  deadline : after.deadline ≤ entry.deadline

theorem Shrinks.refl (entry : Entry Version) : entry.Shrinks entry := ⟨le_rfl, le_rfl, le_rfl⟩

variable {first second third : Entry Version}

theorem Shrinks.trans (earlier : first.Shrinks second) (later : second.Shrinks third) :
    first.Shrinks third :=
  ⟨later.pages.trans earlier.pages, later.bytes.trans earlier.bytes,
    later.deadline.trans earlier.deadline⟩

/-- A step that spends at least what it stops covering. -/
structure Charges (entry after : Entry Version) : Prop where
  pages : ∃ spent, after.subscription.pageBudget = entry.subscription.pageBudget - spent ∧
    entry.coveredPages ≤ after.coveredPages + spent
  bytes : ∃ spent, after.subscription.byteBudget = entry.subscription.byteBudget - spent ∧
    entry.coveredBytes ≤ after.coveredBytes + spent
  deadline : after.deadline ≤ entry.deadline

theorem Charges.refl (entry : Entry Version) : entry.Charges entry :=
  ⟨⟨0, rfl, le_rfl⟩, ⟨0, rfl, le_rfl⟩, le_rfl⟩

theorem Charges.trans (earlier : first.Charges second) (later : second.Charges third) :
    first.Charges third := by
  obtain ⟨⟨pages, _⟩, ⟨bytes, _⟩, deadline⟩ := earlier
  obtain ⟨⟨morePages, _⟩, ⟨moreBytes, _⟩, deadline'⟩ := later
  exact ⟨⟨pages + morePages, by omega, by omega⟩, ⟨bytes + moreBytes, by omega, by omega⟩,
    deadline'.trans deadline⟩

theorem Charges.within {ceiling : Contract Version} (charges : entry.Charges after)
    (within : entry.Within ceiling) : after.Within ceiling := by
  obtain ⟨⟨_, _⟩, ⟨_, _⟩, -⟩ := charges
  obtain ⟨_, _⟩ := within
  exact ⟨by omega, by omega⟩

theorem Charges.shrinks (charges : entry.Charges after) : entry.Shrinks after := by
  obtain ⟨⟨_, _, -⟩, ⟨_, _, -⟩, deadline⟩ := charges
  exact ⟨by omega, by omega, deadline⟩

/-! ### Steps that charge -/

variable {request : Reservation}

/-- Losing an admitted request forfeits what it covered. -/
theorem Charges.forfeits {index : Nat} (found : entry.admitted[index]? = some request) :
    entry.Charges (({ entry with admitted := swapRemove entry.admitted index }).forfeit
      request.coveredPage request.coveredBytes) := by
  have removed := swapRemove_perm found
  have pages := removed.countP_eq (·.coveredPage)
  have bytes := (removed.map (·.coveredBytes)).sum_eq
  rw [countP_cons] at pages
  rw [map_cons, sum_cons] at bytes
  refine ⟨⟨if request.coveredPage then 1 else 0, ?_, ?_⟩, ⟨request.coveredBytes, rfl, ?_⟩, le_rfl⟩
  · show (if request.coveredPage then _ else _) = _
    split <;> rfl
  · simp only [coveredPages, forfeit]
    omega
  · simp only [coveredBytes, forfeit]
    omega

theorem release_charges (entry : Entry Version) (sequence : Nat) :
    entry.Charges (entry.release sequence) := by
  unfold release
  split
  · exact .refl entry
  · rename_i located
    exact .forfeits (locate_eq_some located).1

variable {subscription : Contract Version} {deadline : Nat}

/-- Reserving a slot covers nothing by itself. -/
theorem reserves_charges (reserves : Reserves entry (reservation subscription deadline) after) :
    entry.Charges after := by
  have joins (before : Entry Version) : before.Charges { before with
      admitted := before.admitted ++ [reservation subscription deadline] } := by
    refine ⟨⟨0, rfl, ?_⟩, ⟨0, rfl, ?_⟩, le_rfl⟩
    · simp [coveredPages, reservation]
    · simp [coveredBytes, reservation]
  cases reserves with
  | free => exact joins entry
  | supersedes found => exact (Charges.forfeits found).trans (joins _)

/-- An admitted request with its sequence, and the others. -/
theorem perm_of_find {requests : List Reservation} {sequence : Nat}
    (distinct : (requests.map (·.sequence)).Nodup)
    (found : requests.find? (fun request => decide (request.sequence = sequence)) = some request) :
    requests.Perm (request :: requests.filter fun other => decide (other.sequence ≠ sequence)) := by
  induction requests with
  | nil => cases found
  | cons first rest ih =>
    rw [map_cons, nodup_cons] at distinct
    rw [find?_cons] at found
    split at found
    · rename_i same
      cases found
      have others : rest.filter (fun other => decide (other.sequence ≠ sequence)) = rest := by
        refine filter_eq_self.mpr fun other member => decide_eq_true fun equal => ?_
        rw [← of_decide_eq_true same] at equal
        exact distinct.1 (equal ▸ mem_map_of_mem member)
      rw [filter_cons_of_neg (by simpa using same), others]
    · rename_i differs
      rw [filter_cons_of_pos (by simpa using differs)]
      exact ((ih distinct.2 found).cons first).trans (.swap _ _ _)

/-- A selection spends a page, and its flight goes on covering the request's bytes. -/
theorem commit_charges {sequence token page : Nat} (window : entry.Window)
    (found : entry.admitted.find? (fun request => decide (request.sequence = sequence)) =
      some request) : entry.Charges (entry.commit sequence token page request) := by
  have split := perm_of_find window.distinct found
  have pages := split.countP_eq (·.coveredPage)
  have bytes := (split.map (·.coveredBytes)).sum_eq
  rw [countP_cons] at pages
  rw [map_cons, sum_cons] at bytes
  refine ⟨⟨1, rfl, ?_⟩, ⟨0, rfl, ?_⟩, le_rfl⟩
  · have one : (if request.coveredPage then 1 else 0) ≤ 1 := by
      split
      · exact le_rfl
      · exact Nat.zero_le 1
    simp only [coveredPages, commit]
    omega
  · simp only [coveredBytes, commit, unsettledBytes, map_append, sum_append,
      map_cons, map_nil, sum_cons, sum_nil, Bool.false_eq_true, if_false]
    omega

/-- Losing a flight forfeits what it covered, unless it was charged already. -/
theorem drop_charges (entry : Entry Version) (token : Nat) : entry.Charges (entry.drop token) := by
  unfold drop
  split
  · exact .refl entry
  rename_i flight located
  have removed := (swapRemove_perm (locate_eq_some located).1).map fun flight : Flight =>
    if flight.settled then 0 else flight.reservation.coveredBytes
  have bytes := removed.sum_eq
  rw [map_cons, sum_cons] at bytes
  split
  · rename_i settled
    rw [if_pos settled] at bytes
    refine ⟨⟨0, rfl, le_rfl⟩, ⟨0, rfl, ?_⟩, le_rfl⟩
    simp only [coveredBytes, unsettledBytes]
    omega
  · rename_i unsettled
    rw [if_neg unsettled] at bytes
    refine ⟨⟨0, rfl, le_rfl⟩, ⟨flight.reservation.coveredBytes, rfl, ?_⟩, le_rfl⟩
    simp only [coveredBytes, unsettledBytes, forfeit]
    omega

/-- A completion charges at least what its flight covered. -/
theorem settles_charges (settles : Settles entry after) : entry.Charges after := by
  cases settles with
  | @settle _ _ bytes index flight found _ =>
    refine ⟨⟨0, rfl, le_rfl⟩, ⟨max bytes flight.reservation.coveredBytes, rfl, ?_⟩, le_rfl⟩
    have covered : unsettledBytes entry.pending ≤
        unsettledBytes (entry.pending.set index { flight with settled := true }) +
          flight.reservation.coveredBytes := by
      have changed := sum_map_set (fun flight : Flight =>
        if flight.settled then 0 else flight.reservation.coveredBytes) (locate_eq_some found).1
          { flight with settled := true }
      have own : (if flight.settled then 0 else flight.reservation.coveredBytes) ≤
          flight.reservation.coveredBytes := by
        split
        · exact Nat.zero_le _
        · exact le_rfl
      unfold unsettledBytes
      omega
    simp only [coveredBytes]
    omega

theorem settlesAll_charges (settles : Relation.ReflTransGen Settles entry after) :
    entry.Charges after := by
  induction settles with
  | refl => exact .refl entry
  | tail _ final ih => exact ih.trans (settles_charges final)

theorem refused_charges [DecidableEq Version] {granted : Nat} {kind : Kind}
    (refused : entry.admitNewer subscription deadline granted = (after, .error kind)) :
    entry.Charges after := by
  obtain ⟨_, -, rfl⟩ := refused_narrows refused
  exact ⟨⟨0, rfl, le_rfl⟩, ⟨0, rfl, le_rfl⟩, le_rfl⟩

/-- A late request takes over what was pledged for it. -/
theorem takesPledge_charges
    (takes : TakesPledge entry (reservation subscription deadline) (after, request)) :
    entry.Charges { after with admitted := entry.admitted ++ [request] } := by
  cases takes with
  | none =>
    refine ⟨⟨0, rfl, ?_⟩, ⟨0, rfl, ?_⟩, le_rfl⟩
    · simp [coveredPages]
    · simp [coveredBytes]
  | @taken _ _ found =>
    have removed := swapRemove_perm found
    have pages := removed.countP_eq (·.page)
    have bytes := (removed.map (·.bytes)).sum_eq
    rw [countP_cons] at pages
    rw [map_cons, sum_cons] at bytes
    refine ⟨⟨0, rfl, ?_⟩, ⟨0, rfl, ?_⟩, le_rfl⟩
    · simp only [coveredPages, countP_append, countP_singleton]
      omega
    · simp only [coveredBytes, map_append, map_singleton, sum_append,
        sum_singleton]
      omega

theorem AdmitsLate.charges (admits : AdmitsLate entry subscription deadline after) :
    entry.Charges after := by
  cases admits with
  | @admits reserved _ kept _ _ _ reserves listed takes =>
    have charged := reserves_charges reserves
    -- The request just reserved covers nothing before it takes its pledge.
    have others : entry.Charges { reserved with admitted := kept } := by
      obtain ⟨⟨pages, pageBudget, coveredPages⟩, ⟨bytes, byteBudget, coveredBytes⟩, due⟩ := charged
      refine ⟨⟨pages, pageBudget, ?_⟩, ⟨bytes, byteBudget, ?_⟩, due⟩
      · simpa [Entry.coveredPages, listed, reservation] using coveredPages
      · simpa [Entry.coveredBytes, listed, reservation] using coveredBytes
    obtain ⟨pages, bytes, due⟩ := others.trans (takesPledge_charges takes)
    exact ⟨pages, bytes, due⟩

/-! ### A newer ceiling -/

/-- Covering the admitted requests leaves what they cannot cover. -/
theorem coverAdmitted_spec (sequence pages bytes : Nat) (requests : List Reservation) :
    let older := (requests.filter fun request => decide (request.sequence ≠ sequence)).length
    let covered := coverAdmitted sequence pages bytes requests
    covered.2.1 = pages - older ∧ covered.2.2 = bytes - reserveBytes * older ∧
      pages ≤ covered.1.countP (·.coveredPage) + covered.2.1 ∧
      bytes ≤ (covered.1.map (·.coveredBytes)).sum + covered.2.2 := by
  induction requests generalizing pages bytes with
  | nil => exact ⟨rfl, rfl, Nat.le_add_left _ _, Nat.le_add_left _ _⟩
  | cons request _ ih =>
    rcases eq_or_ne request.sequence sequence with newest | older
    · obtain ⟨pagesLeft, bytesLeft, _⟩ :=
        ih pages bytes
      rw [filter_cons_of_neg (by simpa using newest)]
      simp only [coverAdmitted, if_neg (not_not.mpr newest), countP_cons, map_cons, sum_cons]
      exact ⟨pagesLeft, bytesLeft, by omega, by omega⟩
    · obtain ⟨_, _⟩ :=
        ih (pages - 1) (bytes - min bytes reserveBytes)
      rw [filter_cons_of_pos (by simpa using older), length_cons]
      simp only [coverAdmitted, if_pos older, countP_cons, map_cons, sum_cons, decide_eq_true_eq]
      refine ⟨by omega, ?_, ?_, by omega⟩
      · rw [Nat.mul_succ]
        omega
      · split <;> omega

theorem coverPending_spec (bytes : Nat) (flights : List Flight) :
    let unsettled := (flights.filter fun flight => !flight.settled).length
    let covered := coverPending bytes flights
    covered.2 = bytes - reserveBytes * unsettled ∧
      bytes ≤ unsettledBytes covered.1 + covered.2 := by
  induction flights generalizing bytes with
  | nil => exact ⟨rfl, Nat.le_add_left _ _⟩
  | cons flight _ ih =>
    cases settled : flight.settled with
    | true =>
      obtain ⟨left, covered⟩ := ih bytes
      rw [filter_cons_of_neg (by simp [settled])]
      simp only [coverPending, settled, if_true, unsettledBytes, map_cons, sum_cons, Nat.zero_add]
      exact ⟨left, covered⟩
    | false =>
      obtain ⟨_, covered⟩ := ih (bytes - min bytes reserveBytes)
      rw [filter_cons_of_pos (by simp [settled]), length_cons]
      simp only [coverPending, settled, Bool.false_eq_true, if_false, unsettledBytes,
        map_cons, sum_cons] at covered ⊢
      constructor
      · rw [Nat.mul_succ]
        omega
      · have shared := Nat.sub_le_iff_le_add'.mp covered
        rwa [Nat.add_assoc]

theorem coverUnseen_spec (pages bytes : Nat) (sequences : List Nat)
    (fewPages : pages ≤ sequences.length) (fewBytes : bytes ≤ reserveBytes * sequences.length) :
    pages ≤ (coverUnseen pages bytes sequences).countP (·.page) ∧
      bytes ≤ ((coverUnseen pages bytes sequences).map (·.bytes)).sum := by
  induction sequences generalizing pages bytes with
  | nil => exact ⟨fewPages, fewBytes⟩
  | cons _ _ ih =>
    rw [length_cons] at fewPages fewBytes
    rw [Nat.mul_succ] at fewBytes
    obtain ⟨_, _⟩ := ih (pages - 1)
      (bytes - min bytes reserveBytes) (by omega) (by omega)
    simp only [coverUnseen, countP_cons, map_cons, sum_cons, decide_eq_true_eq]
    split <;> omega

/-- Outstanding requests together cover a widening by at most their reservations. -/
theorem cover_spec (sequence pages bytes : Nat) (requests : List Reservation)
    (flights : List Flight) (sequences : List Nat)
    (fewPages : pages ≤ (requests.filter fun request =>
      decide (request.sequence ≠ sequence)).length + sequences.length)
    (fewBytes : bytes ≤ reserveBytes * ((requests.filter fun request =>
      decide (request.sequence ≠ sequence)).length + sequences.length +
        (flights.filter fun flight => !flight.settled).length)) :
    let covered := coverAdmitted sequence pages bytes requests
    let flying := coverPending covered.2.2 flights
    let pledged := coverUnseen covered.2.1 flying.2 sequences
    pages ≤ covered.1.countP (·.coveredPage) + pledged.countP (·.page) ∧
      bytes ≤ (covered.1.map (·.coveredBytes)).sum + unsettledBytes flying.1 +
        (pledged.map (·.bytes)).sum := by
  dsimp only
  rw [Nat.mul_add, Nat.mul_add] at fewBytes
  obtain ⟨_, _⟩ := coverAdmitted_spec sequence pages bytes requests
  generalize coverAdmitted sequence pages bytes requests = covered at *
  obtain ⟨_, _⟩ := coverPending_spec covered.2.2 flights
  generalize coverPending covered.2.2 flights = flying at *
  obtain ⟨_, _⟩ := coverUnseen_spec covered.2.1 flying.2 sequences
    (by omega) (by omega)
  exact ⟨by omega, by omega⟩

/-- A newer ceiling covers everything it leaves above itself, and raises nothing. -/
theorem applyCeiling_spec (entry : Entry Version) (sequence pageBudget byteBudget : Nat) :
    let after := entry.applyCeiling sequence pageBudget byteBudget
    after.subscription.pageBudget ≤ pageBudget + after.coveredPages ∧
      after.subscription.byteBudget ≤ byteBudget + after.coveredBytes ∧
      after.subscription.pageBudget ≤ entry.subscription.pageBudget ∧
      after.subscription.byteBudget ≤ entry.subscription.byteBudget := by
  intro after
  have fewPages : after.subscription.pageBudget ≤ pageBudget +
      ((entry.admitted.filter fun request => decide (request.sequence ≠ sequence)).length +
        (entry.unseen sequence).length) :=
    (Nat.min_le_right _ _).trans ((Word.saturatingAdd_le _ _ _).trans
      (Nat.add_le_add_left (Nat.min_le_left _ _) _))
  have fewBytes : after.subscription.byteBudget ≤ byteBudget + reserveBytes *
      ((entry.admitted.filter fun request => decide (request.sequence ≠ sequence)).length +
        (entry.unseen sequence).length +
          (entry.pending.filter fun flight => !flight.settled).length) :=
    (Nat.min_le_right _ _).trans ((Word.saturatingAdd_le _ _ _).trans
      (Nat.add_le_add_left (Nat.min_le_left _ _) _))
  obtain ⟨pages, bytes⟩ := cover_spec sequence (after.subscription.pageBudget - pageBudget)
    (after.subscription.byteBudget - byteBudget) entry.admitted entry.pending
    (entry.unseen sequence) (Nat.sub_le_iff_le_add'.mpr fewPages)
    (Nat.sub_le_iff_le_add'.mpr fewBytes)
  exact ⟨Nat.sub_le_iff_le_add'.mp pages, Nat.sub_le_iff_le_add'.mp bytes, Nat.min_le_left _ _,
    Nat.min_le_left _ _⟩

theorem AdmitsNewer.within {granted : Nat}
    (admits : AdmitsNewer entry subscription deadline granted after) :
    after.Within subscription ∧ entry.Shrinks after := by
  cases admits with
  | @admits reserved _ reserves ceiling =>
    obtain ⟨pages, bytes, fewerPages, fewerBytes⟩ := applyCeiling_spec { reserved with
      seen := (if 64 ≤ subscription.sequence - entry.subscription.sequence then 0#64
        else entry.seen <<< (subscription.sequence - entry.subscription.sequence)) ||| 1#64
      deadline := min entry.deadline deadline } subscription.sequence subscription.pageBudget
      subscription.byteBudget
    rw [← ceiling] at pages bytes fewerPages fewerBytes
    have reserved := (reserves_charges reserves).shrinks
    refine ⟨⟨Nat.sub_le_iff_le_add.mpr pages, Nat.sub_le_iff_le_add.mpr bytes⟩,
      fewerPages.trans reserved.pages, fewerBytes.trans reserved.bytes, ?_⟩
    rw [ceiling]
    exact Nat.min_le_left _ _

end Entry

/-! ### Runs -/

section

variable {Membership Receiver Version Payload Error : Type*} [DecidableEq Membership]
  [DecidableEq Receiver] {turn : Turn Membership Receiver Version Payload Error}
  {before after : Scheduler Membership Receiver Version Payload Error}

/-- The highest of the requests a contract has admitted. -/
def Highest (log : List (Contract Version)) (request : Contract Version) : Prop :=
  request ∈ log ∧ ∀ other ∈ log, other.sequence ≤ request.sequence

/-- A contract is within the ceilings of the highest request it has admitted. -/
def Entry.Ceiled (log : List (Contract Version)) (entry : Entry Version) : Prop :=
  ∀ highest, Highest log highest → entry.Within highest

variable {entry : Entry Version} {log : List (Contract Version)}

theorem Entry.Logged.highest (logged : entry.Logged log) {request : Contract Version} :
    Highest log request ↔ request ∈ log ∧ request.sequence = entry.subscription.sequence := by
  obtain ⟨latest, member, _⟩ := logged.latest
  constructor
  · rintro ⟨listed, highest⟩
    have below := (logged.recorded request listed).1
    have above := highest latest member
    exact ⟨listed, by omega⟩
  · rintro ⟨listed, equal⟩
    refine ⟨listed, fun other otherListed => ?_⟩
    rw [equal]
    exact (logged.recorded other otherListed).1

variable [DecidableEq Version] {key : EntryKey Membership Receiver}

/-- A turn keeps every contract within the ceilings of its highest request. -/
theorem Fate.ceiled {old new : Option (Entry Version)} (fate : Fate turn key old new)
    (acting : turn.acting.entries.lookup key = old)
    (windows : ∀ entry, old = some entry → entry.Window)
    (logs : ∀ entry, old = some entry → entry.Logged log)
    (ceilings : ∀ entry, old = some entry → entry.Ceiled log) :
    ∀ entry, new = some entry → entry.Ceiled (turn.logged key log) := by
  have charged {entry next : Entry Version} (found : old = some entry)
      (unadmitted : turn.admission key = none) (charges : entry.Charges next) :
      next.Ceiled (turn.logged key log) := by
    rw [turn.logged_none (acting.trans found) unadmitted]
    exact fun highest listed => charges.within (ceilings entry found highest listed)
  rintro entry rfl
  cases fate with
  | kept unadmitted => exact charged rfl unadmitted (.refl _)
  | @fresh subscription admits deadline _ _ =>
    rw [turn.logged_fresh acting admits]
    rintro highest ⟨listed, -⟩
    rw [mem_singleton.mp listed]
    exact ⟨Nat.sub_le _ _, Nat.sub_le _ _⟩
  | @late entry _ subscription admits _ below admitted =>
    have admitsLate := Entry.admitLate_admits admitted
    obtain ⟨-, unrecorded, -⟩ := admitsLate.window below (windows _ rfl)
    have logged := logs entry rfl
    rw [turn.logged_some acting admits]
    rintro highest ⟨listed, most⟩
    refine admitsLate.charges.within (ceilings entry rfl highest ?_)
    -- The late request is not the highest: its sequence is below a recorded one.
    obtain ⟨latest, member, _⟩ := logged.latest
    rcases mem_append.mp listed with earlier | last
    · exact ⟨earlier, fun other member => most other (mem_append_left _ member)⟩
    rw [mem_singleton.mp last] at most
    have above := most latest (mem_append_left _ member)
    have equal : latest.sequence = subscription.sequence := by omega
    exact absurd (equal ▸ logged.recorded latest member) unrecorded
  | @newer entry _ subscription admits _ _ _ admitted =>
    rw [turn.logged_some acting admits]
    rintro highest ⟨listed, most⟩
    rcases mem_append.mp listed with earlier | last
    · have below := ((logs entry rfl).recorded highest earlier).1
      have least := most subscription (mem_concat_self)
      omega
    · rw [mem_singleton.mp last]
      exact (Entry.admitNewer_admits admitted).within.1
  | refused unadmitted refused => exact charged rfl unadmitted (Entry.refused_charges refused)
  | released unadmitted => exact charged rfl unadmitted (Entry.release_charges _ _)
  | selected unadmitted found =>
    exact charged rfl unadmitted (Entry.commit_charges (windows _ rfl) found)
  | settled unadmitted settles => exact charged rfl unadmitted (Entry.settlesAll_charges settles)
  | dropped unadmitted => exact charged rfl unadmitted (Entry.drop_charges _ _)

/-- A turn loses no contract, and raises none. -/
theorem Fate.shrinks {new : Option (Entry Version)} (fate : Fate turn key (some entry) new)
    (window : entry.Window) : ∃ next, new = some next ∧ entry.Shrinks next := by
  cases fate with
  | kept => exact ⟨entry, rfl, .refl entry⟩
  | late _ _ admitted =>
    exact ⟨_, rfl, (Entry.admitLate_admits admitted).charges.shrinks⟩
  | newer _ _ admitted => exact ⟨_, rfl, (Entry.admitNewer_admits admitted).within.2⟩
  | refused unadmitted refused => exact ⟨_, rfl, (Entry.refused_charges refused).shrinks⟩
  | released => exact ⟨_, rfl, (Entry.release_charges _ _).shrinks⟩
  | selected _ found => exact ⟨_, rfl, (Entry.commit_charges window found).shrinks⟩
  | settled _ settles => exact ⟨_, rfl, (Entry.settlesAll_charges settles).shrinks⟩
  | dropped => exact ⟨_, rfl, (Entry.drop_charges _ _).shrinks⟩

variable [OfKind Error] {turns : List (Turn Membership Receiver Version Payload Error)}

/-- Every contract is within its ceilings, after every run. -/
theorem run_ceiled {limits : SubscriptionLimits}
    {initial last : Scheduler Membership Receiver Version Payload Error}
    (started : Scheduler.new limits = some initial) (run : Run Performs initial turns last)
    (key : EntryKey Membership Receiver) :
    ∀ entry, last.entries.lookup key = some entry → entry.Ceiled (admissions key turns) := by
  refine (run.history (fun turns state => state.Recorded turns ∧
    ∀ entry, state.entries.lookup key = some entry → entry.Ceiled (admissions key turns))
    ?_ ⟨run_recorded started (Run.nil initial), ?_⟩).2
  · rintro _ _ _ _ ⟨recorded, ceiled⟩ performs
    refine ⟨performs.recorded recorded, ?_⟩
    rw [admissions_snoc]
    exact (performs.fate key).ceiled rfl ((performs.windowed recorded.windowed).1.window key)
      (fun entry found => recorded.logged key entry (performs.found found))
      (fun entry found => ceiled entry (performs.found found))
  · intro entry found
    have logged := (run_recorded started (Run.nil initial)).logged key entry found
    obtain ⟨_, member, -⟩ := logged.latest
    cases member

/-- Over turns that find a contract, its budgets and its deadline only fall. -/
theorem run_shrinks {first last : Scheduler Membership Receiver Version Payload Error}
    (windowed : first.Windowed) (run : Run Performs first turns last)
    (key : EntryKey Membership Receiver)
    (alive : ∀ turn ∈ turns, (turn.acting.entries.lookup key).isSome)
    (found : first.entries.lookup key = some entry) :
    ∃ next, last.entries.lookup key = some next ∧ entry.Shrinks next := by
  refine (run.history (fun turns state => state.Windowed ∧
    ((∀ turn ∈ turns, (turn.acting.entries.lookup key).isSome) →
      ∃ next, state.entries.lookup key = some next ∧ entry.Shrinks next))
    ?_ ⟨windowed, fun _ => ⟨entry, found, .refl entry⟩⟩).2 alive
  rintro _ _ turn _ ⟨windowed, earlier⟩ performs
  obtain ⟨acting, now⟩ := performs.windowed windowed
  refine ⟨now, fun alive => ?_⟩
  obtain ⟨_, present, shrinks⟩ := earlier fun turn member => alive turn (mem_append_left _ member)
  obtain ⟨_, finds⟩ := Option.isSome_iff_exists.mp (alive turn (mem_concat_self))
  obtain rfl := Option.some_inj.mp (present.symm.trans (performs.found finds))
  have fate := performs.fate key
  rw [finds] at fate
  obtain ⟨next, becomes, falls⟩ := fate.shrinks (acting.window key _ finds)
  exact ⟨next, becomes, shrinks.trans falls⟩

/-- The budget law. Whatever requests arrive, the budgets of a live contract less what is covered
are within the ceilings of the highest request admitted; as long as the contract lives its budgets
and its deadline never grow. -/
theorem budgets_within_ceilings {limits : SubscriptionLimits}
    {initial middle last : Scheduler Membership Receiver Version Payload Error}
    {earlier later : List (Turn Membership Receiver Version Payload Error)}
    (started : Scheduler.new limits = some initial) (reached : Run Performs initial earlier middle)
    (continued : Run Performs middle later last) (key : EntryKey Membership Receiver)
    {entry : Entry Version} (live : middle.entries.lookup key = some entry) :
    (∃ highest, Highest (admissions key earlier) highest) ∧
      (∀ highest, Highest (admissions key earlier) highest →
        entry.subscription.pageBudget - entry.coveredPages ≤ highest.pageBudget ∧
        entry.subscription.byteBudget - entry.coveredBytes ≤ highest.byteBudget) ∧
      ((∀ turn ∈ later, (turn.acting.entries.lookup key).isSome) →
        ∃ next, last.entries.lookup key = some next ∧
          next.subscription.pageBudget ≤ entry.subscription.pageBudget ∧
          next.subscription.byteBudget ≤ entry.subscription.byteBudget ∧
          next.deadline ≤ entry.deadline) := by
  have recorded := run_recorded started reached
  have logged := recorded.logged key entry live
  refine ⟨?_, fun highest listed => ?_, fun alive => ?_⟩
  · obtain ⟨latest, member, same⟩ := logged.latest
    exact ⟨latest, logged.highest.mpr ⟨member, same⟩⟩
  · obtain ⟨pages, bytes⟩ := run_ceiled started reached key entry live highest listed
    exact ⟨pages, bytes⟩
  · obtain ⟨next, present, pages, bytes, deadline⟩ :=
      run_shrinks recorded.windowed continued key alive live
    exact ⟨next, present, pages, bytes, deadline⟩

/-- Two requests one sequence apart: the second leaves two pages above its ceiling, covered by
the first and by the one that has not arrived. -/
theorem budgets_within_ceilings_gap :
    ∃ (initial last : Scheduler Nat Nat Nat Nat Kind) (turns : List (Turn Nat Nat Nat Nat Kind))
        (entry : Entry Nat) (highest : Contract Nat),
      Scheduler.new ⟨4, 4, 4, 4, 2⟩ = some initial ∧ Run Performs initial turns last ∧
        last.entries.lookup ⟨0, 0, 0⟩ = some entry ∧
        entry.subscription.pageBudget = 4 ∧ entry.coveredPages = 2 ∧
        Highest (admissions ⟨0, 0, 0⟩ turns) highest ∧
        entry.subscription.pageBudget - entry.coveredPages ≤ highest.pageBudget := by
  let demand : Demand := ⟨[⟨0, 9⟩], by decide, by decide⟩
  obtain ⟨initial, turns, last, started, run, entry, live, pages, covered⟩ :=
    Scheduler.exists_run ⟨4, 4, 4, 4, 2⟩ [
        (some 1, .admitRequest ⟨0, 0, demand, 1, 4, 100000000, some 2⟩ 0 0 100),
        (some 2, .admitRequest ⟨0, 0, demand, 3, 2, 50000000, some 2⟩ 0 0 100)]
      (fun _ (last : Scheduler Nat Nat Nat Nat Kind) =>
        ∃ entry ∈ last.entries.lookup (⟨0, 0, 0⟩ : EntryKey Nat Nat),
        entry.subscription.pageBudget = 4 ∧ entry.coveredPages = 2) (by decide +kernel)
  obtain ⟨⟨highest, isHighest⟩, within, -⟩ :=
    budgets_within_ceilings started run (Run.nil last) ⟨0, 0, 0⟩ live
  exact ⟨initial, last, turns, entry, highest, started, run, live, pages, covered, isHighest,
    (within highest isHighest).1⟩

end

end Unbounded.Subscriptions
