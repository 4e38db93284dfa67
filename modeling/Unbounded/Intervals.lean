/-
This file models the compact interval sets a subscription's demand and its
completed pages are kept in, and the sweep that selects the page most receivers
want. An interval set is a list of half-open intervals and is never expanded into
its items.
-/

import Unbounded.HashRing
import Unbounded.Table

namespace Unbounded.Subscriptions

open List

/-- A half-open interval; canonical sets are sorted, disjoint, and nonadjacent. -/
structure Interval where
  start : Nat
  stop : Nat
  deriving DecidableEq, Repr

variable (intervals : List Interval)

/-- Check a compact set without expanding any interval into individual items. -/
def canonical (maximum : Nat) : Bool :=
  decide (intervals.length ≤ maximum) &&
    intervals.all (fun interval => decide (interval.start < interval.stop)) &&
    (intervals.zip intervals.tail).all fun window => decide (window.1.stop < window.2.start)

/-- Test membership using the canonical set's sorted end points. -/
def contains (item : Nat) : Bool :=
  (intervals[partitionPoint (fun interval => decide (interval.stop ≤ item)) intervals]?).any
    fun interval => decide (interval.start ≤ item)

/-- Subtract the completed intervals that begin before `stop`, from `start` on. -/
def subtract (stop : Nat) : Nat → List Interval → List Interval
  | start, [] => if start < stop then [⟨start, stop⟩] else []
  | start, done :: rest =>
    if done.start < stop then
      (if start < done.start then [⟨start, done.start⟩] else []) ++
        subtract stop (max start done.stop) rest
    else if start < stop then [⟨start, stop⟩] else []

/-- Subtract completed intervals from compact demand without expanding items. -/
def outstanding : List Interval → List Interval → List Interval
  | [], _ => []
  | interval :: demand, completed =>
    -- What ends before this interval ends before every later one.
    let completed := completed.dropWhile fun done => decide (done.stop ≤ interval.start)
    subtract interval.stop interval.start completed ++ outstanding demand completed

/-- Merge sorted intervals that touch or overlap. -/
def mergeTouching : Interval → List Interval → List Interval
  | last, [] => [last]
  | last, interval :: rest =>
    if interval.start ≤ last.stop then
      mergeTouching ⟨last.start, max last.stop interval.stop⟩ rest
    else last :: mergeTouching interval rest

/-- Merge one selected item into a completed set. -/
def includeItem (item : Nat) : List Interval :=
  match (intervals ++ [(⟨item, item + 1⟩ : Interval)]).insertionSort (fun first second =>
    first.start ≤ second.start) with
  | [] => []
  | first :: rest => mergeTouching first rest

/-! ### The sweep -/

section Sweep

variable {Voter : Type*} [DecidableEq Voter]

/-- An end point of one voter's interval. -/
structure Endpoint (Voter : Type*) where
  point : Nat
  voter : Voter
  target : Bool
  start : Bool

/-- What the sweep knows at a point: how often each voter covers it, whether the target does,
and the best point so far. -/
structure Sweep (Voter : Type*) where
  receivers : Table Voter Nat := ∅
  active : Bool := false
  best : Option Nat := none
  score : Nat := 0

def endpoints (demands : List (Voter × Bool × List Interval)) : List (Endpoint Voter) :=
  demands.flatMap fun demand => demand.2.2.flatMap fun interval =>
    [⟨interval.start, demand.1, demand.2.1, true⟩, ⟨interval.stop, demand.1, demand.2.1, false⟩]

/-- Pass one end point. -/
def Sweep.pass (sweep : Sweep Voter) (event : Endpoint Voter) : Sweep Voter :=
  let receivers :=
    if event.start then
      sweep.receivers.insert event.voter ((sweep.receivers.lookup event.voter).getD 0 + 1)
    else
      match sweep.receivers.lookup event.voter with
      | none => sweep.receivers
      | some count =>
        if count - 1 = 0 then sweep.receivers.erase event.voter
        else sweep.receivers.insert event.voter (count - 1)
  { sweep with receivers, active := if event.target then event.start else sweep.active }

/-- Pass the sorted end points. A point is judged after all its end points are passed; one whose
eligibility is unknown suspends the selection. -/
def Sweep.run (eligible : Nat → Option Bool) :
    List (Endpoint Voter) → Sweep Voter → Except Nat (Option Nat)
  | [], sweep => .ok sweep.best
  | event :: rest, sweep =>
    let sweep := sweep.pass event
    if rest.head?.any (fun next => decide (next.point = event.point)) then
      run eligible rest sweep
    else if sweep.active && decide (sweep.score < sweep.receivers.size) then
      match eligible event.point with
      | none => .error event.point
      | some true =>
        run eligible rest { sweep with best := some event.point, score := sweep.receivers.size }
      | some false => run eligible rest sweep
    else run eligible rest sweep

/-- Sweep end points and count distinct voters, preferring the first best point. -/
def select (demands : List (Voter × Bool × List Interval))
    (eligible : Nat → Option Bool) : Except Nat (Option Nat) :=
  Sweep.run eligible
    ((endpoints demands).insertionSort fun first second => first.point ≤ second.point) {}

end Sweep

/-! ### The items of an interval set -/

/-- An item lies in one of the intervals. -/
def Covers (item : Nat) : Prop :=
  ∃ interval ∈ intervals, interval.start ≤ item ∧ item < interval.stop

/-- Nonempty intervals in order, none touching the next. -/
structure Separated (intervals : List Interval) : Prop where
  nonempty : ∀ interval ∈ intervals, interval.start < interval.stop
  apart : intervals.Pairwise fun first second => first.stop < second.start

theorem covers_nil (item : Nat) : ¬ Covers [] item := nofun

variable {completed demand rest : List Interval} {item start stop : Nat}

theorem covers_cons {first : Interval} :
    Covers (first :: rest) item ↔ (first.start ≤ item ∧ item < first.stop) ∨ Covers rest item := by
  unfold Covers
  simp only [mem_cons, exists_eq_or_imp]

theorem covers_append {first second : List Interval} :
    Covers (first ++ second) item ↔ Covers first item ∨ Covers second item := by
  unfold Covers
  simp only [mem_append, or_and_right, exists_or]

theorem separated_nil : Separated [] := ⟨nofun, .nil⟩

theorem separated_cons {first : Interval} : Separated (first :: rest) ↔ first.start < first.stop ∧
      (∀ later ∈ rest, first.stop < later.start) ∧ Separated rest := by
  constructor
  · intro separated
    have apart := pairwise_cons.mp separated.apart
    exact ⟨separated.nonempty first mem_cons_self, apart.1,
      fun later member => separated.nonempty later (mem_cons_of_mem _ member), apart.2⟩
  · rintro ⟨nonempty, before, rest⟩
    exact ⟨forall_mem_cons.mpr ⟨nonempty, rest.nonempty⟩, pairwise_cons.mpr ⟨before, rest.apart⟩⟩

variable {intervals : List Interval}

theorem Separated.dropWhile (separated : Separated intervals) (test : Interval → Bool) :
    Separated (intervals.dropWhile test) :=
  ⟨fun interval member => separated.nonempty interval ((dropWhile_sublist _).mem member),
    separated.apart.sublist (dropWhile_sublist _)⟩

/-- A set is canonical if it is separated and not too long. -/
theorem canonical_iff {maximum : Nat} :
    canonical intervals maximum = true ↔ intervals.length ≤ maximum ∧ Separated intervals := by
  simp only [canonical, Bool.and_eq_true, decide_eq_true_eq, all_eq_true, and_assoc]
  refine and_congr_right' ⟨fun both => ⟨both.1, ?_⟩, fun separated => ⟨separated.nonempty, ?_⟩⟩
  · induction intervals with
    | nil => exact .nil
    | cons first rest ih =>
      cases rest with
      | nil => exact pairwise_singleton _ _
      | cons second =>
        obtain ⟨nonempty, windows⟩ := both
        have next : first.stop < second.start := windows (first, second) mem_cons_self
        have apart := ih
          ⟨fun later member => nonempty later (mem_cons_of_mem _ member),
            fun window member => windows window (mem_cons_of_mem _ member)⟩
        refine pairwise_cons.mpr ⟨forall_mem_cons.mpr ⟨next, fun later beyond => ?_⟩, apart⟩
        have between := nonempty second (mem_cons_of_mem _ mem_cons_self)
        exact next.trans (between.trans ((pairwise_cons.mp apart).1 later beyond))
  · induction intervals with
    | nil => nofun
    | cons _ rest ih =>
      cases rest with
      | nil => nofun
      | cons second =>
        obtain ⟨-, before, later⟩ := separated_cons.mp separated
        exact forall_mem_cons.mpr ⟨before second mem_cons_self, ih later⟩

theorem canonical_separated {maximum : Nat} (canon : canonical intervals maximum = true) :
    Separated intervals :=
  (canonical_iff.mp canon).2

theorem not_covers_of_lt (later : ∀ interval ∈ intervals, item < interval.start) :
    ¬ Covers intervals item := by
  rintro ⟨interval, member, started, -⟩
  exact absurd (later interval member) (Nat.not_lt.mpr started)

theorem contains_iff (separated : Separated intervals) (item : Nat) :
    contains intervals item = true ↔ Covers intervals item := by
  induction intervals with
  | nil => exact iff_of_false Bool.false_ne_true (covers_nil item)
  | cons first rest ih =>
    obtain ⟨-, before, separatedRest⟩ := separated_cons.mp separated
    unfold contains partitionPoint at *
    rw [covers_cons]
    by_cases ended : first.stop ≤ item
    · rw [takeWhile_cons_of_pos (by simpa using ended), length_cons,
        getElem?_cons_succ, ih separatedRest]
      exact (or_iff_right fun inside => absurd inside.2 (Nat.not_lt.mpr ended)).symm
    · rw [takeWhile_cons_of_neg (by simpa using ended)]
      have nowhere : ¬ Covers rest item :=
        not_covers_of_lt fun later member => (Nat.lt_of_not_le ended).trans (before later member)
      simpa [nowhere] using fun _ => Nat.lt_of_not_le ended

/-! ### Subtracting -/

theorem mem_piece {interval : Interval} :
    interval ∈ (if start < stop then [⟨start, stop⟩] else []) ↔
      start < stop ∧ interval = ⟨start, stop⟩ := by
  split <;> simp [*]

theorem subtract_nonempty (stop start : Nat) (completed : List Interval) :
    ∀ interval ∈ subtract stop start completed, interval.start < interval.stop := by
  have piece (start stop : Nat) (interval : Interval)
      (member : interval ∈ if start < stop then [⟨start, stop⟩] else []) :
      interval.start < interval.stop := by
    obtain ⟨nonempty, rfl⟩ := mem_piece.mp member
    exact nonempty
  induction completed generalizing start with
  | nil => exact piece start stop
  | cons done _ ih =>
    intro interval member
    unfold subtract at member
    split at member
    · rcases mem_append.mp member with before | after
      · exact piece start done.start interval before
      · exact ih _ interval after
    · exact piece start stop interval member

theorem covers_piece :
    Covers (if start < stop then [⟨start, stop⟩] else []) item ↔ start ≤ item ∧ item < stop := by
  split
  · rw [covers_cons, or_iff_left (covers_nil item)]
  · exact iff_of_false (covers_nil item) (by omega)

theorem subtract_covers (separated : Separated completed) :
    Covers (subtract stop start completed) item ↔
      start ≤ item ∧ item < stop ∧ ¬ Covers completed item := by
  induction completed generalizing start with
  | nil =>
    rw [subtract, covers_piece, and_iff_left (covers_nil item)]
  | cons done rest ih =>
    obtain ⟨nonempty, before, separatedRest⟩ := separated_cons.mp separated
    have behind (early : item < done.stop) : ¬ Covers rest item :=
      not_covers_of_lt fun later member => early.trans (before later member)
    unfold subtract
    split
    · rw [covers_append, covers_piece, ih separatedRest, covers_cons, not_or]
      by_cases early : item < done.stop
      · simp only [max_le_iff, behind early, not_false_eq_true, and_true]
        omega
      · constructor
        · rintro (⟨-, inside⟩ | ⟨started, unended, uncovered⟩)
          · exact absurd (inside.trans nonempty) early
          · exact ⟨(le_max_left _ _).trans started, unended, fun both => early both.2, uncovered⟩
        · rintro ⟨started, unended, -, uncovered⟩
          exact .inr ⟨max_le started (Nat.le_of_not_lt early), unended, uncovered⟩
    · rw [covers_piece, covers_cons, not_or]
      constructor
      · rintro ⟨started, unended⟩
        exact ⟨started, unended, by omega, behind (by omega)⟩
      · exact fun ⟨started, unended, _⟩ => ⟨started, unended⟩

/-- What is left of one interval lies in it, in pieces apart. -/
theorem subtract_apart (separated : Separated completed) :
    (subtract stop start completed).Pairwise (fun first second => first.stop < second.start) ∧
      ∀ interval ∈ subtract stop start completed, start ≤ interval.start ∧
        interval.stop ≤ stop := by
  have single (start stop : Nat) :
      (if start < stop then [(⟨start, stop⟩ : Interval)] else []).Pairwise
        fun first second => first.stop < second.start := by
    split
    · exact pairwise_singleton _ _
    · exact .nil
  induction completed generalizing start with
  | nil => exact ⟨single start stop, fun interval member => by rw [(mem_piece.mp member).2]; simp⟩
  | cons done _ ih =>
    obtain ⟨_, _, separatedRest⟩ := separated_cons.mp separated
    unfold subtract
    split
    · rename_i within
      obtain ⟨apart, inside⟩ := @ih (max start done.stop) separatedRest
      refine ⟨pairwise_append.mpr ⟨single _ _, apart, fun first one second later => ?_⟩,
        fun interval member => ?_⟩
      · have begins := (inside second later).1
        rw [(mem_piece.mp one).2]
        show done.start < second.start
        omega
      · rcases mem_append.mp member with first | later
        · rw [(mem_piece.mp first).2]
          exact ⟨le_rfl, within.le⟩
        · have bounds := inside interval later
          omega
    · exact ⟨single start stop, fun interval member => by rw [(mem_piece.mp member).2]; simp⟩

theorem outstanding_nonempty (demand completed : List Interval) :
    ∀ interval ∈ outstanding demand completed, interval.start < interval.stop := by
  induction demand generalizing completed with
  | nil => nofun
  | cons _ _ ih =>
    intro interval member
    rcases mem_append.mp member with this | later
    · exact subtract_nonempty _ _ _ interval this
    · exact ih _ interval later

/-- What is outstanding is exactly what is wanted and not completed. -/
theorem outstanding_covers (separated : Separated demand) (done : Separated completed) :
    Covers (outstanding demand completed) item ↔ Covers demand item ∧ ¬ Covers completed item := by
  induction demand generalizing completed with
  | nil => exact iff_of_false (covers_nil item) fun both => covers_nil item both.1
  | cons first demand ih =>
    obtain ⟨_, before, separatedRest⟩ := separated_cons.mp separated
    have kept := done.dropWhile fun done => decide (done.stop ≤ first.start)
    -- What was dropped ends before this interval, and so before every later one.
    have dropped (started : first.start ≤ item) :
        Covers (completed.dropWhile fun done => decide (done.stop ≤ first.start)) item ↔
          Covers completed item := by
      refine ⟨fun ⟨interval, member, inside⟩ =>
        ⟨interval, (dropWhile_sublist _).mem member, inside⟩, ?_⟩
      rintro ⟨interval, member, begun, unended⟩
      rw [← takeWhile_append_dropWhile (p := fun done : Interval =>
        decide (done.stop ≤ first.start)) (l := completed), mem_append] at member
      rcases member with ended | open'
      · have ends := mem_takeWhile_imp ended
        rw [decide_eq_true_eq] at ends
        omega
      · exact ⟨interval, open', begun, unended⟩
    have after (wanted : Covers demand item) : first.start ≤ item := by
      obtain ⟨interval, member, _, -⟩ := wanted
      have later := before interval member
      omega
    rw [outstanding, covers_append, subtract_covers kept, ih separatedRest kept,
      covers_cons, or_and_right]
    refine or_congr ?_ (and_congr_right fun wanted => not_congr (dropped (after wanted)))
    rw [← and_assoc]
    exact and_congr_right fun inside => not_congr (dropped inside.1)

/-- What is outstanding stays within the demand, and apart. -/
theorem outstanding_separated (separated : Separated demand) (done : Separated completed) :
    Separated (outstanding demand completed) := by
  refine ⟨outstanding_nonempty demand completed, ?_⟩
  suffices whole : (outstanding demand completed).Pairwise
      (fun first second => first.stop < second.start) ∧
      ∀ interval ∈ outstanding demand completed, ∃ wanted ∈ demand,
        wanted.start ≤ interval.start from whole.1
  induction demand generalizing completed with
  | nil => exact ⟨.nil, nofun⟩
  | cons first _ ih =>
    obtain ⟨-, before, separatedRest⟩ := separated_cons.mp separated
    have kept := done.dropWhile fun done => decide (done.stop ≤ first.start)
    obtain ⟨apart, inside⟩ := @subtract_apart _ first.start first.stop kept
    obtain ⟨later, within⟩ := ih separatedRest kept
    refine ⟨pairwise_append.mpr ⟨apart, later, fun one here other there => ?_⟩,
      fun interval member => ?_⟩
    · obtain ⟨wanted, member, started⟩ := within other there
      exact (inside one here).2.trans_lt ((before wanted member).trans_le started)
    · rcases mem_append.mp member with here | there
      · exact ⟨first, mem_cons_self, (inside interval here).1⟩
      · obtain ⟨wanted, among, started⟩ := within interval there
        exact ⟨wanted, mem_cons_of_mem _ among, started⟩

/-! ### Merging -/

theorem mergeTouching_spec (last : Interval)
    (nonempty : ∀ interval ∈ last :: rest, interval.start < interval.stop)
    (sorted : (last :: rest).Pairwise fun first second => first.start ≤ second.start) :
    Separated (mergeTouching last rest) ∧
      (∀ interval ∈ mergeTouching last rest, last.start ≤ interval.start) ∧
      ∀ item, Covers (mergeTouching last rest) item ↔ Covers (last :: rest) item := by
  induction rest generalizing last with
  | nil =>
    refine ⟨separated_cons.mpr ⟨nonempty last mem_cons_self, nofun, separated_nil⟩, ?_,
      fun _ => Iff.rfl⟩
    intro interval member
    rw [mem_singleton.mp member]
  | cons next rest ih =>
    obtain ⟨first, sortedRest⟩ := pairwise_cons.mp sorted
    obtain ⟨_, sortedTail⟩ := pairwise_cons.mp sortedRest
    have ordered := first next mem_cons_self
    have nonemptyLast := nonempty last mem_cons_self
    have nonemptyNext := nonempty next (mem_cons_of_mem _ mem_cons_self)
    have nonemptyTail (interval : Interval) (member : interval ∈ rest) :=
      nonempty interval (mem_cons_of_mem _ (mem_cons_of_mem _ member))
    unfold mergeTouching
    split
    · obtain ⟨separated, after, covers⟩ := ih ⟨last.start, max last.stop next.stop⟩
        (forall_mem_cons.mpr ⟨lt_max_of_lt_left nonemptyLast, nonemptyTail⟩)
        (pairwise_cons.mpr ⟨fun later member => first later (mem_cons_of_mem _ member), sortedTail⟩)
      refine ⟨separated, after, fun item => (covers item).trans ?_⟩
      simp only [covers_cons, lt_max_iff]
      rw [← or_assoc]
      refine or_congr_left ?_
      omega
    · rename_i apart
      rw [Nat.not_le] at apart
      obtain ⟨separated, after, covers⟩ := ih next
        (forall_mem_cons.mpr ⟨nonemptyNext, nonemptyTail⟩) sortedRest
      refine ⟨separated_cons.mpr ⟨nonemptyLast,
        fun later member => apart.trans_le (after later member), separated⟩, ?_, fun item => ?_⟩
      · exact forall_mem_cons.mpr ⟨le_rfl, fun interval later =>
          ordered.trans (after interval later)⟩
      · rw [covers_cons, covers item]
        exact covers_cons.symm

/-- Including an item keeps a set separated and adds that item. -/
theorem includeItem_spec (separated : Separated intervals) (item : Nat) :
    Separated (includeItem intervals item) ∧
      ∀ other,
        Covers (includeItem intervals item) other ↔ Covers intervals other ∨ other = item := by
  have sorted := (intervals ++ [(⟨item, item + 1⟩ : Interval)]).pairwise_insertionSort
    fun first second => first.start ≤ second.start
  have same := (intervals ++ [(⟨item, item + 1⟩ : Interval)]).perm_insertionSort
    fun first second => first.start ≤ second.start
  have wanted (other : Nat) :
      Covers (intervals ++ [⟨item, item + 1⟩]) other ↔ Covers intervals other ∨ other = item := by
    rw [covers_append, covers_cons]
    refine or_congr_right ?_
    have none := covers_nil other
    constructor
    · rintro (⟨started, unended⟩ | covers)
      · exact (Nat.lt_succ_iff.mp unended).antisymm started
      · exact absurd covers none
    · rintro rfl
      exact .inl ⟨le_rfl, Nat.lt_succ_self _⟩
  unfold includeItem
  split
  · rename_i empty
    rw [empty] at same
    have nothing := same.symm.eq_nil
    cases intervals <;> cases nothing
  · rename_i first rest listed
    rw [listed] at same sorted
    have nonempty : ∀ interval ∈ first :: rest, interval.start < interval.stop := by
      intro interval member
      rcases mem_append.mp (same.mem_iff.mp member) with old | new
      · exact separated.nonempty interval old
      · rw [mem_singleton.mp new]
        exact Nat.lt_succ_self item
    obtain ⟨merged, -, covers⟩ := mergeTouching_spec first nonempty sorted
    refine ⟨merged, fun other => (covers other).trans ?_⟩
    rw [← wanted]
    unfold Covers
    simp only [same.mem_iff]

/-- The algebra of interval sets. What is outstanding of canonical demand after canonical
completed work is canonical and holds exactly the items demanded and not completed; including an
item keeps a completed set canonical and adds that item only; and the binary search finds exactly
the items that lie in an interval of a canonical set. -/
theorem interval_algebra {demand completed : List Interval} {most more : Nat}
    (wanted : canonical demand most = true) (done : canonical completed more = true) (item : Nat) :
    canonical (outstanding demand completed) (outstanding demand completed).length = true ∧
      (contains (outstanding demand completed) item = true ↔
        contains demand item = true ∧ ¬ contains completed item = true) ∧
      canonical (includeItem completed item) (includeItem completed item).length = true ∧
      (∀ other, contains (includeItem completed item) other = true ↔
        contains completed other = true ∨ other = item) ∧
      (contains demand item = true ↔ Covers demand item) := by
  have separated := canonical_separated wanted
  have finished := canonical_separated done
  have left := outstanding_separated separated finished
  obtain ⟨included, covers⟩ := includeItem_spec finished item
  refine ⟨canonical_iff.mpr ⟨le_rfl, left⟩, ?_, canonical_iff.mpr ⟨le_rfl, included⟩,
    fun other => ?_, contains_iff separated item⟩
  · rw [contains_iff left, contains_iff separated, contains_iff finished]
    exact outstanding_covers separated finished
  · rw [contains_iff included, contains_iff finished]
    exact covers other

/-- The middle of `[0, 10)` is completed, and one item next to it. -/
theorem interval_algebra_split :
    canonical [⟨0, 10⟩] 1 = true ∧ canonical [⟨3, 5⟩] 1 = true ∧
      outstanding [⟨0, 10⟩] [⟨3, 5⟩] = [⟨0, 3⟩, ⟨5, 10⟩] ∧ includeItem [⟨3, 5⟩] 5 = [⟨3, 6⟩] ∧
      (contains (outstanding [⟨0, 10⟩] [⟨3, 5⟩]) 5 = true ↔
        contains [⟨0, 10⟩] 5 = true ∧ ¬ contains [⟨3, 5⟩] 5 = true) :=
  ⟨by decide, by decide, by decide, by decide,
    (@interval_algebra [⟨0, 10⟩] [⟨3, 5⟩] 1 1 (by decide) (by decide) 5).2.1⟩

/-! ### What the sweep selects -/

section

variable {Voter : Type*}

/-- Whether the last of the target's end points among these opens an interval. -/
def opened (events : List (Endpoint Voter)) : Bool :=
  (events.filter (·.target)).getLast?.any (·.start)

theorem opened_snoc (events : List (Endpoint Voter)) (event : Endpoint Voter) :
    opened (events ++ [event]) = if event.target then event.start else opened events := by
  unfold opened
  rw [filter_append]
  cases target : event.target with
  | false => rw [filter_singleton, target, cond_false, append_nil, if_neg nofun]
  | true =>
    rw [filter_singleton, target, getLast?_append]
    rfl

variable [DecidableEq Voter] {eligible : Nat → Option Bool}

/-- A selected point was judged after all end points up to it, while the target covered it. -/
theorem Sweep.run_selected (passed : List (Endpoint Voter)) {rest : List (Endpoint Voter)}
    (sweep : Sweep Voter) {item : Nat}
    (sorted : (passed ++ rest).Pairwise fun first second => first.point ≤ second.point)
    (active : sweep.active = opened passed) (runs : sweep.run eligible rest = .ok (some item)) :
    sweep.best = some item ∨
      ∃ before after, passed ++ rest = before ++ after ∧ opened before = true ∧
        (∀ event ∈ before, event.point ≤ item) ∧ ∀ event ∈ after, item < event.point := by
  induction rest generalizing passed sweep with
  | nil => exact .inl (Except.ok.inj runs)
  | cons event rest ih =>
    have listed : passed ++ event :: rest = (passed ++ [event]) ++ rest := by
      rw [append_assoc, singleton_append]
    rw [listed] at sorted ⊢
    have passes : (sweep.pass event).active = opened (passed ++ [event]) := by
      rw [opened_snoc, ← active]
      rfl
    unfold Sweep.run at runs
    dsimp only at runs
    split at runs
    · exact ih (passed ++ [event]) (sweep.pass event) sorted passes runs
    rename_i last
    have beyond : ∀ next ∈ rest, event.point < next.point := by
      have ordered (next : Endpoint Voter) (member : next ∈ rest) : event.point ≤ next.point :=
        (pairwise_append.mp sorted).2.2 event (mem_concat_self) next member
      cases rest with
      | nil => nofun
      | cons first =>
        have differs : first.point ≠ event.point := fun same => last (decide_eq_true same)
        have later : event.point < first.point :=
          lt_of_le_of_ne (ordered first mem_cons_self) differs.symm
        have sortedRest := (pairwise_append.mp sorted).2.1
        exact forall_mem_cons.mpr ⟨later, fun next after =>
          later.trans_le ((pairwise_cons.mp sortedRest).1 next after)⟩
    split at runs
    · rename_i covered
      rw [Bool.and_eq_true] at covered
      split at runs
      · cases runs
      · rcases ih (passed ++ [event])
          { sweep.pass event with
            best := some event.point
            score := (sweep.pass event).receivers.size } sorted passes runs with best | found
        · cases best
          refine .inr ⟨passed ++ [event], rest, rfl, passes.symm.trans covered.1, ?_, beyond⟩
          intro earlier member
          rcases mem_append.mp member with before | this
          · exact (pairwise_append.mp (pairwise_append.mp sorted).1).2.2 earlier
              before event (mem_singleton.mpr rfl)
          · rw [mem_singleton.mp this]
        · exact .inr found
      · exact ih (passed ++ [event]) (sweep.pass event) sorted passes runs
    · exact ih (passed ++ [event]) (sweep.pass event) sorted passes runs

variable {demands : List (Voter × Bool × List Interval)}

omit [DecidableEq Voter] in
theorem mem_endpoints {event : Endpoint Voter} :
    event ∈ endpoints demands ↔ ∃ demand ∈ demands, ∃ interval ∈ demand.2.2,
      event = ⟨interval.start, demand.1, demand.2.1, true⟩ ∨
        event = ⟨interval.stop, demand.1, demand.2.1, false⟩ := by
  unfold endpoints
  simp only [mem_flatMap, mem_cons, not_mem_nil, or_false]

/-- A selected item is outstanding for the target. -/
theorem select_target {item : Nat}
    (nonempty : ∀ demand ∈ demands, ∀ interval ∈ demand.2.2, interval.start < interval.stop)
    (selects : select demands eligible = .ok (some item)) :
    ∃ demand ∈ demands, demand.2.1 = true ∧ Covers demand.2.2 item := by
  have same := (endpoints demands).perm_insertionSort fun first second => first.point ≤ second.point
  have sorted := (endpoints demands).pairwise_insertionSort
    fun first second => first.point ≤ second.point
  unfold select at selects
  generalize (endpoints demands).insertionSort (fun first second =>
    first.point ≤ second.point) = events at same sorted selects
  rcases Sweep.run_selected [] {} sorted rfl selects with none | ⟨before, after, listed,
    isOpen, passed, beyond⟩
  · cases none
  rw [nil_append] at listed
  rw [listed] at same sorted
  -- The target's last end point opens an interval, whose end lies beyond the item.
  rw [opened, Option.any_eq_true] at isOpen
  obtain ⟨event, last, opens⟩ := isOpen
  obtain ⟨_, split⟩ := getLast?_eq_some_iff.mp last
  have member : event ∈ before.filter (·.target) := by
    rw [split]
    exact mem_concat_self
  obtain ⟨among, target⟩ := mem_filter.mp member
  obtain ⟨demand, demanded, interval, listedInterval, start | stop⟩ :=
    mem_endpoints.mp (same.mem_iff.mp (mem_append_left after among))
  · subst start
    refine ⟨demand, demanded, target, interval, listedInterval, passed _ among, ?_⟩
    by_contra ended
    rw [Nat.not_lt] at ended
    have closing : (⟨interval.stop, demand.1, demand.2.1, false⟩ : Endpoint Voter) ∈
        before ++ after :=
      same.mem_iff.mpr (mem_endpoints.mpr ⟨demand, demanded, interval, listedInterval, .inr rfl⟩)
    have passedToo := (mem_append.mp closing).resolve_right fun later =>
      absurd (beyond _ later) (Nat.not_lt.mpr ended)
    have kept : (⟨interval.stop, demand.1, demand.2.1, false⟩ : Endpoint Voter) ∈
        before.filter (·.target) := mem_filter.mpr ⟨passedToo, target⟩
    have ordered := (pairwise_append.mp sorted).1.sublist (filter_sublist (p := (·.target)))
    rw [split] at kept ordered
    rcases mem_append.mp kept with older | this
    · have order := (pairwise_append.mp ordered).2.2 _ older _ (mem_singleton.mpr rfl)
      exact absurd (nonempty demand demanded interval listedInterval) (Nat.not_lt.mpr order)
    · exact Bool.noConfusion (congrArg Endpoint.start (mem_singleton.mp this))
  · rw [stop] at opens
    cases opens

end

end Unbounded.Subscriptions
