/-
This file runs the index of published pages: any sequence of publications, removals
and victim selections on an index that starts empty. One lemma says what a call does
to the pages and their places, and from it the maps agree after every run, no access
that the code takes for granted can fail, and the segments that hold mappings are
those the live mappings were last inserted with.

Two kinds of scans go over such an index. A checkpoint scan resumes behind the last
age it returned while the index changes under it; ages are never given twice, so a
mapping that stays in place is met once. A victim scan wraps around behind its own
cursor; a visit that goes on where the last one stopped sees what it has not seen
first, which bounds the calls until every mapping was offered.
-/

import Unbounded.PageIndex
import Unbounded.Transition

namespace Unbounded.Alloc

open Table Option List ListUpdate Transition

namespace PageIndex

variable {Key Value Class : Type*} [DecidableEq Key] [DecidableEq Class]

/-! ### Calls -/

/-- A call that may change the index. -/
inductive Call (Key Value Class : Type*)
  | insertIn (key : Key) (value : Value) (segment : Nat) (group : Class)
  | remove (key : Key)
  | victim (budget : Nat) (score : Key → Value → Nat)
  | victimIf (budget : Nat) (score : Key → Value → Option Nat)
  | victimInGroups (groups : List Class) (budget : Nat) (score : Key → Value → Option Nat)

/-- What a call returns. -/
inductive Reply (Key Value : Type*)
  /-- The mapping was published, over the one there was before. -/
  | inserted (old : Option Value)
  /-- Ages are exhausted; the mapping is returned untouched. -/
  | rejected (key : Key) (value : Value)
  | removed (old : Option Value)
  | chosen (victim : Option Key)

/-- Whether a call selects a victim. -/
def Call.Selects : Call Key Value Class → Prop
  | .insertIn .. | .remove _ => False
  | .victim .. | .victimIf .. | .victimInGroups .. => True

/-- Perform a call; there is nothing where the code would panic. -/
def perform (index : PageIndex Key Value Class) :
    Call Key Value Class → Option (Reply Key Value × PageIndex Key Value Class)
  | .insertIn key value segment group =>
    (index.insertIn key value segment group).map fun
      | some (old, next) => (.inserted old, next)
      | none => (.rejected key value, index)
  | .remove key => (index.remove key).map fun removed => (.removed removed.1, removed.2)
  | .victim budget score =>
    (index.victim budget score).map fun picked => (.chosen picked.1, picked.2)
  | .victimIf budget score =>
    (index.victimIf budget score).map fun picked => (.chosen picked.1, picked.2)
  | .victimInGroups groups budget score =>
    (index.victimInGroups groups budget score).map fun picked => (.chosen picked.1, picked.2)

/-- A step of a run: a call and what it returned. -/
def Performs (index : PageIndex Key Value Class) (label : Call Key Value Class × Reply Key Value)
    (next : PageIndex Key Value Class) : Prop :=
  index.perform label.1 = some (label.2, next)

/-- What a call does to the pages, their places and the ages that are left. -/
inductive Follows (index : PageIndex Key Value Class) :
    Call Key Value Class → Reply Key Value → PageIndex Key Value Class → Prop
  | inserts {key value segment group next}
      (pages : next.pages = (index.pages.erase key).insert key value)
      (ages : next.ages = (index.ages.erase key).insert key (index.nextAge + 1, segment, group))
      (nextAge : next.nextAge = index.nextAge + 1) :
      Follows index (.insertIn key value segment group) (.inserted (index.pages.lookup key)) next
  | rejects {key value segment group} :
      Follows index (.insertIn key value segment group) (.rejected key value) index
  | removes {key next} (pages : next.pages = index.pages.erase key)
      (ages : next.ages = index.ages.erase key) (nextAge : next.nextAge = index.nextAge) :
      Follows index (.remove key) (.removed (index.pages.lookup key)) next
  | selects {call victim next} (selects : call.Selects) (pages : next.pages = index.pages)
      (ages : next.ages = index.ages) (nextAge : next.nextAge = index.nextAge) :
      Follows index call (.chosen victim) next

variable {index : PageIndex Key Value Class}

/-- A call on an index whose maps agree succeeds, and they agree after it. -/
theorem Consistent.perform (consistent : index.Consistent) (call : Call Key Value Class) :
    ∃ reply next, index.perform call = some (reply, next) ∧ next.Consistent ∧
      index.Follows call reply next := by
  cases call with
  | insertIn key value segment group =>
    cases lasts : index.canPublish with
    | true =>
      obtain ⟨next, inserted, kept, pages, ages, nextAge⟩ :=
        consistent.insertIn lasts key value segment group
      exact ⟨_, next, by rw [PageIndex.perform, inserted]; rfl, kept, .inserts pages ages nextAge⟩
    | false =>
      have exhausted : ¬ index.nextAge + 1 < 2 ^ 64 := by
        have := of_decide_eq_false lasts
        omega
      refine ⟨_, index, ?_, consistent, .rejects⟩
      rw [PageIndex.perform, PageIndex.insertIn, if_neg exhausted]
      rfl
  | remove key =>
    obtain ⟨next, removed, kept, pages, ages, nextAge⟩ := consistent.remove key
    exact ⟨_, next, by rw [PageIndex.perform, removed]; rfl, kept, .removes pages ages nextAge⟩
  | victim budget score =>
    obtain ⟨victim, next, picked, picks⟩ :=
      consistent.victimIf budget fun key value => some (score key value)
    exact ⟨_, next, by rw [PageIndex.perform, PageIndex.victim, picked]; rfl, picks.consistent,
      .selects trivial picks.pages picks.ages picks.nextAge⟩
  | victimIf budget score =>
    obtain ⟨_, next, picked, picks⟩ := consistent.victimIf budget score
    exact ⟨_, next, by rw [PageIndex.perform, picked]; rfl, picks.consistent,
      .selects trivial picks.pages picks.ages picks.nextAge⟩
  | victimInGroups groups budget score =>
    obtain ⟨_, next, picked, picks⟩ := consistent.victimInGroups groups budget score
    exact ⟨_, next, by rw [PageIndex.perform, picked]; rfl, picks.consistent,
      .selects trivial picks.pages picks.ages picks.nextAge⟩

variable {next : PageIndex Key Value Class}

theorem Consistent.performs (consistent : index.Consistent)
    {label : Call Key Value Class × Reply Key Value} (performed : index.Performs label next) :
    next.Consistent ∧ index.Follows label.1 label.2 next := by
  obtain ⟨_, _, done, kept, follows⟩ := consistent.perform label.1
  rw [Performs, done] at performed
  cases performed
  exact ⟨kept, follows⟩

variable {labels : List (Call Key Value Class × Reply Key Value)}

theorem consistent_run (run : Run Performs {} labels index) : index.Consistent :=
  run.invariant Consistent (fun _ _ _ consistent performed => (consistent.performs performed).1)
    consistent_empty

/-! ### Segments of live mappings -/

/-- The segment a call has inserted a mapping of the key with. -/
def insertedWith (key : Key) : Call Key Value Class × Reply Key Value → Option Nat
  | (.insertIn other _ segment _, .inserted _) => if other = key then some segment else none
  | _ => none

/-- The segment the key was last inserted with. -/
def lastSegment (key : Key) (labels : List (Call Key Value Class × Reply Key Value)) : Option Nat :=
  labels.foldl (fun last label => insertedWith key label <|> last) none

/-- Every place names the segment its page was last inserted with. -/
theorem placed_last (run : Run Performs {} labels index) :
    ∀ key place, index.ages.lookup key = some place → lastSegment key labels = some place.2.1 := by
  refine (run.history (fun labels index => index.Consistent ∧
    ∀ key place, index.ages.lookup key = some place → lastSegment key labels = some place.2.1)
    ?_ ⟨consistent_empty, nofun⟩).2
  rintro _ _ ⟨call, _⟩ _ ⟨consistent, last⟩ performed
  obtain ⟨kept, follows⟩ := consistent.performs performed
  refine ⟨kept, fun key place placed => ?_⟩
  rw [lastSegment, foldl_append, ← lastSegment, foldl_cons, foldl_nil]
  cases follows with
  | @inserts _ _ _ _ _ _ ages _ =>
    rw [ages, lookup_insert_eq, lookup_erase_eq] at placed
    split at placed
    · rename_i same
      subst same
      cases placed
      simp [insertedWith]
    · rename_i differs
      simpa [insertedWith, Ne.symm differs] using last key place placed
  | rejects => exact last key place placed
  | removes _ ages =>
    rw [ages] at placed
    exact last key place (lookup_erase_some.mp placed).2
  | @selects _ victim _ _ _ ages _ =>
    rw [ages] at placed
    have none : insertedWith key (call, .chosen victim) = none := by cases call <;> rfl
    rw [none]
    exact last key place placed

variable {budget : Nat}

/-- After any calls on an empty index its maps describe one set of mappings, no access that is
taken for granted fails, a segment is empty if and only if no live mapping was last inserted
with it, and a publication that is rejected changes nothing. -/
theorem page_index_agrees {labels : List (Call Key Value Class × Reply Key Value)}
    (run : Run Performs {} labels index) :
    index.Consistent ∧
    (∀ first second one two, index.ages.lookup first = some one →
      index.ages.lookup second = some two → one.1 = two.1 → first = second) ∧
    (∀ call, (index.perform call).isSome) ∧
    (∀ cursor limit, (index.after cursor limit).isSome) ∧
    (∀ segment budget, (index.segment segment budget).isSome) ∧
    (∀ segment budget unseenValue score,
      (index.segmentScore segment budget unseenValue score).isSome) ∧
    (∀ segment, index.segmentEmpty segment = true ↔
      ¬ ∃ key, (index.pages.lookup key).isSome ∧ lastSegment key labels = some segment) ∧
    ∀ key value segment group returned untouched next,
      index.Performs (.insertIn key value segment group, .rejected returned untouched) next →
      next = index ∧ returned = key ∧ untouched = value := by
  have consistent := consistent_run run
  have visits : ∀ segment budget, (index.segment segment budget).isSome := by
    intro segment budget
    obtain ⟨_, found, -⟩ := consistent.segment segment budget
    rw [found]
    rfl
  refine ⟨consistent, fun _ _ _ _ => consistent.key_of_age, fun call => ?_, fun cursor limit => ?_,
    visits, fun segment budget _ _ => isSome_map.trans (visits segment budget), fun segment => ?_,
      fun key value segment group returned untouched next performed => ?_⟩
  · obtain ⟨_, _, performed, -⟩ := consistent.perform call
    rw [performed]
    rfl
  · obtain ⟨_, found, -⟩ := consistent.after cursor limit
    rw [found]
    rfl
  · rw [consistent.segmentEmpty_iff]
    constructor
    · rintro unplaced ⟨key, live, last⟩
      obtain ⟨_, found⟩ := isSome_iff_exists.mp live
      obtain ⟨age, _, group, placed⟩ := consistent.place_of_page found
      have same := placed_last run key _ placed
      rw [last] at same
      cases same
      exact unplaced key age group placed
    · intro none key age group placed
      obtain ⟨_, found⟩ := consistent.page_of_place placed
      exact none ⟨key, by rw [found]; rfl, placed_last run key _ placed⟩
  · obtain ⟨-, follows⟩ := consistent.performs performed
    cases follows
    exact ⟨rfl, rfl, rfl⟩

/-- Two pages of one segment, published one after the other. -/
def twoPages : PageIndex Nat Nat Nat := (({} : PageIndex Nat Nat Nat).put 1 10 7 0 1).put 2 20 7 0 2

def twoPublications : List (Call Nat Nat Nat × Reply Nat Nat) :=
  [(.insertIn 1 10 7 0, .inserted none), (.insertIn 2 20 7 0, .inserted none)]

theorem twoPages_run : Run Performs {} twoPublications twoPages := by
  have first : Performs ({} : PageIndex Nat Nat Nat) (.insertIn 1 10 7 0, .inserted none)
      (({} : PageIndex Nat Nat Nat).put 1 10 7 0 1) := rfl
  exact .snoc (.single first) rfl

/-- After two pages are published in segment 7 the maps agree, and the segment has mappings. -/
theorem page_index_agrees_twoPages :
    twoPages.Consistent ∧ twoPages.segmentEmpty 7 = false ∧
      (twoPages.segmentEmpty 7 = true ↔ ¬ ∃ key, (twoPages.pages.lookup key).isSome ∧
        lastSegment key twoPublications = some 7) :=
  ⟨(page_index_agrees twoPages_run).1, rfl, (page_index_agrees twoPages_run).2.2.2.2.2.2.1 7⟩

/-! ### Checkpoint scans -/

/-- A checkpoint scan: the index it goes over, its cursor and the mappings it has visited. -/
structure Scan (Key Value Class : Type*) where
  index : PageIndex Key Value Class
  cursor : Nat
  visited : List (Nat × Key × Value) := []

/-- A step of a scan: a call that comes between, or the scan resumes. -/
inductive ScanStep (Key Value Class : Type*)
  | call (label : Call Key Value Class × Reply Key Value)
  | resume (limit : Nat) (found : List (Nat × Key × Value))

/-- A scan resumes behind the last age it returned. -/
inductive Scan.Steps : Scan Key Value Class → ScanStep Key Value Class → Scan Key Value Class → Prop
  | call {index next cursor visited label} (performed : index.Performs label next) :
      Steps ⟨index, cursor, visited⟩ (.call label) ⟨next, cursor, visited⟩
  | resume {index cursor limit visited found} (positive : 1 ≤ limit)
      (resumed : index.after cursor limit = some found) :
      Steps ⟨index, cursor, visited⟩ (.resume limit found)
        ⟨index, (found.getLast?.map (·.1)).getD cursor, visited ++ found⟩

/-- Whether a step publishes a mapping. -/
def ScanStep.publishes : ScanStep Key Value Class → Bool
  | .call (_, .inserted _) => true
  | _ => false

/-- Whether a scan resumes. -/
def ScanStep.resumes : ScanStep Key Value Class → Bool
  | .resume .. => true
  | .call _ => false

/-- Whether a scan resumes and finds something. -/
def ScanStep.advances : ScanStep Key Value Class → Bool
  | .resume _ found => !found.isEmpty
  | .call _ => false

/-- The mappings a scan has not reached yet. -/
def Scan.ahead (scan : Scan Key Value Class) : List (Nat × Key) :=
  scan.index.order.after scan.cursor

/-- What a scan that began at an index has met: publications in the order of their ages; of a
mapping of that index that is still there, at most its own publication, and that one once the
cursor is past it. -/
structure Scan.Covers (start : Nat) (began : PageIndex Key Value Class)
    (scan : Scan Key Value Class) : Prop where
  consistent : scan.index.Consistent
  ascending : scan.visited.Pairwise fun earlier later => earlier.1 < later.1
  passed : ∀ visit ∈ scan.visited, visit.1 ≤ scan.cursor
  newer : began.nextAge ≤ scan.index.nextAge
  same : ∀ key place, place.1 ≤ began.nextAge → scan.index.ages.lookup key = some place →
    ∀ visit ∈ scan.visited, visit.2.1 = key →
      visit.1 = place.1 ∧ scan.index.pages.lookup key = some visit.2.2
  met : ∀ key place, place.1 ≤ began.nextAge → scan.index.ages.lookup key = some place →
    start < place.1 → place.1 ≤ scan.cursor →
    ∃ value, (place.1, key, value) ∈ scan.visited

variable {reply : Reply Key Value}

omit [DecidableEq Class] in
/-- An old mapping that is there after a call was there before it, with the same value. -/
theorem Follows.before {call : Call Key Value Class} (follows : index.Follows call reply next)
    {key : Key} {place : Nat × Nat × Class} (old : place.1 ≤ index.nextAge)
    (placed : next.ages.lookup key = some place) :
    index.ages.lookup key = some place ∧ next.pages.lookup key = index.pages.lookup key := by
  cases follows with
  | inserts pages ages =>
    rw [ages] at placed
    rcases lookup_insert_some.mp placed with ⟨-, rfl⟩ | ⟨differs, placed⟩
    · exact absurd old (Nat.not_succ_le_self _)
    · rw [pages, lookup_insert_eq, lookup_erase_eq, if_neg differs, if_neg differs]
      exact ⟨(lookup_erase_some.mp placed).2, rfl⟩
  | rejects => exact ⟨placed, rfl⟩
  | removes pages ages =>
    rw [ages] at placed
    obtain ⟨differs, placed⟩ := lookup_erase_some.mp placed
    rw [pages, lookup_erase_eq, if_neg differs]
    exact ⟨placed, rfl⟩
  | selects _ pages ages =>
    rw [ages] at placed
    rw [pages]
    exact ⟨placed, rfl⟩

omit [DecidableEq Class] in
theorem Follows.nextAge_le {call : Call Key Value Class} (follows : index.Follows call reply next) :
    index.nextAge ≤ next.nextAge := by
  cases follows with
  | inserts | removes | selects => omega
  | rejects => exact Nat.le_refl _

namespace Scan

theorem Covers.start (consistent : index.Consistent) (start : Nat) :
    Covers start index ⟨index, start, []⟩ where
  consistent := consistent
  ascending := .nil
  passed _ absent := nomatch absent
  newer := Nat.le_refl _
  same _ _ _ _ _ absent := nomatch absent
  met _ _ _ _ behind within := absurd within (Nat.not_le.mpr behind)

variable {start cursor : Nat} {began : PageIndex Key Value Class}
  {visited : List (Nat × Key × Value)}
  {label : Call Key Value Class × Reply Key Value}

theorem Covers.call (covers : Covers start began ⟨index, cursor, visited⟩)
    (performed : index.Performs label next) : Covers start began ⟨next, cursor, visited⟩ := by
  obtain ⟨kept, follows⟩ := covers.consistent.performs performed
  refine ⟨kept, covers.ascending, covers.passed, Nat.le_trans covers.newer follows.nextAge_le,
    fun key place old placed visit member here => ?_, fun key place old placed behind within => ?_⟩
  · obtain ⟨before, page⟩ := follows.before (Nat.le_trans old covers.newer) placed
    obtain ⟨age, value⟩ := covers.same key place old before visit member here
    exact ⟨age, page.trans value⟩
  · obtain ⟨before, -⟩ := follows.before (Nat.le_trans old covers.newer) placed
    exact covers.met key place old before behind within

variable {found : List (Nat × Key × Value)} {limit : Nat}

/-- Where a scan goes when it resumes, and what lies there. -/
theorem resumed_spec (consistent : index.Consistent)
    (resumed : index.after cursor limit = some found) :
    found.map (fun visit => (visit.1, visit.2.1)) = (index.order.after cursor).take limit ∧
      (∀ visit ∈ found, cursor < visit.1 ∧ (visit.1, visit.2.1) ∈ index.order.entries ∧
        index.pages.lookup visit.2.1 = some visit.2.2) ∧
      found.Pairwise fun earlier later => earlier.1 < later.1 := by
  obtain ⟨_, same, entries, paged⟩ := consistent.after cursor limit
  rw [resumed] at same
  cases same
  refine ⟨entries, fun visit member => ?_, ?_⟩
  · have entry : (visit.1, visit.2.1) ∈ (index.order.after cursor).take limit :=
      entries ▸ mem_map_of_mem member
    obtain ⟨there, behind⟩ := OrderedMap.mem_after.mp (mem_of_mem_take entry)
    exact ⟨behind, there, paged visit member⟩
  · have sorted := (index.order.after_sorted cursor).sublist (take_sublist limit _)
    rw [← entries, pairwise_map] at sorted
    exact sorted

theorem Covers.resume (covers : Covers start began ⟨index, cursor, visited⟩)
    (resumed : index.after cursor limit = some found) :
    Covers start began ⟨index, (found.getLast?.map (·.1)).getD cursor, visited ++ found⟩ := by
  have consistent := covers.consistent
  obtain ⟨entries, reads, ascending⟩ := resumed_spec consistent resumed
  -- The cursor ends at the last age that was found, behind where it was.
  have within : ∀ visit ∈ found, visit.1 ≤ (found.getLast?.map (·.1)).getD cursor := by
    cases ends : found.getLast? with
    | none =>
      rw [getLast?_eq_none_iff.mp ends]
      exact nofun
    | some last =>
      obtain ⟨_, rfl⟩ := getLast?_eq_some_iff.mp ends
      refine forall_mem_snoc (fun visit early => ?_) (Nat.le_refl _)
      exact Nat.le_of_lt ((pairwise_append.mp ascending).2.2 visit early last mem_cons_self)
  have forward : cursor ≤ (found.getLast?.map (·.1)).getD cursor := by
    cases ends : found.getLast? with
    | none => exact Nat.le_refl _
    | some last => exact Nat.le_of_lt (reads last (mem_of_getLast? ends)).1
  refine ⟨consistent, ?_, fun visit member => ?_, covers.newer,
    fun key place old placed visit member here => ?_, fun key place old placed behind reached => ?_⟩
  · refine pairwise_append.mpr ⟨covers.ascending, ascending, fun early one late two => ?_⟩
    exact Nat.lt_of_le_of_lt (covers.passed early one) (reads late two).1
  · rcases mem_append.mp member with early | late
    · exact Nat.le_trans (covers.passed visit early) forward
    · exact within visit late
  · rcases mem_append.mp member with early | late
    · exact covers.same key place old placed visit early here
    obtain ⟨-, entry, page⟩ := reads visit late
    obtain ⟨_, _, there⟩ := (consistent.ordered visit.1 visit.2.1).mp entry
    rw [here, placed] at there
    cases there
    exact ⟨rfl, here ▸ page⟩
  · by_cases before : place.1 ≤ cursor
    · obtain ⟨value, member⟩ := covers.met key place old placed behind before
      exact ⟨value, mem_append_left _ member⟩
    · have entry : (place.1, key) ∈ index.order.after cursor := OrderedMap.mem_after.mpr
        ⟨(consistent.ordered place.1 key).mpr ⟨place.2.1, place.2.2, placed⟩, by omega⟩
      cases ends : found.getLast? with
      | none =>
        rw [ends] at reached
        exact absurd reached before
      | some last =>
        rw [ends] at reached
        have lastEntry : ((index.order.after cursor).take limit).getLast? =
            some (last.1, last.2.1) := by
          rw [← entries, getLast?_map, ends]
          rfl
        have taken := OrderedMap.mem_take_of_le (index.order.after_sorted cursor) lastEntry entry
          reached
        rw [← entries] at taken
        obtain ⟨⟨age, other, value⟩, member, same⟩ := mem_map.mp taken
        obtain ⟨rfl, rfl⟩ : age = place.1 ∧ other = key := Prod.mk.inj same
        exact ⟨value, mem_append_right _ member⟩

variable {step : ScanStep Key Value Class}

theorem Covers.steps {scan next : Scan Key Value Class} (covers : Covers start began scan)
    (steps : Steps scan step next) : Covers start began next := by
  cases steps with
  | call performed => exact covers.call performed
  | resume _ resumed => exact covers.resume resumed

variable {place : Nat × Nat × Class}

/-- A scan that finds nothing more has met every old mapping that is still there once. -/
theorem Covers.finished {scan : Scan Key Value Class} (covers : Covers start began scan)
    (positive : 1 ≤ limit) (finished : scan.index.after scan.cursor limit = some []) {key : Key}
    (old : place.1 ≤ began.nextAge) (behind : start < place.1)
    (placed : scan.index.ages.lookup key = some place) :
    ∃ value, scan.index.pages.lookup key = some value ∧
      scan.visited.filter (fun visit => visit.2.1 = key) = [(place.1, key, value)] := by
  obtain ⟨entries, -, -⟩ := resumed_spec covers.consistent finished
  have empty : scan.index.order.after scan.cursor = [] := by
    rcases take_eq_nil_iff.mp entries.symm with _ | empty
    · omega
    · exact empty
  have passed : place.1 ≤ scan.cursor := by
    refine Nat.le_of_not_lt fun ahead => ?_
    have entry : (place.1, key) ∈ scan.index.order.after scan.cursor := OrderedMap.mem_after.mpr
      ⟨(covers.consistent.ordered place.1 key).mpr ⟨place.2.1, place.2.2, placed⟩, ahead⟩
    rw [empty] at entry
    cases entry
  obtain ⟨value, member⟩ := covers.met key place old placed behind passed
  obtain ⟨-, page⟩ := covers.same key place old placed _ member rfl
  refine ⟨value, page, ?_⟩
  have distinct : scan.visited.Nodup := covers.ascending.imp fun {_ _} below same =>
    Nat.ne_of_lt below (congrArg Prod.fst same)
  refine perm_singleton.mp ((perm_ext_iff_of_nodup (distinct.filter _)
    (nodup_singleton _)).mpr fun visit => ?_)
  rw [mem_filter, decide_eq_true_iff, mem_singleton]
  constructor
  · rintro ⟨visited, same⟩
    obtain ⟨age, other⟩ := covers.same key place old placed visit visited same
    rw [page] at other
    cases other
    exact Prod.ext age (Prod.ext same rfl)
  · rintro rfl
    exact ⟨member, rfl⟩

/-! ### The end of a scan -/

omit [DecidableEq Key] [DecidableEq Class] in
theorem ahead_nodup (scan : Scan Key Value Class) : scan.ahead.Nodup :=
  (scan.index.order.after_sorted scan.cursor).imp fun {_ _} below same =>
    Nat.ne_of_lt below (congrArg Prod.fst same)

omit [DecidableEq Class] in
/-- A call that publishes nothing places nothing new. -/
theorem Follows.placed (follows : index.Follows label.1 label.2 next)
    (quiet : (ScanStep.call label).publishes = false) {key : Key}
    (placed : next.ages.lookup key = some place) : index.ages.lookup key = some place := by
  obtain ⟨_, _⟩ := label
  cases follows with
  | inserts => cases quiet
  | rejects => exact placed
  | removes _ ages =>
    rw [ages] at placed
    exact (lookup_erase_some.mp placed).2
  | selects _ _ ages => exact ages ▸ placed

/-- Without publications every resumption that finds something leaves less ahead. -/
theorem ahead_steps {scan next : Scan Key Value Class} (consistent : scan.index.Consistent)
    (steps : Steps scan step next) (quiet : step.publishes = false) :
    (next.ahead.length + if step.advances then 1 else 0) ≤ scan.ahead.length := by
  cases steps with
  | @call index after cursor visited _ performed =>
    obtain ⟨kept, follows⟩ := consistent.performs performed
    refine (subperm_of_subset (ahead_nodup ⟨after, cursor, visited⟩) ?_).length_le
    intro entry member
    obtain ⟨there, behind⟩ := OrderedMap.mem_after.mp member
    obtain ⟨segment, group, placed⟩ := (kept.ordered entry.1 entry.2).mp there
    exact OrderedMap.mem_after.mpr ⟨(consistent.ordered entry.1 entry.2).mpr
      ⟨segment, group, Follows.placed follows quiet placed⟩, behind⟩
  | @resume index cursor _ visited found _ resumed =>
    obtain ⟨_, reads, -⟩ := resumed_spec consistent resumed
    cases ends : found.getLast? with
    | none =>
      rw [getLast?_eq_none_iff.mp ends]
      exact Nat.le_refl _
    | some last =>
      obtain ⟨behind, there, -⟩ := reads last (mem_of_getLast? ends)
      have fewer : ((last.1, last.2.1) ::
          (⟨index, last.1, visited ++ found⟩ : Scan Key Value Class).ahead).length ≤
          (⟨index, cursor, visited⟩ : Scan Key Value Class).ahead.length := by
        refine (subperm_of_subset (nodup_cons.mpr ⟨?_, ahead_nodup _⟩) ?_).length_le
        · exact fun member => absurd (OrderedMap.mem_after.mp member).2 (Nat.lt_irrefl _)
        · intro entry member
          rcases mem_cons.mp member with rfl | member
          · exact OrderedMap.mem_after.mpr ⟨there, behind⟩
          · obtain ⟨entry, later⟩ := OrderedMap.mem_after.mp member
            exact OrderedMap.mem_after.mpr ⟨entry, Nat.lt_trans behind later⟩
      refine Nat.le_trans ?_ fewer
      exact Nat.add_le_add_left (by split <;> omega) _

/-- Without publications a scan that resumes more often than mappings are ahead finds nothing
at some time. -/
theorem resumes_end {scan last : Scan Key Value Class} {steps : List (ScanStep Key Value Class)}
    (consistent : scan.index.Consistent) (run : Run Steps scan steps last)
    (quiet : ∀ step ∈ steps, step.publishes = false)
    (often : scan.ahead.length < steps.countP ScanStep.resumes) :
    ∃ limit, ScanStep.resume limit [] ∈ steps := by
  have bound := (run.guarded (fun step => step.publishes = false) quiet).countP_le
    (fun scan => scan.index.Consistent) (fun scan => scan.ahead.length) ScanStep.advances
    (fun scan step next consistent taken => by
      cases taken.1 with
      | call performed => exact (consistent.performs performed).1
      | resume => exact consistent)
    (fun scan step next consistent taken => ahead_steps consistent taken.1 taken.2) consistent
  by_contra never
  have fewer : steps.countP ScanStep.resumes ≤ steps.countP ScanStep.advances := by
    refine countP_mono_left fun step member resumes => ?_
    cases step with
    | call => cases resumes
    | resume limit found =>
      cases found with
      | nil => exact absurd ⟨limit, member⟩ never
      | cons => rfl
  omega

end Scan

/-! ### Victim scans -/

/-- The entries a selection offers to the scorer. -/
def offered (index : PageIndex Key Value Class) (budget : Nat) : List (Nat × Key) :=
  (index.order.wrapped index.victimCursor).take budget

/-- A selection: the scorer, what it was offered and the victim. -/
structure Selection (Key Value : Type*) where
  score : Key → Value → Option Nat
  offered : List (Nat × Key)
  victim : Option Key

/-- A selection with a budget, as a step that changes the index's cursor only. -/
def SelectsIf (budget : Nat) (index : PageIndex Key Value Class)
    (selection : Selection Key Value) (next : PageIndex Key Value Class) : Prop :=
  selection.offered = index.offered budget ∧
    index.victimIf budget selection.score = some (selection.victim, next)

/-- The victim has the lowest score and age among those that were offered; there is none where
every one of them is vetoed. -/
def Selection.PicksLowest (pages : Table Key Value) (selection : Selection Key Value) : Prop :=
  match selection.victim with
  | none => ∀ entry ∈ selection.offered, ∀ value, pages.lookup entry.2 = some value →
      selection.score entry.2 value = none
  | some key => ∃ age value least, (age, key) ∈ selection.offered ∧
      pages.lookup key = some value ∧ selection.score key value = some least ∧
      ∀ entry ∈ selection.offered, ∀ other found, pages.lookup entry.2 = some other →
        selection.score entry.2 other = some found → least < found ∨ least = found ∧ age ≤ entry.1

/-- There are as many entries in the order as mappings. -/
theorem Consistent.order_length (consistent : index.Consistent) :
    index.order.entries.length = index.len := by
  have distinct := keys_nodup index.order.sorted fun entry =>
    (consistent.ordered entry.1 entry.2).mp
  have perm : (index.order.entries.map (·.2)).Perm index.pages.keys := by
    refine (perm_ext_iff_of_nodup distinct index.pages.nodupKeys).mpr fun key => ?_
    rw [List.mem_map, ← AList.keys, ← AList.mem_keys, ← AList.lookup_isSome, consistent.paged]
    constructor
    · rintro ⟨entry, member, rfl⟩
      obtain ⟨_, _, placed⟩ := (consistent.ordered entry.1 entry.2).mp member
      rw [placed]
      rfl
    · intro placed
      obtain ⟨⟨age, segment, group⟩, placed⟩ := isSome_iff_exists.mp placed
      exact ⟨(age, key), (consistent.ordered age key).mpr ⟨segment, group, placed⟩, rfl⟩
  have lengths := perm.length_eq
  rw [length_map] at lengths
  rw [lengths, len, size, AList.keys, keys, length_map]

variable {selection : Selection Key Value}

/-- A selection moves the cursor to the last entry it offers and picks the lowest of them. -/
theorem Consistent.selectsIf (consistent : index.Consistent)
    (selects : index.SelectsIf budget selection next) :
    next = { index with
      victimCursor := ((index.offered budget).getLast?.map (·.1)).getD index.victimCursor } ∧
    selection.PicksLowest index.pages := by
  obtain ⟨offers, picked⟩ := selects
  obtain ⟨best, scanned, lowest⟩ := scan_lowest (fun entry member => by
      obtain ⟨_, _, placed⟩ := (consistent.ordered entry.1 entry.2).mp member
      exact scoreOf_isSome consistent selection.score placed) index.victimCursor budget
  rw [PageIndex.victimIf, scanned] at picked
  obtain ⟨victim, rfl⟩ := Prod.mk.inj (some.inj picked)
  refine ⟨rfl, ?_⟩
  rw [Selection.PicksLowest, ← victim, offers]
  cases best with
  | none =>
    intro entry member value found
    have vetoed : (index.pages.lookup entry.2).map (selection.score entry.2) = some none :=
      lowest entry member
    rw [found] at vetoed
    exact some.inj vetoed
  | some found =>
    obtain ⟨member, scored, least⟩ := lowest
    obtain ⟨value, paged, scored⟩ := map_eq_some_iff.mp scored
    refine ⟨found.2.1, value, found.1, member, paged, scored,
      fun entry here other score page is => ?_⟩
    refine least entry here score ?_
    rw [scoreOf, page]
    exact congrArg some is

/-- What selections have left to offer: the first part of the next visit, shorter by the budget
with every selection, while all the others were offered before. -/
def Pending (budget : Nat) (began : PageIndex Key Value Class)
    (selections : List (Selection Key Value)) (index : PageIndex Key Value Class) : Prop :=
  index = { began with victimCursor := index.victimCursor } ∧
    (∀ selection ∈ selections, selection.PicksLowest began.pages) ∧
    ∃ pending done, index.order.wrapped index.victimCursor = pending ++ done ∧
      pending.length ≤ began.len - selections.length * budget ∧
      ∀ entry ∈ done, ∃ selection ∈ selections, entry ∈ selection.offered

variable {selections : List (Selection Key Value)}

theorem Pending.selects {began : PageIndex Key Value Class} (consistent : index.Consistent)
    (pending : Pending budget began selections index)
    (selects : index.SelectsIf budget selection next) :
    Pending budget began (selections ++ [selection]) next := by
  obtain ⟨same, lowest, pending, done, visit, _, met⟩ := pending
  obtain ⟨rfl, picks⟩ := consistent.selectsIf selects
  have pages : index.pages = began.pages := by rw [same]
  refine ⟨by rw [same], forall_mem_snoc lowest (pages ▸ picks), pending.drop budget,
    done.drop (budget - pending.length) ++ index.offered budget, ?_, ?_, fun entry member => ?_⟩
  · -- What is offered now goes to the end of the next visit.
    rw [← append_assoc, ← drop_append, ← visit]
    exact index.order.wrapped_continue (take_append_drop budget _).symm
  · rw [length_drop, length_append, length_singleton, Nat.add_mul]
    omega
  · rcases mem_append.mp member with early | last
    · obtain ⟨other, there, offers⟩ := met entry (mem_of_mem_drop early)
      exact ⟨other, mem_append_left _ there, offers⟩
    · exact ⟨selection, mem_append_right _ mem_cons_self, selects.1 ▸ last⟩

/-- Selections that are as many as budgets fill the mappings offer every one of them. -/
theorem selections_cover {last : PageIndex Key Value Class} (consistent : index.Consistent)
    (run : Run (SelectsIf budget) index selections last) :
    (∀ selection ∈ selections, selection.PicksLowest index.pages) ∧
      (index.len ≤ selections.length * budget →
        ∀ entry ∈ index.order.entries, ∃ selection ∈ selections, entry ∈ selection.offered) := by
  have pending : last.Consistent ∧ Pending budget index selections last := by
    refine run.history (fun selections last => last.Consistent ∧
      Pending budget index selections last) ?_
      ⟨consistent, rfl, nofun, index.order.wrapped index.victimCursor, [],
        (append_nil _).symm, ?_, nofun⟩
    · rintro _ _ selection _ ⟨consistent, pending⟩ selects
      refine ⟨?_, pending.selects consistent selects⟩
      obtain ⟨_, _, picked, picks⟩ := consistent.victimIf budget selection.score
      have same := selects.2
      rw [picked] at same
      cases same
      exact picks.consistent
    · rw [length_nil, Nat.zero_mul, ← consistent.order_length]
      exact Nat.le_of_eq (index.order.wrapped_length _)
  obtain ⟨-, same, lowest, pending, _, visit, _, met⟩ := pending
  refine ⟨lowest, fun enough entry member => met entry ?_⟩
  have order : last.order = index.order := by rw [same]
  have empty : pending = [] := length_eq_zero_iff.mp (by omega)
  rw [empty, nil_append, order] at visit
  rw [← visit]
  exact OrderedMap.mem_wrapped.mpr member

/-! ### Coverage -/

/-- Resumable scans: a checkpoint scan with any calls in between meets publications in the order
of their ages, so none of them twice; when it finds nothing more, it has met every mapping that
stayed in place exactly once, and without publications that happens after no more resumptions
than mappings are ahead. As many selections as budgets fill the mappings offer every mapping to
the scorer, and each of them picks the lowest score and age among those it visits. -/
theorem resumable_scans {labels : List (Call Key Value Class × Reply Key Value)}
    (run : Run Performs {} labels index) :
    (∀ start steps scan, Run Scan.Steps ⟨index, start, []⟩ steps scan →
      (scan.visited.map (·.1)).Pairwise (· < ·) ∧
      (∀ limit, 1 ≤ limit → scan.index.after scan.cursor limit = some [] →
        ∀ key place, index.ages.lookup key = some place → start < place.1 →
          scan.index.ages.lookup key = some place →
          ∃ value, scan.index.pages.lookup key = some value ∧
            scan.visited.filter (fun visit => visit.2.1 = key) = [(place.1, key, value)]) ∧
      ∀ more last, Run Scan.Steps scan more last → (∀ step ∈ more, step.publishes = false) →
        scan.ahead.length < more.countP ScanStep.resumes →
        ∃ limit, ScanStep.resume limit [] ∈ more) ∧
    ∀ budget selections last, 1 ≤ budget → Run (SelectsIf budget) index selections last →
      (∀ selection ∈ selections, selection.PicksLowest index.pages) ∧
      ((index.len + budget - 1) / budget ≤ selections.length →
        ∀ key, (index.pages.lookup key).isSome →
          ∃ selection ∈ selections, ∃ age, (age, key) ∈ selection.offered) := by
  have consistent := consistent_run run
  refine ⟨fun start steps scan scanned => ?_, fun budget selections last positive selects => ?_⟩
  · have covers : scan.Covers start index := scanned.invariant (Scan.Covers start index)
      (fun _ _ _ covers steps => covers.steps steps) (.start consistent start)
    refine ⟨pairwise_map.mpr covers.ascending,
      fun limit positive finished key place began behind placed =>
        covers.finished positive finished (consistent.aged key place began).2 behind placed,
      fun more last further quiet often => Scan.resumes_end covers.consistent further quiet often⟩
  · obtain ⟨lowest, offers⟩ := selections_cover consistent selects
    refine ⟨lowest, fun enough key live => ?_⟩
    obtain ⟨_, found⟩ := isSome_iff_exists.mp live
    obtain ⟨age, segment, group, placed⟩ := consistent.place_of_page found
    have filled : index.len ≤ selections.length * budget := by
      have := Nat.div_lt_iff_lt_mul (show 0 < budget by omega) |>.mp
        (Nat.lt_succ_of_le enough)
      rw [Nat.succ_mul] at this
      omega
    obtain ⟨selection, member, offered⟩ := offers filled (age, key)
      ((consistent.ordered age key).mpr ⟨segment, group, placed⟩)
    exact ⟨selection, member, age, offered⟩

/-- Two bounded scans from the start copy each of the two pages once; two bounded selections that
score every page alike offer the first of them. -/
theorem resumable_scans_twoPages :
    (∃ value, twoPages.pages.lookup 1 = some value ∧
      ([(1, 1, 10), (2, 2, 20)] : List (Nat × Nat × Nat)).filter (fun visit => visit.2.1 = 1) =
        [(1, 1, value)]) ∧
    ∃ selection ∈ [(⟨fun _ _ => some 0, [(1, 1)], some 1⟩ : Selection Nat Nat),
      ⟨fun _ _ => some 0, [(2, 2)], some 2⟩], ∃ age, (age, 1) ∈ selection.offered :=
  ⟨((resumable_scans twoPages_run).1 0 [.resume 1 [(1, 1, 10)], .resume 1 [(2, 2, 20)]]
      ⟨twoPages, 2, [(1, 1, 10), (2, 2, 20)]⟩
      (.snoc (.snoc (.nil _) (.resume (Nat.le_refl 1) rfl)) (.resume (Nat.le_refl 1) rfl))).2.1
    1 (Nat.le_refl 1) rfl 1 (1, 7, 0) rfl Nat.one_pos rfl,
    ((resumable_scans twoPages_run).2 1 _ _ (Nat.le_refl 1)
      (.snoc (.snoc (.nil _) ⟨rfl, rfl⟩) ⟨rfl, rfl⟩)).2 (by decide) 1 rfl⟩

end PageIndex

end Unbounded.Alloc
