/-
This file models the index of published pages. Five maps describe one set of
mappings: the pages themselves, the mappings of each segment, of each group and of
all of them by age, and the age, segment and group of each page. A publication gets
a fresh age, so the maps by age are in publication order.

Victims are picked among a bounded number of mappings behind a cursor, by the score
a caller gives them; a mapping without a score is never picked. A lookup that the
code takes for granted returns `none` where it would panic. The maps agree in every
state, so it never does.
-/

import Unbounded.ListUpdate
import Unbounded.OrderedMap
import Unbounded.Table
import Unbounded.Word

namespace Unbounded.Alloc

open Table List Word ListUpdate

/-! ### The maps -/

/-- Mappings of one group in age order, with a group-local victim cursor. -/
structure Group (Key : Type*) where
  order : OrderedMap Key := .empty
  cursor : Nat := 0

/-- Exact page mappings with independent checkpoint and bounded victim cursors. -/
structure PageIndex (Key Value Class : Type*) where
  pages : Table Key Value := ∅
  /-- The mappings of each segment. -/
  reverse : Table Nat (OrderedMap Key) := ∅
  order : OrderedMap Key := .empty
  /-- The age, the segment and the group of each mapping. -/
  ages : Table Key (Nat × Nat × Class) := ∅
  groups : Table Class (Group Key) := ∅
  nextAge : Nat := 0
  victimCursor : Nat := 0

/-! ### Bounded scans -/

section Scan

variable {Key : Type*} (best : Option (Nat × Nat × Key))

/-- The better of two candidates: the lower score, then the lower age. -/
def better (found : Nat × Nat × Key) : Option (Nat × Nat × Key) :=
  match best with
  | none => some found
  | some held =>
    if found.1 < held.1 ∨ found.1 = held.1 ∧ found.2.1 < held.2.1 then some found else some held

/-- Consider an entry for the score it was given. -/
def consider (entry : Nat × Key) :
    Option Nat → Option (Nat × Nat × Key)
  | none => best
  | some value => better best (value, entry.1, entry.2)

/-- Consider what another scan has found. -/
def considerFound :
    Option (Nat × Nat × Key) → Option (Nat × Nat × Key)
  | none => best
  | some found => better best found

/-- Visit one entry of a scan. -/
def scanStep (score : Key → Option (Option Nat)) (best : Option (Nat × Nat × Key))
    (entry : Nat × Key) : Option (Option (Nat × Nat × Key)) :=
  (score entry.2).map (consider best entry)

/-- Scan at most `budget` entries after `cursor`, wrapping once. Return the lowest score and age,
and the cursor past every visited entry. -/
def scan (order : OrderedMap Key) (cursor budget : Nat) (score : Key → Option (Option Nat)) :
    Option (Option (Nat × Nat × Key) × Nat) :=
  let visited := (order.wrapped cursor).take budget
  (visited.foldlM (scanStep score) none).map fun best =>
    (best, (visited.getLast?.map (·.1)).getD cursor)

/-- A candidate is one of the entries, with the score it was given. -/
def Candidate (order : OrderedMap Key) (score : Key → Option (Option Nat))
    (best : Option (Nat × Nat × Key)) : Prop :=
  ∀ found, best = some found → found.2 ∈ order.entries ∧ score found.2.2 = some (some found.1)

variable {best}

theorem better_eq_some {found picked : Nat × Nat × Key} (chosen : better best found = some picked) :
    picked = found ∨ best = some picked := by
  unfold better at chosen
  cases best with
  | none => exact .inl (Option.some.inj chosen).symm
  | some =>
    dsimp only at chosen
    split at chosen
    · exact .inl (Option.some.inj chosen).symm
    · exact .inr chosen

/-- The candidate has the lowest score and age among the visited entries; there is none where
every one of them is vetoed. -/
def Lowest (score : Key → Option (Option Nat)) (visited : List (Nat × Key)) :
    Option (Nat × Nat × Key) → Prop
  | none => ∀ entry ∈ visited, score entry.2 = some none
  | some found => found.2 ∈ visited ∧ score found.2.2 = some (some found.1) ∧
      ∀ entry ∈ visited, ∀ value, score entry.2 = some (some value) →
        found.1 < value ∨ found.1 = value ∧ found.2.1 ≤ entry.1

variable {score : Key → Option (Option Nat)}

theorem Lowest.consider {visited : List (Nat × Key)} (lowest : Lowest score visited best)
    {entry : Nat × Key} {value : Option Nat} (answered : score entry.2 = some value) :
    Lowest score (visited ++ [entry]) (consider best entry value) := by
  cases value with
  | none =>
    -- A vetoed entry is not compared with anything.
    cases best with
    | none => exact forall_mem_snoc lowest answered
    | some =>
      refine ⟨mem_append_left _ lowest.1, lowest.2.1,
        forall_mem_snoc lowest.2.2 fun value scored => ?_⟩
      rw [answered] at scored
      cases scored
  | some value =>
    cases best with
    | none =>
      refine ⟨mem_concat_self, answered, forall_mem_snoc (fun other early found scored => ?_)
        fun found scored => ?_⟩
      · rw [lowest other early] at scored
        cases scored
      · rw [answered] at scored
        cases scored
        exact .inr ⟨rfl, Nat.le_refl _⟩
    | some held =>
      obtain ⟨member, heldScore, least⟩ := lowest
      by_cases lower : value < held.1 ∨ value = held.1 ∧ entry.1 < held.2.1
      · have taken : Alloc.consider (some held) entry (some value) =
            some (value, entry.1, entry.2) := if_pos lower
        rw [taken]
        refine ⟨mem_concat_self, answered, forall_mem_snoc (fun other early found scored => ?_)
          fun found scored => ?_⟩
        · have := least other early found scored
          dsimp only
          omega
        · rw [answered] at scored
          cases scored
          exact .inr ⟨rfl, Nat.le_refl _⟩
      · have kept : Alloc.consider (some held) entry (some value) = some held := if_neg lower
        rw [kept]
        refine ⟨mem_append_left _ member, heldScore, forall_mem_snoc least fun found scored => ?_⟩
        rw [answered] at scored
        cases scored
        omega

section

variable {order : OrderedMap Key} (answers : ∀ entry ∈ order.entries, (score entry.2).isSome)
  (cursor budget : Nat)

include answers cursor budget

/-- Where every entry has an answer a scan succeeds, returns the lowest of what it visits and
moves the cursor to the last of them. -/
theorem scan_lowest : ∃ best, scan order cursor budget score =
        some (best, (((order.wrapped cursor).take budget).getLast?.map (·.1)).getD cursor) ∧
      Lowest score ((order.wrapped cursor).take budget) best := by
  have folds : ∀ (visited seen : List (Nat × Key)) (best : Option (Nat × Nat × Key)),
      (∀ entry ∈ visited, entry ∈ order.entries) → Lowest score seen best →
      ∃ after, visited.foldlM (scanStep score) best = some after ∧
        Lowest score (seen ++ visited) after := by
    intro visited
    induction visited with
    | nil =>
      intro seen best _ lowest
      exact ⟨best, rfl, by rwa [append_nil]⟩
    | cons entry _ ih =>
      intro seen best members lowest
      obtain ⟨value, answered⟩ :=
        Option.isSome_iff_exists.mp (answers entry (members entry mem_cons_self))
      have step : scanStep score best entry = some (consider best entry value) := by
        rw [scanStep, answered]
        rfl
      obtain ⟨after, folded, lowest⟩ := ih (seen ++ [entry]) _
        (fun other here => members other (mem_cons_of_mem _ here)) (lowest.consider answered)
      refine ⟨after, ?_, by rwa [append_assoc] at lowest⟩
      rw [foldlM_cons, step]
      exact folded
  obtain ⟨best, folded, lowest⟩ := folds ((order.wrapped cursor).take budget) [] none
    (fun entry member => OrderedMap.mem_wrapped.mp (mem_of_mem_take member))
    nofun
  exact ⟨best, by rw [scan, folded]; rfl, lowest⟩

theorem scan_spec : ∃ best next, scan order cursor budget score = some (best, next) ∧
      Candidate order score best := by
  obtain ⟨best, scanned, lowest⟩ := scan_lowest answers cursor budget
  refine ⟨best, _, scanned, fun found chosen => ?_⟩
  subst chosen
  exact ⟨OrderedMap.mem_wrapped.mp (mem_of_mem_take lowest.1), lowest.2.1⟩

end

end Scan

/-! ### Buckets -/

section Buckets

variable {Key Bucket Content : Type*} [DecidableEq Bucket]

/-- Store what is left of a bucket, or remove it once it is empty. -/
def settle (table : Table Bucket Content) (bucket : Bucket) (left : Content) (emptied : Bool) :
    Table Bucket Content :=
  if emptied then table.erase bucket else table.insert bucket left

theorem lookup_settle (table : Table Bucket Content) (bucket other : Bucket) (left : Content)
    (emptied : Bool) :
    (settle table bucket left emptied).lookup other =
      if other = bucket then if emptied then none else some left else table.lookup other := by
  cases emptied with
  | true => exact lookup_erase_eq table bucket other
  | false => exact lookup_insert_eq table bucket other left

variable {orderOf : Content → OrderedMap Key} {table : Table Bucket Content} {bucket : Bucket}
  {content left : Content} {age : Nat}

/-- A bucket that settles without an entry has all the others. -/
theorem mem_settle (found : table.lookup bucket = some content)
    (rest : orderOf left = (orderOf content).erase age) {other : Bucket} {entry : Nat × Key} :
    (∃ here, (settle table bucket left (orderOf left).isEmpty).lookup other = some here ∧
      entry ∈ (orderOf here).entries) ↔
    (∃ here, table.lookup other = some here ∧ entry ∈ (orderOf here).entries) ∧
      ¬ (other = bucket ∧ entry.1 = age) := by
  rw [lookup_settle]
  by_cases same : other = bucket
  · subst same
    simp only [if_true, found, Option.some.injEq, exists_eq_left', true_and]
    have member : entry ∈ (orderOf left).entries ↔
        entry ∈ (orderOf content).entries ∧ entry.1 ≠ age := by
      rw [rest, OrderedMap.mem_erase]
    rw [← member]
    split
    · rename_i emptied
      exact iff_of_false (fun ⟨_, absent, _⟩ => (nomatch absent))
        (OrderedMap.isEmpty_iff.mp emptied entry)
    · simp only [Option.some.injEq, exists_eq_left']
  · rw [if_neg same]
    simp only [same, false_and, not_false_iff, and_true]

/-- No bucket that is left is empty. -/
theorem settle_nonempty
    (nonempty : ∀ other here, table.lookup other = some here → (orderOf here).isEmpty = false)
    {other : Bucket} {here : Content}
    (found : (settle table bucket left (orderOf left).isEmpty).lookup other = some here) :
    (orderOf here).isEmpty = false := by
  rw [lookup_settle] at found
  split at found
  · split at found
    · cases found
    rename_i rest
    cases found
    exact Bool.not_eq_true _ ▸ rest
  · exact nonempty other here found

variable {key : Key}

/-- A bucket that an entry with a fresh key joins has it and all the others. -/
theorem mem_join (fresh : ∀ here, table.lookup bucket = some here →
      ∀ entry ∈ (orderOf here).entries, entry.1 ≠ age)
    (joined : orderOf content = (((table.lookup bucket).map orderOf).getD .empty).insert age key)
    {other : Bucket} {entry : Nat × Key} :
    (∃ here, (table.insert bucket content).lookup other = some here ∧
      entry ∈ (orderOf here).entries) ↔
    (other = bucket ∧ entry = (age, key)) ∨
      ∃ here, table.lookup other = some here ∧ entry ∈ (orderOf here).entries := by
  rw [lookup_insert_eq]
  by_cases same : other = bucket
  · subst same
    simp only [if_true, Option.some.injEq, exists_eq_left', true_and, joined, OrderedMap.mem_insert]
    refine or_congr_right ?_
    cases found : table.lookup other with
    | none =>
      refine iff_of_false (fun member => absurd member.1 not_mem_nil) ?_
      rintro ⟨_, absent, -⟩
      cases absent
    | some here =>
      simp only [Option.map_some, Option.getD_some, Option.some.injEq, exists_eq_left']
      exact and_iff_left_of_imp (fresh here found entry)
  · rw [if_neg same]
    simp only [same, false_and, false_or]

end Buckets

namespace PageIndex

variable {Key Value Class : Type*} [DecidableEq Key] [DecidableEq Class]

section Operations

variable (index : PageIndex Key Value Class)

/-- Number of live mappings. -/
def len : Nat := index.pages.size

/-- Check age exhaustion before the caller changes residency or other metadata. -/
def canPublish : Bool := index.nextAge < 2 ^ 64 - 1

/-- Take a mapping out of the order of its group; a group without mappings is removed. -/
def leaveGroup (group : Class) (members : Group Key) (age : Nat) : Table Class (Group Key) :=
  let order := members.order.erase age
  settle index.groups group { members with order } order.isEmpty

/-- Take a mapping out of those of its segment; a segment without mappings is removed. -/
def leaveSegment (segment : Nat) (pages : OrderedMap Key) (age : Nat) :
    Table Nat (OrderedMap Key) :=
  settle index.reverse segment (pages.erase age) (pages.erase age).isEmpty

/-- Remove the mapping and all reverse and order state together. -/
def remove (key : Key) : Option (Option Value × PageIndex Key Value Class) :=
  match index.pages.lookup key with
  | none => some (none, index)
  | some old =>
    (index.ages.lookup key).bind fun place =>
      (index.groups.lookup place.2.2).bind fun members =>
        (index.reverse.lookup place.2.1).map fun pages =>
          (some old, { index with
            pages := index.pages.erase key
            ages := index.ages.erase key
            order := index.order.erase place.1
            groups := index.leaveGroup place.2.2 members place.1
            reverse := index.leaveSegment place.2.1 pages place.1 })

/-- Put a mapping in all the maps under a fresh age. -/
def put (key : Key) (value : Value) (segment : Nat) (group : Class) (age : Nat) :
    PageIndex Key Value Class :=
  let members := (index.groups.lookup group).getD {}
  { index with
    nextAge := age
    reverse := index.reverse.insert segment
      (((index.reverse.lookup segment).getD .empty).insert age key)
    order := index.order.insert age key
    groups := index.groups.insert group { members with order := members.order.insert age key }
    ages := index.ages.insert key (age, segment, group)
    pages := index.pages.insert key value }

/-- Publish a mapping in a group with a fresh age. There is nothing once ages are exhausted. -/
def insertIn (key : Key) (value : Value) (segment : Nat) (group : Class) :
    Option (Option (Option Value × PageIndex Key Value Class)) :=
  if index.nextAge + 1 < 2 ^ 64 then
    (index.remove key).map fun removed =>
      some (removed.1, removed.2.put key value segment group (index.nextAge + 1))
  else some none

/-- Resume a monotonic checkpoint scan, unaffected by victim selection. -/
def after (cursor limit : Nat) : Option (List (Nat × Key × Value)) :=
  ((index.order.after cursor).take limit).mapM fun entry =>
    (index.pages.lookup entry.2).map fun value => (entry.1, entry.2, value)

/-- The score of a mapping that is taken to be there. -/
def scoreOf (score : Key → Value → Option Nat) (key : Key) : Option (Option Nat) :=
  (index.pages.lookup key).map (score key)

/-- Select low value, then oldest age, among at most `budget` candidates. A missing score is a
hard veto. -/
def victimIf (budget : Nat) (score : Key → Value → Option Nat) :
    Option (Option Key × PageIndex Key Value Class) :=
  (scan index.order index.victimCursor budget (index.scoreOf score)).map fun result =>
    (result.1.map (·.2.2), { index with victimCursor := result.2 })

/-- Select low value, then oldest age, among at most `budget` candidates. -/
def victim (budget : Nat) (score : Key → Value → Nat) :
    Option (Option Key × PageIndex Key Value Class) :=
  index.victimIf budget fun key value => some (score key value)

/-- Scan one listed group, using its own cursor. -/
def scanGroup (budget : Nat) (score : Key → Value → Option Nat)
    (state : Option (Nat × Nat × Key) × PageIndex Key Value Class) (group : Class) :
    Option (Option (Nat × Nat × Key) × PageIndex Key Value Class) :=
  match state.2.groups.lookup group with
  | none => some state
  | some members =>
    (scan members.order members.cursor budget (state.2.scoreOf score)).map fun result =>
      (considerFound state.1 result.1,
        { state.2 with groups := state.2.groups.insert group { members with cursor := result.2 } })

/-- Like `victimIf`, but visit only the listed groups, at most `budget` candidates each. -/
def victimInGroups (groups : List Class) (budget : Nat) (score : Key → Value → Option Nat) :
    Option (Option Key × PageIndex Key Value Class) :=
  (groups.foldlM (scanGroup budget score) (none, index)).map fun result =>
    (result.1.map (·.2.2), result.2)

/-- Visit only a bounded number of one segment's mappings. -/
def segment (segment budget : Nat) : Option (List (Key × Value)) :=
  ((((index.reverse.lookup segment).map (·.entries)).getD []).take budget).mapM fun entry =>
    (index.pages.lookup entry.2).map fun value => (entry.2, value)

/-- Whether no mapping still points into the segment. -/
def segmentEmpty (segment : Nat) : Bool := (index.reverse.lookup segment).isNone

/-- Sum the scores of a bounded number of one segment's mappings and conservatively charge the
unseen ones. -/
def segmentScore (segment budget unseenValue : Nat) (score : Key → Value → Nat) : Option Nat :=
  let count := ((index.reverse.lookup segment).map (·.entries.length)).getD 0
  (index.segment segment budget).map fun seen =>
    let known := seen.foldl (fun sum entry => saturatingAdd 64 sum (score entry.1 entry.2)) 0
    saturatingAdd 64 known (saturatingMul 64 (count - budget) unseenValue)

end Operations

/-! ### Consistency -/

/-- The maps describe the same set of mappings. -/
structure Consistent (index : PageIndex Key Value Class) : Prop where
  paged : ∀ key, (index.pages.lookup key).isSome = (index.ages.lookup key).isSome
  ordered : ∀ age key, (age, key) ∈ index.order.entries ↔
    ∃ segment group, index.ages.lookup key = some (age, segment, group)
  reversed : ∀ segment age key,
    (∃ pages, index.reverse.lookup segment = some pages ∧ (age, key) ∈ pages.entries) ↔
      ∃ group, index.ages.lookup key = some (age, segment, group)
  grouped : ∀ group age key,
    (∃ members, index.groups.lookup group = some members ∧ (age, key) ∈ members.order.entries) ↔
      ∃ segment, index.ages.lookup key = some (age, segment, group)
  occupied : ∀ segment pages, index.reverse.lookup segment = some pages → pages.isEmpty = false
  populated : ∀ group members, index.groups.lookup group = some members →
    members.order.isEmpty = false
  aged : ∀ key place, index.ages.lookup key = some place → 1 ≤ place.1 ∧ place.1 ≤ index.nextAge

theorem consistent_empty : Consistent ({} : PageIndex Key Value Class) where
  paged _ := rfl
  ordered _ _ := ⟨nofun, fun ⟨_, _, absent⟩ => (nomatch absent)⟩
  reversed _ _ _ := ⟨fun ⟨_, absent, _⟩ => (nomatch absent), fun ⟨_, absent⟩ => (nomatch absent)⟩
  grouped _ _ _ := ⟨fun ⟨_, absent, _⟩ => (nomatch absent), fun ⟨_, absent⟩ => (nomatch absent)⟩
  occupied _ _ absent := nomatch absent
  populated _ _ absent := nomatch absent
  aged _ _ absent := nomatch absent

variable {index : PageIndex Key Value Class} {key : Key}

namespace Consistent

section

variable (consistent : index.Consistent)

include consistent

theorem place_of_page {value : Value} (found : index.pages.lookup key = some value) :
    ∃ age segment group, index.ages.lookup key = some (age, segment, group) := by
  have same := consistent.paged key
  rw [found] at same
  obtain ⟨⟨age, segment, group⟩, placed⟩ := Option.isSome_iff_exists.mp same.symm
  exact ⟨age, segment, group, placed⟩

theorem page_of_place {place : Nat × Nat × Class} (placed : index.ages.lookup key = some place) :
    ∃ value, index.pages.lookup key = some value := by
  have same := consistent.paged key
  rw [placed] at same
  exact Option.isSome_iff_exists.mp same

/-- Ages are not shared. -/
theorem key_of_age {first second : Key} {one two : Nat × Nat × Class}
    (left : index.ages.lookup first = some one) (right : index.ages.lookup second = some two)
    (same : one.1 = two.1) : first = second := by
  obtain ⟨age, segment, group⟩ := one
  obtain ⟨other, segment', group'⟩ := two
  obtain rfl : age = other := same
  have entries := index.order.entry_unique
    ((consistent.ordered age first).mpr ⟨segment, group, left⟩)
    ((consistent.ordered age second).mpr ⟨segment', group', right⟩) rfl
  exact (Prod.mk.inj entries).2

theorem unplaced (absent : index.pages.lookup key = none) : index.ages.lookup key = none := by
  cases placed : index.ages.lookup key with
  | none => rfl
  | some =>
    obtain ⟨_, found⟩ := consistent.page_of_place placed
    rw [absent] at found
    cases found

end

end Consistent

/-! ### Removal -/

section

variable (consistent : index.Consistent)

include consistent

/-- A removal succeeds and takes the page out of every map. -/
theorem Consistent.remove (key : Key) :
    ∃ next, index.remove key = some (index.pages.lookup key, next) ∧ next.Consistent ∧
      next.pages = index.pages.erase key ∧ next.ages = index.ages.erase key ∧
      next.nextAge = index.nextAge := by
  cases found : index.pages.lookup key with
  | none =>
    exact ⟨index, by rw [PageIndex.remove, found], consistent, (erase_eq_self found).symm,
      (erase_eq_self (consistent.unplaced found)).symm, rfl⟩
  | some old =>
    obtain ⟨age, segment, group, placed⟩ := consistent.place_of_page found
    obtain ⟨members, membered, -⟩ := (consistent.grouped group age key).mpr ⟨segment, placed⟩
    obtain ⟨pages, reversed, -⟩ := (consistent.reversed segment age key).mpr ⟨group, placed⟩
    -- Among the placed pages the removed one is told by its age alone.
    have only : ∀ other place, index.ages.lookup other = some place →
        (other = key ↔ place.1 = age) := fun other place here =>
      ⟨fun same => by
        subst same
        rw [placed] at here
        cases here
        rfl, consistent.key_of_age here placed⟩
    have kept (page : Key) (place : Nat × Nat × Class) :
        (index.ages.erase key).lookup page = some place ↔
          index.ages.lookup page = some place ∧ place.1 ≠ age := by
      rw [lookup_erase_some, and_comm]
      exact and_congr_right fun here => not_congr (only page place here)
    have removed : index.remove key = some (some old, { index with
        pages := index.pages.erase key
        ages := index.ages.erase key
        order := index.order.erase age
        groups := index.leaveGroup group members age
        reverse := index.leaveSegment segment pages age }) := by
      simp only [PageIndex.remove, found, placed, Option.bind_some, membered, reversed,
        Option.map_some]
    refine ⟨_, removed, ⟨fun other => ?_, fun other page => ?_, fun other at_ page => ?_,
        fun other at_ page => ?_, fun _ _ => settle_nonempty consistent.occupied,
        fun _ _ => settle_nonempty consistent.populated, fun other place here => ?_⟩,
      rfl, rfl, rfl⟩
    · rw [lookup_erase_eq, lookup_erase_eq]
      split
      · rfl
      · exact consistent.paged other
    · rw [OrderedMap.mem_erase, consistent.ordered]
      simp only [kept, exists_and_right]
    · refine (@mem_settle Key Nat (OrderedMap Key) _ id _ _ _ _ _ reversed rfl other _).trans
        ((and_congr_left' (consistent.reversed other at_ page)).trans ?_)
      simp only [kept, exists_and_right]
      refine and_congr_right fun ⟨group, here⟩ => not_congr ⟨And.right, fun same => ⟨?_, same⟩⟩
      obtain rfl := (only page _ here).mpr same
      cases Option.mem_unique placed here
      rfl
    · refine (@mem_settle Key Class (Group Key) _ Group.order _ _ _ _ _ membered rfl other _).trans
        ((and_congr_left' (consistent.grouped other at_ page)).trans ?_)
      simp only [kept, exists_and_right]
      refine and_congr_right fun ⟨segment, here⟩ => not_congr ⟨And.right, fun same => ⟨?_, same⟩⟩
      obtain rfl := (only page _ here).mpr same
      cases Option.mem_unique placed here
      rfl
    · obtain ⟨-, here⟩ := lookup_erase_some.mp here
      exact consistent.aged other place here

/-! ### Publication -/

/-- A page that is not indexed is put in every map. -/
theorem Consistent.put (absent : index.pages.lookup key = none) (value : Value) (segment : Nat)
    (group : Class) {age : Nat} (fresh : index.nextAge < age) :
    (index.put key value segment group age).Consistent := by
  have unplaced := consistent.unplaced absent
  have older : ∀ other place, index.ages.lookup other = some place → place.1 ≠ age := by
    intro other place here
    have := (consistent.aged other place here).2
    omega
  have place_iff : ∀ (other : Key) (place : Nat × Nat × Class),
      (index.ages.insert key (age, segment, group)).lookup other = some place ↔
        (other = key ∧ place = (age, segment, group)) ∨ index.ages.lookup other = some place := by
    intro other place
    rw [lookup_insert_eq]
    split
    · rename_i same
      subst same
      rw [unplaced]
      simp [eq_comm]
    · rename_i differs
      simp [differs]
  have filled (order : OrderedMap Key) : (order.insert age key).isEmpty = false :=
    Bool.eq_false_iff.mpr fun emptied =>
      OrderedMap.isEmpty_iff.mp emptied (age, key) (OrderedMap.mem_insert.mpr (.inl rfl))
  refine ⟨fun other => ?_, fun at_ page => ?_, fun other at_ page => ?_, fun other at_ page => ?_,
    fun other pages found => ?_, fun other members found => ?_, fun other place here => ?_⟩
  · show ((index.pages.insert key value).lookup other).isSome =
      ((index.ages.insert key (age, segment, group)).lookup other).isSome
    rw [lookup_insert_eq, lookup_insert_eq]
    split
    · rfl
    · exact consistent.paged other
  · show (at_, page) ∈ (index.order.insert age key).entries ↔
      ∃ segment' group', (index.ages.insert key (age, segment, group)).lookup page =
        some (at_, segment', group')
    rw [OrderedMap.mem_insert, consistent.ordered]
    simp only [place_iff, Prod.mk.injEq]
    constructor
    · rintro (⟨rfl, rfl⟩ | ⟨⟨segment', group', here⟩, -⟩)
      · exact ⟨segment, group, .inl ⟨rfl, rfl, rfl, rfl⟩⟩
      · exact ⟨segment', group', .inr here⟩
    · rintro ⟨segment', group', ⟨rfl, rfl, -⟩ | here⟩
      · exact .inl ⟨rfl, rfl⟩
      · exact .inr ⟨⟨segment', group', here⟩, older page _ here⟩
  · have joined := @mem_join Key Nat (OrderedMap Key) _ id index.reverse segment
      (((index.reverse.lookup segment).getD .empty).insert age key) age key
      (fun here found entry member => by
        obtain ⟨group', placed⟩ := (consistent.reversed segment entry.1 entry.2).mp
          ⟨here, found, member⟩
        exact older entry.2 _ placed)
      (by rw [Option.map_id_fun]; rfl) other (at_, page)
    refine joined.trans ?_
    show _ ↔ ∃ group', (index.ages.insert key (age, segment, group)).lookup page =
      some (at_, other, group')
    simp only [place_iff, Prod.mk.injEq, exists_or]
    refine or_congr ⟨?_, ?_⟩ (consistent.reversed other at_ page)
    · rintro ⟨rfl, rfl, rfl⟩
      exact ⟨group, rfl, rfl, rfl, rfl⟩
    · rintro ⟨_, rfl, rfl, rfl, -⟩
      exact ⟨rfl, rfl, rfl⟩
  · have joined := @mem_join Key Class (Group Key) _ Group.order index.groups group
      { (index.groups.lookup group).getD {} with
        order := ((index.groups.lookup group).getD {}).order.insert age key } age key
      (fun here found entry member => by
        obtain ⟨segment', placed⟩ := (consistent.grouped group entry.1 entry.2).mp
          ⟨here, found, member⟩
        exact older entry.2 _ placed)
      (by cases index.groups.lookup group <;> rfl) other (at_, page)
    refine joined.trans ?_
    show _ ↔ ∃ segment', (index.ages.insert key (age, segment, group)).lookup page =
      some (at_, segment', other)
    simp only [place_iff, Prod.mk.injEq, exists_or]
    refine or_congr ⟨?_, ?_⟩ (consistent.grouped other at_ page)
    · rintro ⟨rfl, rfl, rfl⟩
      exact ⟨segment, rfl, rfl, rfl, rfl⟩
    · rintro ⟨_, rfl, rfl, -, rfl⟩
      exact ⟨rfl, rfl, rfl⟩
  · exact forall_insert consistent.occupied (filled _) other pages found
  · exact forall_insert consistent.populated (filled _) other members found
  · show 1 ≤ place.1 ∧ place.1 ≤ age
    rcases (place_iff other place).mp here with ⟨-, rfl⟩ | before
    · exact ⟨by show 1 ≤ age; omega, Nat.le_refl age⟩
    · have bounds := consistent.aged other place before
      omega

/-- A publication succeeds while ages last, and replaces the page's mapping in every map. -/
theorem Consistent.insertIn (ages : index.canPublish = true)
    (key : Key) (value : Value) (segment : Nat) (group : Class) :
    ∃ next, index.insertIn key value segment group =
        some (some (index.pages.lookup key, next)) ∧ next.Consistent ∧
      next.pages = (index.pages.erase key).insert key value ∧
      next.ages = (index.ages.erase key).insert key (index.nextAge + 1, segment, group) ∧
      next.nextAge = index.nextAge + 1 := by
  obtain ⟨left, removed, leftConsistent, pages, places, _⟩ := consistent.remove key
  have room : index.nextAge + 1 < 2 ^ 64 := by
    have := of_decide_eq_true ages
    omega
  refine ⟨left.put key value segment group (index.nextAge + 1), ?_,
    leftConsistent.put ?_ value segment group (by omega), ?_, ?_, rfl⟩
  · rw [PageIndex.insertIn, if_pos room, removed]
    rfl
  · rw [pages, AList.lookup_erase]
  · rw [← pages]
    rfl
  · rw [← places]
    rfl

/-! ### Victims and visits -/

theorem scoreOf_isSome (score : Key → Value → Option Nat) {place : Nat × Nat × Class}
    (placed : index.ages.lookup key = some place) : (index.scoreOf score key).isSome := by
  obtain ⟨_, found⟩ := consistent.page_of_place placed
  rw [scoreOf, found]
  rfl

/-- The victim is an indexed page with a score, and only cursors move. -/
structure Picks (index : PageIndex Key Value Class) (score : Key → Value → Option Nat)
    (victim : Option Key) (next : PageIndex Key Value Class) : Prop where
  consistent : next.Consistent
  pages : next.pages = index.pages
  ages : next.ages = index.ages
  nextAge : next.nextAge = index.nextAge
  scored : ∀ key, victim = some key → ∃ value, index.pages.lookup key = some value ∧
    (score key value).isSome

variable {score : Key → Value → Option Nat}

omit consistent in
omit [DecidableEq Class] in
theorem scored_of_candidate {order : OrderedMap Key} {best : Option (Nat × Nat × Key)}
    (candidate : Candidate order (index.scoreOf score) best) {found : Nat × Nat × Key}
    (chosen : best = some found) :
    ∃ value, index.pages.lookup found.2.2 = some value ∧ (score found.2.2 value).isSome := by
  obtain ⟨value, paged, scored⟩ := Option.map_eq_some_iff.mp (candidate found chosen).2
  exact ⟨value, paged, by rw [scored]; rfl⟩

theorem Consistent.victimIf (budget : Nat) (score : Key → Value → Option Nat) :
    ∃ victim next, index.victimIf budget score = some (victim, next) ∧
      index.Picks score victim next := by
  obtain ⟨best, cursor, scanned, candidate⟩ := scan_spec (fun entry member => by
      obtain ⟨_, _, placed⟩ := (consistent.ordered entry.1 entry.2).mp member
      exact scoreOf_isSome consistent score placed) index.victimCursor budget
  refine ⟨best.map (·.2.2), { index with victimCursor := cursor }, ?_, ?_⟩
  · rw [PageIndex.victimIf, scanned]
    rfl
  · refine ⟨{ consistent with }, rfl, rfl, rfl, ?_⟩
    intro _ chosen
    obtain ⟨_, picked, rfl⟩ := Option.map_eq_some_iff.mp chosen
    exact scored_of_candidate candidate picked

/-- Moving the cursor of a group changes no mapping. -/
theorem Consistent.setCursor {group : Class}
    {members : Group Key} (found : index.groups.lookup group = some members) (cursor : Nat) :
    { index with groups := index.groups.insert group { members with cursor } }.Consistent := by
  refine { consistent with
    grouped := fun other age key => ?_
    populated := forall_insert consistent.populated (consistent.populated group members found) }
  · rw [← consistent.grouped other age key]
    rw [lookup_insert_eq]
    split
    · rename_i same
      subst same
      simp only [found, Option.some.injEq, exists_eq_left']
    · rfl

/-- What the groups scanned so far have left. -/
def Scanned (index : PageIndex Key Value Class) (score : Key → Value → Option Nat)
    (state : Option (Nat × Nat × Key) × PageIndex Key Value Class) : Prop :=
  index.Picks score (state.1.map (·.2.2)) state.2

omit consistent in
theorem Scanned.scanGroup (budget : Nat)
    {state : Option (Nat × Nat × Key) × PageIndex Key Value Class}
    (scanned : index.Scanned score state) (group : Class) :
    ∃ after, PageIndex.scanGroup budget score state group = some after ∧
      index.Scanned score after := by
  obtain ⟨best, here⟩ := state
  obtain ⟨consistent, pages, ages, nextAge, scored⟩ := scanned
  cases found : here.groups.lookup group with
  | none =>
    exact ⟨(best, here), by simp only [PageIndex.scanGroup, found],
      ⟨consistent, pages, ages, nextAge, scored⟩⟩
  | some members =>
    obtain ⟨picked, cursor, scans, candidate⟩ := scan_spec (fun entry member => by
        obtain ⟨_, placed⟩ := (consistent.grouped group entry.1 entry.2).mp
          ⟨members, found, member⟩
        exact scoreOf_isSome consistent score placed) members.cursor budget
    have step : PageIndex.scanGroup budget score (best, here) group =
        some (considerFound best picked,
          { here with groups := here.groups.insert group { members with cursor } }) := by
      simp only [PageIndex.scanGroup, found, scans, Option.map_some]
    refine ⟨_, step, consistent.setCursor found cursor, pages, ages, nextAge, ?_⟩
    intro _ chosen
    obtain ⟨winner, won, rfl⟩ := Option.map_eq_some_iff.mp chosen
    have earlier : best = some winner → ∃ value, index.pages.lookup winner.2.2 = some value ∧
        (score winner.2.2 value).isSome := fun held => scored _ (by rw [held]; rfl)
    cases picked with
    | none => exact earlier won
    | some =>
      rcases better_eq_some won with rfl | before
      · exact pages ▸ scored_of_candidate candidate rfl
      · exact earlier before

theorem Consistent.victimInGroups (groups : List Class)
    (budget : Nat) (score : Key → Value → Option Nat) :
    ∃ victim next, index.victimInGroups groups budget score = some (victim, next) ∧
      index.Picks score victim next := by
  have folds : ∀ (groups : List Class) state, index.Scanned score state →
      ∃ after, groups.foldlM (PageIndex.scanGroup budget score) state = some after ∧
        index.Scanned score after := by
    intro groups
    induction groups with
    | nil => exact fun state scanned => ⟨state, rfl, scanned⟩
    | cons group _ ih =>
      intro state scanned
      obtain ⟨next, step, scanned⟩ := scanned.scanGroup budget group
      obtain ⟨after, folded, scanned⟩ := ih next scanned
      refine ⟨after, ?_, scanned⟩
      rw [foldlM_cons, step]
      exact folded
  obtain ⟨_, folded, scanned⟩ := folds groups (none, index) ⟨consistent, rfl, rfl, rfl, nofun⟩
  exact ⟨_, _, by rw [PageIndex.victimInGroups, folded]; rfl, scanned⟩

omit consistent in
/-- A visit of entries that are indexed reads their pages, in the same order. -/
theorem visit_spec {Visit : Type*} {pages : Table Key Value} (read : Nat × Key → Value → Visit)
    {entries : List (Nat × Key)}
    (indexed : ∀ entry ∈ entries, ∃ value, pages.lookup entry.2 = some value) :
    ∃ visited : List (Nat × Key × Value),
      (entries.mapM fun entry => (pages.lookup entry.2).map (read entry)) =
        some (visited.map fun visit => read (visit.1, visit.2.1) visit.2.2) ∧
      visited.map (fun visit => (visit.1, visit.2.1)) = entries ∧
      ∀ visit ∈ visited, pages.lookup visit.2.1 = some visit.2.2 := by
  induction entries with
  | nil => exact ⟨[], rfl, rfl, nofun⟩
  | cons entry _ ih =>
    obtain ⟨value, found⟩ := indexed entry mem_cons_self
    obtain ⟨visited, visits, keys, paged⟩ := ih fun other member =>
      indexed other (mem_cons_of_mem _ member)
    refine ⟨(entry.1, entry.2, value) :: visited, ?_, congrArg (entry :: ·) keys,
      forall_mem_cons.mpr ⟨found, paged⟩⟩
    rw [mapM_cons, found, visits]
    rfl

/-- A checkpoint scan reads the oldest mappings behind its cursor. -/
theorem Consistent.after (cursor limit : Nat) : ∃ visited, index.after cursor limit = some visited ∧
      visited.map (fun visit => (visit.1, visit.2.1)) = (index.order.after cursor).take limit ∧
      ∀ visit ∈ visited, index.pages.lookup visit.2.1 = some visit.2.2 := by
  obtain ⟨visited, visits, entries, paged⟩ := visit_spec
    (fun entry value => (entry.1, entry.2, value))
    fun entry (member : entry ∈ (index.order.after cursor).take limit) => by
      obtain ⟨_, _, placed⟩ := (consistent.ordered entry.1 entry.2).mp
        (OrderedMap.mem_after.mp (mem_of_mem_take member)).1
      exact consistent.page_of_place placed
  refine ⟨visited, ?_, entries, paged⟩
  rw [PageIndex.after, visits]
  exact congrArg some (map_id visited)

omit consistent in
omit [DecidableEq Class] in
/-- A list of placed entries in the order of their ages has each key once. -/
theorem keys_nodup {entries : List (Nat × Key)}
    (ascending : entries.Pairwise fun earlier later => earlier.1 < later.1)
    (placed : ∀ entry ∈ entries, ∃ segment group,
      index.ages.lookup entry.2 = some (entry.1, segment, group)) :
    (entries.map (·.2)).Nodup := by
  refine pairwise_map.mpr (ascending.imp_of_mem fun one two below same => ?_)
  obtain ⟨_, _, left⟩ := placed _ one
  obtain ⟨_, _, right⟩ := placed _ two
  rw [same, right] at left
  exact below.ne' (Prod.mk.inj (Option.some.inj left)).1

/-- The mappings visited in a segment are placed there. -/
theorem Consistent.segment (segment budget : Nat) :
    ∃ visited, index.segment segment budget = some visited ∧ visited.length ≤ budget ∧
      (visited.map (·.1)).Nodup ∧
      ∀ entry ∈ visited, index.pages.lookup entry.1 = some entry.2 ∧
        ∃ age group, index.ages.lookup entry.1 = some (age, segment, group) := by
  have listed : ∃ listed, ((index.reverse.lookup segment).map (·.entries)).getD [] = listed ∧
      (∀ entry ∈ listed, ∃ group, index.ages.lookup entry.2 = some (entry.1, segment, group)) ∧
      listed.Pairwise fun earlier later => earlier.1 < later.1 := by
    cases found : index.reverse.lookup segment with
    | none => exact ⟨[], rfl, nofun, .nil⟩
    | some pages =>
      refine ⟨pages.entries, rfl, fun entry member => ?_, pages.sorted⟩
      exact (consistent.reversed segment entry.1 entry.2).mp ⟨pages, found, member⟩
  obtain ⟨listed, same, mapped, ascending⟩ := listed
  obtain ⟨visited, visits, entries, paged⟩ := visit_spec (fun entry value => (entry.2, value))
    fun entry (member : entry ∈ listed.take budget) => by
      obtain ⟨group, placed⟩ := mapped entry (mem_of_mem_take member)
      exact consistent.page_of_place placed
  rw [← same] at visits
  refine ⟨visited.map Prod.snd, visits, ?_, ?_, fun entry member => ?_⟩
  · have lengths := congrArg length entries
    rw [length_map] at lengths
    rw [length_map, lengths]
    exact length_take_le _ _
  · have keys : (visited.map Prod.snd).map (·.1) = (listed.take budget).map (·.2) := by
      rw [← entries, map_map, map_map]
      rfl
    rw [keys]
    exact keys_nodup (ascending.sublist (take_sublist _ _)) fun entry member =>
      ⟨segment, mapped entry (mem_of_mem_take member)⟩
  · obtain ⟨visit, visitMember, rfl⟩ := mem_map.mp member
    have entry : (visit.1, visit.2.1) ∈ listed.take budget := entries ▸ mem_map_of_mem visitMember
    obtain ⟨group, placed⟩ := mapped _ (mem_of_mem_take entry)
    exact ⟨paged visit visitMember, visit.1, group, placed⟩

theorem Consistent.segmentEmpty_iff {segment : Nat} : index.segmentEmpty segment = true ↔
      ∀ key age group, index.ages.lookup key ≠ some (age, segment, group) := by
  rw [segmentEmpty, Option.isNone_iff_eq_none]
  constructor
  · intro absent key age group placed
    obtain ⟨pages, found, -⟩ := (consistent.reversed segment age key).mpr ⟨group, placed⟩
    rw [absent] at found
    cases found
  · intro unplaced
    cases found : index.reverse.lookup segment with
    | none => rfl
    | some pages =>
      have empty : pages.isEmpty = true := OrderedMap.isEmpty_iff.mpr fun entry member => by
        obtain ⟨group, placed⟩ := (consistent.reversed segment entry.1 entry.2).mp
          ⟨pages, found, member⟩
        exact unplaced entry.2 entry.1 group placed
      rw [consistent.occupied segment pages found] at empty
      cases empty

end

end PageIndex

end Unbounded.Alloc
