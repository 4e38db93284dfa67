/-
This file says whom an owner of a page asks. Its targets come from several lists: later
owners that arrived before it, demoted members, owners under the previous version, and
successors it was told about. Every list is merged by appending the nodes that are not
there yet, so that one lemma about such a loop serves all of them. The targets then fall
into three parts, the successors, the other lineage targets and the rest, and the walk
grants the first two.
-/

import Unbounded.FillRuns
import Unbounded.ListUpdate

namespace Unbounded.Read

open Fill List Transition

/-! ### Appending new nodes -/

variable {step : List Nat → Nat → List Nat} {capacity node : Nat} {targets : List Nat}

/-- A turn of such a loop appends the node only if it is new and there is room. -/
def Appends (capacity : Nat) (targets : List Nat) (node : Nat) (after : List Nat) : Prop :=
  after = targets ∨ (node ∉ targets ∧ targets.length < capacity) ∧ after = targets ++ [node]

/-- Such a loop appends distinct new nodes as long as there is room. -/
theorem foldl_appends (each : ∀ targets node, Appends capacity targets node (step targets node))
    (nodes targets : List Nat) :
    ∃ fresh, nodes.foldl step targets = targets ++ fresh ∧
      (targets.Nodup → (targets ++ fresh).Nodup) ∧
      (targets.length ≤ capacity → (targets ++ fresh).length ≤ capacity) ∧
      ∀ node ∈ fresh, node ∈ nodes ∧ node ∉ targets := by
  induction nodes generalizing targets with
  | nil =>
    refine ⟨[], (append_nil _).symm, ?_, ?_, nofun⟩ <;>
    · rw [append_nil]
      exact id
  | cons node _ ih =>
    obtain ⟨fresh, folded, distinct, short, new⟩ := ih (step targets node)
    rw [foldl_cons]
    rcases each targets node with same | ⟨⟨absent, room⟩, pushed⟩
    · rw [same] at folded distinct short new ⊢
      exact ⟨fresh, folded, distinct, short, fun other member =>
        ⟨mem_cons_of_mem _ (new other member).1, (new other member).2⟩⟩
    · rw [pushed] at folded distinct short new ⊢
      rw [length_append] at short
      refine ⟨node :: fresh, folded.trans (append_cons _ _ _).symm, ?_, ?_, fun other member => ?_⟩
      · rw [append_cons]
        exact fun once => distinct (ListUpdate.nodup_snoc once absent)
      · rw [append_cons]
        exact fun _ => short room
      · rcases mem_cons.mp member with rfl | later
        · exact ⟨mem_cons_self, absent⟩
        · exact ⟨mem_cons_of_mem _ (new other later).1,
            fun early => (new other later).2 (mem_append_left _ early)⟩

theorem appends_pushWithin (fresh : node ∉ targets) :
    Appends capacity targets node (pushWithin capacity targets node) := by
  unfold pushWithin
  split
  · exact .inl rfl
  · rename_i room
    exact .inr ⟨⟨fresh, Nat.not_le.mp room⟩, rfl⟩

theorem appends_push (capacity : Nat) (targets : List Nat) (node : Nat) :
    Appends capacity targets node
      (if targets.contains node then targets else pushWithin capacity targets node) := by
  split
  · exact .inl rfl
  · rename_i absent
    exact appends_pushWithin fun member => absent (contains_iff_mem.mpr member)

/-- A loop that drops a new node only for lack of room keeps them all while they fit. -/
theorem foldl_keeps {limit : Nat}
    (each : ∀ targets node, Appends limit targets node (step targets node))
    (keeps : ∀ targets node, targets.length < capacity → node ∈ step targets node)
    {nodes : List Nat} (fits : targets.length + nodes.length ≤ capacity) :
    ∀ node ∈ nodes, node ∈ nodes.foldl step targets := by
  induction nodes generalizing targets with
  | nil => exact nofun
  | cons node nodes ih =>
    rw [length_cons] at fits
    have short : (step targets node).length + nodes.length ≤ capacity := by
      rcases each targets node with same | ⟨-, pushed⟩
      · rw [same]
        omega
      · rw [pushed, length_append, length_singleton]
        omega
    intro other member
    rcases mem_cons.mp member with rfl | later
    · -- The node is there after its turn, and what is there stays.
      obtain ⟨_, folded, -⟩ := foldl_appends each nodes (step targets other)
      rw [foldl_cons, folded]
      exact mem_append_left _ (keeps targets other (by omega))
    · exact ih short other later

theorem mem_push (room : targets.length < capacity) (node : Nat) :
    node ∈ if targets.contains node then targets else pushWithin capacity targets node := by
  split
  · rename_i there
    exact contains_iff_mem.mp there
  · rw [pushWithin, if_neg (Nat.not_le.mpr room)]
    exact mem_append_right _ mem_cons_self

/-! ### Lineage targets -/

/-- The node is neither this owner nor one before it. -/
def Elsewhere (owners : List Nat) (rank node : Nat) : Prop := node ∉ owners.take (rank + 1)

theorem elsewhere_of_later {owners : List Nat} (distinct : owners.Nodup) {rank : Nat}
    (later : node ∈ owners.drop (rank + 1)) : Elsewhere owners rank node :=
  fun early => disjoint_take_drop distinct le_rfl early later

variable {ranked : Ranked} {rank : Nat}

/-- The lineage targets of an owner are later owners first. -/
theorem lineageTargets_sublist (ranked : Ranked) (rank : Nat) :
    (lineageTargets ranked.owners (ranked.since.take ranked.owners.length) rank).Sublist
      (ranked.owners.drop (rank + 1)) := by
  unfold lineageTargets
  split
  · exact nil_sublist _
  have stamped : ranked.owners.length ≤ (ranked.since.take ranked.owners.length).length := by
    rw [length_take, ranked.since_length]
    exact le_min le_rfl ranked.owners_short
  refine (take_sublist _ _).trans ((filter_sublist.map _).trans ?_)
  rw [map_drop, map_fst_zip stamped]

theorem mem_rankedDemoted (member : node ∈ Fill.rankedDemoted ranked rank) :
    node ∈ ranked.demoted := by
  unfold rankedDemoted demotedTargets at member
  split at member
  · cases member
  obtain ⟨⟨⟨_, _⟩, _⟩, entry, kept⟩ := mem_filterMap.mp (mem_of_mem_take member)
  have listed := (of_mem_zip (fst_mem_of_mem_zipIdx entry)).1
  split at kept
  · rename_i same
    cases same
    split at kept
    · cases kept
      exact listed
    · cases kept
  · cases kept

theorem rankedLineage_spec (distinct : ranked.owners.Nodup)
    (disjoint : ∀ node ∈ ranked.demoted, node ∉ ranked.owners) {cap : Nat}
    (capped : cap ≤ maxLineage) :
    (Fill.rankedLineage cap ranked rank).Nodup ∧
      (Fill.rankedLineage cap ranked rank).length ≤ maxLineage ∧
      ∀ node ∈ Fill.rankedLineage cap ranked rank, Elsewhere ranked.owners rank node := by
  have sublist := lineageTargets_sublist ranked rank
  have whole := sublist.trans (drop_sublist _ _)
  obtain ⟨_, folded, new, short, listed⟩ := @foldl_appends (fun targets node =>
      if ¬ targets.contains node ∧ targets.length < cap then targets ++ [node] else targets)
    maxLineage (fun targets node => by
      split
      · rename_i taken
        exact .inr ⟨⟨fun member => taken.1 (contains_iff_mem.mpr member),
          taken.2.trans_le capped⟩, rfl⟩
      · exact .inl rfl)
    (rankedDemoted ranked rank)
    (lineageTargets ranked.owners (ranked.since.take ranked.owners.length) rank)
  rw [rankedLineage, folded]
  refine ⟨new (distinct.sublist whole), short ?_, fun node member => ?_⟩
  · exact whole.length_le.trans (ranked.owners_short.trans (by decide))
  · rcases mem_append.mp member with early | late
    · exact elsewhere_of_later distinct (sublist.subset early)
    · exact fun here => disjoint node (mem_rankedDemoted (listed node late).1)
        (mem_of_mem_take here)

theorem handoffTargets_elsewhere {previous current : List Nat}
    (member : node ∈ handoffTargets previous current rank) : Elsewhere current rank node := by
  unfold handoffTargets at member
  split at member
  · cases member
  have kept := of_mem_filter (mem_of_mem_take member)
  rw [Bool.and_eq_true, decide_eq_true_iff, Bool.not_eq_true', ← Bool.not_eq_true,
    contains_iff_mem] at kept
  rw [Elsewhere, take_add_one, mem_append, Option.mem_toList]
  rintro (early | here)
  · exact kept.2 early
  · exact kept.1 here.symm

/-! ### The parts of the targets -/

/-- The targets of an owner: successors, the other lineage targets, and targets that are neither.
They are distinct, and none of them is this owner or one before it. -/
structure Aims (owners lineage : List Nat) (rank : Nat) (successors later others : List Nat) :
    Prop where
  distinct : (successors ++ later ++ others).Nodup
  elsewhere : ∀ node ∈ successors ++ later ++ others, Elsewhere owners rank node
  listed : ∀ node ∈ later, node ∈ lineage
  beyond : ∀ node ∈ others, node ∉ lineage
  complete : ∀ node ∈ lineage, node ∈ successors ∨ node ∈ later
  short : (successors ++ later ++ others).length ≤ maxTargets

variable {owners lineage others : List Nat}

theorem aims_lineage (distinct : lineage.Nodup) (short : lineage.length ≤ maxLineage)
    (elsewhere : ∀ node ∈ lineage, Elsewhere owners rank node) :
    Aims owners lineage rank [] lineage [] where
  distinct := by simpa using distinct
  elsewhere := by simpa using elsewhere
  listed _ := id
  beyond := nofun
  complete _ := .inr
  short := by
    rw [append_nil]
    exact short.trans (by decide)

/-- Previous owners come after the lineage targets. -/
theorem Aims.merge (aims : Aims owners lineage rank [] lineage [])
    (short : lineage.length ≤ maxLineage) {previous : List Nat}
    (elsewhere : ∀ node ∈ previous, Elsewhere owners rank node) :
    ∃ others, mergeHandoff previous lineage = lineage ++ others ∧
      Aims owners lineage rank [] lineage others := by
  obtain ⟨fresh, folded, new, fits, listed⟩ := @foldl_appends (fun targets node =>
      if targets.length ≥ maxHandoff ∨ targets.contains node then targets
      else pushWithin maxTargets targets node)
    maxTargets (fun targets node => by
      split
      · exact .inl rfl
      · rename_i free
        exact appends_pushWithin fun member => free (.inr (contains_iff_mem.mpr member)))
    previous lineage
  have distinct : lineage.Nodup := by simpa using aims.distinct
  refine ⟨fresh, ?_, new distinct, fun node member => ?_, aims.listed, fun node member =>
    (listed node member).2, aims.complete, fits (short.trans (by decide))⟩
  · rw [mergeHandoff, take_of_length_le short, folded]
  · rcases mem_append.mp member with early | late
    · exact aims.elsewhere node (by simpa using early)
    · exact elsewhere node (listed node late).1

/-- Successors are distinct later owners, so there are few. -/
theorem successorTargets_spec (hints owners : List Nat) (rank : Nat) :
    (successorTargets hints owners rank).Nodup ∧
      ∀ node ∈ successorTargets hints owners rank, node ∈ owners.drop (rank + 1) := by
  constructor
  · obtain ⟨_, folded, new, -⟩ := @foldl_appends
      (fun targets node =>
        if owners.idxOf node < owners.length ∧ rank < owners.idxOf node ∧
            ¬ targets.contains node then
          pushWithin maxHandoff targets node
        else targets)
      maxHandoff (fun targets node => by
        split
        · rename_i taken
          exact appends_pushWithin fun member => taken.2.2 (contains_iff_mem.mpr member)
        · exact .inl rfl) hints.reverse []
    rw [successorTargets, folded]
    exact new nodup_nil
  · refine foldlRecOn
      (motive := fun targets : List Nat => ∀ node ∈ targets, node ∈ owners.drop (rank + 1)) _ _
      nofun fun targets later node _ => ?_
    split
    · unfold pushWithin
      split
      · exact later
      intro other member
      rcases mem_append.mp member with early | last
      · exact later other early
      rw [mem_singleton.mp last, mem_drop_iff_getElem]
      refine ⟨owners.idxOf node - (rank + 1), by omega, ?_⟩
      have index : rank + 1 + (owners.idxOf node - (rank + 1)) = owners.idxOf node := by omega
      simp only [index, getElem_idxOf]
    · exact later

/-- Hinted successors come first, and no lineage target is lost for them. -/
theorem Aims.withSuccessors (aims : Aims owners lineage rank [] lineage others)
    (distinct : owners.Nodup) (few : owners.length ≤ maxHandoff)
    (short : lineage.length ≤ maxLineage) (hints : List Nat) :
    ∃ successors later beyond,
      Read.withSuccessors (successorTargets hints owners rank) (lineage ++ others) =
        (successors ++ later ++ beyond, successors.length) ∧
      (∀ node, node ∈ successors ↔ node ∈ successorTargets hints owners rank) ∧
      Aims owners lineage rank successors later beyond := by
  obtain ⟨once, behind⟩ := successorTargets_spec hints owners rank
  have fits : (successorTargets hints owners rank).length ≤ maxHandoff - 1 := by
    have bound := (subperm_of_subset once behind).length_le
    rw [length_drop] at bound
    omega
  have each (targets : List Nat) (node : Nat) : Appends maxTargets targets node
      (if targets.length < maxHandoff ∧ ¬ targets.contains node then
        pushWithin maxTargets targets node else targets) := by
    split
    · rename_i taken
      exact appends_pushWithin fun member => taken.2 (contains_iff_mem.mpr member)
    · exact .inl rfl
  obtain ⟨successors, first, new, -, told⟩ :=
    foldl_appends each (successorTargets hints owners rank) []
  rw [nil_append] at first new
  have all : ∀ node ∈ successorTargets hints owners rank, node ∈ successors := by
    rw [← first]
    refine @foldl_keeps _ maxHandoff [] _ each (fun targets node room => ?_) _ (by
      rw [length_nil]
      omega)
    split
    · rw [pushWithin, if_neg (by have : maxTargets = 8 := rfl; have : maxHandoff = 3 := rfl; omega)]
      exact mem_append_right _ mem_cons_self
    · rename_i kept
      exact contains_iff_mem.mp (not_not.mp fun absent => kept ⟨room, absent⟩)
  have later (node : Nat) (member : node ∈ successors) : node ∈ owners.drop (rank + 1) :=
    behind node (told node member).1
  have room : successors.length + lineage.length ≤ maxTargets := by
    have bound := (subperm_of_subset (new nodup_nil) fun node member =>
      (told node member).1).length_le
    have replicas : maxTargets = maxHandoff - 1 + maxLineage := rfl
    omega
  obtain ⟨more, second, newer, fit, listed⟩ :=
    foldl_appends (appends_push maxTargets) lineage successors
  obtain ⟨beyond, third, newest, fits, found⟩ :=
    foldl_appends (appends_push maxTargets) others (successors ++ more)
  have covered := foldl_keeps (appends_push maxTargets) (fun _ node room => mem_push room node) room
  rw [second] at covered
  refine ⟨successors, more, beyond, ?_, fun node => ⟨fun member => (told node member).1, all node⟩,
    newest (newer (new nodup_nil)), fun node member => ?_, fun node member =>
    (listed node member).1, fun node member => aims.beyond node (found node member).1,
    fun node member => mem_append.mp (covered node member), fits (fit (by omega))⟩
  · rw [Read.withSuccessors, first, foldl_append, second, third]
  · rcases mem_append.mp member with early | last
    · rcases mem_append.mp early with told | lineal
      · exact elsewhere_of_later distinct (later node told)
      · exact aims.elsewhere node (mem_append_left _ (listed node lineal).1)
    · exact aims.elsewhere node (mem_append_right _ (found node last).1)

/-! ### An owner's walk -/

/-- The fill of an owner that was ranked, and ranked under the previous version where there is
one. -/
def Fill.merged (fill : Fill) (ranked : Ranked) : Option (Except Error Ranked) → Fill
  | none => fill.adopt ranked
  | some result => (fill.adopt ranked).previousRanked result

/-- The fill of such an owner once it was told about successors and its walk starts. -/
def Fill.aimed (fill : Fill) (ranked : Ranked) (previous : Option (Except Error Ranked))
    (hints : List Nat) (rank0 : Rank0State) : Fill :=
  ((fill.merged ranked previous).hinted hints rank0).startWalk.1

namespace Fill

variable {fill : Fill} {previous : Option (Except Error Ranked)}

/-- The fields of an owner that a ranking fixes. -/
structure Ranks (fill merged : Fill) (ranked : Ranked) (rank : Nat) : Prop where
  config : merged.config = fill.config
  owners : merged.owners = ranked.owners
  placed : merged.rank = some rank
  lineage : merged.lineageTargets = rankedLineage fill.config.features.lineageCap ranked rank

theorem merged_ranks (owner : ranked.rank = some rank) (page : fill.page = true) :
    fill.Ranks (fill.merged ranked previous) ranked rank ∧
      (fill.merged ranked previous).successors = 0 := by
  have adopted : fill.Ranks (fill.adopt ranked) ranked rank :=
    ⟨rfl, rfl, owner, by simp only [adopt, owner, page]⟩
  cases previous with
  | none => exact ⟨adopted, rfl⟩
  | some =>
    simp only [merged, previousRanked]
    split
    · exact ⟨{ adopted with }, rfl⟩
    · exact ⟨adopted, rfl⟩

section

variable (owner : ranked.rank = some rank) (page : fill.page = true)
  (distinct : ranked.owners.Nodup) (disjoint : ∀ node ∈ ranked.demoted, node ∉ ranked.owners)

include owner page distinct disjoint

/-- Before the hints the targets are the lineage targets and what a previous ranking adds. -/
theorem merged_aims : ∃ others, (fill.merged ranked previous).handoff =
        rankedLineage fill.config.features.lineageCap ranked rank ++ others ∧
      Aims ranked.owners (rankedLineage fill.config.features.lineageCap ranked rank) rank []
        (rankedLineage fill.config.features.lineageCap ranked rank) others := by
  obtain ⟨once, short, elsewhere⟩ := @rankedLineage_spec ranked rank distinct disjoint _
    fill.config.features.lineageCap_le
  have aims := aims_lineage once short elsewhere
  have lineage : (fill.adopt ranked).lineageTargets =
      rankedLineage fill.config.features.lineageCap ranked rank := by
    simp only [adopt, owner, page]
  have unmerged : (fill.adopt ranked).handoff =
      rankedLineage fill.config.features.lineageCap ranked rank ++ [] := by
    rw [append_nil]
    exact lineage
  cases previous with
  | none => exact ⟨[], unmerged, aims⟩
  | some =>
    simp only [merged, previousRanked]
    split
    · rename_i before position found
      obtain rfl : rank = position := Option.mem_unique owner found
      obtain ⟨others, merged, aims⟩ := aims.merge short
        fun node (member : node ∈ (handoffTargets before.owners ranked.owners rank).filter
          fun node => node ≠ notMember) => handoffTargets_elsewhere (mem_of_mem_filter member)
      exact ⟨others, by rw [← merged, ← lineage]; rfl, aims⟩
    · exact ⟨[], unmerged, aims⟩

/-- The targets of an owner that starts its walk, in their parts. -/
theorem aimed_aims (hints : List Nat) (rank0 : Rank0State) : ∃ successors later others,
      (fill.aimed ranked previous hints rank0).handoff = successors ++ later ++ others ∧
      (fill.aimed ranked previous hints rank0).successors = successors.length ∧
      (∀ node, node ∈ successors ↔ node ∈ successorTargets hints ranked.owners rank) ∧
      fill.Ranks (fill.aimed ranked previous hints rank0) ranked rank ∧
      Aims ranked.owners (rankedLineage fill.config.features.lineageCap ranked rank) rank
        successors later others := by
  obtain ⟨ranks, none⟩ := @merged_ranks ranked rank fill previous owner page
  obtain ⟨others, handoff, aims⟩ :=
    @merged_aims ranked rank fill previous owner page distinct disjoint
  obtain ⟨-, short, -⟩ := @rankedLineage_spec ranked rank distinct disjoint _
    fill.config.features.lineageCap_le
  unfold aimed
  simp only [hinted, ranks.placed, ranks.owners]
  split
  · rename_i unhinted
    exact ⟨[], _, others, handoff, none, fun node => by rw [unhinted],
      ⟨ranks.config, rfl, rfl, ranks.lineage⟩, aims⟩
  · obtain ⟨successors, later, beyond, told, same, aims⟩ :=
      aims.withSuccessors distinct ranked.owners_short short hints
    rw [← handoff] at told
    exact ⟨successors, later, beyond, congrArg Prod.fst told, congrArg Prod.snd told, same,
      ⟨ranks.config, rfl, rfl, ranks.lineage⟩, aims⟩

end

/-! ### Runs of an owner -/

/-- The fields that say whom an owner asks. -/
def aim (fill : Fill) : Fill :=
  { Fill.new fill.config with
    owners := fill.owners
    rank := fill.rank
    lineageTargets := fill.lineageTargets
    handoff := fill.handoff
    successors := fill.successors }

/-- The same, with how many of them it grants. -/
def asked (fill : Fill) : Fill :=
  { fill.aim with granted := fill.granted }

section

variable (heard : Ranked → Prop) (fill : Fill)

/-- An owner of a page has chosen its targets under a ranking it heard. -/
def Settled : Prop :=
  fill.rank.isSome → fill.page → ∃ base ranked previous hints rank0, heard ranked ∧
    fill.aim = (Fill.aimed base ranked previous hints rank0).aim

/-- How far the choice of targets is while an action is outstanding. -/
def Choosing : Option Action → Prop
  | none | some (.rank .current _) | some (.done _) => True
  | some (.rank .previous _) =>
    ∃ base ranked, heard ranked ∧ fill.aim = (Fill.merged base ranked none).aim
  | some .hints =>
    ∃ base ranked previous, heard ranked ∧ fill.aim = (Fill.merged base ranked previous).aim
  | _ => fill.Settled heard

def MoveChoosing : Move → Prop
  | .act action => fill.Choosing heard (some action)
  | .plan => fill.Settled heard

end

variable {heard : Ranked → Prop} {after other : Fill} {move : Move} {last : Option Action}
  {budget left : AcquisitionBudget} {completed : Option Outcome}

theorem moveChoosing_core (same : after.core = other.core)
    (choosing : other.MoveChoosing heard move) : after.MoveChoosing heard move := by
  have kept (fill : Fill) : fill.core.MoveChoosing heard move = fill.MoveChoosing heard move := rfl
  rw [← kept after, same]
  exact choosing

/-- While a walk goes on the targets are chosen. -/
theorem Choosing.settled (choosing : fill.Choosing heard last) (phase : Phase fill last)
    (walks : fill.walk ≠ .none) : fill.Settled heard := by
  cases phase with
  | fresh walk | current walk | previous walk | hints walk | done walk => exact absurd walk walks
  | _ => exact choosing

theorem raced_choosing (raced : Raced fill after move) (settled : fill.Settled heard) :
    after.MoveChoosing heard move := by
  cases raced with
  | hedge | start => exact settled

/-- A ranking is adopted; it is one that was heard, or this node owns nothing under it. -/
theorem adopted_choosing {ranked : Ranked} (known : ranked.rank.isSome → heard ranked)
    (adopted : Adopted fill ranked after move) : after.MoveChoosing heard move := by
  cases adopted with
  | previous owner => exact ⟨fill, ranked, known owner, rfl⟩
  | hints owner => exact ⟨fill, ranked, none, known owner, rfl⟩
  | raced raced =>
    refine raced_choosing raced fun owner _ => ⟨fill, ranked, none, [], .unknown, known owner, ?_⟩
    simp only [aimed, merged, hinted, successorTargets, reverse_nil, foldl_nil, if_true]
    split <;> rfl

theorem previousRanked_aim (fill : Fill) (result : Except Error Ranked) :
    (fill.previousRanked result).aim = (fill.aim.previousRanked result).aim := by
  unfold previousRanked aim
  dsimp only
  split <;> rfl

theorem hinted_aim (fill : Fill) (hints : List Nat) (rank0 : Rank0State) :
    (fill.hinted hints rank0).aim = (fill.aim.hinted hints rank0).aim := by
  unfold hinted aim
  dsimp only
  split
  · split <;> rfl
  · rfl

/-- Every decision follows the choice of targets. -/
theorem decided_choosing {event : Event} (phase : Phase fill last)
    (decided : Decided fill budget event last completed after left move)
    (known : ∀ ranked, event = .ranked (.ok ranked) → heard ranked)
    (choosing : fill.Choosing heard last) : after.MoveChoosing heard move := by
  have settled (walks : fill.walk ≠ .none) : fill.Settled heard := choosing.settled phase walks
  cases decided with
  | hit | begin | hedgeRefreshed | refreshed | published => trivial
  | adopted ranked told adopted => exact adopted_choosing (fun _ => known ranked told) adopted
  | previous result =>
    obtain ⟨base, ranked, told, aims⟩ := choosing
    refine ⟨base, ranked, some result, told, ?_⟩
    rw [previousRanked_aim, aims, merged, ← previousRanked_aim]
    rfl
  | hinted hints rank0 raced =>
    obtain ⟨base, ranked, previous, told, aims⟩ := choosing
    refine raced_choosing raced fun _ _ => ⟨base, ranked, previous, hints, rank0, told, ?_⟩
    rw [hinted_aim, aims, ← hinted_aim]
    rfl
  | fellBack ranked reader _ _ _ adopted =>
    refine adopted_choosing (fun owner => ?_) adopted
    rw [reader] at owner
    cases owner
  | hedgeWon delivered | batchCopied delivered =>
    cases delivered with
    | done => trivial
    | publish => exact choosing
  | copied completes delivered =>
    cases delivered with
    | done => trivial
    | publish => exact settled (completes.asks.walking ▸ nofun)
  | visited completes => exact settled (completes.asks.walking ▸ nofun)
  | waited _ asks | remained asks | remainingCopied asks => exact settled (asks.walking ▸ nofun)
  | _ => exact choosing

theorem planned_choosing {action : Action} (planned : Planned fill budget after left action)
    (settled : fill.Settled heard) : after.MoveChoosing heard (.act action) := by
  cases planned with
  | _ => exact settled

/-- Spending the outstanding probe's budget changes none of the targets. -/
theorem charged_choosing (choosing : fill.Choosing heard last) (budget spent : AcquisitionBudget) :
    (fill.setRequestBudget budget spent).1.Choosing heard last := by
  rcases fill.setRequestBudget_cases budget spent with ⟨same, -⟩ | ⟨_, _, _, -, -, -, -, same⟩
  · rw [same]
    exact choosing
  · rw [same]
    exact choosing

end Fill

section

variable {spends : Spending} {world next : World} {exchange : Exchange}

/-- One exchange follows the choice of targets. -/
theorem Reacts.choosing {heard : Ranked → Prop} (reacts : Reacts spends world exchange next)
    (live : world.Live) (known : ∀ ranked, exchange.event = .ranked (.ok ranked) → heard ranked)
    (choosing : world.fill.Choosing heard world.last) : next.fill.Choosing heard next.last := by
  obtain ⟨_, steps⟩ := reacts.steps live
  have phase := steps.phase.of_core
  have charged := charged_choosing choosing world.budget exchange.spent
  rw [← reacts.charged] at charged
  have stepped := steps.stepped
  rw [reacts.next]
  cases stepped with
  | failed _ action | unplanned _ action =>
    rw [action]
    trivial
  | acted decided same =>
    exact moveChoosing_core same (decided_choosing phase decided known charged)
  | planned _ decided kept planned same =>
    have settled := moveChoosing_core kept (decided_choosing phase decided known charged)
    exact moveChoosing_core same (planned_choosing planned settled)

/-- Whenever an owner of a page walks, its targets are those of some `Fill.aimed`, under a ranking
that the read was told. -/
theorem run_aimed {config : FillConfig} {budget : AcquisitionBudget} {exchanges : List Exchange}
    (run : Run (Reacts spends) (World.start config budget) exchanges world)
    {walk : CandidateWalk} (walks : world.fill.walk = .candidates walk)
    (owner : world.fill.rank.isSome) (page : world.fill.page) :
    ∃ base ranked previous hints rank0,
      (∃ exchange ∈ exchanges, exchange.event = .ranked (.ok ranked)) ∧
      world.fill.asked = (Fill.aimed base ranked previous hints rank0).asked := by
  let heard (ranked : Ranked) : Prop :=
    ∃ exchange ∈ exchanges, exchange.event = .ranked (.ok ranked)
  have choosing : world.fill.Choosing heard world.last := by
    refine (run.history (fun (earlier : List Exchange) (world : World) => earlier ⊆ exchanges →
      world.Live ∧ world.fill.Choosing heard world.last) ?_ ?_ (List.Subset.refl _)).2
    · intro earlier before exchange after holds reacts told
      obtain ⟨live, choosing⟩ := holds fun _ member => told (mem_append_left _ member)
      exact ⟨reacts.live live, reacts.choosing live
        (fun ranked event => ⟨exchange, told (mem_append_right _ mem_cons_self), event⟩) choosing⟩
    · exact fun _ => ⟨World.start_live config budget, trivial⟩
  rcases run_live run with ⟨_, -, idle⟩ | ⟨valid, phase⟩
  · exact Walking.noConfusion (idle.symm.trans walks)
  · obtain ⟨base, ranked, previous, hints, rank0, told, aims⟩ :=
      choosing.settled phase.of_core (walks ▸ nofun) owner page
    refine ⟨base, ranked, previous, hints, rank0, told, ?_⟩
    have grants (fill : Fill) : fill.grantedTargets = fill.aim.grantedTargets := rfl
    rw [asked, aims, (valid.walks walk walks).granted, grants, aims]
    rfl

end

/-- An owner of a page asks distinct nodes and never itself: the owners before it and its targets
are distinct, and there are few targets. With the rule that grants lineage targets those it grants
are exactly the successors and the lineage targets, and all of them at rank 0; without it they are
the successors. -/
theorem owner_targets_distinct (fill : Fill) (owner : ranked.rank = some rank)
    (page : fill.page = true) (distinct : ranked.owners.Nodup)
    (disjoint : ∀ node ∈ ranked.demoted, node ∉ ranked.owners)
    (previous : Option (Except Error Ranked)) (hints : List Nat) (rank0 : Rank0State)
    {aimed : Fill} (starts : aimed.asked = (fill.aimed ranked previous hints rank0).asked) :
    aimed.owners = ranked.owners ∧
    (aimed.owners.take rank ++ aimed.handoff).Nodup ∧
    (∀ node, aimed.owners[rank]? = some node → node ∉ aimed.owners.take rank ++ aimed.handoff) ∧
    aimed.handoff.length ≤ maxTargets ∧
    (∀ node, node ∈ aimed.handoff.take aimed.successors ↔
      node ∈ successorTargets hints aimed.owners rank) ∧
    (fill.has Features.lineageGrants = true → rank = 0 → aimed.granted = aimed.handoff.length) ∧
    (fill.has Features.lineageGrants = true → rank ≠ 0 →
      ∀ node, node ∈ aimed.handoff.take aimed.granted ↔
        node ∈ successorTargets hints aimed.owners rank ∨ node ∈ aimed.lineageTargets) ∧
    (fill.has Features.lineageGrants = false → aimed.granted = aimed.successors) := by
  obtain ⟨successors, later, others, handoff, counted, told, ranks, aims⟩ :=
    @Fill.aimed_aims ranked rank fill previous owner page distinct disjoint hints rank0
  have handoff : aimed.handoff = _ := (congrArg Fill.handoff starts).trans handoff
  have counted : aimed.successors = _ := (congrArg Fill.successors starts).trans counted
  have ranks : fill.Ranks aimed ranked rank :=
    ⟨(congrArg Fill.config starts).trans ranks.config,
      (congrArg Fill.owners starts).trans ranks.owners,
      (congrArg Fill.rank starts).trans ranks.placed,
      (congrArg Fill.lineageTargets starts).trans ranks.lineage⟩
  have granted : aimed.granted = aimed.grantedTargets :=
    (congrArg Fill.granted starts).trans (congrArg Fill.grantedTargets starts).symm
  have has (bit : Nat) : aimed.has bit = fill.has bit := congrArg (·.features.has bit) ranks.config
  have paged : aimed.page = true := by
    rw [Fill.page, ranks.config]
    exact page
  have early (node : Nat) (member : node ∈ ranked.owners.take rank) :
      node ∈ ranked.owners.take (rank + 1) :=
    (take_sublist_take_left (Nat.le_succ rank)).subset member
  rw [ranks.owners, handoff, counted, granted]
  refine ⟨rfl, ?_, fun node here => ?_, aims.short, fun node => ?_, fun grants first => ?_,
    fun grants further node => ?_, fun ungranted => ?_⟩
  · refine nodup_append.mpr ⟨distinct.sublist (take_sublist _ _), aims.distinct, ?_⟩
    intro node before other target same
    exact aims.elsewhere other target (same ▸ early node before)
  · have split : ranked.owners.take (rank + 1) = ranked.owners.take rank ++ [node] := by
      rw [take_add_one, here]
      rfl
    rw [mem_append]
    rintro (before | target)
    · have apart := distinct.sublist (take_sublist (rank + 1) _)
      rw [split] at apart
      exact (nodup_append.mp apart).2.2 node before node mem_cons_self rfl
    · refine aims.elsewhere node target ?_
      rw [split]
      exact mem_append_right _ mem_cons_self
  · rw [append_assoc, take_left]
    exact told node
  · unfold grantedTargets
    rw [has, grants, ranks.placed, paged, first, handoff]
    simp
  · have leading : grantedPrefix (later ++ others) aimed.lineageTargets = later.length := by
      rw [ranks.lineage, grantedPrefix, takeWhile_append_of_pos fun node member =>
        contains_iff_mem.mpr (aims.listed node member), length_append]
      cases others with
      | nil => rfl
      | cons node =>
        rw [takeWhile_cons_of_neg]
        · rfl
        · exact fun member => aims.beyond node mem_cons_self (contains_iff_mem.mp member)
    have counts : aimed.grantedTargets = (successors ++ later).length := by
      unfold grantedTargets
      rw [if_neg fun zero => further (Option.mem_unique ranks.placed zero.2.1),
        if_pos ⟨(has _).trans grants, by rw [ranks.placed]; rfl⟩, handoff, counted,
        append_assoc, drop_left, leading, length_append]
    rw [counts, take_left, mem_append, told, ranks.lineage]
    constructor
    · exact .imp_right (aims.listed node)
    · rintro (hinted | lineal)
      · exact .inl hinted
      · exact (aims.complete node lineal).imp_left (told node).mp
  · unfold grantedTargets
    rw [has, ungranted, counted]
    simp

/-- The second of three owners; the third arrived before it. -/
def secondOwner : Ranked where
  version := 1
  owners := [10, 11, 12]
  rank := some 1
  since := [some 9, some 5, some 3]
  order := .canonical 3
  demoted := [13]
  demotedSince := some 4 :: List.replicate 8 none
  oldest := none
  members := 4
  recentMember := false
  owners_short := by decide
  rank_lt := by decide
  since_length := rfl
  order_owners := .refl _
  demoted_short := by decide
  demotedSince_length := rfl

def pageFill (features : Features) : Fill :=
  .new { operation := .page, hedge := false, walkOnly := false, scope := 0, features }

/-- The second owner's targets: it was told that the third has the page, and a node that left
owned the page before. -/
def secondAimed : Fill :=
  (pageFill .production).aimed secondOwner
    (some (.ok (plainRanking 0 [14, 10, 12] none (by decide) nofun))) [12] .unknown

theorem owner_targets_distinct_second :
    secondAimed.handoff = [12, 13, 14] ∧ secondAimed.successors = 1 ∧ secondAimed.granted = 2 ∧
      (secondAimed.owners.take 1 ++ secondAimed.handoff).Nodup ∧
      ∀ node, node ∈ secondAimed.handoff.take secondAimed.granted ↔
        node ∈ successorTargets [12] secondAimed.owners 1 ∨ node ∈ secondAimed.lineageTargets := by
  obtain ⟨-, distinct, -, -, -, -, granted, -⟩ := owner_targets_distinct (pageFill .production)
    (show secondOwner.rank = some 1 from rfl) rfl (by decide) (by decide)
    (some (.ok (plainRanking 0 [14, 10, 12] none (by decide) nofun))) [12] .unknown
    (show secondAimed.asked = _ from rfl)
  exact ⟨by decide, by decide, by decide, distinct, granted rfl (by decide)⟩

/-- Without the rule that grants lineage targets an owner grants none of them. -/
theorem lineage_ungranted :
    ((pageFill ⟨0, maxLineage, le_rfl⟩).aimed secondOwner none [] .unknown).handoff = [12, 13] ∧
    ((pageFill ⟨0, maxLineage, le_rfl⟩).aimed secondOwner none [] .unknown).lineageTargets =
      [12, 13] ∧
    ((pageFill ⟨0, maxLineage, le_rfl⟩).aimed secondOwner none [] .unknown).granted = 0 := by
  decide

end Unbounded.Read
