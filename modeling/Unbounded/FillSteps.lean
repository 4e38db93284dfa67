/-
This file says once what deciding on an event can do to a fill whose caller
answers its actions. `Answers` is the caller's side of the contract: each event
is of the kind its action asks for. `Phase` is the fill's side: what holds of
its state while an action is outstanding. From the two, `dispatch_cases` lists
every decision a fill can take, and shows that none of its assertions fails.

Fields that only feed counters and messages are erased by `core`; a decision is
stated up to them.
-/

import Unbounded.Fill
import Unbounded.WalkSteps

namespace Unbounded.Read

open CandidateWalk Option

namespace Fill

/-! ### The fields a decision is stated about -/

variable (fill : Fill)

/-- A fill without the fields that only feed counters, messages and the next fallback. -/
def core : Fill :=
  { fill with
    signed := false
    fellBack := false
    fallbackDenied := false
    stale := 0
    latest := 0
    source := .peer
    funding := false
    remainingEnd := none
    out := {} }

variable {first second : Fill}

theorem core_field {Field : Type} (read : Fill → Field)
    (kept : ∀ fill : Fill, read fill.core = read fill) (same : first.core = second.core) :
    read first = read second :=
  (kept first).symm.trans ((congrArg read same).trans (kept second))

theorem core_walk (same : first.core = second.core) : first.walk = second.walk :=
  core_field Fill.walk (fun _ => rfl) same

theorem core_retried (same : first.core = second.core) : first.retried = second.retried :=
  core_field Fill.retried (fun _ => rfl) same

@[simp] theorem core_report (outcome : Except Error Outcome) :
    (fill.report outcome).core = fill.core := rfl

@[simp] theorem core_pending : fill.pending.core = fill.core := by
  unfold pending
  split <;> rfl

@[simp] theorem core_noteRank0 (outcome : Outcome) : (fill.noteRank0 outcome).core = fill.core := by
  unfold noteRank0
  split <;> rfl

@[simp] theorem core_unanswered (probe : Probe) : (fill.unanswered probe).core = fill.core := by
  unfold unanswered
  split <;> rfl

@[simp] theorem core_noteBehind (bits : Nat) : (fill.noteBehind bits).core = fill.core :=
  (core_report _ _).trans (core_pending _)

theorem core_leave : fill.leave.core = ({ fill with walk := .none }).core := by
  unfold leave
  split
  · split <;> rfl
  · rfl

end Fill

/-! ### The caller's side -/

section

variable (fill : Fill) (budget : AcquisitionBudget) (event : Event)

/-- The event answers the outstanding action; none is outstanding before the start. A hedge that
is not eligible is not raced, only a probe without a destination finds no helper, and a fill
that stops after its walk asks nothing of origin. -/
inductive Answers : Option Action → Event → Prop
  | start (localHit : Bool) : Answers none (.start localHit)
  | rank {ranking version} (result : Except Error Ranked) :
      Answers (some (.rank ranking version)) (.ranked result)
  | hints (hints : List Nat) (rank0 : Rank0State) : Answers (some .hints) (.hints hints rank0)
  | hedge {eligible first second} (hedgeEnd : HedgeEnd)
      (raced : hedgeEnd ≠ .notStarted → eligible = true) :
      Answers (some (.hedge eligible first second)) (.hedge hedgeEnd)
  | refresh (latest : Option Nat) (previousRecentMember : Bool) :
      Answers (some .refresh) (.membership latest previousRecentMember)
  | probe {probe} (reply : Reply) : Answers (some (.probe probe)) (.reply reply)
  | noHelper {probe} (unaddressed : fill.dest probe = none) :
      Answers (some (.probe probe)) .noHelper
  | validate (result : Except Error (Option ProbeOutcome)) :
      Answers (some .validate) (.validated result)
  | batch {first count remainingOpportunities} (copy : Bool) :
      Answers (some (.batch first count remainingOpportunities)) (.batchDone copy)
  | wait {duration} : Answers (some (.wait duration)) .timer
  | origin {rank} (result : Except Error Unit) (fetches : fill.config.walkOnly = false) :
      Answers (some (.origin rank)) (.origin result)
  | publish {source} (result : Except Error Unit) :
      Answers (some (.publish source)) (.published result)
  | abort {last} (error : Error) (live : ∀ result, last ≠ some (.done result)) :
      Answers last (.abort error)

/-! ### The fill's side -/

/-- The outstanding probe of a candidate walk: of the page's helper, or of the target at the
walk's index. -/
inductive Outstanding (walk : CandidateWalk) (probe : Probe) : Pending → Prop
  | helper (bounded : Option AcquisitionBudget) (reader : walk.config.rank = none)
      (used : walk.helper = .used) (canonical : probe.canonical = walk.config.owners) :
      Outstanding walk probe {
        bounded, handoff := true, delegated := false, rank0 := false, previous := false,
        helper := true, granted := false }
  | target (bounded : Option AcquisitionBudget) (handoff delegated rank0 previous granted : Bool)
      (found : walk.target walk.index = some probe.canonical)
      (past : handoff = decide (walk.config.owners ≤ probe.canonical))
      (grants : granted = true → handoff = true) (watched : rank0 = true → handoff = false)
      (unskipped : walk.config.continuation.primaryConsumed = true → walk.index ≠ 0) :
      Outstanding walk probe {
        bounded, handoff, delegated, rank0, previous, helper := false, granted }

/-- What is outstanding does not depend on how it is kept or funded. -/
theorem Outstanding.kept {walk : CandidateWalk} {probe : Probe} {pending : Pending}
    (outstanding : Outstanding walk probe pending) (kept : Option Pending)
    (bounded : Option AcquisitionBudget) :
    Outstanding { walk with pending := kept } probe { pending with bounded } := by
  cases outstanding with
  | helper _ reader used canonical => exact .helper bounded reader used canonical
  | target _ handoff delegated rank0 previous granted found past grants watched unskipped =>
    exact .target bounded handoff delegated rank0 previous granted found past grants watched
      unskipped

namespace Fill

/-- The candidate walk is the one this fill started for its ranking. Only a reader's walk may
skip a primary or ask a helper. -/
structure Walks (walk : CandidateWalk) : Prop where
  rank : walk.config.rank = fill.rank
  owners : walk.config.owners = fill.owners.length
  page : walk.config.pageOperation = fill.page
  handoff : walk.config.handoff = fill.handoff.length
  granted : fill.granted = fill.grantedTargets
  targets : walk.targets = (CandidateWalk.new walk.config).targets
  count : walk.count = (CandidateWalk.new walk.config).count
  order : fill.rank = none → walk.order.ranks.Perm (List.range fill.owners.length)
  consumed : walk.config.continuation.primaryConsumed = true → fill.rank = none
  helper : walk.helper = .unset ∨ walk.helper = .off ∨ fill.rank = none
  fresh : walk.helper = .unset → walk.index = 0

/-- What every state of a fill keeps: a well-formed ranking, and a walk started for it. -/
structure Valid : Prop where
  owners : fill.owners.length ≤ maxHandoff
  rank : ∀ position ∈ fill.rank, position < fill.owners.length
  order : fill.rank = none → fill.order.ranks.Perm (List.range fill.owners.length)
  walks : ∀ walk, fill.walk = .candidates walk → fill.Walks walk

/-- The walk asks one target. -/
structure Asks (walk : CandidateWalk) (pending : Pending) (probe : Probe) : Prop where
  walking : fill.walk = .candidates walk
  asking : walk.Asking pending
  sent : fill.probe = some probe
  outstanding : Outstanding walk probe pending

/-- The remaining-copy walk asks one owner. -/
structure AsksRemaining (walk : RemainingWalk) (probe : Probe) : Prop where
  walking : fill.walk = .remaining walk
  asking : walk.pending = true
  owners : walk.owners = fill.owners.length
  index : walk.index = probe.canonical
  canonical : probe.canonical < fill.owners.length
  sent : fill.probe = some probe

end Fill

/-- What holds of a fill while an action is outstanding. -/
inductive Phase : Option Action → Prop
  | fresh (walk : fill.walk = .none)
      (unconsumed : fill.continuation.primaryConsumed = false) : Phase none
  | current {version} (walk : fill.walk = .none) (ranking : fill.ranking = .current)
      (unconsumed : fill.continuation.primaryConsumed = false) :
      Phase (some (.rank .current version))
  | previous {version} (walk : fill.walk = .none) (ranking : fill.ranking = .previous)
      (owner : fill.rank.isSome) (page : fill.page)
      (unconsumed : fill.continuation.primaryConsumed = false) :
      Phase (some (.rank .previous version))
  | fallback {version walk pending probe} (asks : fill.Asks walk pending probe)
      (ranking : fill.ranking = .fallback) (reader : fill.rank = none)
      (first : fill.retried = false) (owner : pending.handoff = false) :
      Phase (some (.rank .fallback version))
  | authority {version} (walk : fill.walk = .none) (ranking : fill.ranking = .authority)
      (owner : fill.rank = some fill.originRank) : Phase (some (.rank .authority version))
  | hints (walk : fill.walk = .none) (owner : fill.rank.isSome) (page : fill.page)
      (unconsumed : fill.continuation.primaryConsumed = false) : Phase (some .hints)
  | hedge {eligible first second} (walk : fill.walk = .none)
      (reader : eligible = true → fill.rank = none)
      (unconsumed : fill.continuation.primaryConsumed = false) :
      Phase (some (.hedge eligible first second))
  | hedgeRefresh (walk : fill.walk = .none) (hedged : fill.hedgeRefresh = true)
      (unconsumed : fill.continuation.primaryConsumed = false) (reader : fill.rank = none) :
      Phase (some .refresh)
  | refresh {walk pending probe} (asks : fill.Asks walk pending probe)
      (unhedged : fill.hedgeRefresh = false)
      (refreshes : pending.handoff = false ∧ pending.previous = false) : Phase (some .refresh)
  | probe {walk pending probe} (asks : fill.Asks walk pending probe) : Phase (some (.probe probe))
  | probeRemaining {walk probe} (asks : fill.AsksRemaining walk probe) : Phase (some (.probe probe))
  | validate {walk pending probe} (asks : fill.Asks walk pending probe) : Phase (some .validate)
  | validateRemaining {walk probe} (asks : fill.AsksRemaining walk probe) : Phase (some .validate)
  | batch {first count remainingOpportunities walk} (walks : fill.walk = .candidates walk)
      (sent : walk.batch ≠ 0) (pending : walk.pending = none) (done : walk.done = false) :
      Phase (some (.batch first count remainingOpportunities))
  | wait {duration walk} (waiting : fill.waiting = true) (walks : fill.walk = .candidates walk)
      (ready : walk.Ready) (reader : fill.rank = none) : Phase (some (.wait duration))
  | origin {rank} (walk : fill.walk = .none)
      (pending : fill.originPending = !fill.config.walkOnly) : Phase (some (.origin rank))
  | publish {source} (walk : fill.walk = .none) : Phase (some (.publish source))
  | done {result} (walk : fill.walk = .none) : Phase (some (.done result))

/-! ### Decisions -/

/-- The outcome an event gives an owner's outstanding probe. -/
def Fill.outcomeOf : Event → Option Outcome
  | .reply reply => fill.probe.bind fun probe =>
    match (fill.judge probe reply).2 with
    | .complete outcome | .unsent outcome => some outcome
    | _ => none
  | .validated (.ok none) => some .copy
  | .validated (.ok (some outcome)) => some (.probe outcome)
  | .membership latest _ =>
    match staleAction fill.retried fill.version latest with
    | .ok .refresh => some .staleMembership
    | .ok .skip => some .staleDestination
    | .error _ => none
  | _ => none

/-- The outcome an event completes the probe of an owner's candidate walk with. -/
def Fill.completion (event : Event) : Option Outcome :=
  match fill.walk with
  | .candidates _ => fill.outcomeOf event
  | _ => none

/-- The targets are known: race a hedge, or start the walk. -/
inductive Raced : Fill → Move → Prop
  | hedge (eligible : Bool) (first second : Nat) (reader : eligible = true → fill.rank = none) :
      Raced fill (.act (.hedge eligible first second))
  | start : Raced fill.startWalk.1 .plan

/-- A ranking of the page is adopted: an owner of a page asks for more targets first. -/
inductive Adopted (ranked : Ranked) : Fill → Move → Prop
  | previous (owner : ranked.rank.isSome) (page : fill.page) (version : Option Nat) :
      Adopted ranked { fill.adopt ranked with ranking := .previous }
        (.act (.rank .previous version))
  | hints (owner : ranked.rank.isSome) (page : fill.page) :
      Adopted ranked (fill.adopt ranked) (.act .hints)
  | raced {after move} (raced : Raced (fill.adopt ranked) after move) : Adopted ranked after move

/-- A copy was found: stop after the walk, or publish it. -/
inductive Delivered : Move → Prop
  | done (source : Source) : Delivered (.act (.done (.ok source)))
  | publish (source : Source) : Delivered (.act (.publish source))

/-- The outstanding probe of a candidate walk completes: its child budget settles, and the
outcome is recorded. -/
structure Completes (walk : CandidateWalk)
    (pending : Pending) (probe : Probe) (outcome : Outcome) (after : CandidateWalk)
    (left : AcquisitionBudget) (walkEnd : Option End) : Prop where
  asks : fill.Asks walk pending probe
  settles : (CandidateWalk.settle pending budget).2 = .ok ()
  completed : CandidateWalk.Completed walk after pending outcome walkEnd
  credits : CandidateWalk.SameCredits (CandidateWalk.settle pending budget).1 left

/-- What a fill decides on an event that answers its outstanding action: the outcome it
completes its candidate walk's probe with, if any, the fill up to its core, the read's budget,
and the move. -/
inductive Decided : Option Action → Option Outcome → Fill → AcquisitionBudget → Move → Prop
  | hit : Decided none none fill budget (.act (.done (.ok .local)))
  | begin : Decided none none { fill with ranking := .current } budget (.act (.rank .current none))
  | adopted {version after move} (ranked : Ranked) (told : event = .ranked (.ok ranked))
      (adopted : Adopted fill ranked after move) :
      Decided (some (.rank .current version)) none after budget move
  | previous {version} (result : Except Error Ranked) :
      Decided (some (.rank .previous version)) none (fill.previousRanked result) budget
        (.act .hints)
  | hinted {after move} (hints : List Nat) (rank0 : Rank0State)
      (raced : Raced (fill.hinted hints rank0) after move) :
      Decided (some .hints) none after budget move
  | unraced {eligible first second} : Decided (some (.hedge eligible first second)) none
      ({ fill with hedge := false }).startWalk.1 budget .plan
  | hedgeWon {eligible first second move} (delivered : Delivered move) :
      Decided (some (.hedge eligible first second)) none { fill with hedge := false } budget move
  | hedgeStale {first second} : Decided (some (.hedge true first second)) none { fill with
        hedge := false, continuation := { boundedRoutes := true }, hedgeRefresh := true } budget
        (.act .refresh)
  | hedgeLost {first second} (outcome : ProbeOutcome) :
      Decided (some (.hedge true first second)) none ({ fill with
        hedge := false
        continuation := {
          primaryConsumed := true, primaryOutcome := some outcome,
          boundedRoutes := true } }).startWalk.1 budget .plan
  | hedgeRefreshed (latest : Nat) (first : fill.retried = false)
      (walk : fill.walk = .none) (unconsumed : fill.continuation.primaryConsumed = false) :
      Decided (some .refresh) none { fill with retried := true, ranking := .current } budget
        (.act (.rank .current (some latest)))
  | hedgeSkipped (walk : fill.walk = .none)
      (unconsumed : fill.continuation.primaryConsumed = false) :
      Decided (some .refresh) none fill.startWalk.1 budget .plan
  | validate {probe} : Decided (some (.probe probe)) none fill budget (.act .validate)
  | refresh {walk pending probe} (asks : fill.Asks walk pending probe)
      (refreshes : pending.handoff = false ∧ pending.previous = false) :
      Decided (some (.probe probe)) none { fill with hedgeRefresh := false } budget (.act .refresh)
  | visited {last walk ended pending probe outcome left}
      (completes : Completes fill budget walk pending probe outcome ended left none) :
      Decided (some last) (some outcome) { fill with walk := .candidates ended } left .plan
  | copied {last walk ended pending probe outcome left move}
      (completes : Completes fill budget walk pending probe outcome ended left (some .copy))
      (delivered : Delivered move) :
      Decided (some last) (some outcome) { fill with walk := .none } left move
  | refreshed {last walk ended pending probe left} (latest : Nat) (first : fill.retried = false)
      (completes : Completes fill budget walk pending probe .staleMembership ended left
        (some .staleMembership)) :
      Decided (some last) (some .staleMembership) { fill with
        walk := .none, retried := true, continuation := { boundedRoutes := fill.bounded },
        ranking := .current } left (.act (.rank .current (some latest)))
  | fallsBack {walk pending probe} (version : Option Nat)
      (asks : fill.Asks walk pending probe) (reader : fill.rank = none)
      (first : fill.retried = false) (owner : pending.handoff = false) :
      Decided (some .refresh) none { fill with ranking := .fallback } budget
        (.act (.rank .fallback version))
  | waited {last walk pending probe left} (duration : Nat) (asks : fill.Asks walk pending probe)
      (settles : CandidateWalk.settle pending budget = (left, .ok ())) (reader : fill.rank = none)
      (owner : pending.handoff = false) (few : fill.waits < maxStaleWaits) :
      Decided (some last) none { fill with
        walk := .candidates { walk with pending := none }
        waits := fill.waits + 1
        waiting := true } left (.act (.wait duration))
  | fellBack {version walk ended pending probe base after left move walkEnd} (ranked : Ranked)
      (reader : ranked.rank = none) (first : fill.retried = false)
      (completes : Completes fill budget walk pending probe .staleDestination ended left walkEnd)
      (same : base.core = ({ fill with
        walk := .none, retried := true, continuation := {} }).core)
      (adopted : Adopted base ranked after move) :
      Decided (some (.rank .fallback version)) none after left move
  | waitOver {duration} : Decided (some (.wait duration)) none
      { fill with waiting := false } budget .plan
  | batched {first count remainingOpportunities walk} (walks : fill.walk = .candidates walk)
      (pending : walk.pending = none) (done : walk.done = false) :
      Decided (some (.batch first count remainingOpportunities)) none
        { fill with walk := .candidates { walk with batch := 0 } } budget .plan
  | batchCopied {first count remainingOpportunities move} (delivered : Delivered move) :
      Decided (some (.batch first count remainingOpportunities)) none
        { fill with walk := .none } budget move
  | authorized {version} : Decided (some (.rank .authority version)) none
      { fill with originPending := !fill.config.walkOnly } budget (.act (.origin fill.originRank))
  | fetched {rank} : Decided (some (.origin rank)) none
      { fill with originPending := false } budget (.act (.publish .origin))
  | missed {rank} : Decided (some (.origin rank)) none { fill with
        originPending := false
        walk := .remaining (RemainingWalk.new (fill.rank.getD 0) fill.owners.length) } budget .plan
  | remained {last walk ended probe left} (asks : fill.AsksRemaining walk probe)
      (owners : ended.owners = walk.owners) (index : ended.index = walk.index + 1)
      (pending : ended.pending = false) (credits : CandidateWalk.SameCredits budget left) :
      Decided (some last) none { fill with walk := .remaining ended } left .plan
  | remainingCopied {last walk probe} (asks : fill.AsksRemaining walk probe) :
      Decided (some last) none { fill with walk := .none } budget
        (.act (.publish .peer))
  | published {source} (source' : Source) : Decided (some (.publish source)) none
      fill budget (.act (.done (.ok source')))

/-- How a fill fails on an event: the walk and the budget it leaves for the failed read to
return. -/
inductive Failed : Fill → AcquisitionBudget → Prop
  | kept {after} (same : after.walk = fill.walk) : Failed after budget
  | unsettled {walk pending after error left} (walks : fill.walk = .candidates walk)
      (asking : walk.pending = some pending)
      (unsettles : CandidateWalk.settle pending budget = (left, .error error))
      (same : after.walk = .candidates { walk with pending := none }) : Failed after left
  | concluded {walk ended pending probe outcome after left walkEnd}
      (completes : Completes fill budget walk pending probe outcome ended left walkEnd)
      (same : after.walk = .none) : Failed after left

/-- A handler neither panics nor leaves the decisions above: it fails, or decides on a move. -/
def Handled (last : Option Action)
    (completed : Option Outcome) (result : Option (Turn Move)) : Prop :=
  ∃ turn, result = some turn ∧
    ((∃ error, turn.result = .error error ∧ Failed fill budget turn.fill turn.budget) ∨
      ∃ move after, turn.result = .ok move ∧ turn.fill.core = after.core ∧
        Decided fill budget event last completed after turn.budget move)

end

section

variable {fill noted after : Fill} {budget left : AcquisitionBudget} {event : Event}
  {last : Option Action} {completed : Option Outcome}

theorem Handled.decides {move : Move}
    (decided : Decided fill budget event last completed after left move)
    (same : noted.core = after.core) :
    Handled fill budget event last completed (some ⟨noted, left, .ok move⟩) :=
  ⟨_, rfl, .inr ⟨move, after, rfl, same, decided⟩⟩

theorem Handled.fails {error : Error} (failed : Failed fill budget after left) :
    Handled fill budget event last completed (some ⟨after, left, .error error⟩) :=
  ⟨_, rfl, .inl ⟨error, rfl, failed⟩⟩

end

/-! ### The targets of a walk -/

namespace Fill

variable {fill : Fill} {walk : CandidateWalk}

/-- A reader visits owners only. -/
theorem Walks.target_reader (walks : fill.Walks walk) (reader : fill.rank = none)
    {index canonical : Nat} (found : walk.target index = some canonical) :
    canonical < fill.owners.length ∧ index < fill.owners.length := by
  unfold target at found
  rw [walks.rank, reader] at found
  have member : walk.order.ranks[index]? = some canonical := found
  have ordered := walks.order reader
  constructor
  · exact List.mem_range.mp (ordered.mem_iff.mp (List.mem_of_getElem? member))
  · rw [← List.length_range (n := fill.owners.length), ← ordered.length_eq]
    exact (List.getElem?_eq_some_iff.mp member).1

/-- An owner asks the owners before it, at most two, and then its handoff targets. -/
theorem Walks.target_owner (walks : fill.Walks walk) {rank : Nat} (owner : fill.rank = some rank)
    {index canonical : Nat} (found : walk.target index = some canonical) :
    index < min rank 2 ∧ canonical = index ∨
      min rank 2 ≤ index ∧ canonical = fill.owners.length + (index - min rank 2) ∧
        index - min rank 2 < min fill.handoff.length maxTargets := by
  rw [← walks.owners, ← walks.handoff]
  exact (CandidateWalk.target_owner (walks.rank.trans owner) walks.targets found).2

/-- An owner's probe has a destination. -/
theorem Walks.dest_owner (walks : fill.Walks walk) (valid : fill.Valid) {rank : Nat}
    (owner : fill.rank = some rank) {index : Nat} {probe : Probe}
    (found : walk.target index = some probe.canonical) : (fill.dest probe).isSome := by
  have ranked := valid.rank rank owner
  unfold dest
  rcases walks.target_owner owner found with ⟨before, same⟩ | ⟨-, same, inside⟩
  · have listed : probe.canonical < fill.owners.length :=
      same ▸ lt_of_lt_of_le before (le_trans (Nat.min_le_left rank 2) ranked.le)
    rw [if_pos listed, List.getElem?_eq_getElem listed]
    rfl
  · have past : ¬ probe.canonical < fill.owners.length := by
      rw [same]
      exact Nat.not_lt.mpr (Nat.le_add_right _ _)
    have short : probe.canonical - fill.owners.length < fill.handoff.length := by
      rw [same, Nat.add_sub_cancel_left]
      exact lt_of_lt_of_le inside (Nat.min_le_left _ _)
    rw [if_neg past, owner, List.getElem?_eq_getElem short]
    rfl

theorem Asks.ungranted {pending : Pending} {probe : Probe} (asks : fill.Asks walk pending probe)
    (owner : pending.handoff = false) : pending.granted = false := by
  have outstanding := asks.outstanding
  cases outstanding with
  | helper => rfl
  | target _ _ _ _ _ granted _ _ grants =>
    cases granted with
    | false => rfl
    | true => exact Bool.noConfusion (owner.symm.trans (grants rfl))

/-! ### What each handler decides -/

variable {budget : AcquisitionBudget} {event : Event} {last : Action} {now : Nat}

theorem walkOrHedge_raced (fill : Fill) :
    Raced fill (fill.walkOrHedge budget).1 (fill.walkOrHedge budget).2 := by
  unfold walkOrHedge
  split
  · exact .start
  refine .hedge _ _ _ fun eligible => ?_
  simp only [hedgeEligible, Bool.and_eq_true, Bool.not_eq_true', isSome_eq_false_iff,
    isNone_iff_eq_none] at eligible
  exact eligible.1.1.1.1.1.2

theorem ranked_cases (fill : Fill) (ranked : Ranked) (budget : AcquisitionBudget) :
    fill.ranked ranked budget = (fill, .error .unavailable) ∨
      ∃ after move, fill.ranked ranked budget = (after, .ok move) ∧
        Adopted fill ranked after move := by
  unfold Fill.ranked
  split
  · exact .inl rfl
  dsimp only
  split
  · rename_i owner
    have page : fill.page = true := owner.2.1
    exact .inr ⟨{ fill.adopt ranked with ranking := .previous }, _, rfl, .previous owner.1 page _⟩
  · refine .inr ⟨((fill.adopt ranked).targets budget).1, ((fill.adopt ranked).targets budget).2,
      rfl, ?_⟩
    unfold targets
    split
    · rename_i owner
      exact .hints owner.1 owner.2
    · exact .raced (walkOrHedge_raced _)

theorem walked_delivered (fill : Fill) (source : Source) :
    Delivered (.act (fill.walked source).2) ∧ (fill.walked source).1.core = fill.core := by
  unfold walked
  split
  · exact ⟨.done source, rfl⟩
  · exact ⟨.publish source, rfl⟩

theorem after_none (fill : Fill) (skipped : Bool) :
    (fill.after none skipped).1.core = fill.core := by
  unfold after
  dsimp only
  split <;> rfl

variable {pending : Pending} {probe : Probe} {noted : Fill}

/-- Completing the probe of a candidate walk: the child does not settle, or the walk goes on, or
it ends. -/
theorem completeVisit_handled (asks : fill.Asks walk pending probe) (same : noted.core = fill.core)
    (outcome : Outcome) (skipped : Bool)
    (fresh : outcome = .staleMembership → pending.handoff = false → pending.previous = false →
      fill.retried = false) :
    Handled fill budget event (some last) (some outcome)
      (noted.completeVisit walk outcome skipped budget) := by
  unfold completeVisit
  rcases complete_cases asks.asking.pending budget outcome with
    ⟨_, unsettles, completed⟩ | ⟨ended, left, walkEnd, settles, completed, records, credits⟩
  · rw [completed]
    exact .fails (.unsettled asks.walking asks.asking.pending (Prod.ext rfl unsettles) rfl)
  · rw [completed]
    refine ⟨_, rfl, ?_⟩
    have completes : Completes fill budget walk pending probe outcome ended left walkEnd :=
      ⟨asks, settles, records, credits⟩
    have gone : ({ noted with walk := .candidates ended }).leave.core =
        ({ fill with walk := .none }).core := by
      rw [core_leave]
      exact congrArg (fun fill => { fill with walk := .none }) same
    rcases records.ending with rfl | rfl | ⟨rfl, rfl, handoff, previous⟩ | rfl
    · refine .inr ⟨.plan, _, rfl, ?_, .visited completes⟩
      exact (after_none { noted with walk := .candidates ended } skipped).trans
        (congrArg (fun fill => { fill with walk := .candidates ended }) same)
    · obtain ⟨delivered, kept⟩ := walked_delivered
        (({ noted with walk := .candidates ended }).leave.note Notes.walkCopy) .peer
      exact .inr ⟨_, _, rfl, kept.trans gone, .copied completes delivered⟩
    · refine .inr ⟨_, _, rfl, ?_, .refreshed _ (fresh rfl handoff previous) completes⟩
      exact congrArg (fun fill => { fill with
        retried := true
        continuation := { boundedRoutes := fill.bounded }
        ranking := .current }) gone
    · exact .inl ⟨_, rfl, .concluded completes (core_walk gone)⟩

/-- What a reply comes to. Only an answer to a probe that may refresh asks for the newest
membership; the others record it as an outcome. -/
inductive Judged (fill : Fill) (reply : Reply) : Fill → Verdict → Prop
  | complete {after} (outcome : Outcome) (same : after.core = fill.core)
      (stale : outcome = .staleMembership → fill.noRefresh = true)
      (signed : outcome = .failed → after.signed = true) :
      Judged fill reply after (.complete outcome)
  | unsent {after error scopeLive} (outcome : ProbeOutcome) (same : after.core = fill.core)
      (failed : reply = .failed error false scopeLive)
      (overloads : outcome = .overloaded → error = .overloaded) (silent : after.out.rank0 = none) :
      Judged fill reply after (.unsent (.transport outcome))
  | validate {after} (same : after.core = fill.core) : Judged fill reply after (.act .validate)
  | refresh {after} (same : after.core = ({ fill with hedgeRefresh := false }).core)
      (refreshes : fill.noRefresh = false) (candidates : ∀ walk, fill.walk ≠ .remaining walk) :
      Judged fill reply after (.act .refresh)
  | fail {after} (error : Error) (same : after.core = fill.core) :
      Judged fill reply after (.fail error)

theorem transportOutcome_overloaded {error : Error}
    (overloads : transportOutcome error = some .overloaded) : error = .overloaded := by
  cases error with
  | overloaded => rfl
  | _ => cases overloads

theorem answer_judged (probe : Probe) (kind : ResponseKind) (signed : Bool) (reply : Reply)
    (same : noted.core = fill.core) :
    Judged fill reply (noted.answer probe kind signed).1 (noted.answer probe kind signed).2 := by
  have heard : (noted.heard kind signed).core = fill.core := same
  have walks : (noted.heard kind signed).walk = fill.walk := core_walk heard
  have refreshes : (noted.heard kind signed).noRefresh = fill.noRefresh :=
    core_field noRefresh (fun _ => rfl) heard
  unfold answer
  dsimp only
  split
  · exact .complete _ heard nofun nofun
  split
  · split
    · exact .fail _ heard
    rename_i candidates
    split
    · rename_i blocked
      exact .complete _ heard (fun _ => refreshes ▸ blocked) nofun
    · rename_i allowed
      refine .refresh (congrArg (fun fill => { fill with hedgeRefresh := false }) heard)
        (refreshes ▸ Bool.eq_false_iff.mpr allowed) fun walk remaining => candidates ?_
      rw [walks, remaining]
      rfl
  · split
    · rename_i unavailable
      exact .complete _ heard nofun fun _ => unavailable.2.1
    · split
      · exact .validate heard
      split
      · exact .complete _ heard nofun nofun
      split
      · exact .complete _ heard nofun nofun
      · exact .fail _ heard

theorem judge_judged (fill : Fill) (probe : Probe) (reply : Reply) :
    Judged fill reply (fill.judge probe reply).1 (fill.judge probe reply).2 := by
  have noted : ({ fill.pending with signed := false }).core = fill.core := core_pending fill
  unfold judge
  dsimp only
  split
  · exact answer_judged probe _ _ _ noted
  · exact .complete _ ((core_unanswered _ probe).trans noted) nofun nofun
  · rename_i sent _
    split
    · rename_i outcome transports
      cases sent with
      | true => exact .complete _ noted nofun nofun
      | false =>
        refine .unsent outcome noted rfl (fun overloads => ?_) rfl
        exact transportOutcome_overloaded (overloads ▸ transports)
    · split
      · cases sent with
        | true => exact .complete _ noted nofun nofun
        | false => exact .unsent .unreachable noted rfl nofun rfl
      · split <;> exact .fail _ noted

section

variable (asks : fill.Asks walk pending probe) (same : noted.core = fill.core) (outcome : Outcome)
  (fresh : outcome = .staleMembership → pending.handoff = false → pending.previous = false →
    fill.retried = false)

include asks same outcome fresh

theorem walkComplete_handled :
    Handled fill budget event (some last) (some outcome) (noted.walkComplete outcome budget) := by
  have walks : noted.walk = .candidates walk := (core_walk same).trans asks.walking
  unfold walkComplete
  rw [walks]
  exact completeVisit_handled asks same outcome false fresh

theorem complete_handled :
    Handled fill budget event (some last) (some outcome) (noted.complete outcome budget) := by
  refine walkComplete_handled asks ?_ outcome fresh
  rw [core_noteRank0, core_report, core_pending]
  exact same

end

section

variable {walk : RemainingWalk} (asks : fill.AsksRemaining walk probe)
  (same : noted.core = fill.core) (outcome : Outcome)

include asks same outcome

/-- An outcome of the remaining-copy walk's probe: a copy ends the walk. -/
theorem walkComplete_remaining :
    Handled fill budget event (some last) none (noted.walkComplete outcome budget) := by
  have walks : noted.walk = .remaining walk := (core_walk same).trans asks.walking
  unfold walkComplete
  rw [walks]
  rcases RemainingWalk.complete_cases asks.asking budget outcome with
    ⟨ended, copied⟩ | ⟨ended, _, goes, owners, index, pending, credits⟩
  · dsimp only
    rw [copied]
    exact .decides (.remainingCopied asks)
      (congrArg (fun fill => { fill with walk := .none }) same)
  · dsimp only
    rw [goes]
    exact .decides (.remained asks owners index pending credits)
      (congrArg (fun fill => { fill with walk := .remaining ended }) same)

theorem complete_remaining :
    Handled fill budget event (some last) none (noted.complete outcome budget) := by
  refine walkComplete_remaining asks ?_ outcome
  rw [core_noteRank0, core_report, core_pending]
  exact same

end

section

variable (asks : fill.Asks walk pending probe)

include asks

theorem Asks.noRefresh_eq : fill.noRefresh = (pending.handoff || pending.previous) := by
  unfold noRefresh Fill.outstanding
  rw [asks.walking]
  dsimp only
  rw [asks.asking.pending]
  rfl

theorem Asks.completion_eq (event : Event) : fill.completion event = fill.outcomeOf event := by
  unfold completion
  rw [asks.walking]

theorem reply_handled (reply : Reply) :
    Handled fill budget event (some (.probe probe)) (fill.completion (.reply reply))
      (fill.reply reply budget) := by
  have judged := judge_judged fill probe reply
  rw [asks.completion_eq]
  simp only [Fill.reply, outcomeOf, asks.sent, bind_some]
  generalize fill.judge probe reply = judgement at judged ⊢
  obtain ⟨_, _⟩ := judgement
  cases judged with
  | complete outcome same stale =>
    refine complete_handled asks same outcome fun refreshed handoff previous => ?_
    have blocked := stale refreshed
    rw [asks.noRefresh_eq, handoff, previous] at blocked
    cases blocked
  | unsent _ same => exact walkComplete_handled asks same _ nofun
  | validate same => exact .decides .validate same
  | refresh same refreshes =>
    rw [asks.noRefresh_eq, Bool.or_eq_false_iff] at refreshes
    exact .decides (.refresh asks refreshes) same
  | fail _ same => exact .fails (.kept (core_walk same))

end

theorem reply_remaining {walk : RemainingWalk} (asks : fill.AsksRemaining walk probe)
    (reply : Reply) :
    Handled fill budget event (some (.probe probe)) none (fill.reply reply budget) := by
  have judged := judge_judged fill probe reply
  simp only [Fill.reply, asks.sent, bind_some]
  generalize fill.judge probe reply = judgement at judged ⊢
  obtain ⟨_, _⟩ := judgement
  cases judged with
  | complete outcome same => exact complete_remaining asks same outcome
  | unsent _ same => exact walkComplete_remaining asks same _
  | validate same => exact .decides .validate same
  | refresh same _ candidates => exact absurd asks.walking (candidates walk)
  | fail _ same => exact .fails (.kept (core_walk same))

/-! ### A destination that is behind -/

theorem skip_handled (asks : fill.Asks walk pending probe) (same : noted.core = fill.core) :
    Handled fill budget event (some last) (some .staleDestination) (noted.skip budget) := by
  unfold skip
  generalize (if noted.rank.isSome then Notes.staleSkip ||| Notes.ownerStaleSkip
    else Notes.staleSkip) = bits
  have kept : (noted.noteBehind bits).core = fill.core := (core_noteBehind noted bits).trans same
  have walks : (noted.noteBehind bits).walk = .candidates walk :=
    (core_walk kept).trans asks.walking
  dsimp only
  rw [walks]
  exact completeVisit_handled asks kept .staleDestination true nofun

theorem retryPending_eq (asking : walk.pending = some pending) (ungranted : pending.granted = false)
    (budget : AcquisitionBudget) :
    walk.retryPending budget =
      ({ walk with pending := none }, CandidateWalk.settle pending budget) := by
  obtain ⟨bounded, _⟩ := pending
  cases ungranted
  unfold retryPending settle
  rw [asking]
  cases bounded <;> rfl

theorem staleWait_some {waits remaining duration : Nat} {affordable : Bool}
    (waiting : Read.staleWait waits affordable remaining = some duration) :
    waits < maxStaleWaits := by
  unfold Read.staleWait at waiting
  split at waiting
  · cases waiting
  · rename_i allowed
    exact Nat.lt_of_not_le fun many => allowed (.inl many)

theorem wait_cases (walks : fill.walk = .candidates walk) (asking : walk.pending = some pending)
    (ungranted : pending.granted = false) (budget : AcquisitionBudget) (now : Nat) :
    fill.wait budget now = ⟨fill, budget, .ok none⟩ ∨
      (∃ error left, CandidateWalk.settle pending budget = (left, .error error) ∧
        fill.wait budget now =
          ⟨{ fill with walk := .candidates { walk with pending := none } }, left, .error error⟩) ∨
      ∃ duration left, settle pending budget = (left, .ok ()) ∧ fill.waits < maxStaleWaits ∧
        fill.wait budget now = ⟨{ fill with
              walk := .candidates { walk with pending := none }
              waits := fill.waits + 1
              waiting := true }, left, .ok (some duration)⟩ := by
  unfold wait
  split
  · exact .inl rfl
  rw [walks]
  dsimp only
  split
  · exact .inl rfl
  rename_i duration waits
  have few := staleWait_some waits
  have counted : Word.saturatingAdd 8 fill.waits 1 = fill.waits + 1 :=
    Nat.min_eq_left (by rw [maxStaleWaits] at few; omega)
  rw [retryPending_eq asking ungranted budget, counted]
  rcases settled : settle pending budget with ⟨left, error | _⟩
  · exact .inr (.inl ⟨error, left, rfl, rfl⟩)
  · exact .inr (.inr ⟨duration, left, rfl, few, rfl⟩)

/-- A reader waits for a destination that is behind, or skips it. -/
theorem waitOrSkip_handled (asks : fill.Asks walk pending probe) (same : noted.core = fill.core)
    (reader : fill.rank = none) (owner : pending.handoff = false) (denied : Bool) :
    ∃ completed, Handled fill budget event (some last) completed
      (noted.waitOrSkip denied budget now) := by
  have walks : noted.walk = .candidates walk := (core_walk same).trans asks.walking
  have waited : noted.waits = fill.waits := core_field (·.waits) (fun _ => rfl) same
  unfold waitOrSkip
  rcases wait_cases walks asks.asking.pending (asks.ungranted owner) budget now with
    skips | ⟨_, left, unsettles, fails⟩ | ⟨duration, _, settles, few, waits⟩
  · rw [skips]
    exact ⟨_, skip_handled asks same⟩
  · rw [fails]
    exact ⟨none, .fails (.unsettled asks.walking asks.asking.pending unsettles rfl)⟩
  · rw [waits]
    rw [waited] at few
    refine ⟨none, .decides (.waited duration asks settles reader owner few) ?_⟩
    have waiting := congrArg (fun fill : Fill => { fill with
      walk := .candidates { walk with pending := none }
      waits := fill.waits + 1
      waiting := true }) same
    cases denied with
    | false | true => exact waiting

theorem staleAction_refresh {retried : Bool} {previous : Nat} {latest : Option Nat}
    (refreshes : staleAction retried previous latest = .ok .refresh) : retried = false := by
  cases latest with
  | none => cases refreshes
  | some =>
    cases retried with
    | false => rfl
    | true => cases refreshes

theorem fallsBack_first {previousRecentMember : Bool}
    (falls : fill.fallsBack previousRecentMember = true) :
    fill.rank = none ∧ fill.retried = false := by
  simp only [fallsBack, previousFallback, Bool.and_eq_true, Bool.not_eq_true',
    isSome_eq_false_iff, isNone_iff_eq_none, Bool.or_eq_false_iff] at falls
  exact ⟨falls.2.1.1, falls.2.1.2.1⟩

/-- The newest membership after a destination's `staleMembership` answer: refresh, fall back,
wait or skip. -/
theorem membership_handled (asks : fill.Asks walk pending probe)
    (unhedged : fill.hedgeRefresh = false) (owner : pending.handoff = false) (latest : Option Nat)
    (previousRecentMember : Bool) :
    ∃ completed, (fill.rank.isSome →
        completed = fill.completion (.membership latest previousRecentMember)) ∧
      Handled fill budget event (some .refresh) completed
        (fill.membership latest previousRecentMember budget now) := by
  have serial : ¬ fill.hedgeRefresh = true := Bool.eq_false_iff.mp unhedged
  rw [asks.completion_eq]
  simp only [membership, outcomeOf, if_neg serial]
  rcases decision : staleAction fill.retried fill.version latest with _ | _ | _
  · refine ⟨none, fun _ => rfl, .fails (.kept ?_)⟩
    exact core_walk ((core_report _ _).trans (core_pending fill))
  · have noted : ({ fill with latest := latest.getD 0 }).core = fill.core := rfl
    exact ⟨_, fun _ => rfl, complete_handled asks noted .staleMembership
      fun _ _ _ => staleAction_refresh decision⟩
  · dsimp only
    split
    · rename_i falls
      obtain ⟨reader, first⟩ := fallsBack_first falls
      refine ⟨none, fun ranked => ?_, .decides (.fallsBack _ asks reader first owner) rfl⟩
      rw [reader] at ranked
      cases ranked
    · split
      · rename_i reader
        rw [isNone_iff_eq_none] at reader
        obtain ⟨completed, handled⟩ := waitOrSkip_handled asks rfl reader owner false
        refine ⟨completed, fun ranked => ?_, handled⟩
        rw [reader] at ranked
        cases ranked
      · exact ⟨_, fun _ => rfl, skip_handled asks rfl⟩

/-- The newest membership after a hedge that lost to a newer one. -/
theorem membership_hedged (walk : fill.walk = .none) (hedged : fill.hedgeRefresh = true)
    (unconsumed : fill.continuation.primaryConsumed = false) (latest : Option Nat)
    (previousRecentMember : Bool) :
    Handled fill budget event (some .refresh) none
      (fill.membership latest previousRecentMember budget now) := by
  simp only [membership, if_pos hedged]
  rcases decision : staleAction fill.retried fill.version latest with _ | _ | _
  · exact .fails (.kept rfl)
  · exact .decides (.hedgeRefreshed _ (staleAction_refresh decision) walk unconsumed) rfl
  · exact .decides (.hedgeSkipped walk unconsumed) rfl

/-- Leaving the current walk completes its outstanding probe; nothing is left to abandon. -/
theorem abandonEpoch_cases (asks : fill.Asks walk pending probe) (budget : AcquisitionBudget) :
    ∃ turn, fill.abandonEpoch budget = some turn ∧
      ((∃ error, turn.result = .error error ∧ Failed fill budget turn.fill turn.budget) ∨
        turn.result = .ok () ∧ ∃ ended walkEnd concluded,
          Completes fill budget walk pending probe .staleDestination ended turn.budget walkEnd ∧
          turn.fill.core = ({ fill with walk := .candidates concluded }).core) := by
  have kept := core_noteBehind fill (Notes.staleSkip ||| Notes.fallback)
  have walks : (fill.noteBehind (Notes.staleSkip ||| Notes.fallback)).walk = .candidates walk :=
    (core_walk kept).trans asks.walking
  simp only [abandonEpoch, walks]
  rcases complete_cases asks.asking.pending budget .staleDestination with
    ⟨error, unsettles, completed⟩ | ⟨ended, left, walkEnd, settles, completed, records, credits⟩
  · rw [completed]
    exact ⟨_, rfl, .inl ⟨error, rfl, .unsettled asks.walking asks.asking.pending
      (Prod.ext rfl unsettles) rfl⟩⟩
  · have dropped : ended.abandon left =
        ({ ended with done := true, batch := 0, pending := none }, left, .ok ()) := by
      unfold abandon
      rw [records.outstanding]
    rw [completed]
    simp only [map_some, dropped]
    exact ⟨_, rfl, .inr ⟨rfl, ended, walkEnd, _, ⟨asks, settles, records, credits⟩,
      congrArg (fun fill : Fill => { fill with
        walk := .candidates { ended with done := true, batch := 0, pending := none } }) kept⟩⟩

/-- The previous membership's ranking: walk it, or keep walking the current one. -/
theorem fallbackRanked_handled (asks : fill.Asks walk pending probe) (reader : fill.rank = none)
    (owner : pending.handoff = false) (first : fill.retried = false) {version : Option Nat}
    (result : Except Error Ranked) :
    ∃ completed, Handled fill budget event (some (.rank .fallback version)) completed
      (fill.fallbackRanked result budget now) := by
  unfold fallbackRanked
  cases result with
  | error =>
    exact waitOrSkip_handled asks (by rfl) reader owner false
  | ok ranked =>
    dsimp only
    split
    · rename_i allowed
      have owned : ranked.rank = none := by
        simp only [fallbackAllowed, Bool.and_eq_true, isNone_iff_eq_none] at allowed
        exact allowed.2
      obtain ⟨turn, abandons, ⟨error, fails, failed⟩ | ⟨settled, _, _, concluded, completes,
        same⟩⟩ := abandonEpoch_cases asks budget
      · rw [abandons]
        refine ⟨none, _, rfl, .inl ⟨error, ?_, ?_⟩⟩ <;> simp only [fails]
        exact failed
      · rw [abandons]
        simp only [map_some, settled]
        have base : ({ turn.fill with
            walk := .none, retried := true, continuation := {} } : Fill).core =
            ({ fill with walk := .none, retried := true, continuation := {} } : Fill).core :=
          congrArg (fun fill : Fill => { fill with
            walk := .none, retried := true, continuation := {} }) same
        rcases ranked_cases { turn.fill with walk := .none, retried := true, continuation := {} }
          ranked turn.budget with unranked | ⟨after, move, adopts, adopted⟩
        · rw [unranked]
          exact ⟨none, .fails (.concluded completes rfl)⟩
        · rw [adopts]
          exact ⟨none, .decides (.fellBack ranked owned first completes base adopted) rfl⟩
    · exact waitOrSkip_handled asks (by rfl) reader owner true

/-! ### Every event -/

theorem completion_none (walk : fill.walk = .none) (event : Event) :
    fill.completion event = none := by
  unfold completion
  rw [walk]

theorem completion_remaining {walk : RemainingWalk} (walks : fill.walk = .remaining walk)
    (event : Event) : fill.completion event = none := by
  unfold completion
  rw [walks]

theorem completion_of_outcomeOf {event : Event} (silent : fill.outcomeOf event = none) :
    fill.completion event = none := by
  unfold completion
  split
  · exact silent
  · rfl

/-- How the hedge ended: walk, deliver its page, or refresh. -/
theorem hedged_handled {eligible : Bool} {first second : Nat} (hedgeEnd : HedgeEnd)
    (raced : hedgeEnd ≠ .notStarted → eligible = true) :
    Handled fill budget event (some (.hedge eligible first second)) none
      (some ⟨(fill.hedged hedgeEnd).1, budget, (fill.hedged hedgeEnd).2⟩) := by
  unfold hedged
  cases hedgeEnd with
  | notStarted => exact .decides .unraced rfl
  | won =>
    obtain ⟨delivered, same⟩ := walked_delivered { fill with hedge := false } .hedge
    exact .decides (.hedgeWon delivered) same
  | lost stale primary =>
    cases raced nofun
    dsimp only
    split
    · exact .fails (.kept rfl)
    cases stale with
    | true => exact .decides .hedgeStale rfl
    | false => exact .decides (.hedgeLost (primary.getD .unreachable)) rfl

/-- An owner's previous ranking adds targets, and it asks for hints next. -/
theorem previousRanked_handled (owner : fill.rank.isSome) (page : fill.page = true)
    {version : Option Nat} (result : Except Error Ranked) :
    Handled fill budget event (some (.rank .previous version)) none
      (some ⟨((fill.previousRanked result).targets budget).1, budget,
        .ok ((fill.previousRanked result).targets budget).2⟩) := by
  have hints : (fill.previousRanked result).targets budget =
      (fill.previousRanked result, .act .hints) := by
    have kept : (fill.previousRanked result).rank = fill.rank ∧
        (fill.previousRanked result).page = fill.page := by
      unfold previousRanked
      split <;> exact ⟨rfl, rfl⟩
    unfold targets
    rw [kept.1, kept.2, if_pos ⟨owner, page⟩]
  rw [hints]
  exact .decides (.previous result) rfl

theorem authorityRanked_handled {version : Option Nat} (result : Except Error Ranked) :
    Handled fill budget event (some (.rank .authority version)) none
      (some ⟨(fill.authorityRanked result).1, budget, (fill.authorityRanked result).2⟩) := by
  unfold authorityRanked
  cases result with
  | error => exact .fails (.kept rfl)
  | ok =>
    dsimp only
    split
    · exact .fails (.kept rfl)
    · exact .decides .authorized rfl

theorem takeOrigin_handled {rank : Nat} (pending : fill.originPending = true)
    (result : Except Error Unit) :
    Handled fill budget event (some (.origin rank)) none
      ((fill.takeOrigin result).map fun taken => ⟨taken.1, budget, taken.2⟩) := by
  unfold takeOrigin
  rw [pending, Bool.not_true, if_neg Bool.false_ne_true]
  split
  · exact .decides .fetched rfl
  · exact .decides .missed rfl
  · exact .fails (.kept rfl)

/-- Only a reader's probe of the helper may find no destination. -/
theorem noHelper_handled (valid : fill.Valid) (asks : fill.Asks walk pending probe)
    (unaddressed : fill.dest probe = none) :
    fill.rank = none ∧ Handled fill budget event (some (.probe probe)) (some (.probe .copyMiss))
      (fill.dispatch .noHelper budget now) := by
  constructor
  · have walks := valid.walks walk asks.walking
    have outstanding := asks.outstanding
    cases outstanding with
    | helper _ reader => exact walks.rank.symm.trans reader
    | target _ _ _ _ _ _ found =>
      rcases ranked : fill.rank with _ | _
      · rfl
      have addressed := walks.dest_owner valid ranked found
      rw [unaddressed] at addressed
      cases addressed
  · simp only [dispatch, asks.walking]
    exact completeVisit_handled asks rfl _ false nofun

theorem AsksRemaining.addressed {walk : RemainingWalk}
    (asks : fill.AsksRemaining walk probe) : fill.dest probe ≠ none := by
  unfold dest
  rw [if_pos asks.canonical, List.getElem?_eq_getElem asks.canonical]
  exact some_ne_none _

theorem validated_handled (asks : fill.Asks walk pending probe)
    (result : Except Error (Option ProbeOutcome)) :
    Handled fill budget event (some .validate) (fill.completion (.validated result))
      (fill.dispatch (.validated result) budget now) := by
  rw [asks.completion_eq]
  rcases result with _ | _ | _
  · refine .fails (.kept ?_)
    exact core_walk ((core_report _ _).trans (core_pending fill))
  · exact complete_handled asks rfl _ nofun
  · exact complete_handled asks rfl _ nofun

theorem validated_remaining {walk : RemainingWalk} (asks : fill.AsksRemaining walk probe)
    (result : Except Error (Option ProbeOutcome)) :
    Handled fill budget event (some .validate) none
      (fill.dispatch (.validated result) budget now) := by
  rcases result with _ | _ | _
  · refine .fails (.kept ?_)
    exact core_walk ((core_report _ _).trans (core_pending fill))
  · exact complete_remaining asks rfl _
  · exact complete_remaining asks rfl _

theorem batchDone_handled {first count remainingOpportunities : Nat}
    (walks : fill.walk = .candidates walk) (sent : walk.batch ≠ 0) (pending : walk.pending = none)
    (done : walk.done = false) (copy : Bool) :
    Handled fill budget event (some (.batch first count remainingOpportunities)) none
      (fill.dispatch (.batchDone copy) budget now) := by
  simp only [dispatch, walks, completeGranted, if_neg sent]
  cases copy with
  | true =>
    obtain ⟨delivered, kept⟩ := walked_delivered (({ fill with
        walk := .candidates { walk with batch := 0, done := true } }).leave.note
          Notes.walkCopy) .peer
    exact .decides (.batchCopied delivered) (kept.trans (core_leave _))
  | false =>
    refine .decides (.batched walks pending done) ?_
    exact after_none { fill with walk := .candidates { walk with batch := 0 } } false

/-- An event that answers the outstanding action is handled: no assertion fails, and the fill
fails or decides. -/
theorem dispatch_handled {last : Option Action} {event : Event} (valid : fill.Valid)
    (phase : Phase fill last) (answers : Answers fill last event) (budget : AcquisitionBudget)
    (now : Nat) :
    ∃ completed, (fill.rank.isSome → completed = fill.completion event) ∧
      Handled fill budget event last completed (fill.dispatch event budget now) := by
  cases answers with
  | start localHit =>
    cases phase with
    | fresh walk =>
      refine ⟨none, fun _ => (completion_none walk _).symm, ?_⟩
      cases localHit with
      | true => exact .decides .hit rfl
      | false => exact .decides .begin rfl
  | rank result =>
    simp only [dispatch, takeRanked]
    cases phase with
    | current walk ranking =>
      rw [ranking]
      refine ⟨none, fun _ => (completion_none walk _).symm, ?_⟩
      cases result with
      | error error => exact .fails (.kept rfl)
      | ok ranked =>
        rcases ranked_cases fill ranked budget with unranked | ⟨after, move, adopts, adopted⟩
        · exact ⟨_, rfl, .inl ⟨.unavailable, congrArg Prod.snd unranked,
            .kept (congrArg (fun taken => taken.1.walk) unranked)⟩⟩
        · exact ⟨_, rfl, .inr ⟨move, after, congrArg Prod.snd adopts,
            congrArg (fun taken => taken.1.core) adopts, .adopted ranked rfl adopted⟩⟩
    | previous walk ranking owner page =>
      rw [ranking]
      exact ⟨none, fun _ => (completion_none walk _).symm, previousRanked_handled owner page result⟩
    | fallback asks ranking reader first owner =>
      rw [ranking]
      obtain ⟨completed, handled⟩ := fallbackRanked_handled asks reader owner first result
      refine ⟨completed, fun ranked => ?_, handled⟩
      rw [reader] at ranked
      cases ranked
    | authority walk ranking =>
      rw [ranking]
      exact ⟨none, fun _ => (completion_none walk _).symm, authorityRanked_handled result⟩
  | hints hints rank0 =>
    cases phase with
    | hints walk =>
      exact ⟨none, fun _ => (completion_none walk _).symm,
        .decides (.hinted hints rank0 (walkOrHedge_raced _)) rfl⟩
  | hedge hedgeEnd raced =>
    cases phase with
    | hedge walk =>
      exact ⟨none, fun _ => (completion_none walk _).symm, hedged_handled hedgeEnd raced⟩
  | refresh latest previousRecentMember =>
    cases phase with
    | hedgeRefresh walk hedged unconsumed =>
      exact ⟨none, fun _ => (completion_none walk _).symm,
        membership_hedged walk hedged unconsumed latest previousRecentMember⟩
    | refresh asks unhedged refreshes =>
      exact membership_handled asks unhedged refreshes.1 latest previousRecentMember
  | probe reply =>
    cases phase with
    | probe asks => exact ⟨_, fun _ => rfl, reply_handled asks reply⟩
    | probeRemaining asks =>
      exact ⟨none, fun _ => (completion_remaining asks.walking _).symm, reply_remaining asks reply⟩
  | noHelper unaddressed =>
    cases phase with
    | probe asks =>
      obtain ⟨reader, handled⟩ := noHelper_handled valid asks unaddressed
      refine ⟨_, fun owner => ?_, handled⟩
      rw [reader] at owner
      cases owner
    | probeRemaining asks => exact absurd unaddressed asks.addressed
  | validate result =>
    cases phase with
    | validate asks => exact ⟨_, fun _ => rfl, validated_handled asks result⟩
    | validateRemaining asks =>
      exact ⟨none, fun _ => (completion_remaining asks.walking _).symm,
        validated_remaining asks result⟩
  | batch copy =>
    cases phase with
    | batch walks sent pending done =>
      exact ⟨none, fun _ => (completion_of_outcomeOf rfl).symm,
        batchDone_handled walks sent pending done copy⟩
  | wait =>
    cases phase with
    | wait waiting =>
      refine ⟨none, fun _ => (completion_of_outcomeOf rfl).symm, ?_⟩
      simp only [dispatch, waiting, if_true]
      exact .decides .waitOver rfl
  | origin result fetches =>
    cases phase with
    | origin walk pending =>
      rw [fetches] at pending
      exact ⟨none, fun _ => (completion_none walk _).symm, takeOrigin_handled pending result⟩
  | publish result =>
    cases phase with
    | publish walk =>
      refine ⟨none, fun _ => (completion_none walk _).symm, ?_⟩
      cases result with
      | ok => exact .decides (.published fill.source) rfl
      | error error => exact .fails (.kept rfl)
  | abort => exact ⟨none, fun _ => (completion_of_outcomeOf rfl).symm, .fails (.kept rfl)⟩

end Fill

end Unbounded.Read
