/-
This file says once what planning the next probe can do to a fill, and from it
and the decisions of the fill derives that the phases follow one another: a
fill whose caller answers every action never fails an assertion, and its state
always suits the action it is waiting for.
-/

import Unbounded.FillSteps

namespace Unbounded.Read

open Fill CandidateWalk Option

/-! ### Planning -/

/-- The fill can plan: nothing of its walk is outstanding. -/
inductive Plannable (fill : Fill) : Prop
  | candidates {walk} (walks : fill.walk = .candidates walk) (ready : walk.Ready)
  | remaining {walk} (walks : fill.walk = .remaining walk)
      (idle : walk.pending = false) (owners : walk.owners = fill.owners.length)

/-- How the probe that is planned is paid: a grant is fresh, anything else comes from the read's
budget. -/
inductive Pays (budget : AcquisitionBudget) (pending : Pending) (left : AcquisitionBudget) : Prop
  | grant (granted : pending.granted = true) (same : left = budget)
  | funds (ungranted : pending.granted = false)
      (funds : CandidateWalk.Funds budget pending.bounded left)

/-- Why the walk of an owner ends: no owner is left to ask, or the next one cannot be funded. -/
inductive Over (walk : CandidateWalk) (budget : AcquisitionBudget) : Prop
  | past (past : ∀ canonical, walk.target walk.index = some canonical →
      walk.config.owners ≤ canonical)
  | starved {canonical} (found : walk.target walk.index = some canonical)
      (starved : walk.fund budget canonical = .starved)

/-- What planning does, up to the fill's core: it asks one target, asks granted targets at once, or
ends the walk of an owner in the authority to ask origin. -/
inductive Planned (fill : Fill) (budget : AcquisitionBudget) :
    Fill → AcquisitionBudget → Action → Prop
  | asks {walk prepared pending probe left} (walks : fill.walk = .candidates walk)
      (prepares : CandidateWalk.Prepared walk prepared)
      (due : pending.helper = true → walk.helper = .due)
      (outstanding : Outstanding prepared probe pending) (pays : Pays budget pending left) :
      Planned fill budget { fill with
        walk := .candidates { prepared with pending := some pending }
        probe := some probe } left (.probe probe)
  | batch {walk prepared canonical count remainingOpportunities}
      (walks : fill.walk = .candidates walk) (prepares : CandidateWalk.Prepared walk prepared)
      (found : prepared.target prepared.index = some canonical)
      (granted : prepared.isGranted canonical = true) (some : 0 < count)
      (inside : prepared.index + count ≤ prepared.count) : Planned fill budget { fill with
        walk := .candidates { prepared with
          index := prepared.index + count, batch := count } } budget
        (.batch (canonical - fill.owners.length) count remainingOpportunities)
  | concluded {walk prepared rank version} (walks : fill.walk = .candidates walk)
      (prepares : CandidateWalk.Prepared walk prepared) (concluded : Over prepared budget)
      (owner : fill.rank = some rank) : Planned fill budget { fill with
        walk := .none, evidence := walk.evidence, originRank := rank,
        ranking := .authority } budget (.rank .authority (some version))
  | remaining {walk probe} (walks : fill.walk = .remaining walk)
      (owners : walk.owners = fill.owners.length) (index : probe.canonical = walk.index)
      (inside : walk.index < fill.owners.length) : Planned fill budget { fill with
        walk := .remaining { walk with pending := true }, probe := some probe } budget
        (.probe probe)

namespace Fill

variable {fill : Fill} {budget : AcquisitionBudget} {walk : CandidateWalk}

theorem Walks.reader (walks : fill.Walks walk)
    (started : walk.helper ≠ .unset) (helps : walk.helper ≠ .off) : fill.rank = none :=
  (walks.helper.resolve_left started).resolve_left helps

/-- A walk of the same epoch is the fill's walk too. -/
theorem Walks.next {next : CandidateWalk} (walks : fill.Walks walk)
    (config : next.config = walk.config) (targets : next.targets = walk.targets)
    (count : next.count = walk.count)
    (order : fill.rank = none → next.order.ranks.Perm (List.range fill.owners.length))
    (helper : next.helper = .unset ∨ next.helper = .off ∨ fill.rank = none)
    (fresh : next.helper = .unset → next.index = 0) : fill.Walks next where
  rank := config ▸ walks.rank
  owners := config ▸ walks.owners
  page := config ▸ walks.page
  handoff := config ▸ walks.handoff
  granted := walks.granted
  targets := by rw [config, targets]; exact walks.targets
  count := by rw [config, count]; exact walks.count
  order := order
  consumed := config ▸ walks.consumed
  helper := helper
  fresh := fresh

/-- Preparing a walk keeps it the fill's walk. -/
theorem Walks.prepared {prepared : CandidateWalk} (walks : fill.Walks walk)
    (short : fill.owners.length ≤ maxHandoff) (prepares : CandidateWalk.Prepared walk prepared) :
    fill.Walks prepared := by
  refine walks.next prepares.config prepares.targets prepares.count (fun reader => ?_) ?_
    fun unset => absurd unset prepares.started.1
  · have ordered := walks.order reader
    rcases prepares.order with same | ⟨-, -, reordered⟩
    · exact same ▸ ordered
    · -- The canonical order visits the same owners.
      have all : min fill.owners.length 3 = fill.owners.length := Nat.min_eq_left short
      rw [reordered, ordered.length_eq, List.length_range]
      show (List.range (min fill.owners.length 3)).Perm _
      rw [all]
  · rcases prepares.helper with ⟨-, off | ⟨-, reader⟩⟩ | ⟨due, -⟩ | ⟨_, -, same⟩
    · exact .inr (.inl off)
    · exact .inr (.inr (walks.rank.symm.trans reader))
    · exact .inr (.inr (walks.reader (by rw [due]; decide) (by rw [due]; decide)))
    · exact same ▸ walks.helper

/-- Only an owner's walk grants, and its targets are counted. -/
theorem Walks.granted_inside (walks : fill.Walks walk) {index canonical : Nat}
    (found : walk.target index = some canonical) (granted : walk.isGranted canonical = true) :
    index < walk.count := by
  have handoff := isGranted_handoff granted
  rcases ranked : fill.rank with _ | rank
  · have listed := (walks.target_reader ranked found).1
    rw [walks.owners] at handoff
    exact absurd listed (Nat.not_lt.mpr handoff)
  · unfold target at found
    rw [walks.rank, ranked, isSome_some, if_pos rfl] at found
    split at found
    · assumption
    · cases found

theorem ended_exhausted (base : Fill) (funding : Bool) :
    (base.ended (.exhausted funding)).1.walk = .none := by
  have left : base.leave.walk = .none := core_walk (core_leave base)
  cases funding with
  | false | true =>
    by_cases stale : base.leave.stale > 0
    · exact (congrArg walk (if_pos stale)).trans left
    · exact (congrArg walk (if_neg stale)).trans left

/-- A walk that ends without a copy fails the read, unless an owner that heard of rank 0 may ask
origin. -/
theorem ended_finish (base : Fill) (final : CandidateWalk) :
    (∃ error, (base.ended final.finish).2 = .error error ∧
        (base.ended final.finish).1.walk = .none) ∨
      ∃ rank version, final.config.rank = some rank ∧
        (base.ended final.finish).2 = .ok (.rank .authority (some version)) ∧
        (base.ended final.finish).1.core = ({ base with
          walk := .none, evidence := final.evidence, originRank := rank,
          ranking := .authority }).core := by
  have left : base.leave.walk = .none := core_walk (core_leave base)
  unfold finish
  split
  · exact .inl ⟨.unavailable, rfl, ended_exhausted base false⟩
  split
  · rename_i rank owner
    refine .inr ⟨rank, _, owner, rfl, ?_⟩
    exact congrArg (fun fill : Fill => { fill with
      evidence := final.evidence, originRank := rank, ranking := .authority }) (core_leave base)
  · split
    · exact .inl ⟨.versionUnavailable, rfl, left⟩
    · exact .inl ⟨.unavailable, rfl, ended_exhausted base final.funding⟩

/-- Planning fails without a child budget outstanding. -/
def PlanFailed (budget : AcquisitionBudget) (turn : Turn Action) : Prop :=
  (∃ error, turn.result = .error error) ∧ turn.budget = budget ∧
    ∀ walk, turn.fill.walk = .candidates walk → walk.pending = none

/-- Planning neither panics nor leaves the plans above: it fails, or plans an action. -/
def HandledPlan (fill : Fill) (budget : AcquisitionBudget) (result : Option (Turn Action)) : Prop :=
  ∃ turn, result = some turn ∧
    (PlanFailed budget turn ∨
      ∃ action after, turn.result = .ok action ∧ turn.fill.core = after.core ∧
        Planned fill budget after turn.budget action)

/-- The part of `next` after the candidate walk has planned. -/
def afterPlan (fill : Fill)
    (planned : CandidateWalk × AcquisitionBudget × Except Error Step) : Option (Turn Action) :=
  let fill := { fill with walk := .candidates planned.1 }
  match planned.2.2 with
  | .error error => some ⟨fill, planned.2.1, .error error⟩
  | .ok (.probe probe) =>
    some ⟨{ fill with probe := some probe }, planned.2.1, .ok (.probe probe)⟩
  | .ok (.granted probes) =>
    probes.head?.map fun first =>
      ⟨fill, planned.2.1, .ok (.batch (first.canonical - fill.owners.length) probes.length
        first.remainingOpportunities)⟩
  | .ok (.ended walkEnd) =>
    let (fill, result) := fill.ended walkEnd
    some ⟨fill, planned.2.1, result⟩

section

variable (valid : fill.Valid) (walks : fill.walk = .candidates walk)

include valid walks

/-- A prepared walk that ends. -/
theorem ended_planned {prepared final : CandidateWalk}
    (prepares : CandidateWalk.Prepared walk prepared) (concluded : Over prepared budget)
    (config : final.config = prepared.config) (evidence : final.evidence = prepared.evidence) :
    HandledPlan fill budget (fill.afterPlan (final.ended.1, budget, .ok final.ended.2)) := by
  refine ⟨_, rfl, ?_⟩
  rcases ended_finish { fill with walk := .candidates final.ended.1 } final with
    ⟨error, fails, gone⟩ | ⟨rank, _, owner, authority, same⟩
  · exact .inl ⟨⟨error, fails⟩, rfl, fun _ walking => Walking.noConfusion (gone.symm.trans walking)⟩
  have ranked : fill.rank = some rank := by
    rw [← (valid.walks walk walks).rank, ← prepares.config, ← config]
    exact owner
  rw [evidence, prepares.evidence] at same
  exact .inr ⟨_, _, authority, same, .concluded walks prepares concluded ranked⟩

/-- A prepared walk plans. -/
theorem plans_planned {prepared : CandidateWalk} (prepares : CandidateWalk.Prepared walk prepared)
    {planned : CandidateWalk × AcquisitionBudget × Except Error Step}
    (plans : CandidateWalk.Plans prepared budget planned) :
    HandledPlan fill budget (fill.afterPlan planned) := by
  have started := (valid.walks walk walks).prepared valid.owners prepares
  cases plans with
  | concluded past => exact ended_planned valid walks prepares (.past past) rfl rfl
  | batch canonical found granted =>
    have inside := started.granted_inside found granted
    obtain ⟨rest, run⟩ := grantedRun_cons found granted inside
    have short := prepared.grantedRun_length_le
    have probes : prepared.grantedRun.map (fun visit => prepared.grantedProbe visit.1 visit.2) =
        prepared.grantedProbe prepared.index canonical ::
          rest.map fun visit => prepared.grantedProbe visit.1 visit.2 := by
      rw [run]
      rfl
    refine ⟨⟨{ fill with walk := .candidates { prepared with
      index := prepared.index + prepared.grantedRun.length
      batch := prepared.grantedRun.length } }, budget,
      .ok (.batch (canonical - fill.owners.length) prepared.grantedRun.length
        (prepared.grantedProbe prepared.index canonical).remainingOpportunities)⟩, ?_,
      .inr ⟨_, _, rfl, rfl, .batch walks prepares found granted ?_ ?_⟩⟩
    · unfold afterPlan sendGranted
      dsimp only
      rw [List.length_map, probes]
      rfl
    · rw [run]
      exact Nat.succ_pos _
    · omega
  | granted canonical found granted =>
    have handoff := isGranted_handoff granted
    refine ⟨_, rfl, .inr ⟨_, _, rfl, rfl, .asks walks prepares ?_ ?_ (.grant rfl rfl)⟩⟩
    · exact fun asked => Bool.noConfusion asked
    · refine .target _ true false false false true found (decide_eq_true handoff).symm
        (fun _ => rfl) nofun fun consumed => ?_
      -- Only a reader's primary is consumed, and a reader has no handoff targets.
      have listed := (started.target_reader (started.consumed consumed) found).1
      rw [started.owners] at handoff
      exact absurd listed (Nat.not_lt.mpr handoff)
  | visit canonical found unskipped =>
    rcases prepared.visit_cases budget canonical with
      ⟨error, fails⟩ | ⟨starved, ends⟩ | ⟨bounded, _, funds, sends⟩
    · rw [fails]
      refine ⟨_, rfl, .inl ⟨⟨error, rfl⟩, rfl, fun walk walking => ?_⟩⟩
      rw [← Walking.candidates.inj walking]
      exact prepares.ready.pending
    · rw [ends]
      exact ended_planned valid walks prepares (.starved found starved) rfl rfl
    · rw [sends]
      refine ⟨_, rfl, .inr ⟨_, _, rfl, rfl, .asks walks prepares ?_ ?_ (.funds rfl funds)⟩⟩
      · exact fun asked => Bool.noConfusion asked
      · refine .target bounded _ _ _ _ false found rfl nofun (fun watched => ?_) unskipped
        simp only [Bool.and_eq_true, decide_eq_true_eq] at watched
        exact decide_eq_false (Nat.not_le.mpr watched.1.2)

end

theorem remaining_planned {walk : RemainingWalk} (walks : fill.walk = .remaining walk)
    (idle : walk.pending = false) (owners : walk.owners = fill.owners.length)
    (budget : AcquisitionBudget) : HandledPlan fill budget (fill.next budget) := by
  unfold next RemainingWalk.nextProbe
  rw [walks]
  dsimp only
  rw [idle, if_neg Bool.false_ne_true]
  split
  · refine ⟨_, rfl, .inl ⟨?_, rfl, ?_⟩⟩
    · split <;> exact ⟨_, rfl⟩
    · intro _ walking
      split at walking <;> cases walking
  · rename_i inside
    rw [Nat.not_le, owners] at inside
    exact ⟨_, rfl, .inr ⟨_, _, rfl, rfl, .remaining walks owners rfl inside⟩⟩

/-- A fill that can plan does: no assertion fails, and it fails or plans an action. -/
theorem next_planned (valid : fill.Valid) (plannable : Plannable fill)
    (budget : AcquisitionBudget) : HandledPlan fill budget (fill.next budget) := by
  cases plannable with
  | remaining walks idle owners => exact remaining_planned walks idle owners budget
  | @candidates walk walks ready =>
    unfold next
    rw [walks]
    show HandledPlan fill budget ((walk.next budget).bind fill.afterPlan)
    rcases next_cases ready budget with
      ⟨due, asked⟩ | ⟨_, _, planned, prepares, plans⟩
    · rw [asked]
      have started := valid.walks walk walks
      have reader : walk.config.rank = none :=
        started.rank.trans (started.reader (by rw [due]; decide) (by rw [due]; decide))
      have prepares : CandidateWalk.Prepared walk { walk with helper := .used } :=
        ⟨⟨rfl, rfl, rfl⟩, rfl, rfl, { ready with }, .inl rfl, .inl rfl, .inr (.inl ⟨due, rfl⟩)⟩
      -- Asking the helper fails for want of credits, or sends a funded probe.
      unfold helperProbe
      split
      · rename_i error failed
        rw [partition_failed failed]
        refine ⟨_, rfl, .inl ⟨⟨error, rfl⟩, rfl, fun _ walking => ?_⟩⟩
        rw [← Walking.candidates.inj walking]
        exact ready.pending
      · rename_i taken
        exact ⟨_, rfl, .inr ⟨_, _, rfl, rfl, .asks walks prepares (fun _ => due)
          (.helper _ reader rfl rfl) (.funds rfl (.failureRoute taken))⟩⟩
    · rw [planned]
      exact plans_planned valid walks prepares plans

end Fill

/-! ### States with one core -/

section Core

variable {first second : Fill} {fill : Fill}

theorem Fill.walks_core {walk : CandidateWalk} : fill.core.Walks walk ↔ fill.Walks walk :=
  ⟨fun walks => { walks with }, fun walks => { walks with }⟩

theorem Fill.valid_core : fill.core.Valid ↔ fill.Valid :=
  ⟨fun valid => { valid with walks := fun walk found => walks_core.mp (valid.walks walk found) },
    fun valid => { valid with walks := fun walk found => walks_core.mpr (valid.walks walk found) }⟩

theorem Fill.Valid.of_core (same : first.core = second.core) (valid : second.Valid) : first.Valid :=
  valid_core.mp (same ▸ valid_core.mpr valid)

theorem Fill.asks_core {walk : CandidateWalk} {pending : Pending} {probe : Probe} :
    fill.core.Asks walk pending probe ↔ fill.Asks walk pending probe :=
  ⟨fun asks => { asks with }, fun asks => { asks with }⟩

theorem Fill.asksRemaining_core {walk : RemainingWalk} {probe : Probe} :
    fill.core.AsksRemaining walk probe ↔ fill.AsksRemaining walk probe :=
  ⟨fun asks => { asks with }, fun asks => { asks with }⟩

theorem Plannable.of_core (same : first.core = second.core) (plannable : Plannable second) :
    Plannable first := by
  have walking : first.walk = second.walk := core_walk same
  have owned : first.owners = second.owners := core_field (·.owners) (fun _ => rfl) same
  cases plannable with
  | candidates walks ready => exact .candidates (walking.trans walks) ready
  | remaining walks idle owners =>
    exact .remaining (walking.trans walks) idle (owners.trans (congrArg List.length owned.symm))

/-- A phase of the core is a phase of the fill. -/
theorem Phase.of_core {last : Option Action} (phase : Phase fill.core last) : Phase fill last := by
  cases phase with
  | fallback asks ranking reader first owner =>
    exact .fallback (asks_core.mp asks) ranking reader first owner
  | refresh asks unhedged refreshes => exact .refresh (asks_core.mp asks) unhedged refreshes
  | probe asks => exact .probe (asks_core.mp asks)
  | probeRemaining asks => exact .probeRemaining (asksRemaining_core.mp asks)
  | validate asks => exact .validate (asks_core.mp asks)
  | validateRemaining asks => exact .validateRemaining (asksRemaining_core.mp asks)
  | _ => constructor <;> assumption

end Core

/-! ### The phases follow one another -/

/-- A decision leaves the fill in the phase of its action, or able to plan. -/
def Follows (fill : Fill) : Move → Prop
  | .act action => Phase fill.core (some action)
  | .plan => Plannable fill

namespace Fill

variable {fill : Fill} {after other : Fill}

section

variable (valid : fill.Valid) (owners : other.owners = fill.owners) (rank : other.rank = fill.rank)
  (order : other.order = fill.order)

include valid owners rank order

theorem Valid.unwalked (walk : ∀ walk, other.walk ≠ .candidates walk) : other.Valid where
  owners := owners ▸ valid.owners
  rank := by rw [rank, owners]; exact valid.rank
  order := by rw [rank, order, owners]; exact valid.order
  walks := fun candidates walking => absurd walking (walk candidates)

theorem Valid.idle (walk : other.walk = .none) : other.Valid :=
  valid.unwalked owners rank order fun _ walking => Walking.noConfusion (walk.symm.trans walking)

end

/-- Adopting a ranking brings its owners, rank and visit order. -/
theorem adopt_valid (ranked : Ranked) (walk : fill.walk = .none) : (fill.adopt ranked).Valid where
  owners := ranked.owners_short
  rank := ranked.rank_lt
  order := by
    intro reader
    have reads : ranked.rank = none := reader
    show (if ranked.rank.isSome then VisitOrder.canonical 0 else ranked.order).ranks.Perm _
    rw [reads]
    exact ranked.order_owners
  walks := by
    intro _ walking
    have same : (fill.adopt ranked).walk = fill.walk := rfl
    rw [same, walk] at walking
    cases walking

/-- A walk started for a ranking is the fill's walk. -/
theorem startWalk_valid (valid : fill.Valid)
    (consumed : fill.continuation.primaryConsumed = true → fill.rank = none) :
    fill.startWalk.1.Valid where
  __ := valid
  walks := by
    intro _ walking
    obtain rfl := Walking.candidates.inj walking
    refine ⟨rfl, rfl, rfl, rfl, rfl, rfl, rfl, fun reader => ?_, consumed, .inl rfl, fun _ => rfl⟩
    have reads : fill.rank = none := reader
    have order : (CandidateWalk.new fill.walkConfig).order = fill.order := by
      unfold CandidateWalk.new walkConfig
      rw [reads]
    rw [order]
    exact valid.order reads

theorem startWalk_plannable (fill : Fill) : Plannable fill.startWalk.1 :=
  .candidates rfl ⟨rfl, rfl, rfl⟩

variable {ended prepared walk : CandidateWalk}

/-- Replacing the walk by one of the same epoch, past its visit, keeps a fill valid. -/
theorem Valid.completed {pending : Pending} {outcome : Outcome} {walkEnd : Option End}
    {probe : Probe} (valid : fill.Valid) (asks : fill.Asks walk pending probe)
    (completed : CandidateWalk.Completed walk ended pending outcome walkEnd) :
    ({ fill with walk := .candidates ended } : Fill).Valid where
  __ := valid
  walks := by
    intro _ walking
    obtain rfl := Walking.candidates.inj walking
    have walks := valid.walks walk asks.walking
    have next := walks.next completed.config completed.targets completed.count
      (completed.order ▸ walks.order) ?_ ?_
    · exact { next with }
    · rcases completed.helper with same | ⟨-, armed, -⟩
      · exact same ▸ walks.helper
      · exact .inr (.inr (walks.reader (by rw [armed]; decide) (by rw [armed]; decide)))
    · intro unset
      rcases completed.helper with same | ⟨-, -, due⟩
      · exact absurd (same.symm.trans unset) asks.asking.started
      · rw [due] at unset; cases unset

variable {budget left : AcquisitionBudget} {move : Move}

theorem completes_ready {pending : Pending} {probe : Probe} {outcome : Outcome}
    (completes : Completes fill budget walk pending probe outcome ended left none) : ended.Ready :=
  ⟨completes.completed.outstanding, completes.completed.batch.trans completes.asks.asking.batch,
    (completes.completed.done rfl).trans completes.asks.asking.done⟩

theorem raced_follows (valid : fill.Valid) (walk : fill.walk = .none)
    (unconsumed : fill.continuation.primaryConsumed = false) (raced : Raced fill after move) :
    after.Valid ∧ Follows after move := by
  cases raced with
  | hedge _ _ _ reader => exact ⟨valid, .hedge walk reader unconsumed⟩
  | start =>
    refine ⟨startWalk_valid valid fun consumed => ?_, startWalk_plannable fill⟩
    rw [unconsumed] at consumed
    cases consumed

theorem adopted_follows {ranked : Ranked} (walk : fill.walk = .none)
    (unconsumed : fill.continuation.primaryConsumed = false)
    (adopted : Adopted fill ranked after move) : after.Valid ∧ Follows after move := by
  have valid := adopt_valid ranked walk
  cases adopted with
  | previous owner page =>
    exact ⟨valid.idle rfl rfl rfl walk, .previous walk rfl owner page unconsumed⟩
  | hints owner page => exact ⟨valid, .hints walk owner page unconsumed⟩
  | raced raced => exact raced_follows valid walk unconsumed raced

theorem delivered_follows (walk : after.walk = .none) (delivered : Delivered move) :
    Follows after move := by
  cases delivered with
  | done => exact .done walk
  | publish => exact .publish walk

theorem previousRanked_eq (fill : Fill) (result : Except Error Ranked) :
    ∃ previous handoff, fill.previousRanked result = { fill with previous, handoff } := by
  unfold previousRanked
  split <;> exact ⟨_, _, rfl⟩

theorem hinted_eq (fill : Fill) (hints : List Nat) (rank0 : Rank0State) :
    ∃ handoff successors, fill.hinted hints rank0 = { fill with rank0, handoff, successors } := by
  unfold hinted
  dsimp only
  split
  · split <;> exact ⟨_, _, rfl⟩
  · exact ⟨_, _, rfl⟩

theorem follows_of_core (same : after.core = other.core)
    (follows : other.Valid ∧ Follows other move) : after.Valid ∧ Follows after move := by
  refine ⟨follows.1.of_core same, ?_⟩
  cases move with
  | act action =>
    show Phase after.core (some action)
    rw [same]
    exact follows.2
  | plan => exact .of_core same follows.2

variable {event : Event} {completed : Option Outcome}

/-- Every decision leaves a valid fill in the phase of its action, or able to plan. -/
theorem decided_follows {last : Option Action} (valid : fill.Valid) (phase : Phase fill last)
    (decided : Decided fill budget event last completed after left move) :
    after.Valid ∧ Follows after move := by
  have serial {other : Fill} (unconsumed : other.continuation.primaryConsumed = false)
      (consumed : other.continuation.primaryConsumed = true) : other.rank = none := by
    rw [unconsumed] at consumed
    cases consumed
  cases decided with
  | hit =>
    cases phase with
    | fresh walk => exact ⟨valid, .done walk⟩
  | begin =>
    cases phase with
    | fresh walk unconsumed =>
      exact ⟨valid.idle rfl rfl rfl walk, .current walk rfl unconsumed⟩
  | adopted ranked _ adopted =>
    cases phase with
    | current walk _ unconsumed => exact adopted_follows walk unconsumed adopted
  | previous result =>
    cases phase with
    | previous walk _ owner page unconsumed =>
      obtain ⟨_, handoff, equal⟩ := fill.previousRanked_eq result
      rw [equal]
      exact ⟨valid.idle rfl rfl rfl walk, .hints walk owner page unconsumed⟩
  | hinted hints rank0 raced =>
    cases phase with
    | hints walk _ _ unconsumed =>
      obtain ⟨handoff, successors, equal⟩ := fill.hinted_eq hints rank0
      rw [equal] at raced
      have ranked : ({ fill with rank0, handoff, successors } : Fill).Valid :=
        valid.idle rfl rfl rfl walk
      exact raced_follows ranked walk unconsumed raced
  | unraced =>
    cases phase with
    | hedge walk _ unconsumed =>
      exact ⟨startWalk_valid (valid.idle rfl rfl rfl walk) (serial unconsumed),
        startWalk_plannable _⟩
  | hedgeWon delivered =>
    cases phase with
    | hedge walk => exact ⟨valid.idle rfl rfl rfl walk, delivered_follows walk delivered⟩
  | hedgeStale =>
    cases phase with
    | hedge walk reader =>
      exact ⟨valid.idle rfl rfl rfl walk, .hedgeRefresh walk rfl rfl (reader rfl)⟩
  | hedgeLost =>
    cases phase with
    | hedge walk reader =>
      exact ⟨startWalk_valid (valid.idle rfl rfl rfl walk) fun _ => reader rfl,
        startWalk_plannable _⟩
  | hedgeRefreshed latest first walk unconsumed =>
    exact ⟨valid.idle rfl rfl rfl walk, .current walk rfl unconsumed⟩
  | hedgeSkipped walk unconsumed =>
    exact ⟨startWalk_valid valid (serial unconsumed), startWalk_plannable _⟩
  | validate =>
    refine ⟨valid, ?_⟩
    cases phase with
    | probe asks => exact .validate (asks_core.mpr asks)
    | probeRemaining asks => exact .validateRemaining (asksRemaining_core.mpr asks)
  | refresh asks refreshes =>
    refine ⟨?_, .refresh { asks with } rfl refreshes⟩
    exact { valid with walks := fun walk walks => { valid.walks walk walks with } }
  | visited completes =>
    exact ⟨valid.completed completes.asks completes.completed,
      .candidates rfl (completes_ready completes)⟩
  | copied _ delivered | batchCopied delivered =>
    exact ⟨valid.idle rfl rfl rfl rfl, delivered_follows rfl delivered⟩
  | refreshed => exact ⟨valid.idle rfl rfl rfl rfl, .current rfl rfl rfl⟩
  | fallsBack _ asks reader first owner =>
    refine ⟨?_, .fallback { asks with } rfl reader first owner⟩
    exact { valid with walks := fun walk walks => { valid.walks walk walks with } }
  | waited _ asks _ reader =>
    refine ⟨{ valid with walks := fun later walks => ?_ },
      .wait rfl rfl ⟨rfl, asks.asking.batch, asks.asking.done⟩ reader⟩
    obtain rfl := Walking.candidates.inj walks
    exact { valid.walks _ asks.walking with }
  | fellBack _ _ _ _ same adopted =>
    have walk : _ = Walking.none := core_walk same
    have unconsumed : _ = false := core_field (·.continuation.primaryConsumed) (fun _ => rfl) same
    exact adopted_follows walk unconsumed adopted
  | waitOver =>
    cases phase with
    | wait _ walks ready =>
      refine ⟨?_, .candidates walks ready⟩
      exact { valid with walks := fun walk walks => { valid.walks walk walks with } }
  | batched walks pending done =>
    refine ⟨{ valid with walks := fun later walking => ?_ }, .candidates rfl ⟨pending, rfl, done⟩⟩
    obtain rfl := Walking.candidates.inj walking
    exact { valid.walks _ walks with }
  | authorized =>
    cases phase with
    | authority walk => exact ⟨valid.idle rfl rfl rfl walk, .origin walk rfl⟩
  | fetched =>
    cases phase with
    | origin walk => exact ⟨valid.idle rfl rfl rfl walk, .publish walk⟩
  | missed =>
    exact ⟨valid.unwalked rfl rfl rfl fun _ walking => Walking.noConfusion walking,
      .remaining rfl rfl rfl⟩
  | remained asks owners _ pending =>
    exact ⟨valid.unwalked rfl rfl rfl fun _ walking => Walking.noConfusion walking,
      .remaining rfl pending (owners.trans asks.owners)⟩
  | remainingCopied => exact ⟨valid.idle rfl rfl rfl rfl, .publish rfl⟩
  | published =>
    cases phase with
    | publish walk => exact ⟨valid, .done walk⟩

/-- A fill whose walk is prepared, asks, or has sent its granted probes is valid. -/
theorem Valid.planned (valid : fill.Valid) (walks : fill.walk = .candidates walk)
    (prepares : CandidateWalk.Prepared walk prepared) (probe : Option Probe)
    (pending : Option Pending) (index batch : Nat) :
    ({ fill with
      walk := .candidates { prepared with pending, index, batch }
      probe } : Fill).Valid where
  __ := valid
  walks := by
    intro _ walking
    obtain rfl := Walking.candidates.inj walking
    have started := (valid.walks walk walks).prepared valid.owners prepares
    exact { started with fresh := fun unset => absurd unset prepares.started.1 }

variable {action : Action}

/-- Every plan leaves a valid fill in the phase of its action. -/
theorem planned_follows (valid : fill.Valid) (planned : Planned fill budget after left action) :
    after.Valid ∧ Follows after (.act action) := by
  cases planned with
  | @asks _ _ pending probe _ walks prepares _ outstanding =>
    exact ⟨valid.planned walks prepares _ _ _ _, .probe ⟨rfl, ⟨rfl, prepares.ready.batch,
      prepares.ready.done, prepares.started.1, prepares.started.2⟩, rfl,
      outstanding.kept _ pending.bounded⟩⟩
  | batch walks prepares _ _ some =>
    exact ⟨valid.planned walks prepares _ _ _ _, .batch rfl (Nat.pos_iff_ne_zero.mp some)
      prepares.ready.pending prepares.ready.done⟩
  | concluded walks _ _ owner =>
    exact ⟨valid.unwalked rfl rfl rfl fun _ walking => Walking.noConfusion walking,
      .authority rfl rfl owner⟩
  | remaining _ owners index inside =>
    exact ⟨valid.unwalked rfl rfl rfl fun _ walking => Walking.noConfusion walking,
      .probeRemaining ⟨rfl, rfl, owners, index.symm, index ▸ inside, rfl⟩⟩

/-- At most two owners stand before an owner. -/
theorem Valid.rank_le (valid : fill.Valid) {rank : Nat} (owner : fill.rank = some rank) :
    min rank 2 = rank := by
  have ranked := valid.rank rank owner
  have short := valid.owners
  unfold maxHandoff at short
  omega

theorem Walks.prepared_index (walks : fill.Walks walk) {rank : Nat} (owner : fill.rank = some rank)
    (prepares : CandidateWalk.Prepared walk prepared) : prepared.index = walk.index := by
  rcases prepares.index with same | ⟨consumed, -, -⟩
  · exact same
  have reader := walks.consumed consumed
  rw [owner] at reader
  cases reader

/-! ### The epoch -/

theorem raced_counters (raced : Raced fill after move) :
    after.retried = fill.retried ∧ after.waits = fill.waits ∧
      ∀ duration, move ≠ .act (.wait duration) := by
  cases raced with
  | hedge | start => exact ⟨rfl, rfl, nofun⟩

theorem adopted_counters {ranked : Ranked} (adopted : Adopted fill ranked after move) :
    after.retried = fill.retried ∧ after.waits = fill.waits ∧
      ∀ duration, move ≠ .act (.wait duration) := by
  cases adopted with
  | previous | hints => exact ⟨rfl, rfl, nofun⟩
  | raced raced =>
    obtain ⟨retried, waits, unwaited⟩ := raced_counters raced
    exact ⟨retried.trans rfl, waits.trans rfl, unwaited⟩

theorem core_waits (same : after.core = other.core) : after.waits = other.waits :=
  core_field waits (fun _ => rfl) same

theorem planned_retried (planned : Planned fill budget after left action) :
    after.retried = fill.retried := by
  cases planned with
  | _ => rfl

/-- Only a refresh and a fallback leave the membership of an epoch, and only from the first. Waits
are counted, and few. -/
theorem decided_counters {last : Option Action}
    (decided : Decided fill budget event last completed after left move) :
    (after.retried = fill.retried ∧
        (∀ version, last = some .refresh → move ≠ .act (.rank .current version)) ∨
      fill.retried = false ∧ after.retried = true) ∧
    (after.waits = fill.waits ∧ (∀ duration, move ≠ .act (.wait duration)) ∨
      fill.waits < maxStaleWaits ∧ after.waits = fill.waits + 1) := by
  cases decided with
  | begin => exact ⟨.inl ⟨rfl, nofun⟩, .inl ⟨rfl, nofun⟩⟩
  | hedgeWon delivered | copied _ delivered | batchCopied delivered =>
    refine ⟨.inl ⟨rfl, fun _ _ => ?_⟩, .inl ⟨rfl, fun _ => ?_⟩⟩ <;> cases delivered <;> nofun
  | adopted ranked _ adopted =>
    obtain ⟨retried, waits⟩ := adopted_counters adopted
    exact ⟨.inl ⟨retried, nofun⟩, .inl waits⟩
  | previous result =>
    obtain ⟨_, handoff, equal⟩ := fill.previousRanked_eq result
    rw [equal]
    exact ⟨.inl ⟨rfl, nofun⟩, .inl ⟨rfl, nofun⟩⟩
  | hinted hints rank0 raced =>
    obtain ⟨_, _, equal⟩ := fill.hinted_eq hints rank0
    rw [equal] at raced
    obtain ⟨retried, waits⟩ := raced_counters raced
    exact ⟨.inl ⟨retried, nofun⟩, .inl waits⟩
  | hedgeRefreshed _ first | refreshed _ first =>
    exact ⟨.inr ⟨first, rfl⟩, .inl ⟨rfl, nofun⟩⟩
  | waited _ _ _ _ _ few => exact ⟨.inl ⟨rfl, fun _ _ => nofun⟩, .inr ⟨few, rfl⟩⟩
  | fellBack _ _ first _ same adopted =>
    obtain ⟨retried, waits, unwaited⟩ := adopted_counters adopted
    exact ⟨.inr ⟨first, retried.trans ((core_retried same).trans rfl)⟩,
      .inl ⟨waits.trans ((core_waits same).trans rfl), unwaited⟩⟩
  | _ => exact ⟨.inl ⟨rfl, fun _ _ => nofun⟩, .inl ⟨rfl, nofun⟩⟩

theorem planned_waits (planned : Planned fill budget after left action) :
    after.waits = fill.waits ∧ (∀ duration, action ≠ .wait duration) ∧
      ∀ version, action ≠ .rank .current version := by
  cases planned with
  | _ => exact ⟨rfl, nofun, nofun⟩

end Fill

/-! ### Whole events -/

variable (fill : Fill) (budget : AcquisitionBudget) (last : Option Action) (event : Event)
  (now : Nat) (completed : Option Outcome) in
/-- What one event led to: the read failed on it or on planning after it, the fill decided on an
action, or it decided to plan and planned one. -/
inductive Stepped : Reaction → Prop
  | failed {middle spent error reaction} (failed : Failed fill budget middle spent)
      (action : reaction.action = .done (.error error))
      (returned : reaction.budget = middle.abandoned spent) (walk : reaction.fill.walk = .none) :
      Stepped reaction
  | unplanned {middle spent error reaction}
      (decided : Decided fill budget event last completed middle spent .plan)
      (action : reaction.action = .done (.error error)) (returned : reaction.budget = spent)
      (walk : reaction.fill.walk = .none) : Stepped reaction
  | acted {after reaction} (decided : Decided fill budget event last completed after reaction.budget
        (.act reaction.action)) (same : reaction.fill.core = after.core) : Stepped reaction
  | planned {noted middle after spent reaction}
      (dispatches : fill.dispatch event budget now = some ⟨noted, spent, .ok .plan⟩)
      (decided : Decided fill budget event last completed middle spent .plan)
      (kept : noted.core = middle.core)
      (planned : Planned noted spent after reaction.budget reaction.action)
      (same : reaction.fill.core = after.core) : Stepped reaction

namespace Fill

variable {fill : Fill}

theorem abandoned_settled {budget : AcquisitionBudget}
    (settled : ∀ walk, fill.walk = .candidates walk → walk.pending = none) :
    fill.abandoned budget = budget := by
  unfold abandoned
  split
  · rename_i walk walks
    unfold abandon
    rw [settled walk walks]
  · rfl

section

variable {last : Option Action} (valid : fill.Valid) (phase : Phase fill.core last)

include valid phase

/-- Feeding a fill an event that answers its action never fails an assertion; it fails the read,
decides, or decides and plans. -/
theorem on_stepped {event : Event} (answers : Answers fill last event) (budget : AcquisitionBudget)
    (now : Nat) : ∃ completed reaction, (fill.rank.isSome → completed = fill.completion event) ∧
      fill.on event budget now = some reaction ∧
      Stepped fill budget last event now completed reaction := by
  obtain ⟨completed, owner, turn, dispatches, failed | decided⟩ :=
    dispatch_handled valid phase.of_core answers budget now
  · obtain ⟨error, fails, failed⟩ := failed
    refine ⟨completed, ⟨{ turn.fill with walk := .none, out := {} },
      turn.fill.abandoned turn.budget, .done (.error error), turn.fill.out⟩, owner, ?_,
      .failed failed rfl rfl rfl⟩
    simp only [on, handle, dispatches, bind_some, fails, map_some]
  · obtain ⟨move, middle, moves, kept, decided⟩ := decided
    cases move with
    | act action =>
      refine ⟨completed, ⟨{ turn.fill with out := {} }, turn.budget, action, turn.fill.out⟩, owner,
        ?_, .acted decided kept⟩
      simp only [on, handle, dispatches, bind_some, moves, map_some]
    | plan =>
      obtain ⟨followed, plannable⟩ :=
        follows_of_core kept (decided_follows valid phase.of_core decided)
      obtain ⟨planning, plans, ⟨⟨error, fails⟩, same, settled⟩ |
        ⟨action, after, acts, same, planned⟩⟩ := next_planned followed plannable turn.budget
      · refine ⟨completed, ⟨{ planning.fill with walk := .none, out := {} },
          planning.fill.abandoned planning.budget, .done (.error error), planning.fill.out⟩,
          owner, ?_, .unplanned decided rfl ((abandoned_settled settled).trans same) rfl⟩
        simp only [on, handle, dispatches, bind_some, moves, plans, fails, map_some]
      · refine ⟨completed, ⟨{ planning.fill with out := {} }, planning.budget, action,
          planning.fill.out⟩, owner, ?_, .planned ?_ decided kept planned same⟩
        · simp only [on, handle, dispatches, bind_some, moves, plans, acts, map_some]
        · rw [dispatches, ← moves]

/-- The phases follow one another over whole events, until the read fails. -/
theorem stepped_follows {event : Event} {now : Nat} {completed : Option Outcome}
    {budget : AcquisitionBudget} {reaction : Reaction}
    (stepped : Stepped fill budget last event now completed reaction) :
    (∃ error, reaction.action = .done (.error error) ∧ reaction.fill.walk = .none) ∨
      reaction.fill.Valid ∧ Phase reaction.fill.core (some reaction.action) := by
  cases stepped with
  | failed _ action _ walk | unplanned _ action _ walk => exact .inl ⟨_, action, walk⟩
  | acted decided same =>
    exact .inr (follows_of_core same (decided_follows valid phase.of_core decided))
  | planned _ decided kept planned same =>
    have middle := (decided_follows valid phase.of_core decided).1.of_core kept
    exact .inr (follows_of_core same (planned_follows middle planned))

end

end Fill

end Unbounded.Read
