/-
This file is about the evidence an owner collects before it asks origin. Its walk
asks the owners ranked before it, in order, and each answer that is not a copy
becomes one piece of evidence. `ownersHeard` is what a log of the exchanges
shows of the current epoch; along every run the walk's evidence is that log, and
it is complete when the fill asks origin.

One branch breaks this. On bounded routes, which a lost hedge leaves behind, an
owner that cannot fund its next probe ends the walk, and the end is the authority
to ask origin. `starvesPredecessor` is that branch.
-/

import Unbounded.FillRuns

namespace Unbounded.Read

open Fill Option List Transition

/-! ### The log of an epoch -/

variable (fill : Fill)

/-- The ranked owner whose probe the event completes, with the outcome. -/
def Fill.ownerHeard (event : Event) : Option (Nat × Outcome) :=
  fill.probe.bind fun probe =>
    if probe.canonical < fill.owners.length then
      (fill.completion event).map fun outcome => (probe.canonical, outcome)
    else none

/-- The log after an event that leads to `after`. An event that makes the fill leave its
membership for another opens an epoch. -/
def Fill.log (after : Fill) (event : Event) (heard : List (Nat × Outcome)) : List (Nat × Outcome) :=
  if after.retried != fill.retried then [] else heard ++ (fill.ownerHeard event).toList

/-- The owners heard of in the current epoch, with their outcomes, in order. -/
def ownersHeard (exchanges : List Exchange) : List (Nat × Outcome) :=
  exchanges.foldl
    (fun heard exchange => exchange.fill.log exchange.reaction.fill exchange.event heard) []

namespace Fill

variable {fill after : Fill} {event : Event} {heard : List (Nat × Outcome)}

theorem log_opened (first : fill.retried = false) (opens : after.retried = true) :
    fill.log after event heard = [] := by
  unfold log
  rw [first, opens]
  rfl

/-- Within an epoch the log only grows by the owner whose probe completes. -/
theorem log_kept (same : after.retried = fill.retried) :
    fill.log after event heard = heard ++ (fill.ownerHeard event).toList := by
  unfold log
  rw [same, bne_self_eq_false, if_neg Bool.false_ne_true]

theorem log_core {other : Fill} (same : after.core = other.core) :
    fill.log after event heard = fill.log other event heard := by
  unfold log
  rw [core_retried same]

theorem ownerHeard_silent (silent : fill.completion event = none) :
    fill.ownerHeard event = none := by
  unfold ownerHeard
  rw [silent]
  simp

theorem log_unwalked (walk : fill.walk = .none) : fill.log after event [] = [] := by
  have silent : fill.completion event = none := by
    unfold completion
    rw [walk]
  unfold log
  rw [ownerHeard_silent silent]
  exact ite_self _

end Fill

/-- The log covers the first `count` owners, and the evidence is what they answered. -/
structure Evidenced (heard : List (Nat × Outcome)) (count : Nat) (evidence : List ProbeOutcome) :
    Prop where
  owners : heard.map Prod.fst = List.range count
  outcomes : heard.map (fun owner => owner.2.evidence) = evidence.map some

theorem Evidenced.nil : Evidenced [] 0 [] := ⟨rfl, rfl⟩

variable {heard : List (Nat × Outcome)} {evidence : List ProbeOutcome}

theorem Evidenced.length {count : Nat} (evidenced : Evidenced heard count evidence) :
    evidence.length = count := by
  have owners := congrArg List.length evidenced.owners
  have outcomes := congrArg List.length evidenced.outcomes
  rw [List.length_map, List.length_range] at owners
  rw [List.length_map, List.length_map] at outcomes
  exact outcomes.symm.trans owners

theorem Evidenced.snoc {count : Nat} (evidenced : Evidenced heard count evidence)
    {outcome : Outcome} {found : ProbeOutcome} (shows : outcome.evidence = some found) :
    Evidenced (heard ++ [(count, outcome)]) (count + 1) (evidence ++ [found]) where
  owners := by rw [map_append, evidenced.owners, range_succ]; rfl
  outcomes := by
    rw [map_append, evidenced.outcomes, map_append, map_singleton, shows]
    rfl

/-! ### The branch that ends a walk too early -/

/-- An owner's walk on bounded routes cannot fund the probe of the next owner ranked before it:
it does not delegate, and does not share a short pool of links either. -/
def CandidateWalk.starvesPredecessor (walk : CandidateWalk) (budget : AcquisitionBudget) : Bool :=
  (walk.target walk.index).any fun canonical =>
    walk.config.rank.isSome && decide (canonical < walk.config.owners) &&
      walk.config.continuation.boundedRoutes && !walk.delegates budget canonical &&
      !walk.poolShort budget canonical &&
      (decide (budget.attempts < 1) || decide (budget.links < 4))

/-- The walk and the budget that the exchange plans the next probe from, if it plans one. -/
def Exchange.plansFrom (exchange : Exchange) : Option (CandidateWalk × AcquisitionBudget) := do
  let turn ← exchange.fill.dispatch exchange.event exchange.budget exchange.now
  match turn.result, turn.fill.walk with
  | .ok .plan, .candidates walk => some (walk, turn.budget)
  | _, _ => none

/-- The walk that the exchange plans from does not take that branch. -/
def Exchange.fundsPredecessors (exchange : Exchange) : Bool :=
  exchange.plansFrom.all fun (walk, budget) => !walk.starvesPredecessor budget

namespace CandidateWalk

variable {walk : CandidateWalk} {budget : AcquisitionBudget}

/-- An owner's probe of a predecessor is starved only on that branch. -/
theorem starvesPredecessor_of_starved {canonical : Nat} (owner : walk.config.rank.isSome)
    (found : walk.target walk.index = some canonical) (ranked : canonical < walk.config.owners)
    (starved : walk.fund budget canonical = .starved) : walk.starvesPredecessor budget = true := by
  unfold fund at starved
  split at starved
  · cases starved
  rename_i undelegated
  split at starved
  · cases starved
  rename_i roomy
  rw [Bool.not_eq_true] at undelegated roomy
  split at starved
  · rename_i funds
    split at starved
    · rename_i short
      have bounded : walk.config.continuation.boundedRoutes = true := by
        unfold fundsProbe at funds
        rw [isNone_eq_false_iff.mpr owner] at funds
        simpa only [Bool.false_and, Bool.or_false] using funds
      have attempts : walk.fundedAttempts budget canonical = 1 := by
        unfold fundedAttempts ownerAttempts
        rw [if_pos owner, undelegated]
        rfl
      have links : walk.probeLinks budget = 4 := by
        unfold probeLinks
        rw [if_pos owner]
      rw [attempts, links] at short
      unfold starvesPredecessor
      rw [found, any_some, owner, bounded, undelegated, roomy, decide_eq_true ranked]
      simpa only [Bool.true_and, Bool.not_false, Bool.or_eq_true, decide_eq_true_eq] using short
    · cases starved
  · cases starved

/-- Preparing an owner's walk does not change what it can fund. -/
theorem starvesPredecessor_epoch {later : CandidateWalk} (epoch : SameEpoch walk later)
    (owner : walk.config.rank.isSome) (index : later.index = walk.index) :
    later.starvesPredecessor budget = walk.starvesPredecessor budget := by
  unfold starvesPredecessor target delegates poolShort left sharing
  rw [epoch.config, epoch.targets, epoch.count, index, if_pos owner, if_pos owner]

/-- The owners before this one stand first among its targets. -/
theorem target_predecessor {rank index : Nat} (owner : walk.config.rank = some rank)
    (targets : walk.targets = (new walk.config).targets)
    (count : walk.count = (new walk.config).count) (before : index < min rank 2) :
    walk.target index = some index := by
  have listed : walk.targets = ownerTargets walk.config rank := by
    rw [targets]
    unfold new
    rw [owner]
  have counted : walk.count = (ownerTargets walk.config rank).length := by
    rw [count]
    unfold new
    rw [owner]
  have inside : index < walk.count := by
    rw [counted, ownerTargets, length_append, length_range]
    exact Nat.lt_add_right _ before
  unfold target
  rw [owner, isSome_some, if_pos rfl, if_pos inside, listed, ownerTargets,
    getElem?_append_left (by rw [length_range]; exact before),
    getElem?_range before]

end CandidateWalk

/-! ### What the walk has collected -/

/-- What the log says of a fill that has not ended its walk: nothing was asked before the walk,
and an owner's walk has asked the owners before its index. -/
def Fill.Collects (heard : List (Nat × Outcome)) : Prop :=
  match fill.walk with
  | .none => heard = []
  | .candidates walk =>
    ∀ rank, fill.rank = some rank → Evidenced heard (min walk.index rank) walk.evidence
  | .remaining _ => True

/-- What the log says of a fill with an outstanding action. An owner with the authority to ask
origin has asked every owner before it. -/
def Collecting (heard : List (Nat × Outcome)) : Option Action → Prop
  | some (.rank .authority _) =>
    fill.rank = some fill.originRank ∧ Evidenced heard fill.originRank fill.evidence
  | some (.origin rank) => fill.rank = some rank ∧ Evidenced heard rank fill.evidence
  | some (.publish _) | some (.done _) => True
  | _ => fill.Collects heard

/-- What the log says after a decision. -/
def CollectsAfter (heard : List (Nat × Outcome)) : Move → Prop
  | .act action => Collecting fill heard (some action)
  | .plan => fill.Collects heard

section

variable {first second : Fill}

theorem CollectsAfter.of_core {move : Move} (same : first.core = second.core)
    (collects : CollectsAfter second heard move) : CollectsAfter first heard move := by
  show CollectsAfter first.core heard move
  rwa [same]

end

variable {last : Option Action}

/-- While a candidate walk goes on, the log is about its evidence. -/
theorem Collecting.walking {fill : Fill} {walk : CandidateWalk}
    (collecting : Collecting fill heard last) (phase : Phase fill last)
    (walks : fill.walk = .candidates walk) : fill.Collects heard := by
  cases phase with
  | authority walk | origin walk | publish walk | done walk =>
    exact Walking.noConfusion (walk.symm.trans walks)
  | _ => exact collecting

namespace Fill

variable {fill after : Fill}

theorem collects_unwalked (walk : fill.walk = .none) : fill.Collects [] := by
  unfold Collects
  rw [walk]

theorem Collects.unwalked (collects : fill.Collects heard) (walk : fill.walk = .none) :
    heard = [] := by
  unfold Collects at collects
  rw [walk] at collects
  exact collects

variable {walk : CandidateWalk}

theorem collects_reader (walks : fill.walk = .candidates walk) (reader : fill.rank = none) :
    fill.Collects heard := by
  unfold Collects
  rw [walks]
  intro rank owner
  rw [reader] at owner
  cases owner

theorem collects_candidates (walks : fill.walk = .candidates walk) : fill.Collects heard ↔
      ∀ rank, fill.rank = some rank → Evidenced heard (min walk.index rank) walk.evidence := by
  unfold Collects
  rw [walks]

theorem collects_startWalk (fill : Fill) : fill.startWalk.1.Collects [] := by
  intro rank _
  exact .nil

variable {move : Move}

theorem raced_collects (walk : fill.walk = .none) (raced : Raced fill after move) :
    CollectsAfter after [] move := by
  cases raced with
  | hedge => exact collects_unwalked walk
  | start => exact collects_startWalk fill

theorem adopted_collects {ranked : Ranked} (walk : fill.walk = .none)
    (adopted : Adopted fill ranked after move) : CollectsAfter after [] move := by
  cases adopted with
  | previous | hints => exact collects_unwalked walk
  | raced raced =>
    have unwalked : (fill.adopt ranked).walk = .none := walk
    exact raced_collects unwalked raced

variable {budget left : AcquisitionBudget}

section

variable (valid : fill.Valid)

include valid

/-- A completed probe of an owner's walk: the owner at its index was asked, or all were. -/
theorem visited_collects {ended : CandidateWalk} {pending : Pending} {probe : Probe}
    {outcome : Outcome} {event : Event}
    (completes : Completes fill budget walk pending probe outcome ended left none)
    (completion : fill.rank.isSome → some outcome = fill.completion event)
    (collects : fill.Collects heard) : ({ fill with walk := .candidates ended } : Fill).Collects
      (heard ++ (fill.ownerHeard event).toList) := by
  intro rank owner
  have owned : fill.rank = some rank := owner
  have asks := completes.asks
  have walks := valid.walks walk asks.walking
  have few := valid.rank_le owned
  have below := valid.rank rank owned
  have collected := (collects_candidates asks.walking).mp collects rank owned
  have evidence := completes.completed.evidence rfl
  have index := completes.completed.index
  rw [ownerHeard, asks.sent, bind_some, ← completion (by rw [owned]; rfl)]
  have outstanding := asks.outstanding
  cases outstanding with
  | helper bounded reader =>
    rw [walks.rank, owned] at reader
    cases reader
  | target _ _ _ _ _ _ found past =>
    rw [walks.owners] at past
    simp only [Bool.false_eq_true, if_false] at index
    simp only [Bool.false_or] at evidence
    rw [index, evidence, past]
    rcases walks.target_owner owned found with ⟨before, same⟩ | ⟨after, same, -⟩
    · -- The owner at the index: its outcome becomes evidence.
      rw [few] at before
      have listed : probe.canonical < fill.owners.length := same ▸ before.trans below
      rw [if_pos listed, decide_eq_false (Nat.not_le.mpr listed), Nat.min_eq_left before]
      rw [Nat.min_eq_left before.le] at collected
      obtain ⟨_, shows⟩ := outcome.evidence_of_miss (completes.completed.missed rfl)
      rw [same, shows]
      exact collected.snoc shows
    · -- A handoff target: every owner before this one was asked.
      rw [few] at after
      have unlisted : fill.owners.length ≤ probe.canonical := by
        rw [same]
        exact Nat.le_add_right _ _
      rw [if_neg (Nat.not_lt.mpr unlisted), decide_eq_true unlisted,
        Nat.min_eq_right (after.trans (Nat.le_succ _))]
      rw [Nat.min_eq_right after] at collected
      simpa only [toList_none, append_nil, if_true] using collected

/-- Every decision keeps the log and what the fill has collected in step. -/
theorem decided_collects {completed : Option Outcome} {event : Event} (phase : Phase fill last)
    (completion : fill.rank.isSome → completed = fill.completion event)
    (decided : Decided fill budget event last completed after left move)
    (collecting : Collecting fill heard last) :
    CollectsAfter after (fill.log after event heard) move := by
  -- Nothing is heard of before the walk, so the log stays empty.
  have early (walk : fill.walk = .none) (collects : fill.Collects heard) :
      fill.log after event heard = [] := by
    rw [collects.unwalked walk]
    exact log_unwalked walk
  have logged (same : after.retried = fill.retried) :
      fill.log after event heard = heard ++ (fill.ownerHeard event).toList := log_kept same
  have opened (first : fill.retried = false) (opens : after.retried = true) :
      fill.log after event heard = [] := log_opened first opens
  -- While a probe is outstanding, an owner's log and walk both stay.
  have still {walk later : CandidateWalk} (walks : fill.walk = .candidates walk)
      (collects : fill.Collects heard) (silent : completed = none)
      (rank : after.rank = fill.rank) (retried : after.retried = fill.retried)
      (walking : after.walk = .candidates later) (index : later.index = walk.index)
      (evidence : later.evidence = walk.evidence) :
      after.Collects (fill.log after event heard) := by
    rw [collects_candidates walking, rank, index, evidence]
    intro position owner
    have unheard := (completion (by rw [owner]; rfl)).symm.trans silent
    rw [logged retried, ownerHeard_silent unheard, toList_none, append_nil]
    exact (collects_candidates walks).mp collects position owner
  cases decided with
  | hit | fetched | remainingCopied | published => exact trivial
  | begin =>
    cases phase with
    | fresh walk =>
      rw [early walk collecting]
      exact collects_unwalked walk
  | adopted ranked _ adopted =>
    cases phase with
    | current walk =>
      rw [early walk collecting]
      exact adopted_collects walk adopted
  | previous result =>
    cases phase with
    | previous walk =>
      obtain ⟨_, handoff, equal⟩ := fill.previousRanked_eq result
      rw [early walk collecting, equal]
      exact collects_unwalked walk
  | hinted hints rank0 raced =>
    cases phase with
    | hints walk =>
      obtain ⟨handoff, successors, equal⟩ := fill.hinted_eq hints rank0
      rw [equal] at raced
      rw [early walk collecting]
      have unwalked : ({ fill with rank0, handoff, successors } : Fill).walk = .none := walk
      exact raced_collects unwalked raced
  | unraced | hedgeLost =>
    cases phase with
    | hedge walk =>
      rw [early walk collecting]
      exact collects_startWalk _
  | hedgeWon delivered | copied _ delivered | batchCopied delivered =>
    cases delivered with
    | done | publish => exact trivial
  | hedgeStale =>
    cases phase with
    | hedge walk =>
      rw [early walk collecting]
      exact collects_unwalked walk
  | hedgeRefreshed latest first walk =>
    rw [early walk collecting]
    exact collects_unwalked walk
  | hedgeSkipped walk =>
    rw [early walk collecting]
    exact collects_startWalk _
  | validate =>
    cases phase with
    | probe asks => exact still asks.walking collecting rfl rfl rfl asks.walking rfl rfl
    | probeRemaining asks =>
      show fill.Collects _
      unfold Collects
      rw [asks.walking]
      trivial
  | refresh asks => exact still asks.walking collecting rfl rfl rfl asks.walking rfl rfl
  | visited completes =>
    rw [logged rfl]
    exact visited_collects valid completes completion
      (collecting.walking phase completes.asks.walking)
  | refreshed _ first =>
    rw [opened first rfl]
    rfl
  | fallsBack _ asks reader => exact collects_reader asks.walking reader
  | waited _ _ _ reader => exact fun rank owner => absurd (reader.symm.trans owner) nofun
  | fellBack _ reader first _ same adopted =>
    have walk : _ = Walking.none := core_walk same
    have opens : _ = true := core_retried same
    rw [opened first ((adopted_counters adopted).1.trans opens)]
    exact adopted_collects walk adopted
  | waitOver =>
    cases phase with
    | wait _ walks _ reader => exact collects_reader walks reader
  | batched walks => exact still walks collecting rfl rfl rfl rfl rfl rfl
  | authorized =>
    cases phase with
    | authority walk =>
      have silent : fill.completion event = none := by
        unfold Fill.completion
        rw [walk]
      rw [logged rfl, ownerHeard_silent silent, toList_none, append_nil]
      exact collecting
  | missed | remained => exact trivial

/-- An owner's walk that is over has asked every owner before this one, unless it starved. -/
theorem over_complete {prepared : CandidateWalk} {rank : Nat} (walks : fill.walk = .candidates walk)
    (owner : fill.rank = some rank) (prepares : CandidateWalk.Prepared walk prepared)
    (concluded : Over prepared budget) (funds : walk.starvesPredecessor budget = false) :
    rank ≤ walk.index := by
  have started := valid.walks walk walks
  have config := prepares.config
  have index := started.prepared_index owner prepares
  have owned : prepared.config.rank = some rank := by rw [config, started.rank, owner]
  have below := valid.rank rank owner
  by_contra early
  rw [Nat.not_le] at early
  have found : prepared.target prepared.index = some prepared.index := by
    have later := started.prepared valid.owners prepares
    refine CandidateWalk.target_predecessor owned later.targets later.count ?_
    rw [valid.rank_le owner, index]
    exact early
  have ranked : prepared.index < prepared.config.owners := by
    rw [config, started.owners, index]
    exact early.trans below
  cases concluded with
  | past past => exact absurd (past _ found) (Nat.not_le.mpr ranked)
  | starved foundToo starved =>
    obtain rfl := mem_unique found foundToo
    have starves := CandidateWalk.starvesPredecessor_of_starved
      (by rw [owned]; rfl) found ranked starved
    rw [CandidateWalk.starvesPredecessor_epoch prepares.toSameEpoch
      (by rw [started.rank, owner]; rfl) index] at starves
    exact Bool.noConfusion (funds.symm.trans starves)

/-- Planning keeps what an owner's walk has collected, and ends it only when it is complete. -/
theorem planned_collects {action : Action} (planned : Planned fill budget after left action)
    (funds : ∀ walk, fill.walk = .candidates walk → walk.starvesPredecessor budget = false)
    (collects : fill.Collects heard) :
    CollectsAfter after heard (.act action) := by
  cases planned with
  | asks walks prepares =>
    intro rank owner
    have collected := (collects_candidates walks).mp collects rank owner
    rw [← (valid.walks _ walks).prepared_index owner prepares, ← prepares.evidence] at collected
    exact collected
  | @batch _ prepared _ _ _ walks prepares found granted =>
    intro rank owner
    have collected := (collects_candidates walks).mp collects rank owner
    have started := (valid.walks _ walks).prepared valid.owners prepares
    rw [← (valid.walks _ walks).prepared_index owner prepares, ← prepares.evidence] at collected
    have handoff := CandidateWalk.isGranted_handoff granted
    have few := valid.rank_le owner
    have below := valid.rank rank owner
    rw [started.owners] at handoff
    -- A granted target comes after every owner before this one.
    have past : rank ≤ prepared.index := by
      rcases started.target_owner owner found with ⟨before, same⟩ | ⟨after, -, -⟩
      · rw [few, ← same] at before
        exact absurd (before.trans below) (Nat.not_lt.mpr handoff)
      · rw [few] at after
        exact after
    rw [Nat.min_eq_right past] at collected
    rw [Nat.min_eq_right (past.trans (Nat.le_add_right _ _))]
    exact collected
  | concluded walks prepares concluded owner =>
    have complete := over_complete valid walks owner prepares concluded (funds _ walks)
    have collected := (collects_candidates walks).mp collects _ owner
    rw [Nat.min_eq_right complete] at collected
    exact ⟨owner, collected⟩
  | remaining => exact trivial

end

/-- Spending changes nothing the log is about. -/
theorem charged_collecting (budget spent : AcquisitionBudget)
    (collecting : Collecting fill heard last) :
    Collecting (fill.setRequestBudget budget spent).1 heard last := by
  rcases fill.setRequestBudget_cases budget spent with
    ⟨same, -, -⟩ | ⟨walk, _, _, walks, -, -, -, same⟩
  · rw [same]
    exact collecting
  · have kept : ({ fill with walk := .candidates walk } : Fill) = fill := by rw [← walks]
    rw [← kept] at collecting
    rw [same]
    exact collecting

end Fill

/-! ### Whole runs -/

/-- One exchange keeps the log and what the fill has collected in step. -/
theorem Exchange.Steps.collecting {exchange : Exchange} {completed : Option Outcome}
    (steps : exchange.Steps last completed) (funds : exchange.fundsPredecessors)
    (collecting : Collecting exchange.fill heard last) : Collecting exchange.reaction.fill
      (exchange.fill.log exchange.reaction.fill exchange.event heard)
      (some exchange.reaction.action) := by
  have decide {middle : Fill} {spent : AcquisitionBudget} {move : Move}
      (decided : Decided exchange.fill exchange.budget exchange.event last completed middle spent
        move) :
      CollectsAfter middle (exchange.fill.log middle exchange.event heard) move :=
    decided_collects steps.valid steps.phase.of_core steps.completion decided collecting
  have stepped := steps.stepped
  cases stepped with
  | failed _ action | unplanned _ action =>
    rw [action]
    trivial
  | acted decided same =>
    rw [log_core same]
    exact CollectsAfter.of_core same (decide decided)
  | planned dispatches decided kept planned same =>
    have followed := (decided_follows steps.valid steps.phase.of_core decided).1.of_core kept
    have collects := planned_collects followed planned (fun walk walks => by
      simpa [Exchange.fundsPredecessors, Exchange.plansFrom, dispatches, walks] using funds)
      (CollectsAfter.of_core kept (decide decided))
    have retried := (planned_retried planned).trans (core_retried kept)
    rw [log_core same]
    unfold log at collects ⊢
    rw [retried]
    exact CollectsAfter.of_core same collects

/-- A read whose walk is never starved of the probe of an owner ranked before this node asks
origin only on complete evidence: one outcome for every owner before it, in order, each of a
probe that the walk of the current epoch completed. A member's authority for a page that was minted
from it is accepted. -/
theorem origin_evidence_complete {spends : Spending} {config : FillConfig}
    {budget : AcquisitionBudget} {exchanges : List Exchange} {world : World} {rank : Nat}
    (run : Run (Reacts spends) (World.start config budget) exchanges world)
    (funds : ∀ exchange ∈ exchanges, exchange.fundsPredecessors)
    (asks : world.last = some (.origin rank)) :
    world.fill.rank = some rank ∧ world.fill.evidence.length = rank ∧
      (ownersHeard exchanges).map Prod.fst = List.range rank ∧
      (ownersHeard exchanges).map (fun owner => owner.2.evidence) = world.fill.evidence.map some ∧
      ∀ (Page : Type) [DecidableEq Page] (page : Page), validateOriginAuthority
        ⟨page, rank, world.fill.evidence.length, true, false⟩ page = .ok () := by
  have collected : world.Live ∧ Collecting world.fill (ownersHeard exchanges) world.last := by
    have unwalked : (new config).Collects [] := collects_unwalked rfl
    refine (run.guarded (fun exchange => exchange.fundsPredecessors) funds).history
      (fun (exchanges : List Exchange) (world : World) =>
        world.Live ∧ Collecting world.fill (ownersHeard exchanges) world.last) ?_
      ⟨World.start_live config budget, unwalked⟩
    intro exchanges before exchange after ⟨live, collecting⟩ ⟨reacts, funds⟩
    refine ⟨reacts.live live, ?_⟩
    obtain ⟨_, steps⟩ := reacts.steps live
    have charged := charged_collecting before.budget exchange.spent collecting
    rw [← reacts.charged] at charged
    rw [ownersHeard, foldl_append, reacts.next]
    exact steps.collecting funds charged
  obtain ⟨live, authority⟩ := collected
  rw [asks] at authority
  obtain ⟨owner, evidenced⟩ := authority
  refine ⟨owner, evidenced.length, evidenced.owners, evidenced.outcomes, fun _ _ page => ?_⟩
  obtain ⟨_, done, -⟩ | ⟨valid, -⟩ := live
  · cases asks.symm.trans done
  have few : rank < 3 := (valid.rank rank owner).trans_le valid.owners
  simp [validateOriginAuthority, evidenced.length, few]

/-- The third owner of a page asks the two before it and then origin. -/
theorem origin_evidence_complete_third_owner :
    ∃ exchanges world,
      Run (Reacts Drives)
          (World.start ⟨.page, false, false, 60000000000, .production⟩
            (.new 60000000000 8 32)) exchanges world ∧
        (∀ exchange ∈ exchanges, exchange.fundsPredecessors) ∧
        world.last = some (.origin 2) ∧ world.fill.evidence.length = 2 := by
  let ranking := plainRanking 2 [10, 11, 7] (some 2) (by decide) (by decide)
  let missed : Line := ⟨.reply (.answer .miss true),
    .attempt ⟨0, 60000000000, 3, .sharedRoute, .acquire, 1000000000, 8⟩, 0⟩
  obtain ⟨exchanges, world, run, funds, asks⟩ := pageWorld.exists_run
    (openingLines ranking ++ [missed, missed, ⟨.ranked (.ok ranking), .nothing, 0⟩])
    (fun exchanges world => (∀ exchange ∈ exchanges, exchange.fundsPredecessors) ∧
      world.last = some (.origin 2)) (by decide +kernel)
  exact ⟨exchanges, world, run, funds, asks, (origin_evidence_complete run funds asks).2.1⟩

/-- A reader loses its hedge, and the owner it then asks knows a newer membership in which the
reader is the page's third owner. What the hedge and that probe left pays for one of the two
owners before it: the walk starves at the other and the fill asks origin on one outcome. -/
theorem starved_walk_asks_origin :
    ∃ exchanges world,
      Run (Reacts Drives)
          (World.start ⟨.page, true, false, 60000000000, .production⟩
            (.new 60000000000 6 10)) exchanges world ∧
        world.last = some (.origin 2) ∧ world.fill.evidence = [.copyMiss] := by
  let reader := plainRanking 1 [10, 11, 12] none (by decide) (by decide)
  let owner := plainRanking 2 [10, 11, 7] (some 2) (by decide) (by decide)
  let inputs (route : RouteMode) (mode : Mode) : AttemptInputs :=
    ⟨0, 60000000000, 3, route, mode, 1000000000, 8⟩
  exact World.exists_run _ [
    ⟨.start false, .nothing, 0⟩,
    ⟨.ranked (.ok reader), .nothing, 0⟩,
    ⟨.hedge (.lost false (some .unreachable) none),
      .race (inputs .directHedge .acquire) (inputs .directHedge .copyOnly), 0⟩,
    ⟨.reply (.answer .staleMembership true), .stale (inputs .fundedRoute .acquire) 1, 0⟩,
    ⟨.membership (some 2) false, .nothing, 0⟩,
    ⟨.ranked (.ok owner), .nothing, 0⟩,
    ⟨.ranked (.error .unavailable), .nothing, 0⟩,
    ⟨.hints [] .unknown, .nothing, 0⟩,
    ⟨.reply (.answer .miss true), .attempt (inputs .fundedRoute .copyOnly), 0⟩,
    ⟨.ranked (.ok owner), .nothing, 0⟩] _ (by decide +kernel)

end Unbounded.Read
