/-
This file models one read's acquisition of a page as the state machine the
source drives without I/O. The caller feeds an event and performs the action it
gets back: it ranks the page, races a hedge, sends a probe, waits, asks origin,
publishes. The machine drives one candidate walk for each membership epoch.

Every path that ends in planning the next probe of the current walk does so as
its last act. `handle` is therefore cut in two: `dispatch` takes the event and
either names an action or says that the walk plans, and `next` plans. A panic
(an assertion, an `expect`, an event out of order) is `none`. Instants and
durations are nanoseconds.
-/

import Unbounded.CandidateWalk

namespace Unbounded.Read

open Word

/-! ### Decisions of their own -/

/-- Map a transport error to walk evidence; `none` is terminal. -/
def transportOutcome : Error → Option ProbeOutcome
  | .unavailable | .io | .os _ | .hopBudgetExhausted => some .unreachable
  | .overloaded => some .overloaded
  | _ => none

/-- What to do after a peer answered `StaleMembership`. -/
inductive StaleAction
  | refresh
  | skip
  deriving DecidableEq, Repr

/-- Each epoch refreshes at most once, and only to a strictly newer membership. -/
def staleAction (retried : Bool) (previous : Nat) : Option Nat → Except Error StaleAction
  | none => .error .unavailable
  | some latest => .ok (if !retried && decide (latest > previous) then .refresh else .skip)

/-- Whether to hedge: a reader's page fill with two distinct owners visited first, and credits
to spare. -/
def hedgeEligible (page owner : Bool) (owners : List Nat) (first second : Nat)
    (budget : AcquisitionBudget) : Bool :=
  page && !owner && decide (owners.length ≥ 2) && decide (first = 0) &&
    decide (owners[first]? ≠ owners[second]?) &&
    decide (budget.attempts ≥ 3 + ownerFundingMin second) && decide (budget.links ≥ 10)

/-- Hedge race errors that fall back to the serial walk. -/
def hedgeFallback : Error → Bool
  | .unavailable | .io | .os _ | .overloaded | .corruptRecord | .missingKey | .invalidRequest
  | .headerTooLarge => true
  | _ => false

/-- Most time one wait for a destination that is behind may take: 4 s. -/
def maxStaleWait : Nat := 4000000000

/-- Most waits one read makes. -/
def maxStaleWaits : Nat := 2

/-- Shortest wait worth making: 250 ms. -/
def minStaleWait : Nat := 250000000

/-- How long a non-owner that cannot fall back waits before asking a destination that is behind
again. -/
def staleWait (waits : Nat) (affordable : Bool) (remaining : Nat) : Option Nat :=
  if waits ≥ maxStaleWaits ∨ (waits > 0 ∧ ¬ affordable) then none
  else
    let wait := min (remaining / 3) maxStaleWait
    if wait ≥ minStaleWait then some wait else none

/-- Whether a reader walks the page's owners under N - 1 instead of skipping a destination that
is behind. -/
def previousFallback (owner retried previousRecentMember : Bool) : Bool :=
  !owner && !retried && previousRecentMember

/-! ### Configuration, rankings, events and actions -/

/-- Optional rules, one bit each, and the most lineage targets for an owner walk. -/
structure Features where
  bits : Nat
  lineageCap : Nat
  lineageCap_le : lineageCap ≤ maxLineage
  deriving DecidableEq, Repr

namespace Features

def lineageGrants : Nat := 1
def lineageSlack : Nat := 2
def parallelGranted : Nat := 4
def helper : Nat := 8
def staleFallback : Nat := 16
def staleWait : Nat := 32
def rank0Failed : Nat := 64

/-- Every rule production runs. -/
def production : Features := ⟨127, maxLineage, le_rfl⟩

def has (features : Features) (bit : Nat) : Bool := decide (features.bits &&& bit ≠ 0)

end Features

/-- Inputs fixed for one fill. `scope` is the request's deadline. -/
structure FillConfig where
  operation : OperationKind
  hedge : Bool
  walkOnly : Bool
  scope : Nat
  features : Features
  deriving DecidableEq, Repr

/-- Which ranking of the page an action asks for. -/
inductive Ranking
  | current
  | previous
  | fallback
  | authority
  deriving DecidableEq, Repr

/-- One ranking of the page under `version`, as the caller computes it: at most three owners,
this node's rank among them, and a visit order that is a permutation of their ranks. -/
structure Ranked where
  version : Nat
  owners : List Nat
  rank : Option Nat
  since : List (Option Nat)
  order : VisitOrder
  demoted : List Nat
  demotedSince : List (Option Nat)
  oldest : Option Nat
  members : Nat
  recentMember : Bool
  owners_short : owners.length ≤ maxHandoff
  rank_lt : ∀ position ∈ rank, position < owners.length
  since_length : since.length = maxHandoff
  order_owners : order.ranks.Perm (List.range owners.length)
  demoted_short : demoted.length ≤ demotedDepth
  demotedSince_length : demotedSince.length = demotedDepth
  deriving DecidableEq

/-- How a speculative hedge ended. -/
inductive HedgeEnd
  /-- Not raced (disabled, ineligible, or not admitted). -/
  | notStarted
  | won
  | lost (stale : Bool) (primary : Option ProbeOutcome) (error : Option Error)
  deriving DecidableEq, Repr

/-- A peer's answer to a probe, before payload validation. -/
inductive Reply
  | answer (kind : ResponseKind) (signed : Bool)
  | timedOut
  /-- Failed without a response; `sent` is false when it never left this node. -/
  | failed (error : Error) (sent scopeLive : Bool)
  deriving DecidableEq, Repr

/-- What the caller learned. -/
inductive Event
  | start (localHit : Bool)
  | ranked (result : Except Error Ranked)
  | hints (hints : List Nat) (rank0 : Rank0State)
  | hedge (hedgeEnd : HedgeEnd)
  | reply (reply : Reply)
  | validated (result : Except Error (Option ProbeOutcome))
  | noHelper
  | batchDone (copy : Bool)
  | timer
  | membership (latest : Option Nat) (previousRecentMember : Bool)
  | origin (result : Except Error Unit)
  | published (result : Except Error Unit)
  | abort (error : Error)

/-- What the caller does next. -/
inductive Action
  | rank (ranking : Ranking) (version : Option Nat)
  | hints
  | hedge (eligible : Bool) (first second : Nat)
  | refresh
  | probe (probe : Probe)
  | validate
  | batch (first count remainingOpportunities : Nat)
  | wait (duration : Nat)
  | origin (rank : Nat)
  | publish (source : Source)
  | done (result : Except Error Source)
  | idle
  deriving DecidableEq

/-- What a destination's answer, or its silence, says about it. -/
inductive SilenceNote
  | answered
  | shed
  | timedOut (needed : Nat)
  deriving DecidableEq, Repr

/-- What a probe of rank 0 says about its acquisition. -/
inductive Rank0Note
  | answered
  | failed
  | timedOut
  deriving DecidableEq, Repr

/-- Facts from one event for the caller's own state and counters. -/
structure Evidence where
  outcome : Option (Except Error Outcome) := none
  helper : Bool := false
  granted : Bool := false
  rank0Probe : Bool := false
  silence : Option SilenceNote := none
  rank0 : Option Rank0Note := none
  notes : Nat := 0
  deriving DecidableEq

/-! Decisions `Evidence.notes` reports. -/

namespace Notes

def staleSkip : Nat := 1
def ownerStaleSkip : Nat := 2
def refresh : Nat := 4
def fallback : Nat := 8
def fallbackDenied : Nat := 16
def waitDenied : Nat := 32
def fallbackBlocked : Nat := 64
def rank0Left : Nat := 128
def walkCopy : Nat := 256
def exhausted : Nat := 512
def exhaustedFunding : Nat := 1024
def exhaustedStale : Nat := 2048
def remaining : Nat := 4096

end Notes

/-- Unanswered probes of a page's rank 0 before the prober pings it. -/
def rank0Timeouts : Nat := 1

/-- Never ping. -/
def noPing : Nat := 2 ^ 32 - 1

inductive Walking
  | none
  | candidates (walk : CandidateWalk)
  | remaining (walk : RemainingWalk)
  deriving DecidableEq

def Walking.isRemaining : Walking → Bool
  | .remaining _ => true
  | _ => false

/-- State of one read's acquisition. -/
structure Fill where
  config : FillConfig
  hedge : Bool
  ranking : Ranking
  hedgeRefresh : Bool
  version : Nat
  owners : List Nat
  rank : Option Nat
  order : VisitOrder
  members : Nat
  lineage : List Nat
  lineageTargets : List Nat
  demoted : List Nat
  handoff : List Nat
  successors : Nat
  granted : Nat
  previous : Nat
  rank0 : Rank0State
  bounded : Bool
  continuation : Continuation
  walk : Walking
  probe : Option Probe
  signed : Bool
  retried : Bool
  fellBack : Bool
  fallbackDenied : Bool
  waits : Nat
  waiting : Bool
  stale : Nat
  latest : Nat
  evidence : List ProbeOutcome
  originRank : Nat
  originPending : Bool
  source : Source
  funding : Bool
  remainingEnd : Option RemainingEnd
  out : Evidence
  deriving DecidableEq

/-- What deciding on an event asks for: an action, or planning the walk's next probe. -/
inductive Move
  | act (action : Action)
  | plan
  deriving DecidableEq

/-- A fill and its caller's budget after a call, with the call's result. -/
structure Turn (Value : Type) where
  fill : Fill
  budget : AcquisitionBudget
  result : Except Error Value

/-! ### Small steps of the machine -/

namespace Fill

def new (config : FillConfig) : Fill where
  config := config
  hedge := config.hedge && !config.walkOnly
  ranking := .current
  hedgeRefresh := false
  version := 0
  owners := []
  rank := none
  order := VisitOrder.canonical 0
  members := 0
  lineage := List.replicate maxHandoff 0
  lineageTargets := []
  demoted := []
  handoff := []
  successors := 0
  granted := 0
  previous := 0
  rank0 := .unknown
  bounded := false
  continuation := {}
  walk := .none
  probe := none
  signed := false
  retried := false
  fellBack := false
  fallbackDenied := false
  waits := 0
  waiting := false
  stale := 0
  latest := 0
  evidence := []
  originRank := 0
  originPending := false
  source := .peer
  funding := false
  remainingEnd := none
  out := {}

variable (fill : Fill) (budget : AcquisitionBudget)

/-- Budget the outstanding probe spends: its bounded child, or the read's. -/
def requestBudget : AcquisitionBudget :=
  match fill.walk with
  | .candidates walk => walk.requestBudget budget
  | _ => budget

/-- The fill and the read's budget once the outstanding probe's budget is `spent`. -/
def setRequestBudget (budget spent : AcquisitionBudget) : Fill × AcquisitionBudget :=
  match fill.walk with
  | .candidates walk =>
    let (walk, budget) := walk.setRequestBudget budget spent
    ({ fill with walk := .candidates walk }, budget)
  | _ => (fill, spent)

/-- Where a probe goes: an owner or a handoff target, or `none` for the overflow helper the
caller chooses. -/
def dest (probe : Probe) : Option Nat :=
  if probe.canonical < fill.owners.length then fill.owners[probe.canonical]?
  else if fill.rank.isSome then fill.handoff[probe.canonical - fill.owners.length]?
  else none

def page : Bool := decide (fill.config.operation = .page)

def has (bit : Nat) : Bool := fill.config.features.has bit

def note (bits : Nat) : Fill :=
  { fill with out := { fill.out with notes := fill.out.notes ||| bits } }

def rankNext (ranking : Ranking) (version : Option Nat) : Fill × Action :=
  ({ fill with ranking }, .rank ranking version)

def publish (source : Source) : Fill × Action := ({ fill with source }, .publish source)

def walked (source : Source) : Fill × Action :=
  if fill.config.walkOnly then (fill, .done (.ok source)) else fill.publish source

/-- The probe a walk waits for. -/
def outstanding : Option Pending :=
  match fill.walk with
  | .candidates walk => walk.pending
  | _ => none

/-- Note what the outstanding probe asked. -/
def pending : Fill :=
  match fill.walk with
  | .candidates walk =>
    { fill with out := { fill.out with
        helper := walk.pending.any (·.helper)
        granted := walk.pending.any (·.granted)
        rank0Probe := walk.pending.any (·.rank0) } }
  | _ => fill

/-- A `staleMembership` answer to the outstanding probe must not refresh. -/
def noRefresh : Bool := fill.outstanding.any fun pending => pending.handoff || pending.previous

/-- Report how the probe the event answered ended. -/
def report (outcome : Except Error Outcome) : Fill :=
  { fill with out := { fill.out with outcome := some outcome } }

/-! ### The ends of the walks -/

/-- Leave the candidate walk, keeping what it says about funding and rank 0. -/
def leave : Fill :=
  match fill.walk with
  | .candidates walk =>
    let fill := { fill with funding := walk.funding }
    let fill := if walk.rank0Unanswered then fill.note Notes.rank0Left else fill
    { fill with walk := .none }
  | _ => { fill with walk := .none }

/-- The candidate walk ended. -/
def ended (walkEnd : End) : Fill × Except Error Action :=
  let fill := fill.leave
  match walkEnd with
  | .copy => ((fill.note Notes.walkCopy).walked .peer).map id .ok
  | .staleMembership =>
    -- Walk the newer membership with the spent credits and, if this epoch was bounded, bounded.
    (({ fill.note Notes.refresh with
        retried := true
        continuation := { boundedRoutes := fill.bounded } }).rankNext .current
          (some fill.latest)).map id .ok
  | .origin rank evidence =>
    -- Only a ranked owner may fetch: rank again before origin.
    (({ fill with evidence, originRank := rank }).rankNext .authority (some fill.version)).map
      id .ok
  | .versionUnavailable => (fill, .error .versionUnavailable)
  | .exhausted funding =>
    let fill := fill.note (if funding then Notes.exhaustedFunding else Notes.exhausted)
    (if fill.stale > 0 then fill.note Notes.exhaustedStale else fill, .error .unavailable)

def remainingEnded (walkEnd : RemainingEnd) : Fill × Except Error Action :=
  let fill := { fill with walk := .none, remainingEnd := some walkEnd }
  match walkEnd with
  | .copy => (fill.publish .peer).map id .ok
  | .none => (fill, .error (originMissError fill.evidence))
  | .unavailable => (fill, .error .unavailable)

/-- Plan the next probe of the current walk. -/
def next : Option (Turn Action) :=
  match fill.walk with
  | .candidates walk =>
    (walk.next budget).bind fun planned =>
      let fill := { fill with walk := .candidates planned.1 }
      match planned.2.2 with
      | .error error => some ⟨fill, planned.2.1, .error error⟩
      | .ok (.probe probe) =>
        some ⟨{ fill with probe := some probe }, planned.2.1, .ok (.probe probe)⟩
      | .ok (.granted probes) =>
        probes.head?.map fun first =>
          ⟨fill, planned.2.1, .ok (.batch (first.canonical - fill.owners.length) probes.length
            first.remainingOpportunities)⟩
      | .ok (.ended walkEnd) =>
        let (fill, result) := fill.ended walkEnd
        some ⟨fill, planned.2.1, result⟩
  | .remaining walk =>
    walk.nextProbe.map fun planned =>
      let fill := { fill with walk := .remaining planned.1 }
      match planned.2 with
      | .ok probe => ⟨{ fill with probe := some probe }, budget, .ok (.probe probe)⟩
      | .error walkEnd =>
        let (fill, result) := fill.remainingEnded walkEnd
        ⟨fill, budget, result⟩
  | .none => some ⟨fill, budget, .ok .idle⟩

/-! ### Starting a walk -/

/-- How many leading handoff targets are asked on their own grant: successors, then lineage
targets. Rank 0 fetches for every owner that delegated to it and grants them all. -/
def grantedTargets : Nat :=
  if fill.has Features.lineageGrants ∧ fill.rank = some 0 ∧ fill.page then fill.handoff.length
  else fill.successors +
    if fill.has Features.lineageGrants ∧ fill.rank.isSome then
      grantedPrefix (fill.handoff.drop fill.successors) fill.lineageTargets
    else 0

/-- The configuration of this epoch's walk. -/
def walkConfig : WalkConfig where
  rank := fill.rank
  owners := fill.owners.length
  order := fill.order
  pageOperation := fill.page
  continuation := fill.continuation
  handoff := fill.handoff.length
  previous := fill.previous
  helper := fill.rank.isNone && fill.page && fill.has Features.helper &&
    decide (fill.members > fill.owners.length + 1)
  lineage := fill.lineage
  granted := fill.grantedTargets
  parallelGranted := fill.has Features.parallelGranted
  rank0 := fill.rank0

def startWalk : Fill × Move :=
  ({ fill with
      granted := fill.grantedTargets
      continuation := {}
      bounded := fill.continuation.boundedRoutes
      walk := .candidates (CandidateWalk.new fill.walkConfig) }, .plan)

/-- Race a hedge before the first walk. It asks the walk's first two owners, so that a consumed
primary is exactly the owner the walk skips. -/
def walkOrHedge : Fill × Move :=
  if !fill.hedge then fill.startWalk
  else
    let first := (fill.order.get 0).getD 0
    let second := (fill.order.get 1).getD 0
    (fill, .act (.hedge (hedgeEligible fill.page fill.rank.isSome fill.owners first second budget)
      first second))

/-- The handoff targets are known: an owner adds its successor targets. -/
def targets : Fill × Move :=
  if fill.rank.isSome ∧ fill.page then (fill, .act .hints) else fill.walkOrHedge budget

/-- Demoted members an owner at `rank` may ask. -/
def rankedDemoted (ranked : Ranked) (rank : Nat) : List Nat :=
  demotedTargets (ranked.since.take ranked.owners.length) ranked.demoted
    (ranked.demotedSince.take ranked.demoted.length) rank ranked.oldest

/-- Later owners that arrived earlier, then demoted members that were owners when they
arrived. -/
def rankedLineage (cap : Nat) (ranked : Ranked) (rank : Nat) : List Nat :=
  (rankedDemoted ranked rank).foldl
    (fun targets node =>
      if ¬ targets.contains node ∧ targets.length < cap then targets ++ [node] else targets)
    (Read.lineageTargets ranked.owners (ranked.since.take ranked.owners.length) rank)

/-- The fill under a new ranking, with an owner's targets. -/
def adopt (ranked : Ranked) : Fill :=
  let lineageTargets := match ranked.rank, fill.page with
    | some rank, true => rankedLineage fill.config.features.lineageCap ranked rank
    | _, _ => []
  { fill with
    version := ranked.version
    owners := ranked.owners
    rank := ranked.rank
    members := ranked.members
    order := if ranked.rank.isSome then VisitOrder.canonical 0 else ranked.order
    lineage :=
      if !fill.page || (fill.has Features.lineageGrants && !fill.has Features.lineageSlack) then
        List.replicate maxHandoff 0
      else lineageCounts (ranked.since.take ranked.owners.length)
    lineageTargets := lineageTargets
    demoted := match ranked.rank, fill.page with
      | some rank, true => rankedDemoted ranked rank
      | _, _ => []
    handoff := lineageTargets
    successors := 0
    previous := 0
    stale := 0
    rank0 := .unknown }

/-- The page is ranked under the membership this read walks: build the owner's targets, then
walk. An owner also ranks the page under membership version - 1. -/
def ranked (fill : Fill) (ranked : Ranked) (budget : AcquisitionBudget) :
    Fill × Except Error Move :=
  if ranked.owners = [] then (fill, .error .unavailable)
  else
    let fill := fill.adopt ranked
    if ranked.rank.isSome ∧ fill.page ∧ 1 ≤ ranked.version then
      (fill.rankNext .previous (some (ranked.version - 1))).map id fun action => .ok (.act action)
    else (fill.targets budget).map id .ok

/-- Add the previous owners to an owner's targets. -/
def previousRanked (result : Except Error Ranked) : Fill :=
  match result, fill.rank with
  | .ok previous, some rank =>
    { fill with
      previous :=
        if previous.recentMember then sameRankPrevious previous.owners fill.owners rank
        else fill.previous
      handoff := mergeHandoff
        ((handoffTargets previous.owners fill.owners rank).filter fun node => node ≠ notMember)
        fill.lineageTargets }
  | _, _ => fill

/-- Put an owner's hinted successors before its other targets. -/
def hinted (hints : List Nat) (rank0 : Rank0State) : Fill :=
  let fill := { fill with rank0 }
  match fill.rank with
  | some rank =>
    let targets := successorTargets hints fill.owners rank
    if targets = [] then fill
    else { fill with
      handoff := (withSuccessors targets fill.handoff).1
      successors := (withSuccessors targets fill.handoff).2 }
  | none => fill

/-! ### Completing a probe -/

/-- After a probe completed: end the walk, or plan the next probe. -/
def after (walkEnd : Option End) (skipped : Bool) : Fill × Except Error Move :=
  match walkEnd with
  | some walkEnd => (fill.ended walkEnd).map id (·.map .act)
  | none =>
    (if skipped && fill.rank.isNone && !fill.retried && !fill.fellBack then
      fill.note Notes.fallbackBlocked else fill, .ok .plan)

/-- Complete the outstanding probe of this candidate walk. -/
def completeVisit (walk : CandidateWalk) (outcome : Outcome) (skipped : Bool)
    (budget : AcquisitionBudget) : Option (Turn Move) :=
  (walk.complete budget outcome).map fun completed =>
    let fill := { fill with walk := .candidates completed.1 }
    match completed.2.2 with
    | .error error => ⟨fill, completed.2.1, .error error⟩
    | .ok walkEnd =>
      let (fill, result) := fill.after walkEnd skipped
      ⟨fill, completed.2.1, result⟩

def walkComplete (outcome : Outcome) (budget : AcquisitionBudget) : Option (Turn Move) :=
  match fill.walk with
  | .candidates walk => fill.completeVisit walk outcome false budget
  | .remaining walk =>
    (walk.complete budget outcome).map fun completed =>
      let fill := { fill with walk := .remaining completed.1 }
      match completed.2.2 with
      | some walkEnd =>
        let (fill, result) := fill.remainingEnded walkEnd
        ⟨fill, completed.2.1, result.map .act⟩
      | none => ⟨fill, completed.2.1, .ok .plan⟩
  | .none => some ⟨fill, budget, .ok (.act .idle)⟩

/-- What an outcome says about rank 0's acquisition. An overload withholds origin like a timeout
does, so it feeds the watch like one too. -/
def rank0Note : Outcome → Option Rank0Note
  | .timedOut | .probe .overloaded | .transport .overloaded => some .timedOut
  | .failed => some .failed
  | .copy | .probe .copyMiss | .probe .versionUnavailable | .probe .unreachable => some .answered
  | _ => none

/-- Note what the outcome says about rank 0: only its own answer, its silence, or an overload on
the way to it says anything. -/
def noteRank0 (outcome : Outcome) : Fill :=
  if fill.out.rank0Probe ∧ ¬ fill.out.helper ∧
      (fill.signed ∨ outcome = .timedOut ∨ outcome.overloaded) then
    { fill with out := { fill.out with rank0 := rank0Note outcome } }
  else fill

/-- Record the outstanding probe's outcome and its evidence. -/
def complete (outcome : Outcome) (budget : AcquisitionBudget) : Option (Turn Move) :=
  ((fill.pending.report (.ok outcome)).noteRank0 outcome).walkComplete outcome budget

/-- What a peer's answer comes to: an outcome of the probe, an outcome of a probe that never left
this node, an action first, or the end of the read. -/
inductive Verdict
  | complete (outcome : Outcome)
  | unsent (outcome : Outcome)
  | act (action : Action)
  | fail (error : Error)
  deriving DecidableEq

/-- The destination answered this node: it is not hung. One that shed the request is busy. -/
def heard (kind : ResponseKind) (signed : Bool) : Fill :=
  { fill with
    signed := signed
    out := { fill.out with
      silence :=
        if signed then
          some (if kind = .overloaded ∧ fill.page then .shed else .answered)
        else fill.out.silence } }

/-- Read an authenticated answer to `probe`. -/
def answer (probe : Probe) (kind : ResponseKind) (signed : Bool) : Fill × Verdict :=
  let fill := fill.heard kind signed
  let fails (error : Error) : Fill × Verdict := (fill.report (.error error), .fail error)
  -- The destination itself, not a relay, shed the request.
  if kind = .overloaded ∧ signed then (fill, .complete .shed)
  else if kind = .staleMembership then
    if fill.walk.isRemaining then fails .incompatibleMembership
    else if fill.noRefresh then (fill, .complete .staleMembership)
    else ({ fill with hedgeRefresh := false }, .act .refresh)
  -- Rank 0 itself answered that its own acquisition failed.
  else if kind = .unavailable ∧ signed ∧ fill.out.rank0Probe ∧ fill.has Features.rank0Failed then
    (fill, .complete .failed)
  else if kind.hasPayload then (fill, .act .validate)
  else match classify kind fill.config.operation (decide (probe.mode = .acquire))
      fun _ => .ok () with
    | .ok outcome => (fill, .complete (.probe (outcome.getD .unusableCopy)))
    | .error error =>
      match unusableCopy error fill.config.operation with
      | some outcome => (fill, .complete (.probe outcome))
      | none => fails error

/-- Unanswered: a probe of rank 0 asks a ping; others only demote the destination. -/
def unanswered (probe : Probe) : Fill :=
  let rank0 := fill.out.rank0Probe ||
    (fill.rank.isNone && decide (probe.canonical = 0) && !fill.out.helper)
  if fill.page then
    { fill with out := { fill.out with
        silence := some (.timedOut (if rank0 then rank0Timeouts else noPing)) } }
  else fill

/-- Map a peer's answer to the outstanding `probe` to what it comes to. -/
def judge (probe : Probe) (reply : Reply) : Fill × Verdict :=
  let fill := { fill.pending with signed := false }
  match reply with
  | .answer kind signed => fill.answer probe kind signed
  | .timedOut => (fill.unanswered probe, .complete .timedOut)
  | .failed error sent scopeLive =>
    match transportOutcome error with
    | some outcome =>
      if sent then (fill, .complete (.transport outcome))
      -- Never sent: no evidence about the destination.
      else ({ fill with out := { notes := fill.out.notes } }, .unsent (.transport outcome))
    | none =>
      -- A granted probe is opportunistic: any failure of it is only a miss.
      if fill.out.granted ∧ scopeLive then
        if sent then (fill, .complete (.transport .unreachable))
        else ({ fill with out := { notes := fill.out.notes } }, .unsent (.transport .unreachable))
      else (if sent then fill.report (.error error) else fill, .fail error)

/-- Take a peer's answer. -/
def reply (fill : Fill) (reply : Reply) (budget : AcquisitionBudget) : Option (Turn Move) :=
  fill.probe.bind fun probe =>
    let (fill, verdict) := fill.judge probe reply
    match verdict with
    | .complete outcome => fill.complete outcome budget
    | .unsent outcome => fill.walkComplete outcome budget
    | .act action => some ⟨fill, budget, .ok (.act action)⟩
    | .fail error => some ⟨fill, budget, .error error⟩

/-! ### A destination that is behind -/

/-- Count and report a destination that is behind this node. -/
def noteBehind (bits : Nat) : Fill :=
  ({ fill.note bits with stale := fill.stale + 1 }).pending.report (.ok .staleDestination)

/-- The destination is behind this node and no newer membership exists locally: try the next
owner. -/
def skip : Option (Turn Move) :=
  let fill := fill.noteBehind
    (if fill.rank.isSome then Notes.staleSkip ||| Notes.ownerStaleSkip else Notes.staleSkip)
  match fill.walk with
  | .candidates walk => fill.completeVisit walk .staleDestination true budget
  | _ => some ⟨fill, budget, .ok (.act .idle)⟩

/-- A non-owner that cannot walk the previous membership waits for a destination that is behind,
then asks it again. The outstanding probe's credits return to the read's budget. -/
def wait (now : Nat) : Turn (Option Nat) :=
  if !fill.has Features.staleWait then ⟨fill, budget, .ok none⟩
  else match fill.walk with
    | .candidates walk =>
      match Read.staleWait fill.waits (walk.retryAffordable budget)
          (min budget.deadline fill.config.scope - now) with
      | none => ⟨fill, budget, .ok none⟩
      | some duration =>
        match walk.retryPending budget with
        | (walk, budget, .error error) =>
          ⟨{ fill with walk := .candidates walk }, budget, .error error⟩
        | (walk, budget, .ok ()) =>
          ⟨{ fill with
              walk := .candidates walk
              waits := saturatingAdd 8 fill.waits 1
              waiting := true }, budget, .ok (some duration)⟩
    | _ => ⟨fill, budget, .ok none⟩

/-- Wait for a destination that is behind, or skip it. -/
def waitOrSkip (denied : Bool) (budget : AcquisitionBudget) (now : Nat) : Option (Turn Move) :=
  match fill.wait budget now with
  | ⟨fill, budget, .error error⟩ => some ⟨fill, budget, .error error⟩
  | ⟨fill, budget, .ok (some duration)⟩ =>
    some ⟨if denied then fill.note Notes.waitDenied else fill, budget, .ok (.act (.wait duration))⟩
  | ⟨fill, budget, .ok none⟩ => fill.skip budget

/-- Whether a skipped destination makes this read walk membership version - 1 instead. -/
def fallsBack (previousRecentMember : Bool) : Bool :=
  fill.has Features.staleFallback && !fill.fallbackDenied &&
    previousFallback fill.rank.isSome (fill.retried || fill.fellBack) previousRecentMember

/-- The newest adopted membership after a `staleMembership` answer. Refresh at most once, to a
strictly newer membership; otherwise skip the destination like an unreachable one. -/
def membership (latest : Option Nat) (previousRecentMember : Bool)
    (budget : AcquisitionBudget) (now : Nat) : Option (Turn Move) :=
  match staleAction fill.retried fill.version latest with
  | .error error =>
    some ⟨if fill.hedgeRefresh then fill else fill.pending.report (.error error), budget,
      .error error⟩
  | .ok .refresh =>
    if fill.hedgeRefresh then
      let (fill, action) := ({ fill.note Notes.refresh with retried := true }).rankNext .current
        (some (latest.getD 0))
      some ⟨fill, budget, .ok (.act action)⟩
    else ({ fill with latest := latest.getD 0 }).complete .staleMembership budget
  | .ok .skip =>
    if fill.hedgeRefresh then
      let (fill, move) := (fill.note Notes.staleSkip).startWalk
      some ⟨fill, budget, .ok move⟩
    else if fill.fallsBack previousRecentMember then
      -- Rank it first: a node that owns the page there may not walk it, and keeps its wait.
      let (fill, action) := ({ fill with fellBack := true }).rankNext .fallback
        (some (wrappingSub 64 fill.version 1))
      some ⟨fill, budget, .ok (.act action)⟩
    else if fill.rank.isNone then fill.waitOrSkip false budget now
    else fill.skip budget

/-- A page owner under version - 1 would gain authority it no longer has. -/
def fallbackAllowed (ranked : Ranked) : Bool := decide (ranked.owners ≠ []) && ranked.rank.isNone

/-- Leave the current walk for the previous membership's owners, which were not asked. -/
def abandonEpoch : Option (Turn Unit) :=
  let fill := fill.noteBehind (Notes.staleSkip ||| Notes.fallback)
  match fill.walk with
  | .candidates walk =>
    (walk.complete budget .staleDestination).map fun completed =>
      match completed.2.2 with
      | .error error => ⟨{ fill with walk := .candidates completed.1 }, completed.2.1, .error error⟩
      | .ok _ =>
        let (walk, budget, result) := completed.1.abandon completed.2.1
        ⟨{ fill with walk := .candidates walk }, budget, result⟩
  | _ => some ⟨fill, budget, .ok ()⟩

/-- The page is ranked under the previous membership: walk it there, or, when this node owns it
there, keep walking the current membership. -/
def fallbackRanked (result : Except Error Ranked) (budget : AcquisitionBudget)
    (now : Nat) : Option (Turn Move) :=
  match result with
  | .ok ranked =>
    if fallbackAllowed ranked then
      (fill.abandonEpoch budget).map fun turn =>
        match turn.result with
        | .error error => ⟨turn.fill, turn.budget, .error error⟩
        | .ok () =>
          let (fill, result) := ({ turn.fill with
            walk := .none, retried := true, continuation := {} }).ranked ranked turn.budget
          ⟨fill, turn.budget, result⟩
    else
      ({ fill.note Notes.fallbackDenied with
        fallbackDenied := true, fellBack := false }).waitOrSkip true budget now
  | .error _ => ({ fill with fellBack := false }).waitOrSkip false budget now

/-! ### Events -/

/-- Take how the hedge ended. -/
def hedged (hedgeEnd : HedgeEnd) : Fill × Except Error Move :=
  let fill := { fill with hedge := false }
  match hedgeEnd with
  | .notStarted => fill.startWalk.map id .ok
  | .won => (fill.walked .hedge).map id fun action => .ok (.act action)
  | .lost stale primary error =>
    match error.filter (!hedgeFallback ·) with
    | some error => (fill, .error error)
    | none =>
      let fill := { fill with
        continuation := {
          primaryConsumed := !stale
          primaryOutcome := if stale then none else some (primary.getD .unreachable)
          boundedRoutes := true } }
      -- Refresh, or walk this epoch with bounded routes.
      if stale then ({ fill with hedgeRefresh := true }, .ok (.act .refresh))
      else fill.startWalk.map id .ok

/-- The walk's ranking again before origin: only a ranked owner fetches. -/
def authorityRanked (result : Except Error Ranked) : Fill × Except Error Move :=
  match result with
  | .error error => (fill, .error error)
  | .ok ranked =>
    if ranked.owners ≠ fill.owners then (fill, .error .incompatibleMembership)
    else ({ fill with originPending := !fill.config.walkOnly },
      .ok (.act (.origin fill.originRank)))

/-- Take an answered ranking. -/
def takeRanked (result : Except Error Ranked) (budget : AcquisitionBudget)
    (now : Nat) : Option (Turn Move) :=
  let unspent (taken : Fill × Except Error Move) : Option (Turn Move) :=
    some ⟨taken.1, budget, taken.2⟩
  match fill.ranking with
  | .current =>
    match result with
    | .error error => unspent (fill, .error error)
    | .ok ranked => unspent (fill.ranked ranked budget)
  | .previous => unspent (((fill.previousRanked result).targets budget).map id .ok)
  | .fallback => fill.fallbackRanked result budget now
  | .authority => unspent (fill.authorityRanked result)

/-- Take how origin answered. Old copies on later owners remain useful after a version miss. -/
def takeOrigin (result : Except Error Unit) : Option (Fill × Except Error Move) :=
  if !fill.originPending then none
  else
    let fill := { fill with originPending := false }
    match result with
    | .ok () => some ((fill.publish .origin).map id fun action => .ok (.act action))
    | .error .versionUnavailable =>
      some ({ fill.note Notes.remaining with
        walk := .remaining (RemainingWalk.new (fill.rank.getD 0) fill.owners.length) }, .ok .plan)
    | .error error => some (fill, .error error)

/-- Decide on an event, short of planning the next probe. -/
def dispatch (event : Event) (budget : AcquisitionBudget) (now : Nat) : Option (Turn Move) :=
  let unspent (taken : Fill × Except Error Move) : Turn Move := ⟨taken.1, budget, taken.2⟩
  match event with
  | .start true => some ⟨fill, budget, .ok (.act (.done (.ok .local)))⟩
  | .start false =>
    some (unspent ((fill.rankNext .current none).map id fun action => .ok (.act action)))
  | .ranked result => fill.takeRanked result budget now
  | .hints hints rank0 => some (unspent (((fill.hinted hints rank0).walkOrHedge budget).map id .ok))
  | .hedge hedgeEnd => some (unspent (fill.hedged hedgeEnd))
  | .reply reply => fill.reply reply budget
  | .validated (.ok none) => fill.complete .copy budget
  | .validated (.ok (some outcome)) => fill.complete (.probe outcome) budget
  | .validated (.error error) =>
    some ⟨fill.pending.report (.error error), budget, .error error⟩
  | .noHelper =>
    match fill.walk with
    | .candidates walk => fill.completeVisit walk (.probe .copyMiss) false budget
    | _ => some ⟨fill, budget, .ok (.act .idle)⟩
  | .batchDone copy =>
    match fill.walk with
    | .candidates walk =>
      (walk.completeGranted copy).map fun completed =>
        unspent (({ fill with walk := .candidates completed.1 }).after completed.2 false)
    | _ => some ⟨fill, budget, .ok (.act .idle)⟩
  | .timer =>
    if fill.waiting then some ⟨{ fill with waiting := false }, budget, .ok .plan⟩
    else some ⟨fill, budget, .ok (.act .idle)⟩
  | .membership latest previousRecentMember =>
    fill.membership latest previousRecentMember budget now
  | .origin result => (fill.takeOrigin result).map unspent
  | .published (.ok ()) => some ⟨fill, budget, .ok (.act (.done (.ok fill.source)))⟩
  | .published (.error error) | .abort error => some ⟨fill, budget, .error error⟩

/-- Take an event: decide on it, and plan the next probe if that is what it comes to. -/
def handle (event : Event) (budget : AcquisitionBudget) (now : Nat) : Option (Turn Action) :=
  (fill.dispatch event budget now).bind fun turn =>
    match turn.result with
    | .error error => some ⟨turn.fill, turn.budget, .error error⟩
    | .ok (.act action) => some ⟨turn.fill, turn.budget, .ok action⟩
    | .ok .plan => turn.fill.next turn.budget

/-- The read's budget once a failed read gave up its walk. -/
def abandoned : AcquisitionBudget :=
  match fill.walk with
  | .candidates walk => (walk.abandon budget).2.1
  | _ => budget

end Fill

/-- What one event led to. -/
structure Reaction where
  fill : Fill
  budget : AcquisitionBudget
  action : Action
  evidence : Evidence

/-- Feed one event: the next action, and what the event showed. A failed read returns its
outstanding probe's credits. -/
def Fill.on (fill : Fill) (event : Event) (budget : AcquisitionBudget) (now : Nat) :
    Option Reaction :=
  (fill.handle event budget now).map fun turn =>
    match turn.result with
    | .ok action => ⟨{ turn.fill with out := {} }, turn.budget, action, turn.fill.out⟩
    | .error error =>
      ⟨{ turn.fill with walk := .none, out := {} }, turn.fill.abandoned turn.budget,
        .done (.error error), turn.fill.out⟩

end Unbounded.Read
