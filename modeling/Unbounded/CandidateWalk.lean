/-
This file models the candidate walk: one membership epoch's visit of the nodes
that may hold a page. A reader visits the page's owners in its own order; an
owner asks the owners ranked before it, then its handoff targets, and may end
with the authority to ask origin.

Planning a probe may move credits of the read's budget into a child that only
this probe spends. `next` plans the next probe or ends the walk, and `complete`
takes the probe's outcome. An assertion or an `expect` that fails is `none`.

The source's loop in `next` runs its body a second time only after it skipped a
primary the hedge has already asked, at index 0; `iterate` is the body and
`loop` its one or two rounds.
-/

import Unbounded.Budget
import Unbounded.Targets

namespace Unbounded.Read

/-! ### Vocabulary -/

/-- Whether a probe may start acquisition at its destination. -/
inductive Mode
  | copyOnly
  | acquire
  deriving DecidableEq, Repr

/-- How a probe's remote credits are funded. -/
inductive RouteMode
  /-- Remote credits are a fair share of the caller's remaining attempts. -/
  | sharedRoute
  /-- The probe owns a partitioned child budget and forwards all of it. -/
  | fundedRoute
  /-- A pinned single-link direct exchange used by hedging. -/
  | directHedge
  deriving DecidableEq, Repr

/-- What this owner knows about rank 0's acquisition of a page. -/
inductive Rank0State
  | unknown
  /-- A probe timed out recently: rank 0 is presumed to be fetching. -/
  | fetching
  /-- Rank 0 is presumed hung. -/
  | overdue
  /-- This owner's own origin fetch failed recently: leave retries to rank 0. -/
  | failed
  deriving DecidableEq, Repr

/-- Carry-over from a completed hedge, or from a stale-membership retry. -/
structure Continuation where
  primaryConsumed : Bool := false
  primaryOutcome : Option ProbeOutcome := none
  boundedRoutes : Bool := false
  deriving DecidableEq, Repr

/-- Inputs fixed for one epoch. `previous` is a set of ranks, one bit each. -/
structure WalkConfig where
  rank : Option Nat
  owners : Nat
  order : VisitOrder
  pageOperation : Bool
  continuation : Continuation
  handoff : Nat
  previous : Nat
  helper : Bool
  lineage : List Nat
  granted : Nat
  parallelGranted : Bool
  rank0 : Rank0State
  deriving DecidableEq, Repr

def successorGrantAttempts : Nat := 1

/-- Divides a successor probe's time share so it takes at most a fifth. -/
def successorShareDivisor : Nat := 4

def successorGrantLinks : Nat := 8

def maxRouteLinks : Nat := 8

def helperAttempts : Nat := 4

def helperLinks : Nat := 8

def helperFloorAttempts : Nat := 3

def helperFloorLinks : Nat := 4

def helperMinAttempts : Nat := helperAttempts + 1

/-- The fresh grant a granted probe spends. -/
def grantedBudget (deadline : Nat) : AcquisitionBudget :=
  AcquisitionBudget.new deadline successorGrantAttempts successorGrantLinks

/-- Fewest attempts a non-owner funds an out-of-order acquire to `canonical` with. -/
def ownerFundingMin (canonical : Nat) : Nat := canonical + 2

/-- The minimum plus, above rank 0, the credit for the owner's delegation to rank 0. -/
def ownerFunding (canonical : Nat) : Nat :=
  ownerFundingMin canonical + if canonical > 0 then 1 else 0

/-- Fewest links of a funded acquire. -/
def fundedMinLinks : Nat := 2

/-- Links a non-owner funds an out-of-order acquire with. -/
def fundedLinks (budget : AcquisitionBudget) : Option Nat :=
  if budget.links ≥ maxRouteLinks then some maxRouteLinks
  else if budget.routeLinks ≥ fundedMinLinks then some budget.routeLinks
  else none

/-- Whether a shared route would give the owner at `canonical` fewer remote credits than it
needs to probe its predecessors and still fetch. -/
def sharedShareShort (budget : AcquisitionBudget) (canonical opportunities : Nat) : Bool :=
  canonical > 0 &&
    (budget.attempts - 1 + (max opportunities 1 - 1)) / max opportunities 1 <
      ownerFundingMin canonical - 1

/-! ### Probes, outcomes and ends -/

/-- One probe the caller must perform. -/
structure Probe where
  index : Nat
  canonical : Nat
  mode : Mode
  remainingOpportunities : Nat
  route : RouteMode
  previous : Bool
  deriving DecidableEq, Repr

/-- Outcome the caller reports for the current probe. -/
inductive Outcome
  | copy
  | probe (outcome : ProbeOutcome)
  | transport (outcome : ProbeOutcome)
  | staleMembership
  | staleDestination
  | shed
  | timedOut
  | failed
  deriving DecidableEq, Repr

/-- The route to the destination or the destination itself is loaded. -/
def Outcome.overloaded : Outcome → Bool
  | .probe .overloaded | .transport .overloaded => true
  | _ => false

/-- Take a timeout or a failure of rank 0 as the outcome it counts as. -/
def Outcome.normalize : Outcome → Outcome
  | .timedOut => .transport .unreachable
  | .failed => .probe .unreachable
  | outcome => outcome

/-- How the epoch ended. -/
inductive End
  | copy
  | staleMembership
  | origin (rank : Nat) (evidence : List ProbeOutcome)
  | versionUnavailable
  | exhausted (funding : Bool)
  deriving DecidableEq, Repr

/-- One step of the walk. -/
inductive Step
  | probe (probe : Probe)
  | granted (probes : List Probe)
  | ended (walkEnd : End)
  deriving DecidableEq, Repr

/-- Overflow helper state of a non-owner page walk. -/
inductive Helper
  | unset
  | off
  | armed
  | due
  | used
  deriving DecidableEq, Repr

/-- The outstanding probe. -/
structure Pending where
  bounded : Option AcquisitionBudget
  handoff : Bool
  delegated : Bool
  rank0 : Bool
  previous : Bool
  helper : Bool
  /-- `bounded` is a successor grant: dropped, never reunited. -/
  granted : Bool
  deriving DecidableEq, Repr

/-- Candidate walk state. `targets` lists an owner's predecessors and then its handoff targets
(`owners + i`). -/
structure CandidateWalk where
  config : WalkConfig
  order : VisitOrder
  targets : List Nat
  count : Nat
  batch : Nat
  index : Nat
  evidence : List ProbeOutcome
  sawTransient : Bool
  sawVersion : Bool
  funding : Bool
  pending : Option Pending
  done : Bool
  helper : Helper
  rank0Unanswered : Bool
  sawBusy : Bool
  deriving DecidableEq, Repr

namespace CandidateWalk

/-- The nodes an owner at `rank` visits. -/
def ownerTargets (config : WalkConfig) (rank : Nat) : List Nat :=
  List.range (min rank 2) ++
    if config.pageOperation then
      (List.range (min config.handoff maxTargets)).map fun i => config.owners + i
    else []

def new (config : WalkConfig) : CandidateWalk where
  config := config
  order := match config.rank with
    | some rank => VisitOrder.canonical (min rank 2)
    | none => config.order
  targets := match config.rank with
    | some rank => ownerTargets config rank
    | none => []
  count := match config.rank with
    | some rank => (ownerTargets config rank).length
    | none => config.owners
  batch := 0
  index := 0
  evidence := []
  sawTransient := false
  sawVersion := false
  funding := false
  pending := none
  done := false
  helper := .unset
  rank0Unanswered := false
  sawBusy := false

variable (walk : CandidateWalk)

/-- Canonical rank (or `owners + i` for handoff target `i`) at `index`. -/
def target (index : Nat) : Option Nat :=
  if walk.config.rank.isSome then
    if index < walk.count then walk.targets[index]? else none
  else walk.order.get index

variable (budget : AcquisitionBudget)

/-- Decide whether this walk may ask a helper. A non-owner that cannot fund its first
out-of-order owner visits the owners canonically. -/
def start : CandidateWalk :=
  let eligible := walk.config.helper && walk.config.rank.isNone && walk.config.pageOperation &&
    decide (budget.attempts ≥ helperMinAttempts)
  let reorder := walk.config.rank.isNone && !walk.config.continuation.boundedRoutes &&
    !walk.config.continuation.primaryConsumed &&
    (walk.order.get 0).any fun first =>
      decide (first > 0) && decide (budget.attempts < ownerFundingMin first)
  { walk with
    helper := if eligible then .armed else .off
    order := if reorder then VisitOrder.canonical walk.order.ranks.length else walk.order }

/-! ### Planning -/

/-- The visits after `index` with their targets. -/
def laterTargets (index : Nat) : List (Nat × Nat) :=
  ((List.range walk.count).drop (index + 1)).filterMap fun later =>
    (walk.target later).map fun canonical => (later, canonical)

/-- Minimum credits the funded visits after `index` need. -/
def laterMinimum (index : Nat) : Nat :=
  (((walk.laterTargets index).filter fun visit =>
    decide (visit.2 > visit.1) || walk.config.continuation.boundedRoutes).map
      fun visit => ownerFundingMin visit.2).sum

/-- What every later visit needs to still reach origin. -/
def laterReserve (index : Nat) : Nat :=
  ((walk.laterTargets index).map fun visit => ownerFundingMin visit.2).sum

/-- How the walk ends once no probe remains. -/
def finish : End :=
  if walk.config.rank.isSome && walk.rank0Unanswered then .exhausted false
  else match walk.config.rank with
    | some rank => .origin rank walk.evidence
    | none =>
      if walk.sawVersion && !walk.sawTransient then .versionUnavailable
      else .exhausted walk.funding

/-- End the walk; an origin authority takes the evidence with it. -/
def ended : CandidateWalk × Step :=
  let taken := (walk.config.rank.isSome && !walk.rank0Unanswered)
  ({ walk with done := true, evidence := if taken then [] else walk.evidence }, .ended walk.finish)

/-- Ask the page's helper, funded from what is left. -/
def helperProbe : CandidateWalk × AcquisitionBudget × Except Error Step :=
  match budget.partition (min budget.attempts helperAttempts) (min budget.links helperLinks) with
  | (budget, .error error) => (walk, budget, .error error)
  | (budget, .ok child) =>
    ({ walk with
        pending := some {
          bounded := some child.noteRouteFailure, handoff := true, delegated := false,
          rank0 := false, previous := false, helper := true, granted := false } },
      budget,
      .ok (.probe {
        index := walk.index, canonical := walk.config.owners, mode := .acquire,
        remainingOpportunities := walk.count - walk.index + 1, route := .fundedRoute,
        previous := false }))

variable (canonical : Nat)

/-- Handoff target `canonical` is asked on its own grant. -/
def isGranted : Bool :=
  decide (canonical ≥ walk.config.owners) &&
    decide (canonical - walk.config.owners < walk.config.granted)

/-- The granted targets from `index` on, up to the first that is not. -/
def grantedRun : List (Nat × Nat) :=
  (((List.range walk.count).drop walk.index).map fun index => (index, walk.target index)).takeWhile
    (fun visit => visit.2.any walk.isGranted) |>.filterMap fun visit =>
      visit.2.map fun canonical => (visit.1, canonical)

/-- A granted probe: copy-only, with a short time share, since the requester waits on it. -/
def grantedProbe (index canonical : Nat) : Probe where
  index := index
  canonical := canonical
  mode := .copyOnly
  remainingOpportunities := walk.count - walk.index + 1 + successorShareDivisor
  route := .fundedRoute
  previous := false

/-- Send every granted target from here on, at once. -/
def sendGranted : CandidateWalk × Step :=
  let probes := walk.grantedRun.map fun visit => walk.grantedProbe visit.1 visit.2
  ({ walk with index := walk.index + probes.length, batch := probes.length }, .granted probes)

/-- Ask one granted target on its own grant, never the walk's budget. -/
def askGranted : CandidateWalk × Step :=
  ({ walk with
      pending := some {
        bounded := some (grantedBudget budget.deadline), handoff := true, delegated := false,
        rank0 := false, previous := false, helper := false, granted := true } },
    .probe (walk.grantedProbe walk.index canonical))

/-- Credits a delegation leaves for later predecessors and this owner's origin. -/
def left : Nat := walk.config.rank.elim 0 fun rank => min rank 2 - walk.index

/-- A predecessor that held the same rank under the previous membership is asked under it. -/
def asksPrevious : Bool :=
  decide (canonical < walk.config.owners) && walk.config.rank.isSome &&
    walk.config.pageOperation && decide (canonical < 8) && walk.config.previous.testBit canonical

/-- An owner above rank 0 asks rank 0 to acquire. -/
def delegates : Bool :=
  (walk.config.rank.any fun rank => decide (rank > 0)) && decide (canonical = 0) &&
    walk.config.pageOperation && decide (budget.attempts ≥ walk.left + 2) &&
    decide (budget.links ≥ walk.left)

/-- With only the sender attempt left, the last route is spent on local copies. -/
def copyOnly : Bool :=
  (walk.config.rank.isSome && !walk.delegates budget canonical) ||
    (!walk.config.continuation.boundedRoutes && decide (budget.attempts = 1) &&
      walk.config.pageOperation)

/-- Attempts of an owner's probe: the exchange, rank 0's origin credit if it delegates, and
spare credits so that rank 0 can ask handoff or lineage targets too. -/
def ownerAttempts : Nat :=
  let spareFor := if walk.config.handoff > 0 then maxHandoff else walk.config.lineage.headD 0
  let delegated := walk.delegates budget canonical
  1 + (if delegated then 1 else 0) +
    if delegated && decide (spareFor > 0) then min (budget.attempts - (walk.left + 2)) spareFor
    else 0

/-- Probes sharing the owner's inherited links. -/
def sharing : Nat :=
  if canonical ≥ walk.config.owners then 1
  else max (walk.config.rank.elim walk.count (fun rank => min rank 2) - walk.index) 1

/-- Links of the route to rank 0: it comes first, and later predecessors keep one link each. -/
def rank0Links : Nat := max (min budget.routeLinks (budget.links - (walk.sharing canonical - 1))) 1

/-- The owner's probes share an inherited route pool that is too small for all of them. -/
def poolShort : Bool :=
  walk.config.rank.isSome && decide (budget.links < walk.sharing canonical * budget.routeLinks)

/-- Every probe of this epoch is funded, or a reader funds an out-of-order owner. -/
def fundsProbe : Bool :=
  walk.config.continuation.boundedRoutes ||
    (walk.config.rank.isNone && !walk.copyOnly budget canonical &&
      (decide (canonical > walk.index) ||
        (sharedShareShort budget canonical (walk.count - walk.index) && !walk.sawBusy)) &&
      decide (budget.attempts ≥ ownerFundingMin canonical) && (fundedLinks budget).isSome)

/-- Attempts a funded probe carries. -/
def fundedAttempts : Nat :=
  let lineage := walk.config.lineage.getD canonical 0 +
    if canonical > 0 then walk.config.lineage.headD 0 else 0
  if walk.config.rank.isSome then walk.ownerAttempts budget canonical
  else if lineage > 0 ∧
      budget.attempts ≥ ownerFunding canonical + lineage + walk.laterReserve walk.index then
    ownerFunding canonical + lineage
  else if budget.attempts ≥ ownerFunding canonical + walk.laterMinimum walk.index then
    ownerFunding canonical
  else ownerFundingMin canonical

/-- Links a funded probe carries. -/
def probeLinks : Nat :=
  if walk.config.rank.isSome then 4
  else if walk.config.continuation.boundedRoutes then maxRouteLinks
  else (fundedLinks budget).getD maxRouteLinks

/-- How the probe of a target is funded: from the read's budget, from a child of it with these
attempts and links, or not at all. -/
inductive Funding
  | shared
  | child (attempts links : Nat) (failureRoute : Bool)
  | starved
  deriving DecidableEq, Repr

/-- Choose the funding of the probe of `canonical`. -/
def fund : Funding :=
  if walk.delegates budget canonical then
    .child (walk.ownerAttempts budget canonical) (walk.rank0Links budget canonical) false
  else if walk.poolShort budget canonical then
    .child (walk.ownerAttempts budget canonical)
      (if canonical = 0 ∧ canonical < walk.config.owners ∧ walk.config.pageOperation then
        walk.rank0Links budget canonical
      else min (budget.links / walk.sharing canonical) 4) false
  else if walk.fundsProbe budget canonical then
    -- Never send an acquire whose receiver cannot probe its predecessors and still exercise
    -- origin authority.
    if budget.attempts < walk.fundedAttempts budget canonical ∨
        budget.links < walk.probeLinks budget then .starved
    else .child (walk.fundedAttempts budget canonical) (walk.probeLinks budget)
      walk.config.rank.isNone
  else .shared

/-- The walk with its probe of `canonical` outstanding, and that probe. -/
def send (bounded : Option AcquisitionBudget) : CandidateWalk × Step :=
  let delegated := walk.delegates budget canonical
  let owner := walk.config.rank.isSome
  ({ walk with
      pending := some {
        bounded, handoff := decide (canonical ≥ walk.config.owners), delegated
        rank0 := owner && decide (canonical = 0) && decide (canonical < walk.config.owners) &&
          walk.config.pageOperation
        previous := walk.asksPrevious canonical, helper := false, granted := false } },
    .probe {
      index := walk.index, canonical
      mode := if walk.copyOnly budget canonical then .copyOnly else .acquire
      remainingOpportunities := walk.count - walk.index + if owner then 1 else 0
      route := if walk.config.continuation.boundedRoutes || delegated ||
          (!owner && bounded.isSome) then .fundedRoute else .sharedRoute
      previous := walk.asksPrevious canonical })

/-- Plan the probe of `canonical`, partitioning a child budget when it is funded. -/
def visit : CandidateWalk × AcquisitionBudget × Except Error Step :=
  match walk.fund budget canonical with
  | .shared =>
    let (sent, step) := walk.send budget canonical none
    (sent, budget, .ok step)
  | .starved =>
    let (concluded, step) := ({ walk with sawTransient := true, funding := true }).ended
    (concluded, budget, .ok step)
  | .child attempts links failureRoute =>
    match budget.partition attempts links with
    | (budget, .error error) => (walk, budget, .error error)
    | (left, .ok child) =>
      let (sent, step) := walk.send budget canonical
        (some (if failureRoute then child.noteRouteFailure else child))
      (sent, left, .ok step)

/-- Skip the primary the hedge has already asked, keeping what it said. -/
def skipPrimary : CandidateWalk :=
  let outcome := walk.config.continuation.primaryOutcome.getD .unreachable
  { walk with
    sawVersion := walk.sawVersion || decide (outcome = .versionUnavailable)
    sawTransient := walk.sawTransient || transient outcome
    index := walk.index + 1 }

/-- One round of the loop over the targets; `skipped` is the rest of the loop after a skip. -/
def iterate (skipped : CandidateWalk × AcquisitionBudget × Except Error Step) :
    CandidateWalk × AcquisitionBudget × Except Error Step :=
  match walk.target walk.index with
  | none =>
    let (concluded, step) := walk.ended
    (concluded, budget, .ok step)
  | some canonical =>
    if walk.isGranted canonical then
      let (sent, step) :=
        if walk.config.parallelGranted then walk.sendGranted else walk.askGranted budget canonical
      (sent, budget, .ok step)
    else if canonical ≥ walk.config.owners ∧ (budget.attempts < 2 ∨ budget.links = 0) then
      let (concluded, step) := walk.ended
      (concluded, budget, .ok step)
    else if walk.config.continuation.primaryConsumed ∧ walk.index = 0 then skipped
    else walk.visit budget canonical

/-- The loop over the targets. A skip leaves index 0, so the second round never skips. -/
def loop : CandidateWalk × AcquisitionBudget × Except Error Step :=
  walk.iterate budget
    (walk.skipPrimary.iterate budget (walk.skipPrimary, budget, .error .internal))

/-- Plan the next probe. -/
def next : Option (CandidateWalk × AcquisitionBudget × Except Error Step) :=
  if walk.pending.isSome ∨ walk.batch ≠ 0 ∨ walk.done then none
  else
    let walk := if walk.helper = .unset then walk.start budget else walk
    if walk.helper = .due then
      let asked := { walk with helper := .used }
      if budget.attempts ≥ helperFloorAttempts ∧ budget.links ≥ helperFloorLinks then
        some (asked.helperProbe budget)
      else some (asked.loop budget)
    else some (walk.loop budget)

/-! ### Completing -/

/-- Budget the pending probe spends: its bounded child, or the caller's. -/
def requestBudget : AcquisitionBudget := (walk.pending.bind (·.bounded)).getD budget

/-- The walk and the caller's budget once the pending probe's budget is `spent`. -/
def setRequestBudget (budget spent : AcquisitionBudget) : CandidateWalk × AcquisitionBudget :=
  match walk.pending with
  | some pending =>
    if pending.bounded.isSome then
      ({ walk with pending := some { pending with bounded := some spent } }, budget)
    else (walk, spent)
  | none => (walk, spent)

/-- Report the last batch of granted probes: whether any returned a copy. -/
def completeGranted (copy : Bool) : Option (CandidateWalk × Option End) :=
  if walk.batch = 0 then none
  else if copy then some ({ walk with batch := 0, done := true }, some .copy)
  else some ({ walk with batch := 0 }, none)

/-- Return the pending probe's child credits without an outcome; a grant is dropped. -/
def abandon : CandidateWalk × AcquisitionBudget × Except Error Unit :=
  let concluded := { walk with done := true, batch := 0, pending := none }
  match walk.pending with
  | some { bounded := some bounded, granted := false, .. } =>
    let (budget, result) := budget.reunite bounded
    (concluded, budget, result)
  | _ => (concluded, budget, .ok ())

/-- The pending destination is behind and the caller waits to ask it again: return its credits
and plan it once more. -/
def retryPending : CandidateWalk × AcquisitionBudget × Except Error Unit :=
  let again := { walk with pending := none }
  match walk.pending with
  | some { bounded := some bounded, .. } =>
    let (budget, result) := budget.reunite bounded
    (again, budget, result)
  | _ => (again, budget, .ok ())

/-- Whether asking the pending destination again still leaves every later visit funded. -/
def retryAffordable : Bool :=
  let held := match walk.pending with
    | some { bounded := some bounded, granted := false, .. } =>
      (bounded.attempts, bounded.links, bounded.routeLinks)
    | _ => (0, 0, 0)
  let attempts := Word.saturatingAdd 32 budget.attempts held.1
  let links := budget.links + held.2.1
  let need := 1 + (walk.target walk.index).elim 0 ownerFundingMin + walk.laterReserve walk.index
  let route := max (max held.2.2 budget.routeLinks) 1
  decide (attempts ≥ need) && decide (links ≥ route * (1 + (walk.laterTargets walk.index).length))

/-- Reunite the completed probe's child with the caller's budget, unless it was a grant. -/
def settle (pending : Pending) (budget : AcquisitionBudget) :
    AcquisitionBudget × Except Error Unit :=
  match pending with
  | { bounded := some bounded, granted := false, .. } => budget.reunite bounded
  | _ => (budget, .ok ())

/-- Whether the outcome of an owner's probe of rank 0 leaves the fetch to rank 0. -/
def withholds (pending : Pending) (outcome : Outcome) : Bool :=
  pending.rank0 &&
    match outcome with
    | .timedOut => decide (walk.config.rank0 ≠ .overdue)
    | .failed => decide (walk.config.rank0 = .failed)
    | outcome => !pending.helper && !pending.handoff && outcome.overloaded &&
        decide (walk.config.rank0 ≠ .overdue)

/-- Note what an outcome says about the load of the owner and about rank 0. -/
def observe (pending : Pending) (outcome : Outcome) : CandidateWalk :=
  let busy := !pending.helper && !pending.handoff &&
    (decide (outcome = .timedOut) || outcome.overloaded)
  { walk with
    sawBusy := walk.sawBusy || busy
    rank0Unanswered := walk.rank0Unanswered || walk.withholds pending outcome }

/-- Remember a route failure for outcomes that show one. -/
def noteFailure : ProbeOutcome → AcquisitionBudget
  | .unreachable | .overloaded => budget.noteRouteFailure
  | _ => budget

/-- Record one owner's outcome as evidence. -/
def witness (outcome : ProbeOutcome) : CandidateWalk :=
  { walk with evidence := walk.evidence ++ [outcome] }

/-- The helper does not consume a visit-order position; its failure is only a miss. -/
def recordHelper :
    Outcome → CandidateWalk × AcquisitionBudget × Option End
  | .copy => ({ walk with done := true }, budget, some .copy)
  | .probe outcome | .transport outcome => (walk, noteFailure budget outcome, none)
  | _ => (walk, budget, none)

/-- A handoff target is only a missing copy unless it returned one; a grant's route says nothing
about the walk's. -/
def recordHandoff (granted : Bool) :
    Outcome → CandidateWalk × AcquisitionBudget × Option End
  | .copy => ({ walk with done := true }, budget, some .copy)
  | .probe outcome | .transport outcome =>
    (walk, if granted then budget else noteFailure budget outcome, none)
  | _ => (walk, budget, none)

/-- A destination that is behind is transient evidence; one that asks for a newer membership
ends the walk, unless it was asked under the previous membership. -/
def recordOwner (pending : Pending) :
    Outcome → CandidateWalk × AcquisitionBudget × Option End
  | .copy => ({ walk with done := true }, budget, some .copy)
  | .staleMembership =>
    if pending.previous then
      (({ walk with sawTransient := true }).witness .unreachable, budget, none)
    else ({ walk with done := true }, budget, some .staleMembership)
  | .staleDestination =>
    (({ walk with sawTransient := true }).witness .unreachable, budget, none)
  | .shed =>
    (({ walk with sawBusy := true, sawTransient := true }).witness .overloaded, budget, none)
  | .timedOut | .failed => (walk, budget, none)
  | .probe outcome | .transport outcome =>
    (({ walk with
        sawVersion := walk.sawVersion || decide (outcome = ProbeOutcome.versionUnavailable)
        sawTransient := walk.sawTransient || transient outcome }).witness outcome,
      noteFailure budget outcome, none)

/-- The walk past the visit at its index. A destination that shed the request makes an armed
helper due. -/
def visited (outcome : Outcome) : CandidateWalk :=
  { walk with
    index := walk.index + 1
    helper := if walk.helper = .armed ∧ outcome = .shed then .due else walk.helper }

/-- Record a normalized outcome. -/
def record (pending : Pending)
    (outcome : Outcome) : CandidateWalk × AcquisitionBudget × Option End :=
  if pending.helper then walk.recordHelper budget outcome
  else if outcome = .probe .versionUnavailable ∧ pending.delegated then
    -- Rank 0 asked origin for this version and was told it does not exist.
    ({ walk.visited outcome with done := true }, budget, some .versionUnavailable)
  else if pending.handoff then (walk.visited outcome).recordHandoff budget pending.granted outcome
  else (walk.visited outcome).recordOwner budget pending outcome

/-- Record the pending probe's outcome; returns an end when the walk stops. -/
def complete (outcome : Outcome) :
    Option (CandidateWalk × AcquisitionBudget × Except Error (Option End)) :=
  match walk.pending with
  | none => none
  | some pending =>
    let taken := { walk with pending := none }
    match settle pending budget with
    | (budget, .error error) => some (taken, budget, .error error)
    | (budget, .ok ()) =>
      let (walk, budget, walkEnd) :=
        (taken.observe pending outcome).record budget pending outcome.normalize
      some (walk, budget, .ok walkEnd)

end CandidateWalk

/-! ### The remaining-copy walk -/

/-- After an origin version miss, old copies on later owners remain useful. -/
structure RemainingWalk where
  owners : Nat
  index : Nat
  transient : Bool
  pending : Bool
  deriving DecidableEq, Repr

/-- How a remaining-copy walk ended. -/
inductive RemainingEnd
  | copy
  | none
  | unavailable
  deriving DecidableEq, Repr

namespace RemainingWalk

def new (rank owners : Nat) : RemainingWalk where
  owners := owners
  index := rank + 1
  transient := false
  pending := false

/-- The next copy-only probe, or the end. -/
def nextProbe (walk : RemainingWalk) : Option (RemainingWalk × Except RemainingEnd Probe) :=
  if walk.pending then Option.none
  else if walk.index ≥ walk.owners then
    some (walk, .error (if walk.transient then .unavailable else .none))
  else
    some ({ walk with pending := true }, .ok {
      index := walk.index, canonical := walk.index, mode := .copyOnly
      remainingOpportunities := walk.owners - walk.index, route := .sharedRoute
      previous := false })

/-- Record the pending probe; a copy ends the walk. -/
def complete (walk : RemainingWalk) (budget : AcquisitionBudget) (outcome : Outcome) :
    Option (RemainingWalk × AcquisitionBudget × Option RemainingEnd) :=
  if ¬ walk.pending then Option.none
  else
    let visited := { walk with pending := false, index := walk.index + 1 }
    match outcome with
    | .copy => some (visited, budget, some .copy)
    | .probe outcome =>
      some ({ visited with transient := visited.transient || Read.transient outcome }, budget,
        Option.none)
    | .shed | .failed | .staleMembership | .staleDestination =>
      some ({ visited with transient := true }, budget, Option.none)
    | .transport _ | .timedOut =>
      some ({ visited with transient := true }, budget.noteRouteFailure, Option.none)

end RemainingWalk

end Unbounded.Read
