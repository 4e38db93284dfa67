/-
This file runs a fill against its caller. A step is one exchange: the caller
performs the outstanding action, which may spend the budget of the outstanding
probe, feeds the event it got, and receives the next action. What the caller may
spend is a parameter; `Drives` is the spending of the production driver, and a
result that holds for any spending does not mention it.

Along every run the fill is valid and in the phase of its outstanding action,
until the read is done.
-/

import Unbounded.Attempt
import Unbounded.FillPlans
import Unbounded.Transition

namespace Unbounded.Read

open Option Transition

/-! ### The caller and the fill -/

/-- A read in progress: its fill, its budget, and the action the caller performs. -/
structure World where
  fill : Fill
  budget : AcquisitionBudget
  last : Option Action

/-- A read that is about to start. -/
def World.start (config : FillConfig) (budget : AcquisitionBudget) : World :=
  ⟨Fill.new config, budget, none⟩

/-- One exchange between the fill and its caller: the outstanding probe's budget before and
after the caller performed the action, the fill and the read's budget as the event arrives, and
what the event led to. -/
structure Exchange where
  held : AcquisitionBudget
  spent : AcquisitionBudget
  fill : Fill
  budget : AcquisitionBudget
  event : Event
  now : Nat
  reaction : Reaction

/-- What a caller may leave of a budget after performing an action. -/
abbrev Spending := Option Action → AcquisitionBudget → AcquisitionBudget → Prop

/-- The production driver: a probe is one exchange on its budget, an eligible hedge races two,
and origin takes one attempt. -/
def Drives : Spending
  | some (.probe _), before, after => Exchanged before after
  | some (.hedge true _ _), before, after => Hedged before after
  | some (.origin _), before, after =>
    after = before ∨ ∃ now deadline, after = (before.beginAttempt now deadline).1
  | _, before, after => after = before

variable {last : Option Action}

theorem Drives.spent {before after : AcquisitionBudget} (drives : Drives last before after) :
    Spent before after := by
  unfold Drives at drives
  split at drives
  · exact drives.spent
  · exact drives.spent
  · rcases drives with rfl | ⟨now, deadline, rfl⟩
    · exact .refl _
    rcases before.beginAttempt_cases now deadline with ⟨_, fails⟩ | ⟨-, begins⟩
    · rw [fails]
      exact .refl before
    · rw [begins]
      exact ⟨rfl, Nat.sub_le _ _, le_rfl⟩
  · rw [drives]
    exact .refl before

/-- One step of a read. -/
structure Reacts (spends : Spending) (world : World) (exchange : Exchange) (next : World) :
    Prop where
  held : exchange.held = world.fill.requestBudget world.budget
  spends : spends world.last exchange.held exchange.spent
  charged : (exchange.fill, exchange.budget) =
    world.fill.setRequestBudget world.budget exchange.spent
  answers : Answers exchange.fill world.last exchange.event
  reacts : exchange.fill.on exchange.event exchange.budget exchange.now = some exchange.reaction
  next : next = ⟨exchange.reaction.fill, exchange.reaction.budget, some exchange.reaction.action⟩

/-! ### Spending keeps the phase -/

namespace Fill

variable {fill : Fill}

/-- Spending changes the read's budget, or the outstanding probe's child. -/
theorem setRequestBudget_cases (fill : Fill) (budget spent : AcquisitionBudget) :
    (fill.setRequestBudget budget spent = (fill, spent) ∧ fill.requestBudget budget = budget ∧
        ∀ pending, fill.outstanding = some pending → pending.bounded = none) ∨
      ∃ walk pending child, fill.walk = .candidates walk ∧ walk.pending = some pending ∧
        pending.bounded = some child ∧ fill.requestBudget budget = child ∧
        fill.setRequestBudget budget spent = ({ fill with walk := .candidates { walk with
              pending := some { pending with bounded := some spent } } }, budget) := by
  unfold setRequestBudget requestBudget outstanding
  cases walks : fill.walk with
  | none | remaining => exact .inl ⟨rfl, rfl, nofun⟩
  | candidates walk =>
    have same : ({ fill with walk := .candidates walk } : Fill) = fill := by rw [← walks]
    dsimp only
    unfold CandidateWalk.setRequestBudget CandidateWalk.requestBudget
    cases asking : walk.pending with
    | none => exact .inl ⟨Prod.ext same rfl, rfl, nofun⟩
    | some pending =>
      dsimp only [bind_some]
      cases bounded : pending.bounded with
      | none =>
        refine .inl ⟨Prod.ext same rfl, rfl, fun other outstanding => ?_⟩
        rw [← some_inj.mp outstanding]
        exact bounded
      | some child => exact .inr ⟨walk, pending, child, rfl, asking, bounded, rfl, rfl⟩

theorem Asks.charge {walk : CandidateWalk} {pending : Pending} {probe : Probe}
    (asks : fill.Asks walk pending probe) (bounded : Option AcquisitionBudget) :
    ({ fill with walk := .candidates { walk with
        pending := some { pending with bounded } } } : Fill).Asks
      { walk with pending := some { pending with bounded } } { pending with bounded } probe := by
  exact ⟨rfl, ⟨rfl, asks.asking.batch, asks.asking.done, asks.asking.started,
    asks.asking.undue⟩, asks.sent, asks.outstanding.kept _ bounded⟩

/-- Spending the outstanding probe's budget keeps a fill valid and in its phase. -/
theorem charged_follows (valid : fill.Valid) (phase : Phase fill.core last)
    (budget spent : AcquisitionBudget) : (fill.setRequestBudget budget spent).1.Valid ∧
      Phase (fill.setRequestBudget budget spent).1.core last := by
  rcases fill.setRequestBudget_cases budget spent with
    ⟨same, -⟩ | ⟨walk, pending, _, walks, asking, -, -, same⟩
  · rw [same]
    exact ⟨valid, phase⟩
  · rw [same]
    constructor
    · refine { valid with walks := fun later walking => ?_ }
      obtain rfl := Walking.candidates.inj walking
      exact { valid.walks walk walks with }
    · -- Only a phase with an outstanding probe has a child to spend.
      have asked {other : CandidateWalk} {asked : Pending} {probe : Probe}
          (asks : fill.core.Asks other asked probe) : other = walk ∧ asked = pending := by
        obtain rfl : other = walk := Walking.candidates.inj (asks.walking.symm.trans walks)
        exact ⟨rfl, mem_unique asks.asking.pending asking⟩
      cases phase with
      | probeRemaining asks | validateRemaining asks =>
        exact Walking.noConfusion (asks.walking.symm.trans walks)
      | batch batching _ idle =>
        obtain rfl := Walking.candidates.inj (batching.symm.trans walks)
        rw [idle] at asking
        cases asking
      | wait _ waiting ready =>
        obtain rfl := Walking.candidates.inj (waiting.symm.trans walks)
        rw [ready.pending] at asking
        cases asking
      | fallback asks ranking reader first owner =>
        obtain ⟨rfl, rfl⟩ := asked asks
        exact .fallback (asks.charge (some spent)) ranking reader first owner
      | refresh asks unhedged refreshes =>
        obtain ⟨rfl, rfl⟩ := asked asks
        exact .refresh (asks.charge (some spent)) unhedged refreshes
      | probe asks =>
        obtain ⟨rfl, rfl⟩ := asked asks
        exact .probe (asks.charge (some spent))
      | validate asks =>
        obtain ⟨rfl, rfl⟩ := asked asks
        exact .validate (asks.charge (some spent))
      | _ walk => exact Walking.noConfusion (walk.symm.trans walks)

end Fill

/-! ### Runs -/

/-- The read is over and has no walk, or the fill is valid and in the phase of its outstanding
action. -/
def World.Live (world : World) : Prop :=
  (∃ result, world.last = some (.done result) ∧ world.fill.walk = .none) ∨
    world.fill.Valid ∧ Phase world.fill.core world.last

theorem World.start_live (config : FillConfig) (budget : AcquisitionBudget) :
    (World.start config budget).Live := by
  refine .inr ⟨⟨Nat.zero_le _, fun _ ranked => ?_, fun _ => .refl _, fun _ walking => ?_⟩,
    .fresh rfl rfl⟩
  · cases ranked
  · cases walking

/-- What an exchange starts from and leads to: a valid fill in the phase of the action it
answers, the outcome that completes a probe, and the step of the fill. -/
structure Exchange.Steps (exchange : Exchange) (last : Option Action)
    (completed : Option Outcome) : Prop where
  valid : exchange.fill.Valid
  phase : Phase exchange.fill.core last
  completion : exchange.fill.rank.isSome → completed = exchange.fill.completion exchange.event
  stepped : Stepped exchange.fill exchange.budget last exchange.event exchange.now completed
    exchange.reaction

section

variable {spends : Spending} {world next : World} {exchange : Exchange} {event : Event}

theorem Answers.unfinished {fill : Fill} (answers : Answers fill last event)
    (result : Except Error Source) : last ≠ some (.done result) := by
  rintro rfl
  cases answers with
  | abort _ live => exact live result rfl

/-- Every exchange of a live read is a step of the fill. -/
theorem Reacts.steps (reacts : Reacts spends world exchange next) (live : world.Live) :
    ∃ completed, exchange.Steps world.last completed := by
  obtain ⟨valid, phase⟩ :=
    live.resolve_left fun ⟨result, done, _⟩ => reacts.answers.unfinished result done
  obtain ⟨charged, holds⟩ := Fill.charged_follows valid phase world.budget exchange.spent
  rw [← reacts.charged] at charged holds
  obtain ⟨completed, _, completion, same, stepped⟩ :=
    Fill.on_stepped charged holds reacts.answers exchange.budget exchange.now
  rw [reacts.reacts] at same
  cases same
  exact ⟨completed, charged, holds, completion, stepped⟩

theorem Reacts.live (reacts : Reacts spends world exchange next) (live : world.Live) :
    next.Live := by
  obtain ⟨_, steps⟩ := reacts.steps live
  rw [reacts.next]
  rcases Fill.stepped_follows steps.valid steps.phase steps.stepped with
    ⟨error, failed, walk⟩ | follows
  · exact .inl ⟨.error error, congrArg some failed, walk⟩
  · exact .inr follows

theorem World.Live.concluded (live : world.Live) {result : Except Error Source}
    (done : world.last = some (.done result)) : world.fill.walk = .none := by
  rcases live with ⟨_, -, walk⟩ | ⟨-, phase⟩
  · exact walk
  rw [done] at phase
  cases phase with
  | done walk => exact walk

/-- However the caller answers a live read, the fill reacts: no assertion fails. -/
theorem World.Live.reacts (live : world.Live) {spent : AcquisitionBudget}
    (spends' : spends world.last (world.fill.requestBudget world.budget) spent)
    (answers : Answers (world.fill.setRequestBudget world.budget spent).1 world.last event)
    (now : Nat) : ∃ exchange next, Reacts spends world exchange next ∧ exchange.spent = spent ∧
      exchange.event = event ∧ exchange.now = now := by
  obtain ⟨valid, phase⟩ := live.resolve_left fun ⟨result, done, _⟩ => answers.unfinished result done
  obtain ⟨charged, holds⟩ := Fill.charged_follows valid phase world.budget spent
  obtain ⟨-, reaction, -, reacts, -⟩ := Fill.on_stepped charged holds answers
    (world.fill.setRequestBudget world.budget spent).2 now
  exact ⟨⟨_, spent, _, _, event, now, reaction⟩, _, ⟨rfl, spends', rfl, answers, reacts, rfl⟩,
    rfl, rfl, rfl⟩

theorem run_live {config : FillConfig} {budget : AcquisitionBudget} {exchanges : List Exchange}
    (run : Run (Reacts spends) (World.start config budget) exchanges world) : world.Live :=
  run.invariant World.Live (fun _ _ _ live reacts => reacts.live live)
    (World.start_live config budget)

end

/-! ### Replaying a script -/

/-- Whether an event answers the outstanding action. -/
def answers (fill : Fill) : Option Action → Event → Bool
  | none, .start _ => true
  | some (.rank _ _), .ranked _ => true
  | some .hints, .hints _ _ => true
  | some (.hedge eligible _ _), .hedge hedgeEnd => eligible || decide (hedgeEnd = .notStarted)
  | some .refresh, .membership _ _ => true
  | some (.probe _), .reply _ => true
  | some (.probe probe), .noHelper => (fill.dest probe).isNone
  | some .validate, .validated _ => true
  | some (.batch _ _ _), .batchDone _ => true
  | some (.wait _), .timer => true
  | some (.origin _), .origin _ => !fill.config.walkOnly
  | some (.publish _), .published _ => true
  | some (.done _), .abort _ => false
  | _, .abort _ => true
  | _, _ => false

theorem answers_sound {fill : Fill} {event : Event} (answered : answers fill last event = true) :
    Answers fill last event := by
  unfold answers at answered
  split at answered
  · exact .start _
  · exact .rank _
  · exact .hints _ _
  · refine .hedge _ fun raced => ?_
    rwa [decide_eq_false raced, Bool.or_false] at answered
  · exact .refresh _ _
  · exact .probe _
  · exact .noHelper (isNone_iff_eq_none.mp answered)
  · exact .validate _
  · exact .batch _
  · exact .wait
  · rw [Bool.not_eq_true'] at answered
    exact .origin _ answered
  · exact .publish _
  · cases answered
  · rename_i unfinished
    exact .abort _ fun result done => unfinished result done
  · cases answered

/-- What the production driver spends on an action. -/
inductive Spend
  | nothing
  | attempt (inputs : AttemptInputs)
  | stale (inputs : AttemptInputs) (hops : Nat)
  | race (primary secondary : AttemptInputs)
  | fetch (now deadline : Nat)

def Spend.left : Spend → Option Action → AcquisitionBudget → AcquisitionBudget
  | .attempt inputs, some (.probe _), budget => (planAttempt budget inputs).1
  | .stale inputs hops, some (.probe _), budget =>
    match planAttempt budget inputs with
    | (left, .ok plan) => refundStale left plan hops
    | (left, .error _) => left
  | .race primary secondary, some (.hedge true _ _), budget =>
    match hedgeBudgets budget with
    | (left, .ok (second, first)) =>
      rejoin left (planAttempt first primary).1 (planAttempt second secondary).1
    | (left, .error _) => left
  | .fetch now deadline, some (.origin _), budget => (budget.beginAttempt now deadline).1
  | _, _, budget => budget

theorem Drives.refl (last : Option Action) (budget : AcquisitionBudget) :
    Drives last budget budget := by
  unfold Drives
  split
  · exact .unsent
  · exact .unraced
  · exact .inl rfl
  · rfl

theorem Spend.drives (spend : Spend) (last : Option Action) (budget : AcquisitionBudget) :
    Drives last budget (spend.left last budget) := by
  unfold left
  split
  · exact .planned _
  · rename_i inputs hops _
    split
    · rename_i plans
      exact .stale plans hops
    · rename_i plans
      have planned : Exchanged budget (planAttempt budget inputs).1 := .planned inputs
      rw [plans] at planned
      exact planned
  · split
    · rename_i splits
      exact .raced splits (.planned _) (.planned _)
    · rename_i fails
      exact .unfunded fails
  · exact .inr ⟨_, _, rfl⟩
  · exact .refl last budget

/-- One line of a script: what the caller spends, and the event it feeds. -/
structure Line where
  event : Event
  spend : Spend := .nothing
  now : Nat := 0

/-- Perform one line of a script, if its event answers the outstanding action. -/
def World.perform (world : World) (line : Line) : Option (Exchange × World) :=
  let held := world.fill.requestBudget world.budget
  let spent := line.spend.left world.last held
  let charged := world.fill.setRequestBudget world.budget spent
  if answers charged.1 world.last line.event then
    (charged.1.on line.event charged.2 line.now).map fun reaction =>
      (⟨held, spent, charged.1, charged.2, line.event, line.now, reaction⟩,
        ⟨reaction.fill, reaction.budget, some reaction.action⟩)
  else none

def World.replay : World → List Line → Option (List Exchange × World)
  | world, [] => some ([], world)
  | world, line :: rest =>
    (world.perform line).bind fun performed =>
      (performed.2.replay rest).map fun replayed => (performed.1 :: replayed.1, replayed.2)

section

variable {world next : World} {line : Line} {exchange : Exchange}
  (performs : world.perform line = some (exchange, next))

include performs

theorem World.perform_reacts : Reacts Drives world exchange next := by
  unfold perform at performs
  dsimp only at performs
  split at performs
  · rename_i answered
    rw [map_eq_some_iff] at performs
    obtain ⟨_, reacts, same⟩ := performs
    cases same
    exact ⟨rfl, line.spend.drives _ _, rfl, answers_sound answered, reacts, rfl⟩
  · cases performs

theorem World.perform_event : exchange.event = line.event := by
  unfold perform at performs
  dsimp only at performs
  split at performs
  · rw [map_eq_some_iff] at performs
    obtain ⟨_, -, same⟩ := performs
    cases same
    rfl
  · cases performs

end

/-- A script that can be replayed is a run of the production driver. -/
theorem World.replay_run {script : List Line} {world last : World} {exchanges : List Exchange}
    (replays : world.replay script = some (exchanges, last)) :
    Run (Reacts Drives) world exchanges last := by
  induction script generalizing world exchanges with
  | nil =>
    obtain ⟨rfl, rfl⟩ := Prod.mk.inj (some_inj.mp replays)
    exact .nil _
  | cons _ _ ih =>
    rw [replay, bind_eq_some_iff] at replays
    obtain ⟨⟨_, _⟩, performs, replays⟩ := replays
    rw [map_eq_some_iff] at replays
    obtain ⟨⟨_, _⟩, replays, same⟩ := replays
    cases same
    exact .cons (perform_reacts performs) (ih replays)

/-- A script whose replay meets a property is a run that meets it. -/
theorem World.exists_run (world : World) (script : List Line)
    (property : List Exchange → World → Prop)
    [∀ exchanges last, Decidable (property exchanges last)]
    (meets : (world.replay script).any (fun played => property played.1 played.2) = true) :
    ∃ exchanges last, Run (Reacts Drives) world exchanges last ∧ property exchanges last := by
  rw [any_eq_true] at meets
  obtain ⟨⟨exchanges, last⟩, replays, meets⟩ := meets
  exact ⟨exchanges, last, replay_run replays, of_decide_eq_true meets⟩

/-- A read of a page before it starts, with eight attempts and 32 links. -/
def pageWorld : World :=
  .start ⟨.page, false, false, 60000000000, .production⟩ (.new 60000000000 8 32)

/-- An owner learns its ranking, and nothing more. -/
def openingLines (ranking : Ranked) : List Line :=
  [⟨.start false, .nothing, 0⟩, ⟨.ranked (.ok ranking), .nothing, 0⟩,
    ⟨.ranked (.error .unavailable), .nothing, 0⟩, ⟨.hints [] .unknown, .nothing, 0⟩]

/-- A probe of one of two owners. -/
def pageInputs : AttemptInputs := ⟨0, 60000000000, 2, .fundedRoute, .acquire, 1000000000, 8⟩

/-- A ranking without lineage or demoted members, visited in rank order. -/
def plainRanking (version : Nat) (owners : List Nat) (rank : Option Nat)
    (short : owners.length ≤ maxHandoff) (ranked : ∀ position ∈ rank, position < owners.length) :
    Ranked where
  version := version
  owners := owners
  rank := rank
  since := List.replicate maxHandoff none
  order := VisitOrder.canonical owners.length
  demoted := []
  demotedSince := List.replicate demotedDepth none
  oldest := none
  members := owners.length
  recentMember := false
  owners_short := short
  rank_lt := ranked
  since_length := List.length_replicate
  order_owners := by
    have all : min owners.length 3 = owners.length := Nat.min_eq_left short
    show (List.range (min owners.length 3)).Perm _
    rw [all]
  demoted_short := Nat.zero_le _
  demotedSince_length := List.length_replicate

end Unbounded.Read
