/-
This file balances the credits of a read. At any time they are in the read's own
budget, in the child that was partitioned off it for the outstanding probe, or
spent. A grant, the fresh budget of a successor or lineage probe, is none of
these: it is spent on its own and dropped, and never joins the read's budget.

Every step of a fill keeps the balance, so the credits of a read never grow, and
a read that is over has every child's rest back in its budget.
-/

import Unbounded.FillRuns

namespace Unbounded.Read

open Fill Transition

/-! ### Credits -/

/-- The credits of a budget: attempts and links. -/
def AcquisitionBudget.credits (budget : AcquisitionBudget) : Nat × Nat :=
  (budget.attempts, budget.links)

/-- The credits of a child, if there is one. -/
def childCredits (child : Option AcquisitionBudget) : Nat × Nat :=
  child.elim 0 AcquisitionBudget.credits

/-- The child partitioned off the read's budget for a probe. A grant is not one. -/
def Pending.child (pending : Pending) : Option AcquisitionBudget :=
  if pending.granted then none else pending.bounded

/-- The outstanding probe's child. -/
def Fill.child (fill : Fill) : Option AcquisitionBudget := fill.outstanding.bind Pending.child

/-- The credits the read has not spent: in its budget, or in the outstanding probe's child. -/
def Fill.credits (fill : Fill) (budget : AcquisitionBudget) : Nat × Nat :=
  budget.credits + childCredits fill.child

/-- The outstanding probe spends a grant. -/
def Fill.onGrant (fill : Fill) : Bool :=
  fill.outstanding.any fun pending => pending.granted && pending.bounded.isSome

/-- What an exchange spends of the read's credits. -/
def Exchange.cost (exchange : Exchange) : Nat × Nat :=
  if exchange.fill.onGrant then 0
  else (exchange.held.attempts - exchange.spent.attempts,
    exchange.held.links - exchange.spent.links)

/-- Credits that fit the widths of a budget's counters. -/
def Fits (credits : Nat × Nat) : Prop := credits.1 < 2 ^ 32 ∧ credits.2 < 2 ^ 8

theorem Spent.credits {before after : AcquisitionBudget} (spent : Spent before after) :
    after.credits + (before.attempts - after.attempts, before.links - after.links) =
      before.credits :=
  Prod.ext (Nat.add_sub_cancel' spent.attempts) (Nat.add_sub_cancel' spent.links)

/-! ### Partitioning and settling -/

section

variable {budget left : AcquisitionBudget} {pending : Pending} {child : AcquisitionBudget}

theorem partition_credits {attempts links : Nat}
    (taken : budget.partition attempts links = (left, .ok child)) :
    left.credits + child.credits = budget.credits := by
  rcases budget.partition_cases attempts links with ⟨_, fails⟩ | ⟨enough, enoughLinks, parts⟩
  · rw [taken] at fails
    cases congrArg Prod.snd fails
  · rw [taken] at parts
    obtain ⟨rfl, child⟩ := Prod.mk.inj parts
    rw [Except.ok.inj child]
    exact Prod.ext (Nat.sub_add_cancel enough) (Nat.sub_add_cancel enoughLinks)

theorem funds_credits {bounded : Option AcquisitionBudget}
    (funds : CandidateWalk.Funds budget bounded left) :
    left.credits + childCredits bounded = budget.credits := by
  cases funds with
  | shared => exact add_zero _
  | child taken => exact partition_credits taken
  | failureRoute taken =>
    have parts := partition_credits taken
    exact parts

/-- A planned probe takes its child's credits, and nothing else, from the read's budget. -/
theorem pays_credits (pays : Pays budget pending left) :
    left.credits + childCredits pending.child = budget.credits := by
  unfold Pending.child
  cases pays with
  | grant granted same =>
    rw [granted, same]
    exact add_zero _
  | funds ungranted funds =>
    rw [ungranted]
    exact funds_credits funds

theorem reunite_credits (fits : Fits (budget.credits + child.credits)) :
    (budget.reunite child).2 = .ok () ∧
      (budget.reunite child).1.credits = budget.credits + child.credits := by
  have attempts : Word.checkedAdd 32 budget.attempts child.attempts =
      some (budget.attempts + child.attempts) := Word.checkedAdd_eq_some.mpr ⟨fits.1, rfl⟩
  have links : Word.checkedAdd 8 budget.links child.links =
      some (budget.links + child.links) := Word.checkedAdd_eq_some.mpr ⟨fits.2, rfl⟩
  unfold AcquisitionBudget.reunite
  rw [attempts, links]
  exact ⟨rfl, rfl⟩

/-- A completed probe returns its child's credits. -/
theorem settle_credits (fits : Fits (budget.credits + childCredits pending.child)) :
    (CandidateWalk.settle pending budget).2 = .ok () ∧
      (CandidateWalk.settle pending budget).1.credits =
        budget.credits + childCredits pending.child := by
  obtain ⟨bounded, _, _, _, _, _, granted⟩ := pending
  cases granted with
  | true => cases bounded <;> exact ⟨rfl, (add_zero _).symm⟩
  | false =>
    cases bounded with
    | none => exact ⟨rfl, (add_zero _).symm⟩
    | some => exact reunite_credits fits

end

namespace Fill

variable {fill after : Fill} {budget left : AcquisitionBudget}

theorem child_unwalked (walk : fill.walk = .none) : fill.child = none := by
  unfold child outstanding
  rw [walk]
  rfl

variable {walk : CandidateWalk}

theorem child_candidates (walks : fill.walk = .candidates walk) :
    fill.child = walk.pending.bind Pending.child := by
  unfold child outstanding
  rw [walks]

variable {pending : Pending}

theorem Asks.child {probe : Probe} (asks : fill.Asks walk pending probe) :
    fill.child = pending.child := by
  rw [child_candidates asks.walking, asks.asking.pending]
  rfl

theorem child_remaining {walk : RemainingWalk} (walks : fill.walk = .remaining walk) :
    fill.child = none := by
  unfold child outstanding
  rw [walks]
  rfl

theorem child_settled (walks : fill.walk = .candidates walk) (settled : walk.pending = none) :
    fill.child = none := by
  rw [child_candidates walks, settled]
  rfl

theorem child_plannable (plannable : Plannable fill) : fill.child = none := by
  cases plannable with
  | candidates walks ready => exact child_settled walks ready.pending
  | remaining walks => exact child_remaining walks

theorem credits_core {other : Fill} (same : after.core = other.core) :
    after.credits budget = other.credits budget := by
  unfold credits
  rw [core_field child (fun _ => rfl) same]

theorem credits_childless (childless : fill.child = none) :
    fill.credits budget = budget.credits := by
  unfold credits
  rw [childless]
  exact add_zero _

/-! ### Every step keeps the balance -/

/-- A completed probe's credits are back in the read's budget. -/
theorem completes_credits {ended : CandidateWalk} {probe : Probe} {outcome : Outcome}
    {walkEnd : Option End}
    (completes : Completes fill budget walk pending probe outcome ended left walkEnd)
    (fits : Fits (fill.credits budget)) : left.credits = fill.credits budget := by
  unfold credits at fits ⊢
  rw [completes.asks.child] at fits ⊢
  have settled := (settle_credits fits).2
  have kept := completes.credits
  rw [← settled]
  exact Prod.ext kept.attempts kept.links

variable {move : Move}

theorem raced_child (walk : fill.walk = .none) (raced : Raced fill after move) :
    after.child = none := by
  cases raced with
  | hedge => exact child_unwalked walk
  | start => rfl

theorem adopted_child {ranked : Ranked} (walk : fill.walk = .none)
    (adopted : Adopted fill ranked after move) : after.child = none := by
  have unwalked : (fill.adopt ranked).walk = .none := walk
  cases adopted with
  | previous | hints => exact child_unwalked unwalked
  | raced raced => exact raced_child unwalked raced

/-- Every decision keeps the read's credits. -/
theorem decided_credits {last : Option Action} {event : Event} {completed : Option Outcome}
    (phase : Phase fill last) (fits : Fits (fill.credits budget))
    (decided : Decided fill budget event last completed after left move) :
    after.credits left = fill.credits budget := by
  have childless (before : fill.child = none) (now : after.child = none) :
      after.credits budget = fill.credits budget := by
    rw [credits_childless before, credits_childless now]
  cases decided with
  | adopted ranked _ adopted =>
    cases phase with
    | current walk => exact childless (child_unwalked walk) (adopted_child walk adopted)
  | previous result =>
    obtain ⟨_, handoff, equal⟩ := fill.previousRanked_eq result
    rw [equal]
    rfl
  | hinted hints rank0 raced =>
    cases phase with
    | hints walk =>
      obtain ⟨handoff, successors, equal⟩ := fill.hinted_eq hints rank0
      rw [equal] at raced
      have unwalked : ({ fill with rank0, handoff, successors } : Fill).walk = .none := walk
      exact childless (child_unwalked walk) (raced_child unwalked raced)
  | unraced | hedgeLost =>
    cases phase with
    | hedge walk => exact childless (child_unwalked walk) rfl
  | hedgeSkipped walk => exact childless (child_unwalked walk) rfl
  | visited completes =>
    refine (credits_childless (child_settled rfl completes.completed.outstanding)).trans ?_
    exact completes_credits completes fits
  | copied completes | refreshed _ _ completes => exact completes_credits completes fits
  | waited _ asks settles =>
    unfold credits at fits ⊢
    rw [asks.child] at fits ⊢
    rw [← (settle_credits fits).2, settles]
    rfl
  | fellBack _ _ _ completes same adopted =>
    have walk : _ = Walking.none := core_walk same
    rw [credits_childless (adopted_child walk adopted)]
    exact completes_credits completes fits
  | batched walks pending =>
    exact childless (child_settled walks pending) (child_settled rfl pending)
  | batchCopied =>
    cases phase with
    | batch walks _ pending => exact childless (child_settled walks pending) rfl
  | missed =>
    cases phase with
    | origin walk => exact childless (child_unwalked walk) rfl
  | remained asks _ _ _ credits =>
    rw [credits_childless (child_remaining asks.walking)]
    exact Prod.ext credits.attempts credits.links
  | remainingCopied asks => exact childless (child_remaining asks.walking) rfl
  | _ => rfl

/-- Every plan keeps the read's credits. -/
theorem planned_credits {action : Action} (plannable : Plannable fill)
    (planned : Planned fill budget after left action) :
    after.credits left = fill.credits budget := by
  rw [credits_childless (child_plannable plannable)]
  cases planned with
  | asks _ _ _ _ pays => exact pays_credits pays
  | batch _ prepares => exact credits_childless (child_settled rfl prepares.ready.pending)
  | concluded | remaining => exact credits_childless rfl

theorem abandon_settles (asking : walk.pending = some pending) :
    (walk.abandon budget).2.1 = (CandidateWalk.settle pending budget).1 := by
  obtain ⟨bounded, _, _, _, _, _, granted⟩ := pending
  unfold CandidateWalk.abandon CandidateWalk.settle
  rw [asking]
  cases granted <;> cases bounded <;> rfl

/-- A failed read gives up its walk, and takes its child's credits back. -/
theorem abandoned_credits (fits : Fits (fill.credits budget)) :
    (fill.abandoned budget).credits = fill.credits budget := by
  unfold abandoned
  cases walks : fill.walk with
  | none => exact (credits_childless (child_unwalked walks)).symm
  | remaining => exact (credits_childless (child_remaining walks)).symm
  | candidates walk =>
    dsimp only
    unfold credits at fits ⊢
    rw [child_candidates walks] at fits ⊢
    cases asking : walk.pending with
    | none =>
      unfold CandidateWalk.abandon
      rw [asking]
      exact (add_zero _).symm
    | some =>
      rw [asking] at fits
      rw [abandon_settles asking]
      exact (settle_credits fits).2

/-- A read that fails on an event leaves every credit in its budget. -/
theorem failed_credits {middle : Fill} (fits : Fits (fill.credits budget))
    (failed : Failed fill budget middle left) :
    (middle.abandoned left).credits = fill.credits budget := by
  cases failed with
  | kept same =>
    have child : middle.child = fill.child := by
      unfold child outstanding
      rw [same]
    have credits : middle.credits budget = fill.credits budget := by
      unfold credits
      rw [child]
    rw [abandoned_credits (credits ▸ fits), credits]
  | unsettled walks asking unsettles =>
    -- The child fits back, so it does settle.
    unfold credits at fits
    rw [child_candidates walks, asking] at fits
    have settles := (settle_credits fits).1
    rw [unsettles] at settles
    cases settles
  | concluded completes same =>
    have unwalked : middle.abandoned left = left := by
      unfold abandoned
      rw [same]
    rw [unwalked]
    exact completes_credits completes fits

end Fill

/-! ### Whole runs -/

section

variable {exchange : Exchange} {last : Option Action} {completed : Option Outcome}

/-- Reacting to an event keeps the read's credits. -/
theorem Exchange.Steps.credits (steps : exchange.Steps last completed)
    (fits : Fits (exchange.fill.credits exchange.budget)) :
    exchange.reaction.fill.credits exchange.reaction.budget =
      exchange.fill.credits exchange.budget := by
  have phase := steps.phase.of_core
  have stepped := steps.stepped
  cases stepped with
  | failed failed action returned walk =>
    rw [credits_childless (child_unwalked walk), returned]
    exact failed_credits fits failed
  | unplanned decided _ returned walk =>
    have followed := decided_follows steps.valid phase decided
    have kept := decided_credits phase fits decided
    rw [credits_childless (child_plannable followed.2)] at kept
    rw [credits_childless (child_unwalked walk), returned]
    exact kept
  | acted decided same =>
    rw [credits_core same]
    exact decided_credits phase fits decided
  | planned _ decided kept planned same =>
    have followed := follows_of_core kept (decided_follows steps.valid phase decided)
    rw [credits_core same, planned_credits followed.2 planned, credits_core kept]
    exact decided_credits phase fits decided

/-- What the caller spends leaves the read's credits, unless it spends a grant. -/
theorem Reacts.credits {world next : World} (reacts : Reacts Drives world exchange next) :
    exchange.fill.credits exchange.budget + exchange.cost = world.fill.credits world.budget := by
  have leaves := reacts.spends.spent.credits
  have held := reacts.held
  have charged := reacts.charged
  unfold Exchange.cost
  rcases world.fill.setRequestBudget_cases world.budget exchange.spent with
    ⟨same, read, unbounded⟩ | ⟨_, pending, child, walks, asking, bounded, read, same⟩
  · obtain ⟨fill, budget⟩ := Prod.mk.inj (charged.trans same)
    have ungranted : exchange.fill.onGrant = false := by
      unfold onGrant
      rw [fill]
      cases outstanding : world.fill.outstanding with
      | none => rfl
      | some pending =>
        rw [Option.any_some, unbounded pending outstanding]
        exact Bool.and_false _
    rw [ungranted, if_neg Bool.false_ne_true]
    unfold Fill.credits
    rw [fill, budget, add_right_comm, leaves, held, read]
  · obtain ⟨fill, budget⟩ := Prod.mk.inj (charged.trans same)
    have before : world.fill.child = pending.child := by
      rw [child_candidates walks, asking]
      rfl
    have after : exchange.fill.child = ({ pending with bounded := some exchange.spent }).child := by
      rw [fill]
      rfl
    have grant : exchange.fill.onGrant = pending.granted := by
      rw [fill]
      exact Bool.and_true _
    unfold Fill.credits
    rw [grant, before, after, budget]
    unfold Pending.child
    cases granted : pending.granted with
    | true => exact add_zero _
    | false =>
      show world.budget.credits + exchange.spent.credits + _ =
        world.budget.credits + childCredits pending.bounded
      rw [bounded, if_neg Bool.false_ne_true, add_assoc, leaves, held, read]
      rfl

/-- The credits of a read are in its budget, in the outstanding probe's child, or spent. None
are lost and none are gained; a grant joins them nowhere; and a read that is over has no probe
outstanding, so that every child's rest is back in its budget. -/
theorem credits_balanced {config : FillConfig} {budget : AcquisitionBudget}
    {exchanges : List Exchange} {world : World} (attempts : budget.attempts < 2 ^ 32)
    (links : budget.links < 2 ^ 8)
    (run : Run (Reacts Drives) (World.start config budget) exchanges world) :
    world.budget.credits + childCredits world.fill.child + (exchanges.map Exchange.cost).sum =
        budget.credits ∧
      ∀ result, world.last = some (.done result) → world.fill.outstanding = none := by
  have balanced : world.Live ∧
      world.fill.credits world.budget + (exchanges.map Exchange.cost).sum = budget.credits := by
    refine run.history
      (fun (exchanges : List Exchange) (world : World) => world.Live ∧
        world.fill.credits world.budget + (exchanges.map Exchange.cost).sum = budget.credits) ?_
      ⟨World.start_live config budget, rfl⟩
    intro exchanges before exchange after ⟨live, balance⟩ reacts
    obtain ⟨_, steps⟩ := reacts.steps live
    have charged := reacts.credits
    rw [← charged] at balance
    have fits : Fits (exchange.fill.credits exchange.budget) := by
      have all : Fits budget.credits := ⟨attempts, links⟩
      rw [← balance] at all
      exact ⟨lt_of_le_of_lt (by simp only [Prod.fst_add]; omega) all.1,
        lt_of_le_of_lt (by simp only [Prod.snd_add]; omega) all.2⟩
    have kept := steps.credits fits
    refine ⟨reacts.live live, ?_⟩
    rw [reacts.next, List.map_append, List.sum_append]
    rw [kept, ← balance]
    abel
  refine ⟨balanced.2, fun result done => ?_⟩
  unfold outstanding
  rw [balanced.1.concluded done]

/-- The second owner's read is aborted while rank 0 has its child: the rest of the child is
back. -/
theorem credits_balanced_abort :
    ∃ exchanges world,
      Run (Reacts Drives)
          (World.start ⟨.page, false, false, 60000000000, .production⟩
            (.new 60000000000 8 32)) exchanges world ∧
        world.last = some (.done (.error .cancelled)) ∧
        world.fill.outstanding = none ∧
        world.budget.credits + childCredits world.fill.child +
          (exchanges.map Exchange.cost).sum = (8, 32) := by
  let ranking := plainRanking 2 [10, 7] (some 1) (by decide) (by decide)
  obtain ⟨exchanges, world, run, meets⟩ := pageWorld.exists_run
    (openingLines ranking ++ [⟨.abort .cancelled, .attempt pageInputs, 0⟩])
    (fun _ world => world.last = some (.done (.error .cancelled))) (by decide +kernel)
  have balanced := credits_balanced (by decide) (by decide) run
  exact ⟨exchanges, world, run, meets, balanced.2 _ meets, balanced.1⟩

/-- Rank 0 asks a hinted successor one at a time: while the grant is outstanding, the read's
budget and the probe's together hold more than the read started with. -/
theorem grant_outside_balance :
    ∃ exchanges world pending grant,
      Run (Reacts Drives)
          (World.start ⟨.page, false, false, 60000000000, ⟨123, maxLineage, le_rfl⟩⟩
            (.new 60000000000 8 32)) exchanges world ∧
        world.fill.outstanding = some pending ∧ pending.bounded = some grant ∧
        8 < world.budget.attempts + grant.attempts ∧ 32 < world.budget.links + grant.links := by
  let ranking := plainRanking 2 [7, 12] (some 0) (by decide) (by decide)
  obtain ⟨exchanges, world, run, meets⟩ := World.exists_run
    (.start ⟨.page, false, false, 60000000000, ⟨123, maxLineage, le_rfl⟩⟩ (.new 60000000000 8 32)) [
      ⟨.start false, .nothing, 0⟩,
      ⟨.ranked (.ok ranking), .nothing, 0⟩,
      ⟨.ranked (.error .unavailable), .nothing, 0⟩,
      ⟨.hints [12] .unknown, .nothing, 0⟩]
    (fun _ world => ∃ pending ∈ world.fill.outstanding, ∃ grant ∈ pending.bounded,
      8 < world.budget.attempts + grant.attempts ∧ 32 < world.budget.links + grant.links)
    (by decide +kernel)
  obtain ⟨pending, outstanding, grant, bounded, meets⟩ := meets
  exact ⟨exchanges, world, pending, grant, run, outstanding, bounded, meets⟩

end

end Unbounded.Read
