/-
This file models one peer exchange from the caller's side: how an attempt is
planned on a budget, what a stale answer refunds, and what the two contenders
of a hedge spend. Whatever way an exchange ends, it leaves the budget it was
planned on with no more credits than it found there, and with its deadline.

Instants and durations are nanoseconds.
-/

import Unbounded.CandidateWalk

namespace Unbounded.Read

open Word

/-! ### Planning an attempt -/

/-- Times and credits for one peer exchange. -/
structure AttemptPlan where
  /-- Links reserved for the whole route. -/
  links : Nat
  /-- Signed hard ceiling; never renewed. -/
  overall : Nat
  /-- Fair-share idle deadline. -/
  share : Nat
  /-- Local nonrenewable exchange cap. -/
  attemptEnd : Nat
  /-- Idle allowance for the attempt scope. -/
  idle : Nat
  /-- Remote acquisition credits granted to the destination. -/
  remoteAttempts : Nat
  /-- Known-body completion bound. -/
  completeBy : Nat
  /-- Known-body observation interval. -/
  observation : Nat
  deriving DecidableEq, Repr

/-- Inputs to `planAttempt` other than the budget. -/
structure AttemptInputs where
  now : Nat
  callerDeadline : Nat
  remainingOpportunities : Nat
  route : RouteMode
  mode : Mode
  attemptTimeout : Nat
  /-- Links a failure route needs. -/
  failureLinks : Nat
  deriving DecidableEq, Repr

/-- Remote credits of an attempt: an acquire forwards its whole child, or a fair share. -/
def AttemptInputs.credits (inputs : AttemptInputs) (budget : AcquisitionBudget) : Nat :=
  if inputs.route = .fundedRoute then budget.attempts
  else
    let opportunities := max inputs.remainingOpportunities 1
    (budget.attempts + (opportunities - 1)) / opportunities

/-- The times of an attempt, once its credits are taken from `budget`. -/
def AttemptInputs.plan (inputs : AttemptInputs) (budget : AcquisitionBudget)
    (links overall remoteAttempts : Nat) : AttemptPlan :=
  let share := inputs.now + (overall - inputs.now) / max inputs.remainingOpportunities 1
  let attemptEnd := inputs.now + min inputs.attemptTimeout
    (if inputs.route = .directHedge then (overall - inputs.now) / 3 else overall - inputs.now)
  -- Reserve at most half the original post-share interval for fallback.
  let reserve := min (share - inputs.now) ((overall - share) / 2)
  let reserves := inputs.remainingOpportunities > 1 ∧ budget.attempts > 0 ∧
    budget.links ≥ inputs.failureLinks ∧ reserve ≠ 0
  { links, overall, share, attemptEnd
    idle := min (share - inputs.now) (attemptEnd - inputs.now)
    remoteAttempts
    completeBy := if reserves then min attemptEnd (overall - reserve) else attemptEnd
    observation := max (min (share - inputs.now) ((attemptEnd - inputs.now) / 3)) 1 }

variable (budget : AcquisitionBudget)

/-- Reserve the route and remote credits before sending. -/
def planAttempt (inputs : AttemptInputs) : AcquisitionBudget × Except Error AttemptPlan :=
  let links := budget.routeLinks
  if links = 0 then (budget, .error .hopBudgetExhausted)
  else match budget.beginPeerAttempt inputs.now inputs.callerDeadline links with
    | (budget, .error error) => (budget, .error error)
    | (budget, .ok overall) =>
      if inputs.mode = .acquire then
        match budget.sendRemote (inputs.credits budget) with
        | (budget, .error error) => (budget, .error error)
        | (budget, .ok remoteAttempts) =>
          (budget, .ok (inputs.plan budget links overall remoteAttempts))
      else (budget, .ok (inputs.plan budget links overall 0))

/-- Links past the hops that carried a stale answer's request. -/
def staleUnusedLinks (charged hops : Nat) : Nat := charged - min hops (2 ^ 8 - 1)

/-- A verified stale answer comes from a node that could not use the remote credits: return
them, and the links past the hops that carried the request. -/
def refundStale (plan : AttemptPlan) (hops : Nat) : AcquisitionBudget :=
  match budget.refundRemote plan.remoteAttempts with
  | (budget, .error _) => budget
  | (budget, .ok ()) => (budget.refundLinks (staleUnusedLinks plan.links hops)).1

/-- What one exchange may leave of the budget it spends: nothing sent, an attempt planned, or
an attempt planned and answered by a stale destination. -/
inductive Exchanged (budget : AcquisitionBudget) : AcquisitionBudget → Prop
  | unsent : Exchanged budget budget
  | planned (inputs : AttemptInputs) : Exchanged budget (planAttempt budget inputs).1
  | stale {inputs left plan} (planned : planAttempt budget inputs = (left, .ok plan)) (hops : Nat) :
      Exchanged budget (refundStale left plan hops)

/-- Split the hedge's pinned direct budgets: the secondary's, then the primary's. -/
def hedgeBudgets : AcquisitionBudget × Except Error (AcquisitionBudget × AcquisitionBudget) :=
  match budget.partition 1 1 with
  | (budget, .error error) => (budget, .error error)
  | (budget, .ok secondary) =>
    match budget.partition 2 1 with
    | (budget, .error error) => (budget, .error error)
    | (budget, .ok primary) => (budget, .ok (secondary, primary))

/-- Return what both contenders of a hedge have left. -/
def rejoin (primary secondary : AcquisitionBudget) : AcquisitionBudget :=
  match budget.reunite primary with
  | (budget, .error _) => budget
  | (budget, .ok ()) => (budget.reunite secondary).1

/-- What a hedge may leave of the read's budget: not raced, not funded, or both contenders'
exchanges spent and their rest returned. -/
inductive Hedged (budget : AcquisitionBudget) : AcquisitionBudget → Prop
  | unraced : Hedged budget budget
  | unfunded {left error} (fails : hedgeBudgets budget = (left, .error error)) : Hedged budget left
  | raced {left secondary primary secondaryLeft primaryLeft}
      (splits : hedgeBudgets budget = (left, .ok (secondary, primary)))
      (first : Exchanged primary primaryLeft) (second : Exchanged secondary secondaryLeft) :
      Hedged budget (rejoin left primaryLeft secondaryLeft)

/-! ### An exchange spends, and never gains -/

/-- A budget that has spent some of its credits. -/
structure Spent (before after : AcquisitionBudget) : Prop where
  deadline : after.deadline = before.deadline
  attempts : after.attempts ≤ before.attempts
  links : after.links ≤ before.links

theorem Spent.refl : Spent budget budget := ⟨rfl, le_rfl, le_rfl⟩

/-- A fair share of the attempts, or all of them, is never more than there are. -/
theorem AttemptInputs.credits_le (inputs : AttemptInputs) :
    inputs.credits budget ≤ budget.attempts := by
  unfold credits
  split
  · exact le_rfl
  have positive : 0 < max inputs.remainingOpportunities 1 := by omega
  rw [Nat.div_le_iff_le_mul_add_pred positive]
  have grows := Nat.le_mul_of_pos_left budget.attempts positive
  omega

/-- Planning takes an attempt, the route's links and the remote credits, or nothing at all. -/
theorem planAttempt_cases (inputs : AttemptInputs) :
    (∃ error, planAttempt budget inputs = (budget, .error error)) ∨ ∃ left overall credits,
        planAttempt budget inputs =
          (left, .ok (inputs.plan left budget.routeLinks overall credits)) ∧
        0 < budget.routeLinks ∧ inputs.now < overall ∧ left.deadline = budget.deadline ∧
        left.attempts + credits + 1 = budget.attempts ∧
        left.links + budget.routeLinks = budget.links ∧
        (inputs.mode = .copyOnly → credits = 0) := by
  unfold planAttempt
  dsimp only
  split
  · exact .inl ⟨_, rfl⟩
  rename_i some_
  rcases budget.beginPeerAttempt_cases inputs.now inputs.callerDeadline budget.routeLinks with
    ⟨error, fails⟩ | ⟨attempt, links, begins⟩
  · rw [fails]
    exact .inl ⟨error, rfl⟩
  · have early := budget.beginPeerAttempt_now begins
    rw [begins]
    dsimp only
    split
    · rename_i acquires
      set begun : AcquisitionBudget := { budget with
        attempts := budget.attempts - 1
        links := budget.links - budget.routeLinks
        chargedLinks := saturatingAdd 16 budget.chargedLinks budget.routeLinks }
      have enough := inputs.credits_le begun
      rw [AcquisitionBudget.sendRemote, checkedSub, if_pos enough]
      refine .inr ⟨_, _, _, rfl, Nat.pos_of_ne_zero some_, early, rfl, ?_,
        Nat.sub_add_cancel links, fun copies => ?_⟩
      · have held : budget.attempts - 1 + 1 = budget.attempts := Nat.sub_add_cancel attempt
        exact (congrArg (· + 1) (Nat.sub_add_cancel enough)).trans held
      · rw [acquires] at copies
        cases copies
    · exact .inr ⟨_, _, 0, rfl, Nat.pos_of_ne_zero some_, early, rfl,
        Nat.sub_add_cancel attempt, Nat.sub_add_cancel links, fun _ => rfl⟩

/-- The times of a plan are in order, and the reserve for a fallback lies behind the fair share. -/
theorem AttemptInputs.plan_times (inputs : AttemptInputs) {links overall credits : Nat}
    (early : inputs.now < overall) :
    let plan := inputs.plan budget links overall credits
    inputs.now ≤ plan.share ∧ plan.share ≤ overall ∧
      inputs.now ≤ plan.attemptEnd ∧ plan.attemptEnd ≤ overall ∧
      min plan.share plan.attemptEnd ≤ plan.completeBy ∧ plan.completeBy ≤ plan.attemptEnd ∧
      min (plan.share - inputs.now) ((overall - plan.share) / 2) ≤ overall := by
  have share := Nat.div_le_self (overall - inputs.now) (max inputs.remainingOpportunities 1)
  dsimp only [plan]
  generalize (overall - inputs.now) / max inputs.remainingOpportunities 1 = fair at share
  have ends : min inputs.attemptTimeout
      (if inputs.route = .directHedge then (overall - inputs.now) / 3 else overall - inputs.now) ≤
        overall - inputs.now := by
    split <;> omega
  generalize min inputs.attemptTimeout (if inputs.route = .directHedge then
    (overall - inputs.now) / 3 else overall - inputs.now) = cap at ends
  refine ⟨by omega, by omega, by omega, by omega, ?_, ?_, by omega⟩ <;> split <;> omega

/-- Planning an attempt is atomic, and its times are in order: a plan that fails leaves the
budget as it was; one that succeeds takes exactly its own attempt, its remote credits and its
links, none of the instants it subtracts lies before the other, and all its times lie between now
and the end of the read. -/
theorem plan_atomic_and_ordered (inputs : AttemptInputs) :
    (∀ error, (planAttempt budget inputs).2 = .error error →
      (planAttempt budget inputs).1 = budget) ∧
    ∀ left plan, planAttempt budget inputs = (left, .ok plan) →
      1 ≤ plan.links ∧
      inputs.now ≤ plan.share ∧ plan.share ≤ plan.overall ∧
      inputs.now ≤ plan.attemptEnd ∧ plan.attemptEnd ≤ plan.overall ∧
      min plan.share plan.attemptEnd ≤ plan.completeBy ∧ plan.completeBy ≤ plan.attemptEnd ∧
      plan.idle ≤ plan.share - inputs.now ∧ plan.idle ≤ plan.attemptEnd - inputs.now ∧
      0 < plan.observation ∧
      inputs.now ≤ plan.overall ∧
      min (plan.share - inputs.now) ((plan.overall - plan.share) / 2) ≤ plan.overall ∧
      left.attempts + (1 + plan.remoteAttempts) = budget.attempts ∧
      left.links + plan.links = budget.links ∧
      (inputs.mode = .copyOnly → plan.remoteAttempts = 0) := by
  rcases planAttempt_cases budget inputs with ⟨error, fails⟩ |
    ⟨left, overall, credits, planned, links, early, -, attempts, spent, copies⟩
  · rw [fails]
    exact ⟨fun _ _ => rfl, fun left plan equal => by cases congrArg Prod.snd equal⟩
  · rw [planned]
    refine ⟨fun error => nofun, fun other plan equal => ?_⟩
    obtain ⟨rfl, result⟩ := Prod.mk.inj equal
    obtain rfl := Except.ok.inj result
    obtain ⟨fromNow, share, after, ends, least, most, reserve⟩ :=
      @AttemptInputs.plan_times left inputs budget.routeLinks overall credits early
    have charged : left.attempts + (1 + credits) = budget.attempts := by omega
    exact ⟨links, fromNow, share, after, ends, least, most, Nat.min_le_left _ _,
      Nat.min_le_right _ _, lt_max_of_lt_right Nat.one_pos, early.le, reserve,
      charged, spent, copies⟩

/-- The first of two opportunities, with 80 ns left: two of the four attempts go with it, and its
body must be complete 20 ns before the end. -/
theorem plan_atomic_and_ordered_first :
    let inputs : AttemptInputs := ⟨10, 90, 2, .sharedRoute, .acquire, 100, 4⟩
    ∃ left plan, planAttempt (.new 100 5 8) inputs = (left, .ok plan) ∧
      plan.completeBy = 70 ∧ plan.completeBy ≤ plan.attemptEnd ∧
      left.attempts + (1 + plan.remoteAttempts) = 5 := by
  obtain ⟨-, -, -, -, -, -, most, -, -, -, -, -, charged, -⟩ :=
    (plan_atomic_and_ordered (.new 100 5 8) ⟨10, 90, 2, .sharedRoute, .acquire, 100, 4⟩).2 _ _ rfl
  exact ⟨_, _, rfl, rfl, most, charged⟩

/-- A refund of one plan returns no more than the plan took. -/
theorem refundStale_spent {budget left : AcquisitionBudget} {plan : AttemptPlan}
    (deadline : left.deadline = budget.deadline)
    (attempts : left.attempts + plan.remoteAttempts ≤ budget.attempts)
    (links : left.links + plan.links ≤ budget.links) (hops : Nat) :
    Spent budget (refundStale left plan hops) := by
  have unused : staleUnusedLinks plan.links hops ≤ plan.links := Nat.sub_le _ _
  have kept : Spent budget left :=
    ⟨deadline, (Nat.le_add_right _ _).trans attempts, (Nat.le_add_right _ _).trans links⟩
  unfold refundStale
  rcases left.refundRemote_cases plan.remoteAttempts with ⟨error, fails⟩ | ⟨-, refunds⟩
  · rw [fails]
    exact kept
  · rw [refunds]
    dsimp only
    rcases AcquisitionBudget.refundLinks_cases { left with
        remoteSent := left.remoteSent - plan.remoteAttempts
        attempts := left.attempts + plan.remoteAttempts }
      (staleUnusedLinks plan.links hops) with ⟨error, fails⟩ | ⟨-, returned⟩
    · rw [fails]
      exact ⟨deadline, attempts, kept.links⟩
    · rw [returned]
      exact ⟨deadline, attempts, (Nat.add_le_add_left unused _).trans links⟩

/-- However an exchange ends, it has spent. -/
theorem Exchanged.spent {before after : AcquisitionBudget} (exchanged : Exchanged before after) :
    Spent before after := by
  cases exchanged with
  | unsent => exact .refl before
  | planned inputs =>
    rcases planAttempt_cases before inputs with ⟨_, fails⟩ |
      ⟨left, overall, credits, planned, -, -, deadline, attempts, links, -⟩
    · rw [fails]
      exact .refl before
    · rw [planned]
      show Spent before left
      exact ⟨deadline, by omega, by omega⟩
  | @stale inputs _ _ planned hops =>
    rcases planAttempt_cases before inputs with ⟨_, fails⟩ |
      ⟨_, overall, credits, same, -, -, deadline, attempts, links, -⟩
    · rw [planned] at fails
      cases congrArg Prod.snd fails
    · obtain ⟨rfl, result⟩ := Prod.mk.inj (planned.symm.trans same)
      obtain rfl := Except.ok.inj result
      exact refundStale_spent deadline ((Nat.le_succ _).trans_eq attempts) links.le hops

/-- Splitting the hedge's budgets moves credits into the two children. -/
theorem hedgeBudgets_cases :
    (∃ error left, hedgeBudgets budget = (left, .error error) ∧ Spent budget left) ∨
      ∃ left secondary primary, hedgeBudgets budget = (left, .ok (secondary, primary)) ∧
        left.deadline = budget.deadline ∧ secondary.deadline = budget.deadline ∧
        primary.deadline = budget.deadline ∧
        left.attempts + primary.attempts + secondary.attempts = budget.attempts ∧
        left.links + primary.links + secondary.links = budget.links := by
  unfold hedgeBudgets
  rcases budget.partition_cases 1 1 with ⟨error, fails⟩ | ⟨attempts, links, splits⟩
  · rw [fails]
    exact .inl ⟨error, budget, rfl, .refl budget⟩
  · rw [splits]
    dsimp only
    rcases AcquisitionBudget.partition_cases { budget with
        attempts := budget.attempts - 1, links := budget.links - 1 } 2 1 with
      ⟨error, fails⟩ | ⟨moreAttempts, moreLinks, splitsAgain⟩
    · rw [fails]
      exact .inl ⟨error, _, rfl, rfl, Nat.sub_le _ _, Nat.sub_le _ _⟩
    · rw [splitsAgain]
      refine .inr ⟨_, _, _, rfl, rfl, rfl, rfl, ?_, ?_⟩
      · exact (congrArg (· + 1) (Nat.sub_add_cancel moreAttempts)).trans
          (Nat.sub_add_cancel attempts)
      · exact (congrArg (· + 1) (Nat.sub_add_cancel moreLinks)).trans (Nat.sub_add_cancel links)

theorem reunite_le (child : AcquisitionBudget) (same : child.deadline = budget.deadline) :
    (budget.reunite child).1.deadline = budget.deadline ∧
      (budget.reunite child).1.attempts ≤ budget.attempts + child.attempts ∧
      (budget.reunite child).1.links ≤ budget.links + child.links := by
  rcases budget.reunite_cases child with ⟨_, fails⟩ | ⟨-, -, joins⟩
  · rw [fails]
    exact ⟨rfl, Nat.le_add_right _ _, Nat.le_add_right _ _⟩
  · rw [joins]
    exact ⟨(congrArg (min budget.deadline) same).trans (Nat.min_self _), le_rfl, le_rfl⟩

theorem rejoin_le (primary secondary : AcquisitionBudget)
    (first : primary.deadline = budget.deadline) (second : secondary.deadline = budget.deadline) :
    (rejoin budget primary secondary).deadline = budget.deadline ∧
      (rejoin budget primary secondary).attempts ≤
        budget.attempts + primary.attempts + secondary.attempts ∧
      (rejoin budget primary secondary).links ≤ budget.links + primary.links + secondary.links := by
  obtain ⟨deadline, attempts, links⟩ := reunite_le budget primary first
  unfold rejoin
  rcases joined : budget.reunite primary with ⟨left, _ | _⟩
  · rw [joined] at deadline attempts links
    exact ⟨deadline, attempts.trans (Nat.le_add_right _ _), links.trans (Nat.le_add_right _ _)⟩
  · rw [joined] at deadline attempts links
    obtain ⟨again, moreAttempts, moreLinks⟩ :=
      reunite_le left secondary (second.trans deadline.symm)
    exact ⟨again.trans deadline, moreAttempts.trans (Nat.add_le_add_right attempts _),
      moreLinks.trans (Nat.add_le_add_right links _)⟩

/-- However a hedge ends, it has spent. -/
theorem Hedged.spent {before after : AcquisitionBudget} (hedged : Hedged before after) :
    Spent before after := by
  cases hedged with
  | unraced => exact .refl before
  | unfunded fails =>
    rcases hedgeBudgets_cases before with ⟨_, _, same, spent⟩ | ⟨_, _, _, same, -⟩
    · rw [fails] at same
      cases same
      exact spent
    · rw [fails] at same
      cases congrArg Prod.snd same
  | raced splits first second =>
    rcases hedgeBudgets_cases before with ⟨_, _, same, -⟩ | ⟨_, _, _, same,
      deadline, secondDeadline, firstDeadline, attempts, links⟩
    · rw [splits] at same
      cases congrArg Prod.snd same
    · rw [splits] at same
      obtain ⟨rfl, parts⟩ := Prod.mk.inj same
      obtain ⟨rfl, rfl⟩ := Prod.mk.inj (Except.ok.inj parts)
      obtain ⟨sameDeadline, _⟩ := rejoin_le _ _ _
        (first.spent.deadline.trans (firstDeadline.trans deadline.symm))
        (second.spent.deadline.trans (secondDeadline.trans deadline.symm))
      have primaryAttempts := first.spent.attempts
      have secondaryAttempts := second.spent.attempts
      have primaryLinks := first.spent.links
      have secondaryLinks := second.spent.links
      exact ⟨sameDeadline.trans deadline, by omega, by omega⟩

end Unbounded.Read
