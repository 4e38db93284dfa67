/-
This file proves that acquisition credits are never minted. The live budgets of
one read form a multiset: a partition or a transfer adds the child it returns, a
reunion removes the child it consumes, and any budget may be dropped. Which
budget descends from which is not recorded, so the result covers every tree of
budgets and also reunions that no tree has.
-/

import Unbounded.Budget
import Unbounded.Transition

namespace Unbounded.Read

open Word Transition AcquisitionBudget

/-! ### One call -/

variable (budget : AcquisitionBudget)

/-- What a call leaves behind and hands out holds no more credits than what it was called on
and what it consumed, and no later deadline. `ceiling` is any bound on the deadlines before the
call. -/
structure Conserves (before after : Multiset AcquisitionBudget) : Prop where
  attempts : (after.map attemptCredits).sum ≤ (before.map attemptCredits).sum
  links : (after.map linkCredits).sum ≤ (before.map linkCredits).sum
  deadlines : ∀ ceiling, (∀ budget ∈ before, budget.deadline ≤ ceiling) →
    ∀ budget ∈ after, budget.deadline ≤ ceiling

theorem Conserves.refl (budgets : Multiset AcquisitionBudget) : Conserves budgets budgets :=
  ⟨le_rfl, le_rfl, fun _ bounded => bounded⟩

theorem Conserves.trans {first second third : Multiset AcquisitionBudget}
    (earlier : Conserves first second) (later : Conserves second third) :
    Conserves first third :=
  ⟨later.attempts.trans earlier.attempts, later.links.trans earlier.links,
    fun ceiling bounded => later.deadlines ceiling (earlier.deadlines ceiling bounded)⟩

variable {before after : Multiset AcquisitionBudget}

/-- Budgets a call does not touch keep their credits. -/
theorem Conserves.frame (conserves : Conserves before after) (rest : Multiset AcquisitionBudget) :
    Conserves (before + rest) (after + rest) := by
  refine ⟨?_, ?_, fun ceiling bounded budget member => ?_⟩
  · simpa using conserves.attempts
  · simpa using conserves.links
  · rcases Multiset.mem_add.mp member with changed | untouched
    · exact conserves.deadlines ceiling
        (fun other old => bounded other (Multiset.mem_add.mpr (.inl old))) budget changed
    · exact bounded budget (Multiset.mem_add.mpr (.inr untouched))

/-- One budget gives way to another, and nothing is consumed or handed out. -/
theorem Conserves.replace {before after : AcquisitionBudget}
    (attempts : after.attemptCredits ≤ before.attemptCredits)
    (links : after.linkCredits ≤ before.linkCredits) (deadline : after.deadline ≤ before.deadline) :
    Conserves ({before} + 0) ({after} + 0) := by
  refine ⟨by simpa using attempts, by simpa using links, fun ceiling bounded budget member => ?_⟩
  rw [Multiset.mem_singleton.mp member]
  exact deadline.trans (bounded before (Multiset.mem_singleton_self before))

/-- One budget's credits go to two. -/
theorem Conserves.divide {before parent child : AcquisitionBudget}
    (attempts : parent.attemptCredits + child.attemptCredits ≤ before.attemptCredits)
    (links : parent.linkCredits + child.linkCredits ≤ before.linkCredits)
    (deadline : parent.deadline ≤ before.deadline) (deadline' : child.deadline ≤ before.deadline) :
    Conserves ({before} + 0) ({parent} + {child}) := by
  refine ⟨by simpa using attempts, by simpa using links, fun ceiling bounded budget member => ?_⟩
  have bound := bounded before (Multiset.mem_singleton_self before)
  rcases Multiset.mem_add.mp member with here | here <;> rw [Multiset.mem_singleton.mp here]
  · exact deadline.trans bound
  · exact deadline'.trans bound

/-- A call fails and leaves its budget as it found it, or it conserves credits between the budgets
it takes and those it returns. A deadline it returns is never later than its budget's. -/
theorem perform_spec (call : BudgetCall) : (∃ error, budget.perform call = (budget, .error error)) ∨
      ∃ after reply, budget.perform call = (after, .ok reply) ∧
        Conserves ({budget} + call.consumed) ({after} + BudgetReply.produced (.ok reply)) ∧
        ∀ instant, reply = .deadline instant → instant ≤ budget.deadline := by
  cases call with
  | sendRemote attempts =>
    rcases budget.sendRemote_cases attempts with ⟨error, equal⟩ | ⟨enough, equal⟩ <;>
      rw [perform, equal]
    · exact .inl ⟨error, rfl⟩
    have sent := saturatingAdd_le 32 budget.remoteSent attempts
    refine .inr ⟨_, _, rfl, .replace ?_ le_rfl le_rfl, nofun⟩
    simp only [attemptCredits, id]
    omega
  | refundRemote attempts =>
    rcases budget.refundRemote_cases attempts with ⟨error, equal⟩ | ⟨enough, equal⟩ <;>
      rw [perform, equal]
    · exact .inl ⟨error, rfl⟩
    refine .inr ⟨_, _, rfl, .replace ?_ le_rfl le_rfl, nofun⟩
    simp only [attemptCredits, id]
    omega
  | beginAttempt now callerDeadline =>
    rcases budget.beginAttempt_cases now callerDeadline with ⟨error, equal⟩ | ⟨enough, equal⟩ <;>
      rw [perform, equal]
    · exact .inl ⟨error, rfl⟩
    refine .inr ⟨_, _, rfl, .replace ?_ le_rfl le_rfl, fun instant same => ?_⟩
    · simp only [attemptCredits, id]
      omega
    · exact BudgetReply.deadline.inj same ▸ min_le_left _ _
  | chargeLinks links =>
    rcases budget.chargeLinks_cases links with ⟨error, equal⟩ | ⟨enough, equal⟩ <;>
      rw [perform, equal]
    · exact .inl ⟨error, rfl⟩
    have charged := saturatingAdd_le 16 budget.chargedLinks links
    refine .inr ⟨_, _, rfl, .replace le_rfl ?_ le_rfl, nofun⟩
    simp only [linkCredits, id]
    omega
  | refundLinks links =>
    rcases budget.refundLinks_cases links with ⟨error, equal⟩ | ⟨enough, equal⟩ <;>
      rw [perform, equal]
    · exact .inl ⟨error, rfl⟩
    refine .inr ⟨_, _, rfl, .replace le_rfl ?_ le_rfl, nofun⟩
    simp only [linkCredits, id]
    omega
  | noteRouteFailure => exact .inr ⟨_, _, rfl, .replace le_rfl le_rfl le_rfl, nofun⟩
  | reunite child =>
    rcases budget.reunite_cases child with ⟨error, equal⟩ | ⟨-, -, equal⟩ <;> rw [perform, equal]
    · exact .inl ⟨error, rfl⟩
    -- The child's debits are forgotten with it, so its refundable credits are lost, not kept.
    refine .inr ⟨_, _, rfl, ⟨?_, ?_, fun ceiling bounded other member => ?_⟩, nofun⟩
    · simp [BudgetCall.consumed, BudgetReply.produced, attemptCredits]
      omega
    · simp [BudgetCall.consumed, BudgetReply.produced, linkCredits]
      omega
    · obtain rfl : other = _ := by simpa [BudgetReply.produced] using member
      exact (min_le_left _ _).trans (bounded budget (by simp))
  | partition attempts links =>
    rcases budget.partition_cases attempts links with
      ⟨error, equal⟩ | ⟨enough, enoughLinks, equal⟩ <;> rw [perform, equal]
    · exact .inl ⟨error, rfl⟩
    refine .inr ⟨_, _, rfl, .divide ?_ ?_ le_rfl le_rfl, nofun⟩
    · simp only [attemptCredits, new, id]
      omega
    · simp only [linkCredits, new, id]
      omega
  | transfer =>
    refine .inr ⟨_, _, rfl, .divide ?_ ?_ le_rfl le_rfl, nofun⟩
    · simp [transfer, attemptCredits]
    · simp [transfer, linkCredits]
  | beginPeerAttempt now callerDeadline links =>
    rcases budget.beginPeerAttempt_cases now callerDeadline links with
      ⟨error, equal⟩ | ⟨enough, enoughLinks, equal⟩ <;> rw [perform, equal]
    · exact .inl ⟨error, rfl⟩
    have charged := saturatingAdd_le 16 budget.chargedLinks links
    refine .inr ⟨_, _, rfl, .replace ?_ ?_ le_rfl, fun instant same => ?_⟩
    · simp only [attemptCredits, id]
      omega
    · simp only [linkCredits, id]
      omega
    · exact BudgetReply.deadline.inj same ▸ min_le_left _ _

/-- Every call conserves; one that fails may drop the child it consumed. -/
theorem perform_conserves (call : BudgetCall) : Conserves ({budget} + call.consumed)
      ({(budget.perform call).1} + BudgetReply.produced (budget.perform call).2) := by
  rcases perform_spec budget call with ⟨_, equal⟩ | ⟨_, _, equal, _, -⟩
  · rw [equal]
    refine ⟨by simp [BudgetReply.produced], by simp [BudgetReply.produced],
      fun ceiling bounded other member => bounded other ?_⟩
    exact Multiset.mem_add.mpr (.inl (by simpa [BudgetReply.produced] using member))
  · rwa [equal]

/-! ### Any interleaving of calls -/

/-- One step of the live budgets: a call on one of them, or dropping one. The label is the
budget called on and the call, or nothing for a drop. -/
inductive BudgetStep : Multiset AcquisitionBudget → Option (AcquisitionBudget × BudgetCall) →
    Multiset AcquisitionBudget → Prop
  | call (budget : AcquisitionBudget) (call : BudgetCall) (rest : Multiset AcquisitionBudget) :
      BudgetStep ({budget} + call.consumed + rest) (some (budget, call))
        ({(budget.perform call).1} + BudgetReply.produced (budget.perform call).2 + rest)
  | drop (budget : AcquisitionBudget) (rest : Multiset AcquisitionBudget) :
      BudgetStep ({budget} + rest) none rest

theorem BudgetStep.conserves
    {label : Option (AcquisitionBudget × BudgetCall)} (step : BudgetStep before label after) :
    Conserves before after := by
  cases step with
  | call budget call rest => exact (perform_conserves budget call).frame rest
  | drop =>
    exact ⟨by simp, by simp, fun ceiling bounded other member =>
      bounded other (Multiset.mem_add.mpr (.inr member))⟩

variable {labels : List (Option (AcquisitionBudget × BudgetCall))}

theorem run_conserves (run : Run BudgetStep before labels after) : Conserves before after :=
  run.related (fun _ => True) Conserves (fun _ _ _ _ _ => trivial) Conserves.refl
    (fun _ _ _ => .trans) (fun _ _ _ _ step => step.conserves) trivial

/-- Along a run, no budget that is called on has a deadline later than the first ones. -/
theorem run_called_deadline {ceiling : Nat} (run : Run BudgetStep before labels after)
    (bounded : ∀ budget ∈ before, budget.deadline ≤ ceiling) :
    ∀ budget call, some (budget, call) ∈ labels → budget.deadline ≤ ceiling := by
  induction run with
  | nil => simp
  | snoc earlier final ih =>
    intro budget call member
    rcases List.mem_append.mp member with old | new
    · exact ih budget call old
    have live := (run_conserves earlier).deadlines ceiling bounded
    cases final with
    | call called performed =>
      obtain ⟨rfl, -⟩ : budget = called ∧ call = performed := by simpa using new
      exact live budget (by simp)
    | drop => simp at new

/-- Acquisition credits are never minted. Whatever calls are made, in whatever order, on the
budgets descending from one original: the attempts that are available or sent never exceed the
original attempts, the links that are available or charged never exceed the original links (so
neither do the available ones), a failing call leaves its budget unchanged, and no deadline, of a
live budget or returned by a call, is later than the original's. -/
theorem credits_never_minted (deadline attempts links : Nat)
    (labels : List (Option (AcquisitionBudget × BudgetCall))) (live : Multiset AcquisitionBudget)
    (run : Run BudgetStep {new deadline attempts links} labels live) :
    (live.map fun budget => budget.attempts + budget.remoteSent).sum ≤ attempts ∧
      (live.map fun budget => budget.links + budget.chargedLinks).sum ≤ links ∧
      (live.map fun budget => budget.attempts).sum ≤ attempts ∧
      (live.map fun budget => budget.links).sum ≤ links ∧
      (∀ budget ∈ live, budget.deadline ≤ deadline) ∧
      ∀ budget call, some (budget, call) ∈ labels →
        (∀ error, (budget.perform call).2 = .error error → (budget.perform call).1 = budget) ∧
          ∀ instant, (budget.perform call).2 = .ok (.deadline instant) → instant ≤ deadline := by
  have conserves := run_conserves run
  have attemptsLe : (live.map attemptCredits).sum ≤ attempts := by
    simpa [attemptCredits, new] using conserves.attempts
  have linksLe : (live.map linkCredits).sum ≤ links := by
    simpa [linkCredits, new] using conserves.links
  have original : ∀ budget ∈ ({new deadline attempts links} : Multiset AcquisitionBudget),
      budget.deadline ≤ deadline := by
    intro budget member
    rw [Multiset.mem_singleton.mp member]
    exact le_rfl
  refine ⟨attemptsLe, linksLe, ?_, ?_, conserves.deadlines deadline original, ?_⟩
  · exact (Multiset.sum_map_le_sum_map _ _ fun _ _ => Nat.le_add_right _ _).trans attemptsLe
  · exact (Multiset.sum_map_le_sum_map _ _ fun _ _ => Nat.le_add_right _ _).trans linksLe
  · intro budget call member
    rcases perform_spec budget call with ⟨error, equal⟩ | ⟨_, _, equal, -, earlier⟩ <;>
      rw [equal]
    · exact ⟨fun _ _ => rfl, nofun⟩
    refine ⟨nofun, fun instant returned => (earlier instant ?_).trans
      (run_called_deadline run original budget call member)⟩
    exact Except.ok.inj returned

/-- A read with four attempts and eight links partitions three and five of them into a child,
and the child sends one request over two links: three attempts are left, and the eight links are
left or charged. -/
theorem credits_never_minted_partition :
    let parent := new 10 4 8
    let child := new 10 3 5
    let spent : AcquisitionBudget := ⟨10, 2, 3, 2, false, 0⟩
    Run BudgetStep {parent}
        [some (parent, .partition 3 5), some (child, .beginPeerAttempt 0 10 2)]
        {spent, new 10 1 3} ∧
      (({spent, new 10 1 3} : Multiset AcquisitionBudget).map
        fun budget => budget.attempts + budget.remoteSent).sum ≤ 4 := by
  intro parent child spent
  have partitioned : BudgetStep {parent} (some (parent, .partition 3 5)) {child, new 10 1 3} := by
    have step := BudgetStep.call parent (.partition 3 5) 0
    rw [add_zero] at step
    rwa [show ({child, new 10 1 3} : Multiset AcquisitionBudget) =
      {(parent.perform (.partition 3 5)).1} +
        BudgetReply.produced (parent.perform (.partition 3 5)).2 by decide]
  have attempted : BudgetStep {child, new 10 1 3} (some (child, .beginPeerAttempt 0 10 2))
      {spent, new 10 1 3} := .call child (.beginPeerAttempt 0 10 2) {new 10 1 3}
  have run := Run.cons partitioned (Run.single attempted)
  exact ⟨run, (credits_never_minted 10 4 8 _ _ run).1⟩

end Unbounded.Read
