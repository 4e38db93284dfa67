/-
This file is about an owner that leaves a page's fetch to rank 0. When its probe
of rank 0 ends in a timeout, an overload, or rank 0's own failure, the walk marks
rank 0 as unanswered and can no longer end in the authority to ask origin. The
same event is meant to report to the rank-0 watch, whose timeouts add up until
the page is overdue and origin is asked after all.

The two agree except on one path: a probe that fails with an overload before it
leaves this node withholds origin and reports nothing.
-/

import Unbounded.FillRuns

namespace Unbounded.Read

open CandidateWalk Option Transition

/-! ### Withholding, and the note to the watch -/

namespace Fill

/-- The reply completes the outstanding probe, and completing it marks rank 0 as unanswered. -/
def withholdsOn (fill : Fill) (reply : Reply) (budget : AcquisitionBudget) : Bool :=
  match fill.walk, fill.outcomeOf (.reply reply) with
  | .candidates walk, some outcome =>
    (CandidateWalk.complete { walk with rank0Unanswered := false } budget outcome).any
      fun completed => completed.1.rank0Unanswered
  | _, _ => false

/-- The outstanding probe of rank 0 failed with an overload before it left this node, while the
watch does not count rank 0 as overdue and the probe's child budget returns. -/
def unsentOverload (fill : Fill) (reply : Reply) (budget : AcquisitionBudget) : Bool :=
  match fill.walk, reply with
  | .candidates walk, .failed .overloaded false _ =>
    walk.pending.any fun pending =>
      pending.rank0 && decide (walk.config.rank0 ≠ .overdue) &&
        (CandidateWalk.settle pending budget).2.isOk
  | _, _ => false

/-! ### The note lasts until the end of the event -/

variable {fill : Fill} {budget : AcquisitionBudget}

theorem leave_rank0 (fill : Fill) : fill.leave.out.rank0 = fill.out.rank0 := by
  unfold leave
  split
  · split <;> rfl
  · rfl

theorem walked_rank0 (fill : Fill) (source : Source) :
    (fill.walked source).1.out.rank0 = fill.out.rank0 := by
  unfold walked
  split <;> rfl

theorem ended_rank0 (fill : Fill) (walkEnd : End) :
    (fill.ended walkEnd).1.out.rank0 = fill.out.rank0 := by
  have left := fill.leave_rank0
  unfold ended
  cases walkEnd with
  | copy => exact (walked_rank0 _ .peer).trans left
  | staleMembership | versionUnavailable | origin => exact left
  | exhausted =>
    dsimp only
    split <;> split <;> exact left

theorem after_rank0 (fill : Fill) (walkEnd : Option End) (skipped : Bool) :
    (fill.after walkEnd skipped).1.out.rank0 = fill.out.rank0 := by
  unfold after
  cases walkEnd with
  | some walkEnd => exact ended_rank0 fill walkEnd
  | none =>
    dsimp only
    split <;> rfl

variable {walk : CandidateWalk} {turn : Turn Move} {outcome : Outcome}

theorem completeVisit_rank0 {skipped : Bool}
    (completes : fill.completeVisit walk outcome skipped budget = some turn) :
    turn.fill.out.rank0 = fill.out.rank0 := by
  unfold completeVisit at completes
  rw [map_eq_some_iff] at completes
  obtain ⟨⟨_, _, result⟩, -, rfl⟩ := completes
  cases result with
  | error => rfl
  | ok walkEnd => exact after_rank0 _ walkEnd skipped

theorem walkComplete_rank0 (completes : fill.walkComplete outcome budget = some turn) :
    turn.fill.out.rank0 = fill.out.rank0 := by
  unfold walkComplete at completes
  split at completes
  · exact completeVisit_rank0 completes
  · rw [map_eq_some_iff] at completes
    obtain ⟨⟨_, _, walkEnd⟩, -, rfl⟩ := completes
    cases walkEnd with
    | none => rfl
    | some walkEnd => cases walkEnd <;> rfl
  · cases completes
    rfl

/-- Planning leaves the note to the watch alone. -/
theorem next_rank0 {turn : Turn Action} (plans : fill.next budget = some turn) :
    turn.fill.out.rank0 = fill.out.rank0 := by
  unfold next at plans
  split at plans
  · rw [bind_eq_some_iff] at plans
    obtain ⟨⟨planned, _, result⟩, -, plans⟩ := plans
    split at plans
    · cases plans
      rfl
    · cases plans
      rfl
    · rw [map_eq_some_iff] at plans
      obtain ⟨_, -, rfl⟩ := plans
      rfl
    · cases plans
      exact ended_rank0 _ _
  · rw [map_eq_some_iff] at plans
    obtain ⟨⟨_, result⟩, -, rfl⟩ := plans
    cases result with
    | ok => rfl
    | error walkEnd => cases walkEnd <;> rfl
  · cases plans
    rfl

/-- What an event reports to the watch is what deciding on it noted. -/
theorem on_rank0 {event : Event} {now : Nat} {reaction : Reaction}
    (dispatches : fill.dispatch event budget now = some turn)
    (reacts : fill.on event budget now = some reaction) :
    reaction.evidence.rank0 = turn.fill.out.rank0 := by
  unfold on handle at reacts
  rw [dispatches, bind_some, map_eq_some_iff] at reacts
  obtain ⟨planned, handles, rfl⟩ := reacts
  have noted : planned.fill.out.rank0 = turn.fill.out.rank0 := by
    split at handles
    · cases handles
      rfl
    · cases handles
      rfl
    · exact next_rank0 handles
  rw [← noted]
  split <;> rfl

/-! ### Which outcomes withhold, and what they note -/

variable {pending : Pending}

/-- An outcome that withholds origin is one the watch counts. -/
theorem rank0Note_withheld (withholds : walk.withholds pending outcome = true) :
    pending.rank0 = true ∧ (outcome = .timedOut ∨ outcome = .failed ∨ outcome.overloaded = true) ∧
      (rank0Note outcome = some .timedOut ∨ rank0Note outcome = some .failed) := by
  unfold CandidateWalk.withholds at withholds
  rw [Bool.and_eq_true] at withholds
  obtain ⟨rank0, withholds⟩ := withholds
  refine ⟨rank0, ?_⟩
  cases outcome with
  | timedOut => exact ⟨.inl rfl, .inl rfl⟩
  | failed => exact ⟨.inr (.inl rfl), .inr rfl⟩
  | probe outcome | transport outcome =>
    simp only [Bool.and_eq_true] at withholds
    have overloaded := withholds.1.2
    cases outcome with
    | overloaded => exact ⟨.inr (.inr rfl), .inl rfl⟩
    | _ => cases overloaded
  | copy | staleMembership | staleDestination | shed => simp [Outcome.overloaded] at withholds

/-- Of the ways a route fails, only an overload withholds origin, and not once rank 0 is
overdue. -/
theorem withholds_transport {found : ProbeOutcome}
    (withholds : walk.withholds pending (.transport found) = true) :
    found = .overloaded ∧ walk.config.rank0 ≠ .overdue := by
  unfold CandidateWalk.withholds at withholds
  simp only [Bool.and_eq_true, decide_eq_true_eq] at withholds
  obtain ⟨-, ⟨-, overloaded⟩, early⟩ := withholds
  cases found with
  | overloaded => exact ⟨rfl, early⟩
  | _ => cases overloaded

/-- Completing a probe marks rank 0 as unanswered if its child budget returns and its outcome
withholds origin. -/
theorem complete_withholds (asking : walk.pending = some pending) (outcome : Outcome) :
    ((CandidateWalk.complete { walk with rank0Unanswered := false } budget outcome).any
        fun completed => completed.1.rank0Unanswered) =
      ((settle pending budget).2.isOk && walk.withholds pending outcome) := by
  have cleared : ({ walk with rank0Unanswered := false }).pending = some pending := asking
  rcases complete_cases cleared budget outcome with
    ⟨_, unsettles, completes⟩ | ⟨_, _, _, settles, completes, completed, -⟩
  · rw [completes, unsettles]
    rfl
  · rw [completes, settles, any_some, completed.rank0Unanswered]
    rfl

/-- Completing an owner's probe notes what its outcome says about rank 0. -/
theorem complete_noted (walks : fill.walk = .candidates walk) (asking : walk.pending = some pending)
    (rank0 : pending.rank0 = true) (unasked : pending.helper = false)
    (noted : fill.signed = true ∨ outcome = .timedOut ∨ outcome.overloaded = true)
    (completes : fill.complete outcome budget = some turn) :
    turn.fill.out.rank0 = rank0Note outcome := by
  rw [walkComplete_rank0 completes]
  have probed : fill.pending.out.rank0Probe = true ∧ fill.pending.out.helper = false ∧
      fill.pending.signed = fill.signed := by
    unfold Fill.pending
    rw [walks]
    dsimp only
    rw [asking]
    exact ⟨rank0, unasked, rfl⟩
  obtain ⟨probes, helper, signed⟩ := probed
  have counts : (fill.pending.report (.ok outcome)).out.rank0Probe ∧
      ¬ (fill.pending.report (.ok outcome)).out.helper ∧
      ((fill.pending.report (.ok outcome)).signed ∨ outcome = .timedOut ∨ outcome.overloaded) :=
    ⟨probes, Bool.eq_false_iff.mp helper, signed ▸ noted⟩
  unfold noteRank0
  rw [if_pos counts]

section

variable {probe : Probe} {reply : Reply}

section

variable (asks : fill.Asks walk pending probe)
include asks

theorem withholdsOn_iff : fill.withholdsOn reply budget = true ↔
      ∃ outcome, fill.outcomeOf (.reply reply) = some outcome ∧
        (CandidateWalk.settle pending budget).2.isOk = true ∧
        walk.withholds pending outcome = true := by
  unfold withholdsOn
  rw [asks.walking]
  cases outcome : fill.outcomeOf (.reply reply) with
  | none => simp
  | some =>
    dsimp only
    rw [complete_withholds asks.asking.pending]
    simp

theorem unsentOverload_iff : fill.unsentOverload reply budget = true ↔
      (∃ scopeLive, reply = .failed .overloaded false scopeLive) ∧ pending.rank0 = true ∧
        walk.config.rank0 ≠ .overdue ∧ (CandidateWalk.settle pending budget).2.isOk = true := by
  unfold unsentOverload
  rw [asks.walking]
  split
  · rename_i scopeLive walking
    obtain rfl := Walking.candidates.inj walking
    simp [asks.asking.pending, and_assoc]
  · rename_i other
    simp only [Bool.false_eq_true, false_iff]
    rintro ⟨⟨scopeLive, rfl⟩, -⟩
    exact other walk scopeLive rfl rfl

theorem Asks.watched (rank0 : pending.rank0 = true) :
    pending.helper = false ∧ pending.handoff = false := by
  have outstanding := asks.outstanding
  cases outstanding with
  | helper => cases rank0
  | target _ _ _ _ _ _ _ _ _ watched => exact ⟨rfl, watched rank0⟩

/-- A reply that withholds origin is noted for the watch, except an overload of a probe that was
never sent. -/
theorem reply_withholds {turn : Turn Move} (replies : fill.reply reply budget = some turn) :
    (fill.withholdsOn reply budget = true →
        turn.fill.out.rank0 = some .timedOut ∨ turn.fill.out.rank0 = some .failed) ↔
      fill.unsentOverload reply budget = false := by
  rw [← Bool.not_eq_true, unsentOverload_iff asks, withholdsOn_iff asks]
  constructor
  · -- The overload withholds origin, and the probe that was never sent notes nothing.
    rintro noted ⟨⟨scopeLive, rfl⟩, rank0, early, settles⟩
    obtain ⟨unasked, owner⟩ := asks.watched rank0
    have outcome : fill.outcomeOf (.reply (.failed .overloaded false scopeLive)) =
        some (.transport .overloaded) := by
      unfold outcomeOf
      rw [asks.sent]
      rfl
    have withholds : walk.withholds pending (.transport .overloaded) = true := by
      unfold withholds
      simp [rank0, unasked, owner, early, Outcome.overloaded]
    have silent : turn.fill.out.rank0 = none := by
      unfold Fill.reply at replies
      rw [asks.sent] at replies
      exact walkComplete_rank0 replies
    rcases noted ⟨_, outcome, settles, withholds⟩ with timedOut | failed
    · rw [silent] at timedOut
      cases timedOut
    · rw [silent] at failed
      cases failed
  · rintro sent ⟨_, completes, settles, withholds⟩
    obtain ⟨rank0, counts, notes⟩ := rank0Note_withheld withholds
    have judged := judge_judged fill probe reply
    unfold Fill.reply at replies
    simp only [outcomeOf, asks.sent, bind_some] at replies completes
    generalize fill.judge probe reply = judgement at judged replies completes
    obtain ⟨after, _⟩ := judgement
    cases judged with
    | complete found same _ signed =>
      cases completes
      have walks : after.walk = .candidates walk := (core_walk same).trans asks.walking
      have noted := complete_noted walks asks.asking.pending rank0 (asks.watched rank0).1
        (counts.elim (fun timedOut => .inr (.inl timedOut)) fun others =>
          others.elim (fun failed => .inl (signed failed)) fun overloaded =>
            .inr (.inr overloaded)) replies
      rw [noted]
      exact notes
    | @unsent _ scopeLive _ _ failed overloads _ =>
      cases completes
      obtain ⟨overloaded, early⟩ := withholds_transport withholds
      rw [overloads overloaded] at failed
      exact absurd ⟨⟨scopeLive, failed⟩, rank0, early, settles⟩ sent
    | validate | refresh | fail => cases completes

end

end

end Fill

/-! ### Whole runs -/

/-- In every state a read reaches and for every reply: completing the probe of rank 0 withholds
origin only with a note for the watch, exactly unless the probe failed with an overload before
it left this node. -/
theorem withheld_origin_feeds_watch {spends : Spending} {config : FillConfig}
    {budget : AcquisitionBudget} {exchanges : List Exchange} {world next : World}
    {exchange : Exchange} {reply : Reply}
    (run : Run (Reacts spends) (World.start config budget) exchanges world)
    (reacts : Reacts spends world exchange next) (replies : exchange.event = .reply reply) :
    (exchange.fill.withholdsOn reply exchange.budget = true →
        exchange.reaction.evidence.rank0 = some .timedOut ∨
          exchange.reaction.evidence.rank0 = some .failed) ↔
      exchange.fill.unsentOverload reply exchange.budget = false := by
  obtain ⟨_, steps⟩ := reacts.steps (run_live run)
  have phase := steps.phase.of_core
  have answers := reacts.answers
  have on := reacts.reacts
  rw [replies] at answers on
  generalize world.last = last at phase answers
  cases answers with
  | probe =>
    cases phase with
    | probe asks =>
      obtain ⟨turn, dispatches⟩ : ∃ turn, exchange.fill.dispatch (.reply reply) exchange.budget
          exchange.now = some turn := by
        unfold Fill.on Fill.handle at on
        rw [map_eq_some_iff] at on
        obtain ⟨_, handles, -⟩ := on
        obtain ⟨turn, dispatches, -⟩ := bind_eq_some_iff.mp handles
        exact ⟨turn, dispatches⟩
      rw [Fill.on_rank0 dispatches on]
      exact Fill.reply_withholds asks dispatches
    | probeRemaining asks =>
      -- The walk over the remaining owners watches nobody.
      have unwatched : exchange.fill.withholdsOn reply exchange.budget = false ∧
          exchange.fill.unsentOverload reply exchange.budget = false := by
        unfold Fill.withholdsOn Fill.unsentOverload
        rw [asks.walking]
        exact ⟨rfl, rfl⟩
      rw [unwatched.1, unwatched.2]
      exact ⟨fun _ => rfl, fun _ => nofun⟩

/-- The second owner's probe of rank 0 times out: origin is withheld, and the watch hears of
it. -/
theorem withheld_origin_feeds_watch_timeout :
    ∃ exchanges world exchange next,
      Run (Reacts Drives)
          (World.start ⟨.page, false, false, 60000000000, .production⟩
            (.new 60000000000 8 32)) exchanges world ∧
        Reacts Drives world exchange next ∧ exchange.event = .reply .timedOut ∧
        exchange.fill.withholdsOn .timedOut exchange.budget = true ∧
        (exchange.reaction.evidence.rank0 = some .timedOut ∨
          exchange.reaction.evidence.rank0 = some .failed) := by
  let ranking := plainRanking 2 [10, 7] (some 1) (by decide) (by decide)
  obtain ⟨exchanges, world, run, ⟨exchange, next⟩, performs, withholds, sent⟩ :=
    pageWorld.exists_run (openingLines ranking) (fun _ world =>
      ∃ performed ∈ world.perform ⟨.reply .timedOut, .attempt pageInputs, 0⟩,
        performed.1.fill.withholdsOn .timedOut performed.1.budget = true ∧
          performed.1.fill.unsentOverload .timedOut performed.1.budget = false) (by decide +kernel)
  have reacts := World.perform_reacts performs
  have event := World.perform_event performs
  exact ⟨exchanges, world, exchange, next, run, reacts, event, withholds,
    (withheld_origin_feeds_watch run reacts event).mpr sent withholds⟩

/-- The second owner's probe of rank 0 fails with an overload before it is sent: origin is
withheld, and the watch hears nothing. -/
theorem unsent_overload_unwatched :
    ∃ exchanges world exchange next,
      Run (Reacts Drives)
          (World.start ⟨.page, false, false, 60000000000, .production⟩
            (.new 60000000000 8 32)) exchanges world ∧
        Reacts Drives world exchange next ∧
        exchange.event = .reply (.failed .overloaded false true) ∧
        exchange.fill.page = true ∧ exchange.fill.rank = some 1 ∧
        exchange.fill.withholdsOn (.failed .overloaded false true) exchange.budget = true ∧
        exchange.reaction.evidence.rank0 = none := by
  let ranking := plainRanking 2 [10, 7] (some 1) (by decide) (by decide)
  obtain ⟨exchanges, world, run, ⟨exchange, next⟩, performs, meets⟩ :=
    pageWorld.exists_run (openingLines ranking) (fun _ world =>
      ∃ performed ∈ world.perform ⟨.reply (.failed .overloaded false true), .nothing, 0⟩,
        performed.1.fill.page = true ∧ performed.1.fill.rank = some 1 ∧
          performed.1.fill.withholdsOn (.failed .overloaded false true)
            performed.1.budget = true ∧
          performed.1.reaction.evidence.rank0 = none) (by decide +kernel)
  exact ⟨exchanges, world, exchange, next, run, World.perform_reacts performs,
    World.perform_event performs, meets⟩

end Unbounded.Read
