/-
This file says once what planning and completing a probe can do to a candidate
walk. Planning first prepares the walk: it decides whether a helper may be
asked, and skips a primary the hedge has already asked. Then it ends the walk,
asks the granted targets, or visits the target at its index. Completing settles
the probe's child budget and records the outcome.

The results about whole reads use these facts and never unfold `next` or
`complete` again.
-/

import Unbounded.CandidateWalk

namespace Unbounded.Read

open List

/-- What an outcome of an owner's probe adds to the walk's evidence; a copy ends the walk. -/
def Outcome.evidence : Outcome → Option ProbeOutcome
  | .copy => none
  | .probe outcome | .transport outcome => some outcome
  | .staleMembership | .staleDestination | .timedOut | .failed => some .unreachable
  | .shed => some .overloaded

theorem Outcome.evidence_of_miss (outcome : Outcome) (missed : outcome ≠ .copy) :
    ∃ found, outcome.evidence = some found := by
  cases outcome with
  | copy => exact absurd rfl missed
  | probe outcome | transport outcome => exact ⟨outcome, rfl⟩
  | staleMembership | staleDestination | timedOut | failed => exact ⟨.unreachable, rfl⟩
  | shed => exact ⟨.overloaded, rfl⟩

namespace CandidateWalk

/-! ### Planning -/

/-- Nothing is outstanding and the walk goes on. -/
structure Ready (walk : CandidateWalk) : Prop where
  pending : walk.pending = none
  batch : walk.batch = 0
  done : walk.done = false

/-- One of the walk's own targets is outstanding. -/
structure Asking (walk : CandidateWalk) (pending : Pending) : Prop where
  pending : walk.pending = some pending
  batch : walk.batch = 0
  done : walk.done = false
  started : walk.helper ≠ .unset
  undue : walk.helper ≠ .due

/-- What an epoch fixes: its configuration and the nodes it visits. -/
structure SameEpoch (before after : CandidateWalk) : Prop where
  config : after.config = before.config
  targets : after.targets = before.targets
  count : after.count = before.count

/-- How planning prepares a walk before it picks the target at its index. -/
structure Prepared (walk prepared : CandidateWalk) : Prop extends SameEpoch walk prepared where
  evidence : prepared.evidence = walk.evidence
  rank0Unanswered : prepared.rank0Unanswered = walk.rank0Unanswered
  ready : prepared.Ready
  order : prepared.order = walk.order ∨
    walk.helper = .unset ∧ walk.config.continuation.primaryConsumed = false ∧
      prepared.order = VisitOrder.canonical walk.order.ranks.length
  index : prepared.index = walk.index ∨
    walk.config.continuation.primaryConsumed = true ∧ walk.index = 0 ∧ prepared.index = 1
  helper : walk.helper = .unset ∧
      (prepared.helper = .off ∨ prepared.helper = .armed ∧ walk.config.rank = none) ∨
    walk.helper = .due ∧ prepared.helper = .used ∨
    walk.helper ≠ .unset ∧ walk.helper ≠ .due ∧ prepared.helper = walk.helper

variable {prepared walk : CandidateWalk}

theorem Prepared.started (prepares : Prepared walk prepared) :
    prepared.helper ≠ .unset ∧ prepared.helper ≠ .due := by
  rcases prepares.helper with ⟨-, off | ⟨armed, -⟩⟩ | ⟨-, used⟩ | ⟨set, undue, same⟩
  · rw [off]; decide
  · rw [armed]; decide
  · rw [used]; decide
  · rw [same]; exact ⟨set, undue⟩

theorem Prepared.index_le (prepares : Prepared walk prepared) : walk.index ≤ prepared.index := by
  rcases prepares.index with same | ⟨-, first, -⟩
  · exact same.ge
  · rw [first]
    exact Nat.zero_le _

/-- What planning does with a prepared walk: the walk it leaves, the read's budget, and the
step. -/
inductive Plans (walk : CandidateWalk) (budget : AcquisitionBudget) :
    CandidateWalk × AcquisitionBudget × Except Error Step → Prop
  /-- No target is left, or the next one is a handoff target the read cannot pay for. -/
  | concluded (past : ∀ canonical, walk.target walk.index = some canonical →
      walk.config.owners ≤ canonical) :
      Plans walk budget (walk.ended.1, budget, .ok walk.ended.2)
  | batch (canonical : Nat) (found : walk.target walk.index = some canonical)
      (granted : walk.isGranted canonical = true) :
      Plans walk budget (walk.sendGranted.1, budget, .ok walk.sendGranted.2)
  | granted (canonical : Nat) (found : walk.target walk.index = some canonical)
      (granted : walk.isGranted canonical = true) :
      Plans walk budget
        ((walk.askGranted budget canonical).1, budget, .ok (walk.askGranted budget canonical).2)
  | visit (canonical : Nat) (found : walk.target walk.index = some canonical)
      (unskipped : walk.config.continuation.primaryConsumed = true → walk.index ≠ 0) :
      Plans walk budget (walk.visit budget canonical)

/-- How a probe is paid: from the read's budget, or from a child partitioned off it. -/
inductive Funds (budget : AcquisitionBudget) : Option AcquisitionBudget → AcquisitionBudget → Prop
  | shared : Funds budget none budget
  | child {attempts links : Nat} {left child : AcquisitionBudget}
      (taken : budget.partition attempts links = (left, .ok child)) : Funds budget (some child) left
  | failureRoute {attempts links : Nat} {left child : AcquisitionBudget}
      (taken : budget.partition attempts links = (left, .ok child)) :
      Funds budget (some child.noteRouteFailure) left

section

variable {budget : AcquisitionBudget}

theorem partition_failed {attempts links : Nat} {left : AcquisitionBudget} {error : Error}
    (failed : budget.partition attempts links = (left, .error error)) : left = budget := by
  rcases budget.partition_cases attempts links with ⟨_, same⟩ | ⟨-, -, parts⟩
  · rw [failed] at same
    exact congrArg Prod.fst same
  · rw [failed] at parts
    cases congrArg Prod.snd parts

/-- Visiting a target fails for want of credits, ends the walk, or sends a probe. -/
theorem visit_cases (walk : CandidateWalk) (budget : AcquisitionBudget) (canonical : Nat) :
    (∃ error, walk.visit budget canonical = (walk, budget, .error error)) ∨
      walk.fund budget canonical = .starved ∧ walk.visit budget canonical =
            (({ walk with sawTransient := true, funding := true }).ended.1, budget,
              .ok ({ walk with sawTransient := true, funding := true }).ended.2) ∨
        ∃ bounded left, Funds budget bounded left ∧ walk.visit budget canonical =
            ((walk.send budget canonical bounded).1, left,
              .ok (walk.send budget canonical bounded).2) := by
  unfold visit
  split
  · exact .inr (.inr ⟨none, budget, .shared, rfl⟩)
  · rename_i starved
    exact .inr (.inl ⟨starved, rfl⟩)
  · rename_i failureRoute _
    split
    · rename_i left error failed
      rw [partition_failed failed]
      exact .inl ⟨error, rfl⟩
    · rename_i left child taken
      refine .inr (.inr ⟨_, left, ?_, rfl⟩)
      cases failureRoute with
      | false => exact .child taken
      | true => exact .failureRoute taken

/-- One round of the loop plans, or skips a primary that was asked before. -/
theorem iterate_cases (skipped : CandidateWalk × AcquisitionBudget × Except Error Step) :
    Plans walk budget (walk.iterate budget skipped) ∨
      walk.config.continuation.primaryConsumed = true ∧ walk.index = 0 ∧
        walk.iterate budget skipped = skipped := by
  unfold iterate
  split
  · rename_i missing
    exact .inl (.concluded fun canonical found => by rw [missing] at found; cases found)
  · rename_i canonical found
    split
    · rename_i granted
      by_cases parallel : walk.config.parallelGranted = true
      · rw [if_pos parallel]
        exact .inl (.batch canonical found granted)
      · rw [if_neg parallel]
        exact .inl (.granted canonical found granted)
    · split
      · rename_i unaffordable
        refine .inl (.concluded fun other foundOther => ?_)
        rw [found] at foundOther
        exact Option.some_inj.mp foundOther ▸ unaffordable.1
      · split
        · rename_i skips
          exact .inr ⟨skips.1, skips.2, rfl⟩
        · rename_i visits
          exact .inl (.visit canonical found fun consumed first => visits ⟨consumed, first⟩)

theorem prepared_at {index : Nat} {sawVersion sawTransient : Bool} (ready : walk.Ready)
    (settled : walk.helper ≠ .unset ∧ walk.helper ≠ .due) (moved : index = walk.index ∨
      walk.config.continuation.primaryConsumed = true ∧ walk.index = 0 ∧ index = 1) :
    Prepared walk { walk with index, sawVersion, sawTransient } :=
  ⟨⟨rfl, rfl, rfl⟩, rfl, rfl, { ready with }, .inl rfl, moved,
    .inr (.inr ⟨settled.1, settled.2, rfl⟩)⟩

/-- The loop plans with the walk itself, or with the walk past its consumed primary. -/
theorem loop_plans (budget : AcquisitionBudget) (ready : walk.Ready)
    (settled : walk.helper ≠ .unset ∧ walk.helper ≠ .due) :
    ∃ prepared, Prepared walk prepared ∧ Plans prepared budget (walk.loop budget) := by
  rcases iterate_cases
    (walk.skipPrimary.iterate budget (walk.skipPrimary, budget, .error .internal)) with
    plans | ⟨consumed, first, skips⟩
  · exact ⟨walk, prepared_at ready settled (.inl rfl), plans⟩
  refine ⟨walk.skipPrimary, prepared_at ready settled
    (.inr ⟨consumed, first, congrArg (· + 1) first⟩), ?_⟩
  unfold loop
  rw [skips]
  -- The second round is past index 0 and cannot skip.
  exact (iterate_cases _).resolve_right fun again => Nat.succ_ne_zero _ again.2.1

theorem start_helper (walk : CandidateWalk) (budget : AcquisitionBudget) :
    (walk.start budget).helper = .off ∨
      (walk.start budget).helper = .armed ∧ walk.config.rank = none := by
  unfold start
  dsimp only
  split
  · rename_i eligible
    simp only [Bool.and_eq_true, Option.isNone_iff_eq_none] at eligible
    exact .inr ⟨rfl, eligible.1.1.2⟩
  · exact .inl rfl

theorem start_settled (walk : CandidateWalk) (budget : AcquisitionBudget) :
    (walk.start budget).helper ≠ .unset ∧ (walk.start budget).helper ≠ .due := by
  rcases start_helper walk budget with off | ⟨armed, -⟩
  · rw [off]; decide
  · rw [armed]; decide

theorem start_order (budget : AcquisitionBudget) : (walk.start budget).order = walk.order ∨
      walk.config.continuation.primaryConsumed = false ∧
        (walk.start budget).order = VisitOrder.canonical walk.order.ranks.length := by
  unfold start
  dsimp only
  split
  · rename_i reorder
    simp only [Bool.and_eq_true, Bool.not_eq_true'] at reorder
    exact .inr ⟨reorder.1.2, rfl⟩
  · exact .inl rfl

/-- The first planning of a walk prepares it through `start`. -/
theorem Prepared.of_start (unset : walk.helper = .unset)
    (later : Prepared (walk.start budget) prepared) : Prepared walk prepared where
  __ := later
  order := by
    rw [later.order.resolve_right fun again => (start_settled walk budget).1 again.1]
    exact (start_order budget).imp id fun reordered => ⟨unset, reordered⟩
  helper := by
    rcases later.helper with ⟨again, -⟩ | ⟨again, -⟩ | ⟨-, -, kept⟩
    · exact absurd again (start_settled walk budget).1
    · exact absurd again (start_settled walk budget).2
    · rw [kept]
      exact .inl ⟨unset, start_helper walk budget⟩

/-- A helper that is due but cannot be paid for counts as used. -/
theorem Prepared.of_due (due : walk.helper = .due)
    (later : Prepared { walk with helper := Helper.used } prepared) : Prepared walk prepared where
  __ := later
  order := .inl (later.order.resolve_right fun again => Helper.noConfusion again.1)
  helper := by
    rcases later.helper with ⟨again, -⟩ | ⟨again, -⟩ | ⟨-, -, kept⟩
    · exact Helper.noConfusion again
    · exact Helper.noConfusion again
    · exact .inr (.inl ⟨due, kept⟩)

/-- What planning can do: ask the helper that is due, or plan with the prepared walk. -/
theorem next_cases (ready : walk.Ready) (budget : AcquisitionBudget) : walk.helper = .due ∧
        walk.next budget = some (({ walk with helper := Helper.used }).helperProbe budget) ∨
      ∃ prepared result, walk.next budget = some result ∧ Prepared walk prepared ∧
        Plans prepared budget result := by
  have runs : ¬ (walk.pending.isSome = true ∨ walk.batch ≠ 0 ∨ walk.done = true) := by
    simp [ready.pending, ready.batch, ready.done]
  unfold next
  rw [if_neg runs]
  by_cases unset : walk.helper = .unset
  · have settled := start_settled walk budget
    have started : (walk.start budget).Ready := { ready with }
    obtain ⟨prepared, prepares, plans⟩ := loop_plans budget started settled
    simp only [if_pos unset, if_neg settled.2]
    exact .inr ⟨prepared, _, rfl, .of_start unset prepares, plans⟩
  · simp only [if_neg unset]
    by_cases due : walk.helper = .due
    · rw [if_pos due]
      split
      · exact .inl ⟨due, rfl⟩
      have used : ({ walk with helper := .used }).Ready := { ready with }
      obtain ⟨prepared, prepares, plans⟩ := loop_plans budget used ⟨nofun, nofun⟩
      exact .inr ⟨prepared, _, rfl, .of_due due prepares, plans⟩
    · rw [if_neg due]
      obtain ⟨prepared, prepares, plans⟩ := loop_plans budget ready ⟨unset, due⟩
      exact .inr ⟨prepared, _, rfl, prepares, plans⟩

/-! ### The targets of an owner -/

variable {canonical : Nat}

theorem isGranted_handoff (granted : walk.isGranted canonical = true) :
    walk.config.owners ≤ canonical := by
  simp only [isGranted, Bool.and_eq_true, decide_eq_true_eq] at granted
  exact granted.1

/-- The granted run starts at the index and stays within the targets. -/
theorem grantedRun_cons (found : walk.target walk.index = some canonical)
    (granted : walk.isGranted canonical = true) (inside : walk.index < walk.count) :
    ∃ rest, walk.grantedRun = (walk.index, canonical) :: rest := by
  have first : (range walk.count).drop walk.index =
      walk.index :: (range walk.count).drop (walk.index + 1) := by
    rw [drop_eq_getElem_cons (by rw [length_range]; exact inside), getElem_range]
  unfold grantedRun
  rw [first, map_cons, takeWhile_cons, found]
  simp only [Option.any_some, granted, if_true]
  exact ⟨_, rfl⟩

theorem grantedRun_length_le (walk : CandidateWalk) :
    walk.grantedRun.length ≤ walk.count - walk.index := by
  refine (length_filterMap_le _ _).trans ((takeWhile_sublist _).length_le.trans ?_)
  rw [length_map, length_drop, length_range]

/-- An owner asks the owners before it, at most two, and then its handoff targets. -/
theorem target_owner {rank index : Nat} (owner : walk.config.rank = some rank)
    (targets : walk.targets = (new walk.config).targets)
    (found : walk.target index = some canonical) :
    index < walk.count ∧ (index < min rank 2 ∧ canonical = index ∨
      min rank 2 ≤ index ∧ canonical = walk.config.owners + (index - min rank 2) ∧
        index - min rank 2 < min walk.config.handoff maxTargets) := by
  have listed : walk.targets = ownerTargets walk.config rank := by
    rw [targets]
    unfold new
    rw [owner]
  unfold target at found
  rw [owner, Option.isSome_some, if_pos rfl] at found
  split at found
  · rename_i inside
    refine ⟨inside, ?_⟩
    rw [listed, ownerTargets] at found
    rcases Nat.lt_or_ge index (min rank 2) with before | after
    · rw [getElem?_append_left (by rw [length_range]; exact before),
        getElem?_range before, Option.some_inj] at found
      exact .inl ⟨before, found.symm⟩
    · rw [getElem?_append_right (by rw [length_range]; exact after),
        length_range] at found
      split at found
      · rw [getElem?_map, Option.map_eq_some_iff] at found
        obtain ⟨_, listed, equal⟩ := found
        obtain ⟨inside, same⟩ := List.getElem?_eq_some_iff.mp listed
        rw [List.length_range] at inside
        rw [List.getElem_range] at same
        exact .inr ⟨after, by rw [← equal, ← same], inside⟩
      · cases found
  · cases found

/-! ### Completing -/

/-- A budget that differs only in what it remembers about routes. -/
structure SameCredits (before after : AcquisitionBudget) : Prop where
  deadline : after.deadline = before.deadline
  attempts : after.attempts = before.attempts
  links : after.links = before.links

theorem noteFailure_credits (budget : AcquisitionBudget) (outcome : ProbeOutcome) :
    SameCredits budget (noteFailure budget outcome) := by
  cases outcome <;> exact ⟨rfl, rfl, rfl⟩

/-- What recording an outcome does to the walk: the visit at the index is over unless the helper
was asked, an owner's outcome becomes evidence unless the walk ends, and the walk goes on until
it ends. -/
structure Recorded (walk after : CandidateWalk) (pending : Pending) (outcome : Outcome)
    (walkEnd : Option End) : Prop extends SameEpoch walk after where
  order : after.order = walk.order
  outstanding : after.pending = walk.pending
  batch : after.batch = walk.batch
  rank0Unanswered : after.rank0Unanswered = walk.rank0Unanswered
  index : after.index = walk.index + if pending.helper then 0 else 1
  helper : after.helper = walk.helper ∨
    pending.helper = false ∧ walk.helper = .armed ∧ after.helper = .due
  done : walkEnd = none → after.done = walk.done
  evidence : walkEnd = none →
    after.evidence = walk.evidence ++
      if pending.helper || pending.handoff then [] else outcome.evidence.toList
  missed : walkEnd = none → outcome ≠ .copy
  ending : walkEnd = none ∨ walkEnd = some .copy ∨
    walkEnd = some .staleMembership ∧ outcome = .staleMembership ∧ pending.handoff = false ∧
      pending.previous = false ∨
    walkEnd = some .versionUnavailable

variable {pending : Pending}

theorem recordHelper_recorded (budget : AcquisitionBudget) (asked : pending.helper = true)
    (outcome : Outcome) :
    Recorded walk (walk.recordHelper budget outcome.normalize).1 pending outcome
        (walk.recordHelper budget outcome.normalize).2.2 ∧
      SameCredits budget (walk.recordHelper budget outcome.normalize).2.1 := by
  have kept (missed : outcome ≠ .copy) : Recorded walk walk pending outcome none :=
    ⟨⟨rfl, rfl, rfl⟩, rfl, rfl, rfl, rfl, by rw [asked]; rfl, .inl rfl, fun _ => rfl,
      fun _ => by rw [asked]; exact (append_nil _).symm, fun _ => missed, .inl rfl⟩
  cases outcome with
  | copy =>
    exact ⟨⟨⟨rfl, rfl, rfl⟩, rfl, rfl, rfl, rfl, by rw [asked]; rfl, .inl rfl, nofun, nofun,
      nofun, .inr (.inl rfl)⟩, rfl, rfl, rfl⟩
  | probe outcome | transport outcome => exact ⟨kept nofun, noteFailure_credits budget outcome⟩
  | timedOut | failed => exact ⟨kept nofun, noteFailure_credits budget .unreachable⟩
  | staleMembership | staleDestination | shed => exact ⟨kept nofun, rfl, rfl, rfl⟩

/-- A walk without what an outcome may change besides ending the visit. -/
def frame (walk : CandidateWalk) : CandidateWalk :=
  { walk with
    evidence := []
    sawTransient := false
    sawVersion := false
    sawBusy := false
    done := false }

theorem visited_helper (outcome : Outcome) : (walk.visited outcome).helper = walk.helper ∨
      walk.helper = .armed ∧ (walk.visited outcome).helper = .due := by
  unfold visited
  split
  · rename_i shed
    exact .inr ⟨shed.1, rfl⟩
  · exact .inl rfl

theorem visited_recorded (unasked : pending.helper = false) {outcome normalized : Outcome}
    {walkEnd : Option End} {after : CandidateWalk}
    (same : after.frame = (walk.visited normalized).frame)
    (done : walkEnd = none → after.done = walk.done)
    (evidence : walkEnd = none → after.evidence = walk.evidence ++
      if pending.handoff then [] else outcome.evidence.toList)
    (missed : walkEnd = none → outcome ≠ .copy) (ending : walkEnd = none ∨ walkEnd = some .copy ∨
      walkEnd = some .staleMembership ∧ outcome = .staleMembership ∧ pending.handoff = false ∧
        pending.previous = false ∨
      walkEnd = some .versionUnavailable) : Recorded walk after pending outcome walkEnd := by
  have field {Field : Type} (read : CandidateWalk → Field) :
      read after.frame = read (walk.visited normalized).frame := congrArg read same
  refine ⟨⟨field (·.config), field (·.targets), field (·.count)⟩, field (·.order),
    field (·.pending), field (·.batch), field (·.rank0Unanswered), ?_, ?_, done, ?_, missed, ending⟩
  · rw [unasked]
    exact field (·.index)
  · have kept : after.helper = (walk.visited normalized).helper := field (·.helper)
    rw [kept]
    exact (visited_helper normalized).imp id fun shed => ⟨unasked, shed⟩
  · rw [unasked]
    exact evidence

theorem recordHandoff_recorded (budget : AcquisitionBudget) (unasked : pending.helper = false)
    (handoff : pending.handoff = true) (granted : Bool) (outcome : Outcome) :
    Recorded walk ((walk.visited outcome.normalize).recordHandoff budget granted
        outcome.normalize).1 pending outcome
        ((walk.visited outcome.normalize).recordHandoff budget granted outcome.normalize).2.2 ∧
      SameCredits budget ((walk.visited outcome.normalize).recordHandoff budget granted
        outcome.normalize).2.1 := by
  have kept (missed : outcome ≠ .copy) :
      Recorded walk (walk.visited outcome.normalize) pending outcome none :=
    visited_recorded unasked rfl (fun _ => rfl)
      (fun _ => by rw [handoff]; exact (append_nil _).symm) (fun _ => missed) (.inl rfl)
  have credits (outcome : ProbeOutcome) :
      SameCredits budget (if granted then budget else noteFailure budget outcome) := by
    cases granted with
    | true => exact ⟨rfl, rfl, rfl⟩
    | false => exact noteFailure_credits budget outcome
  cases outcome with
  | copy =>
    exact ⟨visited_recorded unasked rfl nofun nofun nofun (.inr (.inl rfl)), rfl, rfl, rfl⟩
  | probe outcome | transport outcome => exact ⟨kept nofun, credits outcome⟩
  | timedOut | failed => exact ⟨kept nofun, credits .unreachable⟩
  | staleMembership | staleDestination | shed => exact ⟨kept nofun, rfl, rfl, rfl⟩

theorem recordOwner_recorded (budget : AcquisitionBudget) (unasked : pending.helper = false)
    (owner : pending.handoff = false) (outcome : Outcome) :
    Recorded walk ((walk.visited outcome.normalize).recordOwner budget pending
        outcome.normalize).1 pending outcome
        ((walk.visited outcome.normalize).recordOwner budget pending outcome.normalize).2.2 ∧
      SameCredits budget ((walk.visited outcome.normalize).recordOwner budget pending
        outcome.normalize).2.1 := by
  -- Every outcome that does not end the walk witnesses exactly its evidence.
  have witnessed (after : CandidateWalk) (found : ProbeOutcome)
      (shows : outcome.evidence = some found)
      (same : after.frame = (walk.visited outcome.normalize).frame)
      (done : after.done = walk.done) (evidence : after.evidence = walk.evidence) :
      Recorded walk (after.witness found) pending outcome none :=
    visited_recorded unasked same (fun _ => done)
      (fun _ => by rw [owner, shows]; exact congrArg (· ++ [found]) evidence)
      (fun _ copied => by rw [copied] at shows; cases shows) (.inl rfl)
  cases outcome with
  | copy =>
    exact ⟨visited_recorded unasked rfl nofun nofun nofun (.inr (.inl rfl)), rfl, rfl, rfl⟩
  | probe outcome | transport outcome =>
    exact ⟨witnessed _ outcome rfl rfl rfl rfl, noteFailure_credits budget outcome⟩
  | timedOut | failed =>
    exact ⟨witnessed _ .unreachable rfl rfl rfl rfl, noteFailure_credits budget .unreachable⟩
  | staleDestination => exact ⟨witnessed _ .unreachable rfl rfl rfl rfl, rfl, rfl, rfl⟩
  | shed => exact ⟨witnessed _ .overloaded rfl rfl rfl rfl, rfl, rfl, rfl⟩
  | staleMembership =>
    simp only [Outcome.normalize, recordOwner]
    split
    · exact ⟨witnessed _ .unreachable rfl rfl rfl rfl, rfl, rfl, rfl⟩
    rename_i current
    rw [Bool.not_eq_true] at current
    exact ⟨visited_recorded unasked rfl nofun nofun nofun
      (.inr (.inr (.inl ⟨rfl, rfl, owner, current⟩))), rfl, rfl, rfl⟩

/-- Recording an outcome ends a visit and moves no credit. -/
theorem record_recorded (walk : CandidateWalk) (budget : AcquisitionBudget) (pending : Pending)
    (outcome : Outcome) :
    Recorded walk (walk.record budget pending outcome.normalize).1 pending outcome
        (walk.record budget pending outcome.normalize).2.2 ∧
      SameCredits budget (walk.record budget pending outcome.normalize).2.1 := by
  unfold record
  split
  · rename_i asked
    exact recordHelper_recorded budget asked outcome
  · rename_i unasked
    rw [Bool.not_eq_true] at unasked
    split
    · have ended : Recorded walk { walk.visited outcome.normalize with done := true } pending
          outcome (some .versionUnavailable) :=
        visited_recorded unasked rfl nofun nofun nofun (.inr (.inr (.inr rfl)))
      exact ⟨ended, rfl, rfl, rfl⟩
    · split
      · rename_i handoff
        exact recordHandoff_recorded budget unasked handoff pending.granted outcome
      · rename_i owner
        rw [Bool.not_eq_true] at owner
        exact recordOwner_recorded budget unasked owner outcome

/-- What completing the outstanding probe does to a walk that was asking. -/
structure Completed (walk after : CandidateWalk) (pending : Pending) (outcome : Outcome)
    (walkEnd : Option End) : Prop extends SameEpoch walk after where
  order : after.order = walk.order
  outstanding : after.pending = none
  batch : after.batch = walk.batch
  rank0Unanswered :
    after.rank0Unanswered = (walk.rank0Unanswered || walk.withholds pending outcome)
  index : after.index = walk.index + if pending.helper then 0 else 1
  helper : after.helper = walk.helper ∨
    pending.helper = false ∧ walk.helper = .armed ∧ after.helper = .due
  done : walkEnd = none → after.done = walk.done
  evidence : walkEnd = none →
    after.evidence = walk.evidence ++
      if pending.helper || pending.handoff then [] else outcome.evidence.toList
  missed : walkEnd = none → outcome ≠ .copy
  ending : walkEnd = none ∨ walkEnd = some .copy ∨
    walkEnd = some .staleMembership ∧ outcome = .staleMembership ∧ pending.handoff = false ∧
      pending.previous = false ∨
    walkEnd = some .versionUnavailable

/-- Completing settles the child budget first. If that fails the probe is gone and nothing is
recorded; otherwise the outcome is. -/
theorem complete_cases (asking : walk.pending = some pending) (budget : AcquisitionBudget)
    (outcome : Outcome) :
    (∃ error, (settle pending budget).2 = .error error ∧ walk.complete budget outcome =
          some ({ walk with pending := none }, (settle pending budget).1, .error error)) ∨
      ∃ after left walkEnd, (settle pending budget).2 = .ok () ∧
        walk.complete budget outcome = some (after, left, .ok walkEnd) ∧
        Completed walk after pending outcome walkEnd ∧
        SameCredits (settle pending budget).1 left := by
  unfold complete
  rw [asking]
  dsimp only
  obtain ⟨settled, result⟩ := settle pending budget
  cases result with
  | error error => exact .inl ⟨error, rfl, rfl⟩
  | ok =>
    obtain ⟨recorded, credits⟩ := record_recorded
      (({ walk with pending := none }).observe pending outcome) settled pending outcome
    refine .inr ⟨_, _, _, rfl, rfl, ?_, credits⟩
    exact { recorded with }

end

end CandidateWalk

/-- An outcome of the remaining-copy walk's probe: a copy ends the walk, any other moves on. -/
theorem RemainingWalk.complete_cases {walk : RemainingWalk} (asking : walk.pending = true)
    (budget : AcquisitionBudget) (outcome : Outcome) :
    (∃ ended, walk.complete budget outcome = some (ended, budget, some .copy)) ∨
      ∃ ended left, walk.complete budget outcome = some (ended, left, none) ∧
        ended.owners = walk.owners ∧ ended.index = walk.index + 1 ∧ ended.pending = false ∧
        CandidateWalk.SameCredits budget left := by
  unfold complete
  rw [if_neg (not_not.mpr asking)]
  cases outcome with
  | copy => exact .inl ⟨_, rfl⟩
  | probe | transport | timedOut | shed | failed | staleMembership | staleDestination =>
    exact .inr ⟨_, _, rfl, rfl, rfl, rfl, rfl, rfl, rfl⟩

end Unbounded.Read
