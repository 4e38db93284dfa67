/-
This file is about a candidate walk in the hands of its caller. The caller plans
probes, spends their budgets, reports their outcomes, asks a destination that is
behind once more, or gives the walk up, and may hand every call any budget.

An owner above rank 0 whose probe of rank 0 times out, meets a congested route,
or fails while the watch remembers a failure of its own, leaves the fetch to
rank 0: the walk no longer ends in the authority to ask origin. Any other walk
that asked every owner before it and was told nothing that ends it asks its
handoff targets, at most once each, and then ends in that authority.
-/

import Unbounded.WalkSteps
import Unbounded.ListUpdate
import Unbounded.Transition

namespace Unbounded.Read.CandidateWalk

open Option List ListUpdate Transition

/-! ### The walk and its caller -/

/-- One call and what the walk answered. -/
inductive Call
  | next (budget : AcquisitionBudget) (result : Except Error Step)
  | spend (budget spent : AcquisitionBudget)
  | complete (probe : Probe) (budget : AcquisitionBudget) (outcome : Outcome)
      (result : Except Error (Option End))
  | completeGranted (copy : Bool) (walkEnd : Option End)
  | retryPending (budget : AcquisitionBudget)
  | abandon (budget : AcquisitionBudget)

/-- The probe a planned step hands to the caller. -/
def asked : Except Error Step → Option Probe
  | .ok (.probe probe) => some probe
  | _ => none

/-- A walk and the probe its caller performs. -/
structure Driven where
  walk : CandidateWalk
  probe : Option Probe

inductive Calls (driven : Driven) : Call → Driven → Prop
  | next {budget left after result} (plans : driven.walk.next budget = some (after, left, result)) :
      Calls driven (.next budget result) ⟨after, asked result⟩
  | spend (budget spent : AcquisitionBudget) :
      Calls driven (.spend budget spent)
        ⟨(driven.walk.setRequestBudget budget spent).1, driven.probe⟩
  | complete {probe budget left outcome after result} (performed : driven.probe = some probe)
      (completes : driven.walk.complete budget outcome = some (after, left, result)) :
      Calls driven (.complete probe budget outcome result) ⟨after, none⟩
  | completeGranted {copy after walkEnd}
      (completes : driven.walk.completeGranted copy = some (after, walkEnd)) :
      Calls driven (.completeGranted copy walkEnd) ⟨after, none⟩
  | retryPending (budget : AcquisitionBudget) :
      Calls driven (.retryPending budget) ⟨(driven.walk.retryPending budget).1, none⟩
  | abandon (budget : AcquisitionBudget) :
      Calls driven (.abandon budget) ⟨(driven.walk.abandon budget).1, none⟩

/-- Rank 0 was not heard and is not overdue, or failed where this owner failed too. An overload
that rank 0 signs is `Outcome.shed`. -/
def leavesToRank0 (watch : Rank0State) : Outcome → Bool
  | .timedOut | .probe .overloaded | .transport .overloaded => decide (watch ≠ .overdue)
  | .failed => decide (watch = .failed)
  | _ => false

namespace Call

/-- The end a call reports. -/
def walkEnd : Call → Option End
  | .next _ (.ok (.ended walkEnd)) => some walkEnd
  | .complete _ _ _ (.ok walkEnd) => walkEnd
  | .completeGranted _ walkEnd => walkEnd
  | _ => none

/-- The probe and the outcome a call records. -/
def recorded : Call → Option (Probe × Outcome)
  | .complete probe _ outcome (.ok _) => some (probe, outcome)
  | _ => none

/-- The call moves the walk past a target. -/
def visits : Call → Bool
  | .complete _ _ _ (.ok _) | .next _ (.ok (.granted _)) => true
  | _ => false

/-- The call records an outcome of the probe of rank 0 that leaves the fetch to it. -/
def withholds (watch : Rank0State) (call : Call) : Bool :=
  call.recorded.any fun heard => decide (heard.1.canonical = 0) && leavesToRank0 watch heard.2

/-- No copy, no stale membership, no version that a delegation found missing, and the caller
goes on. -/
def fruitless : Call → Bool
  | .complete probe _ outcome _ =>
    decide (outcome ≠ .copy) && decide (outcome ≠ .staleMembership) &&
      !(decide (outcome = .probe .versionUnavailable) && decide (probe.mode = .acquire))
  | .completeGranted copy _ => !copy
  | .abandon _ => false
  | _ => true

end Call

/-! ### What the caller's calls keep -/

/-- The outstanding probe of an owner's walk asks the target at its index. -/
structure Sent (walk : CandidateWalk) (probe : Probe) (pending : Pending) : Prop where
  batch : walk.batch = 0
  live : walk.done = false
  helper : pending.helper = false
  found : walk.target walk.index = some probe.canonical
  handoff : pending.handoff = decide (walk.config.owners ≤ probe.canonical)
  rank0 : pending.rank0 = decide (probe.canonical = 0)
  delegated : pending.delegated = true → probe.mode = .acquire

/-- The walk of an owner in its caller's hands. -/
structure Underway (config : WalkConfig) (driven : Driven) : Prop where
  same : driven.walk.config = config
  targets : driven.walk.targets = (new config).targets
  count : driven.walk.count = (new config).count
  helper : driven.walk.helper = .unset ∨ driven.walk.helper = .off
  inside : driven.walk.index ≤ driven.walk.count
  sent : ∀ pending, driven.walk.pending = some pending →
    ∃ probe, driven.probe = some probe ∧ Sent driven.walk probe pending

/-- What one call does to the walk of an owner at `rank`. -/
structure Advances (config : WalkConfig) (rank : Nat) (driven : Driven) (call : Call)
    (after : Driven) : Prop where
  underway : Underway config after
  unanswered : after.walk.rank0Unanswered =
    (driven.walk.rank0Unanswered || call.withholds config.rank0)
  index : driven.walk.index + (if call.visits then 1 else 0) ≤ after.walk.index
  heard : ∀ heard, call.recorded = some heard → heard.1.canonical < min rank 2 →
    heard.1.canonical < after.walk.index
  finished : driven.walk.done = true → after.walk.done = true ∧ call.withholds config.rank0 = false
  done : after.walk.done = true →
    driven.walk.done = true ∨ call.walkEnd.isSome = true ∨ call.fruitless = false
  origin : ∀ position evidence, call.walkEnd = some (.origin position evidence) →
    driven.walk.rank0Unanswered = false ∧ call.withholds config.rank0 = false ∧
      after.walk.done = true
  ends : ∀ walkEnd, call.walkEnd = some walkEnd → call.fruitless = true →
    driven.walk.rank0Unanswered = false → ∃ evidence, walkEnd = .origin rank evidence

section

variable {config : WalkConfig} {rank : Nat} {driven : Driven} {walk : CandidateWalk}
  {budget : AcquisitionBudget}

theorem sent_of_none (free : driven.walk.pending = none) (pending : Pending)
    (outstanding : driven.walk.pending = some pending) :
    ∃ probe, driven.probe = some probe ∧ Sent driven.walk probe pending := by
  rw [free] at outstanding
  cases outstanding

variable {after : Driven}

/-- A call that plans nothing and records nothing, and does not move the walk. -/
theorem Underway.stays (underway : Underway config after) {call : Call}
    (index : after.walk.index = driven.walk.index)
    (unanswered : after.walk.rank0Unanswered = driven.walk.rank0Unanswered)
    (silent : call.recorded = none) (visitless : call.visits = false)
    (finished : driven.walk.done = true → after.walk.done = true)
    (done : after.walk.done = true → driven.walk.done = true ∨ call.fruitless = false)
    (ends : ∀ walkEnd, call.walkEnd = some walkEnd → walkEnd = .copy ∧ call.fruitless = false) :
    Advances config rank driven call after where
  underway := underway
  unanswered := by
    rw [unanswered, Call.withholds, silent]
    exact (Bool.or_false _).symm
  index := by
    rw [visitless, index]
    exact le_rfl
  heard := by
    intro heard recorded
    rw [silent] at recorded
    cases recorded
  finished := by
    intro concluded
    refine ⟨finished concluded, ?_⟩
    rw [Call.withholds, silent]
    rfl
  done := fun concluded => (done concluded).imp_right .inr
  origin := by
    intro _ _ reports
    cases (ends _ reports).1
  ends := by
    intro walkEnd reports fruitless
    rw [(ends _ reports).2] at fruitless
    cases fruitless

theorem finish_owner (owner : walk.config.rank = some rank) :
    walk.finish =
      if walk.rank0Unanswered then .exhausted false else .origin rank walk.evidence := by
  unfold finish
  rw [owner]
  cases walk.rank0Unanswered <;> rfl

theorem new_count (owner : config.rank = some rank) :
    min rank 2 ≤ (new config).count ∧ (new config).count ≤ 2 + maxTargets := by
  have counted : (new config).count = (ownerTargets config rank).length := by
    unfold new
    rw [owner]
  rw [counted, ownerTargets, length_append, length_range]
  refine ⟨Nat.le_add_right _ _, Nat.add_le_add (Nat.min_le_right _ _) ?_⟩
  split
  · rw [length_map, length_range]
    exact Nat.min_le_right _ _
  · exact Nat.zero_le _

/-! ### Planning -/

variable {canonical : Nat}

/-- The probe an owner sends to the target at its index. -/
theorem send_sent (owner : walk.config.rank = some rank) (below : rank < walk.config.owners)
    (page : walk.config.pageOperation = true) (ready : walk.Ready)
    (found : walk.target walk.index = some canonical) (bounded : Option AcquisitionBudget) :
    ∃ probe pending, (walk.send budget canonical bounded).2 = .probe probe ∧
      (walk.send budget canonical bounded).1 = { walk with pending := some pending } ∧
      Sent { walk with pending := some pending } probe pending := by
  refine ⟨_, _, rfl, rfl, ready.batch, ready.done, rfl, found, rfl, ?_, ?_⟩
  · rw [owner, page]
    by_cases first : canonical = 0
    · rw [first, decide_eq_true (Nat.zero_lt_of_lt below)]
      rfl
    · rw [decide_eq_false first]
      rfl
  · intro delegated
    dsimp only at delegated ⊢
    have funded : 2 ≤ budget.attempts := by
      simp only [delegates, Bool.and_eq_true, decide_eq_true_eq] at delegated
      omega
    have acquires : walk.copyOnly budget canonical = false := by
      unfold copyOnly
      rw [delegated, decide_eq_false (show ¬ budget.attempts = 1 by omega)]
      simp
    rw [acquires]
    rfl

theorem next_ready {planned : CandidateWalk × AcquisitionBudget × Except Error Step}
    (plans : walk.next budget = some planned) : walk.Ready := by
  unfold next at plans
  split at plans
  · cases plans
  rename_i free
  simp only [not_or, Bool.not_eq_true, isSome_eq_false_iff, isNone_iff_eq_none, not_not] at free
  exact ⟨free.1, free.2.1, free.2.2⟩

/-- An owner's walk asks no helper, so planning only prepares it. -/
theorem Underway.prepares (underway : Underway config driven) (owner : config.rank = some rank)
    (above : 0 < rank) {planned : CandidateWalk × AcquisitionBudget × Except Error Step}
    (plans : driven.walk.next budget = some planned) :
    ∃ prepared, Prepared driven.walk prepared ∧ Plans prepared budget planned ∧
      Underway config ⟨prepared, none⟩ := by
  have unhelped (helper : Helper) (due : driven.walk.helper = helper) :
      helper = .unset ∨ helper = .off := due ▸ underway.helper
  rcases next_cases (next_ready plans) budget with
    ⟨due, -⟩ | ⟨prepared, _, planning, prepares, steps⟩
  · exact (unhelped _ due).elim nofun nofun
  obtain rfl := mem_unique plans planning
  refine ⟨prepared, prepares, steps, prepares.config.trans underway.same,
    prepares.targets.trans underway.targets, prepares.count.trans underway.count, .inr ?_, ?_,
    sent_of_none prepares.ready.pending⟩
  · rcases prepares.helper with ⟨-, off | ⟨-, reader⟩⟩ | ⟨due, -⟩ | ⟨set, -, kept⟩
    · exact off
    · rw [underway.same, owner] at reader
      cases reader
    · exact (unhelped _ due).elim nofun nofun
    · exact kept.trans (underway.helper.resolve_left set)
  · rw [prepares.count]
    rcases prepares.index with kept | ⟨-, -, second⟩
    · rw [kept]
      exact underway.inside
    · have least := (new_count owner).1
      rw [second, underway.count]
      omega

/-- A call says the same of two walks that agree on what it reads. -/
theorem Advances.since {earlier : Driven} {call : Call}
    (advances : Advances config rank driven call after)
    (unanswered : driven.walk.rank0Unanswered = earlier.walk.rank0Unanswered)
    (index : earlier.walk.index ≤ driven.walk.index)
    (done : driven.walk.done = earlier.walk.done) : Advances config rank earlier call after where
  __ := advances
  unanswered := unanswered ▸ advances.unanswered
  index := (Nat.add_le_add_right index _).trans advances.index
  finished := done ▸ advances.finished
  done := done ▸ advances.done
  origin := unanswered ▸ advances.origin
  ends := unanswered ▸ advances.ends

variable {result : Except Error Step}

/-- A plan is told by what it leaves behind. -/
theorem Underway.planned {after : CandidateWalk}
    (live : driven.walk.done = false) (underway : Underway config ⟨after, asked result⟩)
    (unanswered : after.rank0Unanswered = driven.walk.rank0Unanswered)
    (index : driven.walk.index + (if (Call.next budget result).visits then 1 else 0) ≤ after.index)
    (done : after.done = (Call.next budget result).walkEnd.isSome)
    (ended : ∀ walkEnd, (Call.next budget result).walkEnd = some walkEnd →
      walkEnd = if driven.walk.rank0Unanswered then .exhausted false
        else .origin rank driven.walk.evidence) :
    Advances config rank driven (.next budget result) ⟨after, asked result⟩ where
  underway := underway
  unanswered := unanswered.trans (Bool.or_false _).symm
  index := index
  heard := nofun
  finished := fun concluded => Bool.noConfusion (live.symm.trans concluded)
  done := fun concluded => .inr (.inl (done ▸ concluded))
  origin := by
    intro _ evidence reports
    have authority := ended _ reports
    refine ⟨?_, rfl, by rw [done, reports]; rfl⟩
    cases answered : driven.walk.rank0Unanswered with
    | false => rfl
    | true =>
      rw [answered] at authority
      cases authority
  ends := by
    intro walkEnd reports _ answered
    have authority := ended _ reports
    rw [answered] at authority
    exact ⟨_, authority⟩

theorem concluded_advances (owner : config.rank = some rank)
    (underway : Underway config ⟨walk, none⟩) (ready : walk.Ready) :
    Advances config rank ⟨walk, none⟩ (.next budget (.ok walk.ended.2)) ⟨walk.ended.1, none⟩ := by
  refine Underway.planned ready.done ?_ rfl le_rfl rfl ?_
  · exact { underway with sent := sent_of_none ready.pending }
  · intro _ reports
    cases reports
    exact finish_owner (by rw [← owner]; exact congrArg (·.rank) underway.same)

variable {probe : Probe} {pending : Pending}

theorem sent_advances (underway : Underway config ⟨walk, none⟩) (ready : walk.Ready)
    (sent : Sent { walk with pending := some pending } probe pending) :
    Advances config rank ⟨walk, none⟩ (.next budget (.ok (.probe probe)))
      ⟨{ walk with pending := some pending }, some probe⟩ := by
  refine Underway.planned ready.done ?_ rfl le_rfl ready.done nofun
  refine { underway with sent := ?_ }
  intro _ outstanding
  cases outstanding
  exact ⟨probe, rfl, sent⟩

theorem batch_advances (owner : config.rank = some rank) (underway : Underway config ⟨walk, none⟩)
    (ready : walk.Ready) (found : walk.target walk.index = some canonical)
    (granted : walk.isGranted canonical = true) :
    Advances config rank ⟨walk, none⟩ (.next budget (.ok walk.sendGranted.2))
      ⟨walk.sendGranted.1, none⟩ := by
  have same : walk.config = config := underway.same
  have inside : walk.index < walk.count :=
    (target_owner (by rw [same, owner]) (by rw [same]; exact underway.targets) found).1
  obtain ⟨_, run⟩ := grantedRun_cons found granted inside
  have short := walk.grantedRun_length_le
  have index : walk.sendGranted.1.index = walk.index + walk.grantedRun.length := by
    exact congrArg (walk.index + ·) (length_map _)
  refine Underway.planned ready.done ?_ rfl ?_ ready.done nofun
  · refine { underway with inside := ?_, sent := sent_of_none ready.pending }
    show walk.sendGranted.1.index ≤ walk.count
    omega
  · show walk.index + 1 ≤ walk.sendGranted.1.index
    rw [index, run, length_cons]
    omega

variable {left : AcquisitionBudget}

/-- Planning the next step of an owner's walk. -/
theorem next_advances (owner : config.rank = some rank) (above : 0 < rank)
    (below : rank < config.owners) (page : config.pageOperation = true)
    (underway : Underway config driven) {after : CandidateWalk}
    (plans : driven.walk.next budget = some (after, left, result)) :
    Advances config rank driven (.next budget result) ⟨after, asked result⟩ := by
  obtain ⟨prepared, prepares, steps, prepping⟩ := underway.prepares owner above plans
  have ready := prepares.ready
  have same : prepared.config = config := prepping.same
  suffices planned : Advances config rank ⟨prepared, none⟩ (.next budget result)
      ⟨after, asked result⟩ from
    planned.since prepares.rank0Unanswered prepares.index_le
      (ready.done.trans (next_ready plans).done.symm)
  generalize plan : (after, left, result) = planned at steps
  cases steps with
  | concluded =>
    cases plan
    exact concluded_advances owner prepping ready
  | batch canonical found granted =>
    cases plan
    exact batch_advances owner prepping ready found granted
  | granted canonical found granted =>
    cases plan
    have handoff := isGranted_handoff granted
    refine sent_advances prepping ready ⟨ready.batch, ready.done, rfl, found, ?_, ?_, nofun⟩
    · exact (decide_eq_true handoff).symm
    · rw [same] at handoff
      exact (decide_eq_false (show ¬ canonical = 0 by omega)).symm
  | visit canonical found =>
    rcases prepared.visit_cases budget canonical with
      ⟨_, visits⟩ | ⟨-, visits⟩ | ⟨bounded, _, -, visits⟩
    · cases plan.trans visits
      exact Underway.planned ready.done prepping rfl le_rfl ready.done nofun
    · cases plan.trans visits
      have starved : Underway config
          ⟨{ prepared with sawTransient := true, funding := true }, none⟩ :=
        { prepping with sent := sent_of_none ready.pending }
      exact (concluded_advances owner starved { ready with }).since rfl le_rfl rfl
    · obtain ⟨_, _, step, sent, sends⟩ := @send_sent rank prepared budget canonical
        (by rw [same, owner]) (by rw [same]; exact below) (by rw [same]; exact page) ready found
        bounded
      rw [step, sent] at visits
      cases plan.trans visits
      exact sent_advances prepping ready sends

/-! ### Completing -/

/-- The walk notes exactly the outcomes that leave the fetch to rank 0. -/
theorem Sent.withholds (sent : Sent walk probe pending) (owners : 0 < walk.config.owners)
    (outcome : Outcome) :
    walk.withholds pending outcome =
      (decide (probe.canonical = 0) && leavesToRank0 walk.config.rank0 outcome) := by
  unfold CandidateWalk.withholds leavesToRank0
  rw [sent.rank0, sent.helper, sent.handoff]
  by_cases first : probe.canonical = 0
  · rw [first, decide_eq_false (Nat.not_le.mpr owners)]
    cases outcome with
    | probe found | transport found => cases found <;> rfl
    | copy | staleMembership | staleDestination | shed | timedOut | failed => rfl
  · rw [decide_eq_false first]
    rfl

variable {outcome : Outcome}

/-- What ends the walk when an outcome is recorded. -/
theorem record_ends (unasked : pending.helper = false) {walkEnd : End}
    (ends : (walk.record budget pending outcome.normalize).2.2 = some walkEnd) :
    outcome = .copy ∨ outcome = .staleMembership ∨
      outcome = .probe .versionUnavailable ∧ pending.delegated = true := by
  unfold record at ends
  rw [unasked, if_neg Bool.false_ne_true] at ends
  split at ends
  · rename_i missing
    refine .inr (.inr ⟨?_, missing.2⟩)
    cases outcome with
    | timedOut | failed => cases missing.1
    | _ => exact missing.1
  · split at ends
    · cases outcome with
      | copy => exact .inl rfl
      | _ => cases ends
    · cases outcome with
      | copy => exact .inl rfl
      | staleMembership => exact .inr (.inl rfl)
      | _ => cases ends

theorem complete_ends (asking : walk.pending = some pending) (unasked : pending.helper = false)
    {after : CandidateWalk} {walkEnd : End}
    (completes : walk.complete budget outcome = some (after, left, .ok (some walkEnd))) :
    outcome = .copy ∨ outcome = .staleMembership ∨
      outcome = .probe .versionUnavailable ∧ pending.delegated = true := by
  unfold complete at completes
  rw [asking] at completes
  dsimp only at completes
  split at completes
  · cases completes
  · simp only [some.injEq, Prod.mk.injEq, Except.ok.injEq] at completes
    exact record_ends unasked completes.2.2

/-- Reporting the outcome of the outstanding probe. -/
theorem complete_advances (owner : config.rank = some rank) (below : rank < config.owners)
    (underway : Underway config driven) {after : CandidateWalk} {result : Except Error (Option End)}
    (performed : driven.probe = some probe)
    (completes : driven.walk.complete budget outcome = some (after, left, result)) :
    Advances config rank driven (.complete probe budget outcome result) ⟨after, none⟩ := by
  obtain ⟨pending, asking⟩ : ∃ pending, driven.walk.pending = some pending := by
    cases asking : driven.walk.pending with
    | some pending => exact ⟨pending, rfl⟩
    | none =>
      unfold complete at completes
      rw [asking] at completes
      cases completes
  obtain ⟨_, performing, sent⟩ := underway.sent pending asking
  obtain rfl := mem_unique performed performing
  have same := underway.same
  rcases complete_cases asking budget outcome with
    ⟨_, -, fails⟩ | ⟨_, _, walkEnd, _, records, completed, -⟩
  · cases completes.symm.trans fails
    refine Underway.stays ?_ rfl rfl rfl rfl id .inl nofun
    exact { underway with sent := sent_of_none rfl }
  cases completes.symm.trans records
  obtain ⟨inside, target⟩ := target_owner (by rw [same, owner])
    (by rw [same]; exact underway.targets) sent.found
  have index : after.index = driven.walk.index + 1 := by
    rw [completed.index, sent.helper]
    rfl
  have withholds : driven.walk.withholds pending outcome =
      (Call.complete probe budget outcome (.ok walkEnd)).withholds config.rank0 := by
    rw [sent.withholds (by rw [same]; omega), same]
    rfl
  -- The walk ends only on an outcome that is not fruitless.
  have fruitful (some : walkEnd ≠ none) :
      (Call.complete probe budget outcome (.ok walkEnd)).fruitless = false := by
    obtain ⟨walkEnd, rfl⟩ := ne_none_iff_exists'.mp some
    unfold Call.fruitless
    rcases complete_ends asking sent.helper records with copied | stale | ⟨missing, delegated⟩
    · simp [copied]
    · simp [stale]
    · simp [missing, sent.delegated delegated]
  refine ⟨⟨completed.config.trans same, completed.targets.trans underway.targets,
    completed.count.trans underway.count, ?_, ?_, sent_of_none completed.outstanding⟩,
    withholds ▸ completed.rank0Unanswered, index.ge, ?_, ?_, ?_, ?_, ?_⟩
  · rcases completed.helper with kept | ⟨-, armed, -⟩
    · rw [kept]
      exact underway.helper
    · rcases underway.helper with unset | off
      · rw [unset] at armed; cases armed
      · rw [off] at armed; cases armed
  · rw [index, completed.count]
    exact inside
  · intro _ recorded early
    cases recorded
    rw [index]
    rcases target with ⟨-, first⟩ | ⟨-, past, -⟩
    · exact first ▸ Nat.lt_succ_self _
    rw [same] at past
    dsimp only at early
    omega
  · exact fun concluded => Bool.noConfusion (sent.live.symm.trans concluded)
  · intro concluded
    cases walkEnd with
    | none => exact .inl ((completed.done rfl).symm.trans concluded)
    | some => exact .inr (.inl rfl)
  · intro _ _ reports
    rcases completed.ending with none | copied | ⟨stale, -⟩ | missing
    · cases none.symm.trans reports
    · cases copied.symm.trans reports
    · cases stale.symm.trans reports
    · cases missing.symm.trans reports
  · intro _ reports fruitless
    rw [fruitful (fun none => by cases none.symm.trans reports)] at fruitless
    cases fruitless

/-! ### Every call -/

theorem setRequestBudget_walk (budget spent : AcquisitionBudget) :
    (walk.setRequestBudget budget spent).1 = walk ∨
      ∃ pending, walk.pending = some pending ∧ (walk.setRequestBudget budget spent).1 =
        { walk with pending := some { pending with bounded := some spent } } := by
  unfold setRequestBudget
  split
  · rename_i pending asking
    split
    · exact .inr ⟨pending, asking, rfl⟩
    · exact .inl rfl
  · exact .inl rfl

theorem retryPending_walk (budget : AcquisitionBudget) :
    (walk.retryPending budget).1 = { walk with pending := none } := by
  unfold retryPending
  split <;> rfl

theorem abandon_walk (budget : AcquisitionBudget) :
    (walk.abandon budget).1 = { walk with done := true, batch := 0, pending := none } := by
  unfold abandon
  split <;> rfl

/-- What a call does to the walk of an owner above rank 0. -/
theorem Calls.advances {call : Call} (calls : Calls driven call after)
    (owner : config.rank = some rank) (above : 0 < rank) (below : rank < config.owners)
    (page : config.pageOperation = true) (underway : Underway config driven) :
    Advances config rank driven call after := by
  cases calls with
  | next plans => exact next_advances owner above below page underway plans
  | spend budget spent =>
    rcases setRequestBudget_walk budget spent with same | ⟨pending, asking, same⟩
    · rw [same]
      exact underway.stays rfl rfl rfl rfl id .inl nofun
    · rw [same]
      refine Underway.stays ?_ rfl rfl rfl rfl id .inl nofun
      refine { underway with sent := ?_ }
      intro _ outstanding
      cases outstanding
      obtain ⟨probe, performed, sent⟩ := underway.sent pending asking
      exact ⟨probe, performed, { sent with }⟩
  | complete performed completes =>
    exact complete_advances owner below underway performed completes
  | @completeGranted copy _ _ completes =>
    have free : driven.walk.pending = none := by
      cases asking : driven.walk.pending with
      | none => rfl
      | some pending =>
        obtain ⟨_, -, sent⟩ := underway.sent pending asking
        unfold CandidateWalk.completeGranted at completes
        rw [if_pos sent.batch] at completes
        cases completes
    unfold CandidateWalk.completeGranted at completes
    split at completes
    · cases completes
    cases copy with
    | true =>
      cases completes
      refine Underway.stays ?_ rfl rfl rfl rfl (fun _ => rfl) (fun _ => .inr rfl) ?_
      · exact { underway with sent := sent_of_none free }
      · exact fun _ reports => ⟨(some_inj.mp reports).symm, rfl⟩
    | false =>
      cases completes
      refine Underway.stays ?_ rfl rfl rfl rfl id .inl nofun
      exact { underway with sent := sent_of_none free }
  | retryPending =>
    rw [retryPending_walk]
    refine Underway.stays ?_ rfl rfl rfl rfl id .inl nofun
    exact { underway with sent := sent_of_none rfl }
  | abandon =>
    rw [abandon_walk]
    refine Underway.stays ?_ rfl rfl rfl rfl (fun _ => rfl) (fun _ => .inr rfl) nofun
    exact { underway with sent := sent_of_none rfl }

/-! ### Whole conversations -/

/-- What the calls so far say about the walk. -/
structure Traced (config : WalkConfig) (rank : Nat) (calls : List Call) (driven : Driven) :
    Prop where
  underway : Underway config driven
  unanswered : driven.walk.rank0Unanswered = calls.any (·.withholds config.rank0)
  visits : calls.countP Call.visits ≤ driven.walk.index
  heard : ∀ call ∈ calls, ∀ heard, call.recorded = some heard → heard.1.canonical < min rank 2 →
    heard.1.canonical < driven.walk.index
  origin : ∀ call ∈ calls, ∀ position evidence, call.walkEnd = some (.origin position evidence) →
    driven.walk.done = true ∧ driven.walk.rank0Unanswered = false
  ends : (∀ call ∈ calls, call.fruitless = true ∧ call.withholds config.rank0 = false) →
    (∀ call ∈ calls, ∀ walkEnd, call.walkEnd = some walkEnd →
        ∃ evidence, walkEnd = .origin rank evidence) ∧
      (driven.walk.done = true → ∃ call ∈ calls, call.walkEnd.isSome = true)

theorem Traced.call {calls : List Call} {call : Call}
    (traced : Traced config rank calls driven) (advances : Advances config rank driven call after) :
    Traced config rank (calls ++ [call]) after where
  underway := advances.underway
  unanswered := by
    rw [any_append, ← traced.unanswered, advances.unanswered]
    exact congrArg _ (Bool.or_false _).symm
  visits := by
    rw [countP_append, countP_singleton]
    exact (Nat.add_le_add_right traced.visits _).trans advances.index
  heard := by
    have moves : driven.walk.index ≤ after.walk.index := (Nat.le_add_right _ _).trans advances.index
    refine forall_mem_snoc (fun other earlier heard recorded early => ?_) advances.heard
    exact (traced.heard other earlier heard recorded early).trans_le moves
  origin := by
    rw [advances.unanswered]
    refine forall_mem_snoc (fun other earlier position evidence reports => ?_)
      fun position evidence reports => ?_
    · obtain ⟨finished, answered⟩ := traced.origin other earlier position evidence reports
      rw [answered, (advances.finished finished).2]
      exact ⟨(advances.finished finished).1, rfl⟩
    · obtain ⟨answered, silent, finished⟩ := advances.origin position evidence reports
      rw [answered, silent]
      exact ⟨finished, rfl⟩
  ends := by
    intro quiet
    obtain ⟨ends, done⟩ := traced.ends fun other earlier => quiet other (mem_append_left _ earlier)
    obtain ⟨fruitless, -⟩ := quiet call (mem_concat_self)
    have answered : driven.walk.rank0Unanswered = false := by
      rw [traced.unanswered, List.any_eq_false]
      intro other earlier
      exact Bool.eq_false_iff.mp (quiet other (mem_append_left _ earlier)).2
    refine ⟨forall_mem_snoc ends fun walkEnd reports => ?_, fun finished => ?_⟩
    · exact advances.ends walkEnd reports fruitless answered
    · rcases advances.done finished with before | reports | fruitful
      · obtain ⟨other, earlier, reports⟩ := done before
        exact ⟨other, mem_append_left _ earlier, reports⟩
      · exact ⟨call, mem_concat_self, reports⟩
      · exact Bool.noConfusion (fruitless.symm.trans fruitful)

theorem traced_start (config : WalkConfig) (rank : Nat) :
    Traced config rank [] ⟨new config, none⟩ where
  underway := ⟨rfl, rfl, rfl, .inl rfl, Nat.zero_le _, sent_of_none rfl⟩
  unanswered := rfl
  visits := Nat.le_refl 0
  heard := fun _ member => (not_mem_nil member).elim
  origin := fun _ member => (not_mem_nil member).elim
  ends := fun _ => ⟨fun _ member => (not_mem_nil member).elim,
    fun finished => Bool.noConfusion (show false = true from finished)⟩

/-! ### Progress -/

/-- The step ends the walk or asks handoff targets. -/
def pastOwners (owners : Nat) : Step → Prop
  | .probe probe => owners ≤ probe.canonical
  | .granted probes => probes ≠ []
  | .ended _ => True

section

variable (owner : walk.config.rank = some rank) (past : walk.config.owners ≤ canonical)
  (listed : 0 < walk.config.owners)

include owner past listed

/-- A handoff target is asked with one attempt, and with links the read has. -/
theorem fund_handoff :
    walk.fund budget canonical = .shared ∨ walk.fund budget canonical = .starved ∨
      ∃ links failureRoute, walk.fund budget canonical = .child 1 links failureRoute ∧
        links ≤ budget.links := by
  have undelegated : walk.delegates budget canonical = false := by
    unfold delegates
    rw [decide_eq_false (show ¬ canonical = 0 by omega)]
    simp
  have single : walk.ownerAttempts budget canonical = 1 := by
    unfold ownerAttempts
    rw [undelegated]
    rfl
  have funded : walk.fundedAttempts budget canonical = 1 := by
    unfold fundedAttempts
    rw [owner, single]
    rfl
  have alone : walk.sharing canonical = 1 := if_pos past
  unfold fund
  rw [undelegated, if_neg Bool.false_ne_true, single, funded, alone, Nat.div_one,
    if_neg (show ¬ (canonical = 0 ∧ _) from fun first => by omega)]
  split
  · exact .inr (.inr ⟨_, _, rfl, Nat.min_le_left _ _⟩)
  split
  · split
    · exact .inr (.inl rfl)
    · rename_i enough
      exact .inr (.inr ⟨_, _, rfl, Nat.not_lt.mp (not_or.mp enough).2⟩)
  · exact .inl rfl

theorem visit_handoff (attempts : 2 ≤ budget.attempts) :
    ∃ after left step, walk.visit budget canonical = (after, left, .ok step) ∧
      pastOwners walk.config.owners step := by
  unfold visit
  rcases @fund_handoff rank walk budget canonical owner past listed with
    shared | starved | ⟨links, _, child, enough⟩
  · rw [shared]
    exact ⟨_, _, _, rfl, past⟩
  · rw [starved]
    exact ⟨_, _, _, rfl, trivial⟩
  · have partitions : ∃ left child, budget.partition 1 links = (left, .ok child) := by
      unfold AcquisitionBudget.partition
      rw [Word.checkedSub_of_le (by omega), Word.checkedSub_of_le enough]
      exact ⟨_, _, rfl⟩
    obtain ⟨_, _, parts⟩ := partitions
    rw [child]
    dsimp only
    rw [parts]
    exact ⟨_, _, _, rfl, past⟩

end

/-- Once every owner was asked, a round of the loop never fails. -/
theorem iterate_handoff (owner : walk.config.rank = some rank)
    (targets : walk.targets = (new walk.config).targets) (below : rank < walk.config.owners)
    (above : 0 < rank) (reached : min rank 2 ≤ walk.index)
    (skipped : CandidateWalk × AcquisitionBudget × Except Error Step) :
    ∃ after left step, walk.iterate budget skipped = (after, left, .ok step) ∧
      pastOwners walk.config.owners step := by
  unfold iterate
  split
  · exact ⟨_, _, _, rfl, trivial⟩
  rename_i canonical found
  obtain ⟨inside, _⟩ := target_owner owner targets found
  have past : walk.config.owners ≤ canonical := by omega
  split
  · rename_i granted
    by_cases parallel : walk.config.parallelGranted = true
    · obtain ⟨_, run⟩ := grantedRun_cons found granted inside
      rw [if_pos parallel]
      refine ⟨_, _, _, rfl, ?_⟩
      rw [run]
      exact cons_ne_nil _ _
    · rw [if_neg parallel]
      exact ⟨_, _, _, rfl, past⟩
  · split
    · exact ⟨_, _, _, rfl, trivial⟩
    · rw [if_neg (fun first => by omega)]
      exact visit_handoff owner past (by omega) (by omega)

/-- An owner's walk that asked every owner before it plans its next step whatever the budget. -/
theorem next_handoff (owner : config.rank = some rank) (above : 0 < rank)
    (below : rank < config.owners) (underway : Underway config driven) (ready : driven.walk.Ready)
    (reached : min rank 2 ≤ driven.walk.index) (budget : AcquisitionBudget) :
    ∃ after left step, driven.walk.next budget = some (after, left, .ok step) ∧
      pastOwners config.owners step := by
  have runs : ¬ (driven.walk.pending.isSome = true ∨ driven.walk.batch ≠ 0 ∨
      driven.walk.done = true) := by
    simp [ready.pending, ready.batch, ready.done]
  have same := underway.same
  have loops (walk : CandidateWalk) (config : walk.config = config)
      (targets : walk.targets = driven.walk.targets) (index : walk.index = driven.walk.index) :
      ∃ after left step, some (walk.loop budget) = some (after, left, .ok step) ∧
        pastOwners walk.config.owners step := by
    obtain ⟨after, left, step, iterates, past⟩ := @iterate_handoff rank walk budget
      (by rw [config, owner]) (by rw [targets, config, underway.targets])
      (by rw [config]; exact below) above (by rw [index]; exact reached)
      (walk.skipPrimary.iterate budget (walk.skipPrimary, budget, .error .internal))
    exact ⟨after, left, step, congrArg some iterates, past⟩
  unfold next
  rw [if_neg runs, ← same]
  rcases underway.helper with unset | off
  · have undue : (driven.walk.start budget).helper ≠ .due := by
      rcases start_helper driven.walk budget with off | ⟨armed, -⟩
      · rw [off]; decide
      · rw [armed]; decide
    simp only [if_pos unset, if_neg undue]
    exact loops (driven.walk.start budget) same rfl rfl
  · have set : driven.walk.helper ≠ .unset := by rw [off]; decide
    have undue : driven.walk.helper ≠ .due := by rw [off]; decide
    simp only [if_neg set, if_neg undue]
    exact loops driven.walk same rfl rfl

end

/-! ### The authority to ask origin -/

/-- Whatever the caller of an owner above rank 0 calls, with whatever budgets: once an outcome of
its probe of rank 0 leaves the fetch to rank 0, the walk never ends in the authority to ask
origin. Without such an outcome, and once every owner before it was asked and nothing was told
that ends the walk, every end is that authority, at most as many targets as the walk lists are
visited, and whenever nothing is outstanding planning goes on to a handoff target or ends the
walk so. -/
theorem origin_withholding {config : WalkConfig} {rank : Nat} (owner : config.rank = some rank)
    (above : 0 < rank) (below : rank < config.owners) (page : config.pageOperation = true)
    {calls : List Call} {driven : Driven} (run : Run Calls ⟨new config, none⟩ calls driven) :
    ((∃ call ∈ calls, call.withholds config.rank0 = true) →
      ∀ call ∈ calls, ∀ position evidence, call.walkEnd ≠ some (.origin position evidence)) ∧
    ((∀ call ∈ calls, call.fruitless = true ∧ call.withholds config.rank0 = false) →
      (∀ canonical < min rank 2, ∃ call ∈ calls, ∃ heard, call.recorded = some heard ∧
        heard.1.canonical = canonical) →
      (∀ call ∈ calls, ∀ walkEnd, call.walkEnd = some walkEnd →
        ∃ evidence, walkEnd = .origin rank evidence) ∧
      (driven.walk.done = true → ∃ call ∈ calls, call.walkEnd.isSome = true) ∧
      calls.countP Call.visits ≤ 2 + maxTargets ∧
      (driven.walk.Ready → ∀ budget, ∃ after left step,
        driven.walk.next budget = some (after, left, .ok step) ∧
        pastOwners config.owners step ∧
        ∀ walkEnd, step = .ended walkEnd → ∃ evidence, walkEnd = .origin rank evidence)) := by
  have traced : Traced config rank calls driven :=
    run.history (Traced config rank)
      (fun _ _ _ _ traced step =>
        traced.call (step.advances owner above below page traced.underway))
      (traced_start config rank)
  have underway := traced.underway
  constructor
  · rintro ⟨withholding, member, withholds⟩ call reporting position evidence reports
    have answered := (traced.origin call reporting position evidence reports).2
    rw [traced.unanswered, List.any_eq_false] at answered
    exact answered withholding member withholds
  · intro quiet asked
    obtain ⟨ends, done⟩ := traced.ends quiet
    have few : driven.walk.index ≤ 2 + maxTargets :=
      underway.inside.trans (underway.count ▸ (new_count owner).2)
    refine ⟨ends, done, traced.visits.trans few, fun ready budget => ?_⟩
    have reached : min rank 2 ≤ driven.walk.index := by
      -- The last of the owners before this one was heard.
      obtain ⟨call, member, heard, recorded, _⟩ := asked (min rank 2 - 1) (by omega)
      have passed := traced.heard call member heard recorded (by omega)
      omega
    obtain ⟨after, left, step, plans, past⟩ :=
      next_handoff owner above below underway ready reached budget
    refine ⟨after, left, step, plans, past, ?_⟩
    rintro walkEnd rfl
    have answered : driven.walk.rank0Unanswered = false := by
      rw [traced.unanswered, List.any_eq_false]
      exact fun call member => Bool.eq_false_iff.mp (quiet call member).2
    exact (next_advances owner above below page underway plans).ends walkEnd rfl rfl answered

/-- The second of two owners. -/
def secondOfTwo : WalkConfig where
  rank := some 1
  owners := 2
  order := .canonical 0
  pageOperation := true
  continuation := {}
  handoff := 0
  previous := 0
  helper := false
  lineage := [0, 0, 0]
  granted := 0
  parallelGranted := true
  rank0 := .unknown

/-- The probe of rank 0 times out: the walk ends, and not in the authority to ask origin. Or rank 0
misses the copy, and the walk ends in that authority. -/
theorem origin_withholding_second :
    (∃ calls driven, Run Calls ⟨new secondOfTwo, none⟩ calls driven ∧ driven.walk.done = true ∧
      (∃ call ∈ calls, call.withholds .unknown = true) ∧
      ∀ call ∈ calls, ∀ position evidence, call.walkEnd ≠ some (.origin position evidence)) ∧
    ∃ calls driven, Run Calls ⟨new secondOfTwo, none⟩ calls driven ∧ driven.walk.done = true ∧
      ∃ call ∈ calls, ∃ evidence, call.walkEnd = some (.origin 1 evidence) := by
  let budget := AcquisitionBudget.new 1000 8 32
  have asks : Calls ⟨new secondOfTwo, none⟩ _ _ :=
    .next (show (new secondOfTwo).next budget = some _ from rfl)
  constructor
  · have timesOut := Run.snoc (.single asks)
      (.complete rfl (show CandidateWalk.complete _ budget .timedOut = some _ from rfl))
    have run := timesOut.snoc (.next (show CandidateWalk.next _ budget = some _ from rfl))
    have withheld := (origin_withholding rfl (by decide) (by decide) rfl run).1
    refine ⟨_, _, run, rfl, ?withholds, withheld ?withholds⟩
    exact ⟨_, mem_cons_of_mem _ mem_cons_self, by decide⟩
  · have misses := Run.snoc (.single asks)
      (.complete rfl (show CandidateWalk.complete _ budget (.probe .copyMiss) = some _ from rfl))
    have run := misses.snoc (.next (show CandidateWalk.next _ budget = some _ from rfl))
    obtain ⟨ends, done, -⟩ := (origin_withholding rfl (by decide) (by decide) rfl run).2
      (by decide) (by decide)
    obtain ⟨call, member, ended⟩ := done rfl
    obtain ⟨walkEnd, reports⟩ := isSome_iff_exists.mp ended
    obtain ⟨evidence, rfl⟩ := ends call member walkEnd reports
    exact ⟨_, _, run, rfl, call, member, evidence, reports⟩

end Unbounded.Read.CandidateWalk
