/-
This file bounds how many exchanges a read takes. `pace` gives every state of a
fill a number that each exchange lowers. A walk counts its opportunities, the
targets it has not asked yet and the helper; every visit and every wait is worth
five exchanges, which pays for the probe, its refresh, the ranking of a fallback
and the wait. What comes before the walk and after it is a fixed number of
exchanges each.

A read starts a second epoch at most once, since the first refresh or fallback
rules out any other; that epoch is paid for in advance.
-/

import Unbounded.FillRuns

namespace Unbounded.Read

open Fill CandidateWalk Transition

/-! ### The pace of a walk -/

/-- The helper this walk may still ask, or is asking. -/
def CandidateWalk.helperLeft (walk : CandidateWalk) : Nat :=
  match walk.helper with
  | .unset | .armed | .due => 1
  | .used => if walk.pending.any (·.helper) then 1 else 0
  | .off => 0

/-- The visits this walk may still make, the outstanding one included. -/
def CandidateWalk.opportunities (walk : CandidateWalk) : Nat :=
  walk.count - walk.index + walk.helperLeft

/-- The pace before a walk: an owner has at most two owners before it and `maxTargets` handoff
targets, and a walk asks at most one helper. -/
def freshPace : Nat := 10 + 5 * (2 + maxTargets + 1 + maxStaleWaits) + 2

variable (fill : Fill)

def Fill.walkPace : Nat :=
  match fill.walk with
  | .none => freshPace
  | .candidates walk => 10 + 5 * (walk.opportunities + (maxStaleWaits - fill.waits))
  | .remaining walk => 2 * (walk.owners - walk.index)

/-- The most exchanges the rest of this epoch takes. -/
def Fill.pace : Option Action → Nat
  | none => freshPace + 6
  | some (.rank .current _) => freshPace + 5
  | some (.rank .previous _) => freshPace + 4
  | some .hints => freshPace + 3
  | some (.hedge _ _ _) => freshPace + 2
  | some (.batch _ _ _) | some (.wait _) => fill.walkPace + 3
  | some (.probe _) => fill.walkPace + 2
  | some .refresh | some .validate => fill.walkPace + 1
  | some (.rank .fallback _) => fill.walkPace
  | some (.rank .authority _) => 10
  | some (.origin _) => 9
  | some (.publish _) => 1
  | some (.done _) | some .idle => 0

/-- The pace once a decision is taken; planning may take what is left of the walk's pace. -/
def Fill.movePace : Move → Nat
  | .act action => fill.pace (some action)
  | .plan => fill.walkPace + 2

/-- The second epoch, paid for in advance. -/
def Fill.epochPace : Nat := if fill.retried then 0 else freshPace + 6

/-- The most exchanges one read takes. -/
def maxExchanges : Nat := 2 * (freshPace + 6)

section

variable {fill after : Fill}

theorem Fill.movePace_core {other : Fill} (same : after.core = other.core) (move : Move) :
    after.movePace move = other.movePace move := by
  have kept (fill : Fill) : fill.core.movePace move = fill.movePace move := rfl
  rw [← kept after, same, kept]

theorem Fill.epochPace_core {other : Fill} (same : after.core = other.core) :
    after.epochPace = other.epochPace :=
  core_field epochPace (fun _ => rfl) same

/-- A new walk's targets are few. -/
theorem CandidateWalk.new_count_le (config : WalkConfig) (short : config.owners ≤ maxHandoff) :
    (CandidateWalk.new config).count ≤ 2 + maxTargets := by
  unfold new
  dsimp only
  split
  · unfold ownerTargets
    rw [List.length_append, List.length_range]
    split
    · rw [List.length_map, List.length_range]
      omega
    · rw [List.length_nil]
      omega
  · exact short.trans (by decide)

theorem Fill.startWalk_pace (valid : fill.Valid) : fill.startWalk.1.walkPace + 2 ≤ freshPace := by
  have few := new_count_le fill.walkConfig valid.owners
  show 10 + 5 * ((CandidateWalk.new fill.walkConfig).count - 0 + 1 +
    (maxStaleWaits - fill.waits)) + 2 ≤ freshPace
  unfold freshPace
  omega

end

/-! ### Every step lowers the pace -/

namespace Fill

variable {fill after : Fill} {budget left : AcquisitionBudget}

theorem walkPace_none (walk : fill.walk = .none) : fill.walkPace = freshPace := by
  unfold walkPace
  rw [walk]

variable {walk : CandidateWalk}

theorem walkPace_candidates (walks : fill.walk = .candidates walk) :
    fill.walkPace = 10 + 5 * (walk.opportunities + (maxStaleWaits - fill.waits)) := by
  unfold walkPace
  rw [walks]

theorem walkPace_remaining {walk : RemainingWalk} (walks : fill.walk = .remaining walk) :
    fill.walkPace = 2 * (walk.owners - walk.index) := by
  unfold walkPace
  rw [walks]

/-- A walk's targets lie within its count. -/
theorem Walks.target_inside (walks : fill.Walks walk)
    {index canonical : Nat} (found : walk.target index = some canonical) : index < walk.count := by
  cases ranked : fill.rank with
  | none =>
    have inside := (walks.target_reader ranked found).2
    rw [walks.count]
    unfold CandidateWalk.new
    rw [walks.rank, ranked]
    exact walks.owners ▸ inside
  | some =>
    unfold target at found
    rw [walks.rank, ranked, Option.isSome_some, if_pos rfl] at found
    split at found
    · assumption
    · cases found

variable {probe : Probe}

/-- A completed probe uses up an opportunity. -/
theorem completed_opportunities {ended : CandidateWalk} {pending : Pending} {outcome : Outcome}
    {walkEnd : Option End} (valid : fill.Valid) (asks : fill.Asks walk pending probe)
    (completed : CandidateWalk.Completed walk ended pending outcome walkEnd) :
    ended.opportunities + 1 ≤ walk.opportunities := by
  have index := completed.index
  have asking := asks.asking.pending
  have outstanding := asks.outstanding
  unfold opportunities
  rw [index, completed.count]
  cases outstanding with
  | helper bounded _ used =>
    -- The helper does not take a position, but it is used up.
    have before : walk.helperLeft = 1 := by
      unfold helperLeft
      rw [used, asking]
      rfl
    have after : ended.helperLeft = 0 := by
      unfold helperLeft
      rcases completed.helper with same | ⟨unasked, -, -⟩
      · rw [same, used, completed.outstanding]
        rfl
      · cases unasked
    rw [before, after]
    exact le_rfl
  | target _ _ _ _ _ _ found =>
    have inside := (valid.walks walk asks.walking).target_inside found
    have kept : ended.helperLeft ≤ walk.helperLeft := by
      unfold helperLeft
      rcases completed.helper with same | ⟨-, armed, due⟩
      · rw [same, completed.outstanding, asking]
        exact le_rfl
      · rw [armed, due]
    simp only [Bool.false_eq_true, if_false]
    omega

theorem completes_pace {ended : CandidateWalk} {pending : Pending} {outcome : Outcome}
    {walkEnd : Option End} (valid : fill.Valid)
    (completes : Completes fill budget walk pending probe outcome ended left walkEnd) :
    ({ fill with walk := .candidates ended } : Fill).walkPace + 5 ≤ fill.walkPace := by
  have fewer := completed_opportunities valid completes.asks completes.completed
  rw [walkPace_candidates completes.asks.walking]
  show 10 + 5 * (ended.opportunities + (maxStaleWaits - fill.waits)) + 5 ≤ _
  omega

variable {last : Option Action}

/-- While a probe is outstanding, the pace of its walk is left. -/
theorem asks_pace (phase : Phase fill last) (walks : fill.walk = .candidates walk) :
    fill.walkPace ≤ fill.pace last := by
  cases phase with
  | probeRemaining asks | validateRemaining asks =>
    exact Walking.noConfusion (asks.walking.symm.trans walks)
  | fallback => exact le_rfl
  | refresh | validate => exact Nat.le_add_right _ 1
  | probe => exact Nat.le_add_right _ 2
  | batch | wait => exact Nat.le_add_right _ 3
  | _ walk => exact Walking.noConfusion (walk.symm.trans walks)

theorem asksRemaining_pace {walk : RemainingWalk} (phase : Phase fill last)
    (asks : fill.AsksRemaining walk probe) :
    2 * (walk.owners - walk.index) + 1 ≤ fill.pace last ∧ walk.index < walk.owners := by
  have inside : walk.index < walk.owners := by
    rw [asks.owners, asks.index]
    exact asks.canonical
  have pace := walkPace_remaining asks.walking
  cases phase with
  | fallback other | refresh other | probe other | validate other =>
    exact Walking.noConfusion (other.walking.symm.trans asks.walking)
  | batch walks | wait _ walks =>
    exact Walking.noConfusion (walks.symm.trans asks.walking)
  | probeRemaining =>
    show _ ≤ fill.walkPace + 2 ∧ _
    rw [pace]
    exact ⟨Nat.le_succ _, inside⟩
  | validateRemaining =>
    show _ ≤ fill.walkPace + 1 ∧ _
    rw [pace]
    exact ⟨le_rfl, inside⟩
  | _ walk => exact Walking.noConfusion (walk.symm.trans asks.walking)

variable {move : Move}

theorem raced_pace (valid : fill.Valid) (raced : Raced fill after move) :
    after.movePace move ≤ freshPace + 2 := by
  cases raced with
  | hedge => exact le_rfl
  | start => exact (startWalk_pace valid).trans (Nat.le_add_right _ 2)

theorem adopted_pace {ranked : Ranked} (walk : fill.walk = .none)
    (adopted : Adopted fill ranked after move) : after.movePace move ≤ freshPace + 4 := by
  cases adopted with
  | previous => exact le_rfl
  | hints => exact Nat.le_succ _
  | raced raced => exact (raced_pace (adopt_valid ranked walk) raced).trans (Nat.le_add_right _ 2)

theorem delivered_pace (after : Fill) (delivered : Delivered move) : after.movePace move ≤ 1 := by
  cases delivered with
  | done => exact Nat.zero_le 1
  | publish => exact le_rfl

/-- Every decision lowers the pace. -/
theorem decided_pace {event : Event} {completed : Option Outcome} (valid : fill.Valid)
    (phase : Phase fill last)
    (decided : Decided fill budget event last completed after left move) :
    after.epochPace + after.movePace move + 1 ≤ fill.epochPace + fill.pace last := by
  have kept (retried : after.retried = fill.retried)
      (slower : after.movePace move + 1 ≤ fill.pace last) :
      after.epochPace + after.movePace move + 1 ≤ fill.epochPace + fill.pace last := by
    unfold epochPace
    rw [retried]
    omega
  have opened (first : fill.retried = false) (opens : after.retried = true)
      (short : after.movePace move ≤ freshPace + 5) :
      after.epochPace + after.movePace move + 1 ≤ fill.epochPace + fill.pace last := by
    unfold epochPace
    rw [first, opens, if_pos rfl, if_neg Bool.false_ne_true]
    omega
  -- Starting the walk of a fill that had none.
  have started {other : Fill} (walk : fill.walk = .none) (owners : other.owners = fill.owners)
      (rank : other.rank = fill.rank) (order : other.order = fill.order)
      (walks : other.walk = fill.walk) : other.startWalk.1.walkPace + 2 ≤ freshPace :=
    startWalk_pace (valid.idle owners rank order (walks.trans walk))
  cases decided with
  | hit => exact kept rfl (Nat.le_add_left _ _)
  | begin | validate | published | refresh | fallsBack | waitOver | authorized =>
    exact kept rfl le_rfl
  | adopted ranked _ adopted =>
    cases phase with
    | current walk =>
      exact kept (adopted_counters adopted).1 (Nat.succ_le_succ (adopted_pace walk adopted))
  | previous result =>
    obtain ⟨_, handoff, equal⟩ := fill.previousRanked_eq result
    rw [equal] at kept ⊢
    exact kept rfl le_rfl
  | hinted hints rank0 raced =>
    cases phase with
    | hints walk =>
      obtain ⟨handoff, successors, equal⟩ := fill.hinted_eq hints rank0
      rw [equal] at raced
      have unwalked : ({ fill with rank0, handoff, successors } : Fill).Valid :=
        valid.idle rfl rfl rfl walk
      exact kept ((raced_counters raced).1.trans rfl)
        (Nat.succ_le_succ (raced_pace unwalked raced))
  | unraced | hedgeLost =>
    cases phase with
    | hedge walk =>
      have fresh := started walk rfl rfl rfl rfl
      exact kept rfl ((Nat.succ_le_succ fresh).trans (Nat.le_succ _))
  | hedgeWon delivered =>
    refine kept rfl ((Nat.succ_le_succ (delivered_pace _ delivered)).trans ?_)
    exact Nat.le_add_left 2 freshPace
  | hedgeStale =>
    cases phase with
    | hedge walk =>
      have pace : fill.walkPace + 1 + 1 ≤ freshPace + 2 := by rw [walkPace_none walk]
      exact kept rfl pace
  | hedgeRefreshed _ first | refreshed _ first => exact opened first rfl le_rfl
  | hedgeSkipped walk =>
    have fresh := started walk rfl rfl rfl rfl
    refine kept rfl (Nat.succ_le_succ ?_)
    rw [walkPace_none walk]
    exact fresh
  | visited completes =>
    have paid := asks_pace phase completes.asks.walking
    have faster := completes_pace valid completes
    refine kept rfl ?_
    show walkPace _ + 2 + 1 ≤ _
    omega
  | copied completes delivered =>
    have paid := asks_pace phase completes.asks.walking
    have faster := completes_pace valid completes
    refine kept rfl ((Nat.succ_le_succ (delivered_pace _ delivered)).trans ?_)
    omega
  | @waited last walk pending _ _ _ asks _ reader =>
    have paid := asks_pace phase asks.walking
    rw [walkPace_candidates asks.walking] at paid
    have fewer : ({ walk with pending := none }).opportunities ≤ walk.opportunities := by
      refine Nat.add_le_add_left ?_ _
      unfold helperLeft
      cases walk.helper with
      | used => exact Nat.zero_le _
      | unset | armed | due | off => exact le_rfl
    refine kept rfl ?_
    show 10 + 5 * (({ walk with pending := none }).opportunities +
      (maxStaleWaits - (fill.waits + 1))) + 3 + 1 ≤ _
    omega
  | fellBack _ _ first _ same adopted =>
    have walk : _ = Walking.none := core_walk same
    have opens : _ = true := core_retried same
    exact opened first ((adopted_counters adopted).1.trans opens)
      ((adopted_pace walk adopted).trans (Nat.le_succ _))
  | batched walks pending =>
    refine kept rfl ?_
    show _ ≤ fill.walkPace + 3
    rw [walkPace_candidates walks]
    exact le_rfl
  | batchCopied delivered =>
    refine kept rfl ((Nat.succ_le_succ (delivered_pace _ delivered)).trans ?_)
    exact Nat.le_add_left 2 (fill.walkPace + 1)
  | fetched =>
    refine kept rfl ?_
    show 1 + 1 ≤ 9
    decide
  | missed =>
    have short := valid.owners
    unfold maxHandoff at short
    refine kept rfl ?_
    show 2 * (fill.owners.length - (fill.rank.getD 0 + 1)) + 2 + 1 ≤ 9
    omega
  | @remained _ _ ended _ _ asks owners index =>
    obtain ⟨paid, inside⟩ := asksRemaining_pace phase asks
    refine kept rfl ?_
    show 2 * (ended.owners - ended.index) + 2 + 1 ≤ _
    omega
  | remainingCopied asks =>
    obtain ⟨_, _⟩ := asksRemaining_pace phase asks
    refine kept rfl ?_
    show 1 + 1 ≤ _
    omega

/-- Preparing a walk and asking its next target, or its helper, takes no helper it did not
have. -/
theorem prepared_helperLeft {prepared : CandidateWalk} {pending : Option Pending}
    (idle : walk.pending = none) (prepares : CandidateWalk.Prepared walk prepared)
    (due : pending.any (·.helper) = true → walk.helper = .due) :
    CandidateWalk.helperLeft { prepared with pending } ≤ walk.helperLeft := by
  have most : helperLeft { prepared with pending } ≤ 1 := by
    unfold helperLeft
    split
    · exact le_rfl
    · exact le_rfl
    · exact le_rfl
    · split
      · exact le_rfl
      · exact Nat.zero_le 1
    · exact Nat.zero_le 1
  by_cases asked : pending.any (·.helper) = true
  · refine most.trans ?_
    unfold helperLeft
    rw [due asked]
  · rw [Bool.not_eq_true] at asked
    rcases prepares.helper with ⟨unset, -⟩ | ⟨dued, -⟩ | ⟨-, -, same⟩
    · refine most.trans ?_
      unfold helperLeft
      rw [unset]
    · refine most.trans ?_
      unfold helperLeft
      rw [dued]
    · unfold helperLeft
      rw [same, asked, idle]
      exact le_rfl

/-- Every plan keeps within the pace of its walk. -/
theorem planned_pace {action : Action} (plannable : Plannable fill)
    (planned : Planned fill budget after left action) :
    after.epochPace + after.pace (some action) ≤ fill.epochPace + (fill.walkPace + 2) := by
  have kept (retried : after.retried = fill.retried)
      (within : after.pace (some action) ≤ fill.walkPace + 2) :
      after.epochPace + after.pace (some action) ≤ fill.epochPace + (fill.walkPace + 2) := by
    unfold epochPace
    rw [retried]
    omega
  have idle {walk : CandidateWalk} (walks : fill.walk = .candidates walk) :
      walk.pending = none := by
    cases plannable with
    | candidates walking ready =>
      obtain rfl := Walking.candidates.inj (walking.symm.trans walks)
      exact ready.pending
    | remaining walking => exact Walking.noConfusion (walking.symm.trans walks)
  cases planned with
  | @asks walk prepared pending _ _ walks prepares due =>
    have helper := prepared_helperLeft (idle walks) prepares
      (show (some pending).any (·.helper) = true → _ from due)
    have index := prepares.index_le
    have count := prepares.count
    refine kept rfl ?_
    rw [walkPace_candidates walks]
    show 10 + 5 * (prepared.count - prepared.index +
      helperLeft { prepared with pending := some pending } + (maxStaleWaits - fill.waits)) + 2 ≤ _
    unfold opportunities
    omega
  | @batch walk prepared _ count _ walks prepares _ _ _ inside =>
    have helper : prepared.helperLeft ≤ walk.helperLeft := prepared_helperLeft (idle walks) prepares
      (show prepared.pending.any (·.helper) = true → _ by rw [prepares.ready.pending]; nofun)
    have index := prepares.index_le
    have counts := prepares.count
    refine kept rfl ?_
    rw [walkPace_candidates walks]
    show 10 + 5 * (prepared.count - (prepared.index + count) + prepared.helperLeft +
      (maxStaleWaits - fill.waits)) + 3 ≤ _
    unfold opportunities
    omega
  | concluded walks =>
    refine kept rfl ?_
    rw [walkPace_candidates walks]
    show 10 ≤ _
    omega
  | remaining walks =>
    refine kept rfl ?_
    rw [walkPace_remaining walks]
    exact le_rfl

end Fill

/-! ### Whole runs -/

/-- What a read may still do by some measure: nothing once it is over. -/
def World.left (measure : Fill → Option Action → Nat) (world : World) : Nat :=
  match world.last with
  | some (.done _) => 0
  | last => measure world.fill last

/-- The most exchanges the rest of a read takes. -/
def Fill.readPace (fill : Fill) (last : Option Action) : Nat := fill.epochPace + fill.pace last

/-- Spending keeps the pace. -/
theorem Fill.charged_pace (budget spent : AcquisitionBudget) (last : Option Action) :
    (fill.setRequestBudget budget spent).1.epochPace = fill.epochPace ∧
      (fill.setRequestBudget budget spent).1.pace last = fill.pace last := by
  rcases fill.setRequestBudget_cases budget spent with
    ⟨same, -, -⟩ | ⟨walk, pending, _, walks, asking, -, -, same⟩
  · rw [same]
    exact ⟨rfl, rfl⟩
  · rw [same]
    have opportunities : opportunities
        { walk with pending := some { pending with bounded := some spent } } =
          walk.opportunities := by
      unfold opportunities helperLeft
      rw [asking]
      rfl
    have pace : ({ fill with walk := .candidates { walk with
        pending := some { pending with bounded := some spent } } } : Fill).walkPace =
          fill.walkPace := by
      rw [walkPace_candidates walks, ← opportunities]
      rfl
    refine ⟨rfl, ?_⟩
    unfold Fill.pace
    simp only [pace]

/-- A read that is not over takes at least one exchange more. -/
theorem Phase.pace_pos {fill : Fill} {last : Option Action} (phase : Phase fill last)
    (unfinished : ∀ result, last ≠ some (.done result)) : 1 ≤ fill.pace last := by
  cases phase with
  | fallback asks =>
    have pace := walkPace_candidates asks.walking
    show 1 ≤ fill.walkPace
    omega
  | done => exact absurd rfl (unfinished _)
  | _ => exact Nat.succ_le_succ (Nat.zero_le _)

section

variable {spends : Spending} {world next : World} {exchange : Exchange}

section

variable (reacts : Reacts spends world exchange next) (measure : Fill → Option Action → Nat)

include reacts

/-- A read that reacts is not over. -/
theorem Reacts.left (kept : measure exchange.fill world.last = measure world.fill world.last) :
    world.left measure = measure exchange.fill world.last := by
  rw [kept]
  unfold World.left
  split
  · rename_i result done
    exact absurd done (reacts.answers.unfinished result)
  · rfl

theorem Reacts.left_next :
    next.left measure ≤ measure exchange.reaction.fill (some exchange.reaction.action) := by
  rw [reacts.next]
  unfold World.left
  split
  · exact Nat.zero_le _
  · exact le_rfl

theorem Reacts.left_failed {error : Error}
    (failed : exchange.reaction.action = .done (.error error)) : next.left measure = 0 := by
  rw [reacts.next]
  unfold World.left
  rw [failed]

end

/-- Every exchange lowers the pace of a read. -/
theorem Reacts.pace (reacts : Reacts spends world exchange next) (live : world.Live) :
    next.left Fill.readPace + 1 ≤ world.left Fill.readPace := by
  obtain ⟨_, steps⟩ := reacts.steps live
  have charged := charged_pace world.fill world.budget exchange.spent world.last
  rw [← reacts.charged] at charged
  have phase := steps.phase.of_core
  have positive := phase.pace_pos reacts.answers.unfinished
  have lasts := reacts.left_next Fill.readPace
  rw [reacts.left Fill.readPace (congrArg₂ Nat.add charged.1 charged.2)]
  unfold Fill.readPace at lasts ⊢
  have stepped := steps.stepped
  cases stepped with
  | failed _ action | unplanned _ action =>
    rw [reacts.left_failed _ action]
    omega
  | acted decided same =>
    have lower := decided_pace steps.valid phase decided
    have pace : exchange.reaction.fill.pace (some exchange.reaction.action) = _ :=
      movePace_core same (.act exchange.reaction.action)
    rw [epochPace_core same] at lasts
    omega
  | planned _ decided kept planned same =>
    have lower := decided_pace steps.valid phase decided
    have followed := follows_of_core kept (decided_follows steps.valid phase decided)
    have within := planned_pace followed.2 planned
    rw [← epochPace_core kept, ← movePace_core kept] at lower
    have pace : exchange.reaction.fill.pace (some exchange.reaction.action) = _ :=
      movePace_core same (.act exchange.reaction.action)
    rw [pace, epochPace_core same] at lasts
    exact (Nat.succ_le_succ (lasts.trans within)).trans lower

/-- However its peers answer, a read takes at most `maxExchanges` exchanges. -/
theorem run_length_le {config : FillConfig} {budget : AcquisitionBudget} {exchanges : List Exchange}
    (run : Run (Reacts spends) (World.start config budget) exchanges world) :
    exchanges.length ≤ maxExchanges := by
  have bounded := run.countP_le World.Live (World.left Fill.readPace) (fun _ => true)
    (fun _ _ _ live reacts => reacts.live live) (fun _ _ _ live reacts => reacts.pace live)
    (World.start_live config budget)
  rw [List.countP_true] at bounded
  have start : (World.start config budget).left Fill.readPace = maxExchanges := (two_mul _).symm
  omega

end

end Unbounded.Read
