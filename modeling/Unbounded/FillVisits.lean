/-
This file follows the targets a read asks in one epoch, that is under one
ranking of the page. A walk never returns to a target it has left behind: an
owner's targets and a reader's owners are visited in order, the helper is asked
once, and the remaining-copy walk only asks owners no one asked before. The one
target asked twice is a destination that is behind and that the read waited for.

With the bound on the number of exchanges this says how every read ends.
-/

import Unbounded.FillPace
import Unbounded.ListUpdate

namespace Unbounded.Read

open Fill List Transition

/-! ### The targets of an epoch -/

/-- The targets an action asks, by their position after the owners. -/
def Action.targets (owners : Nat) : Action → List Nat
  | .probe sent => [sent.canonical]
  | .batch first count _ => (List.range count).map (owners + first + ·)
  | _ => []

/-- The action asks targets. -/
def Action.asks : Action → Bool
  | .probe _ | .batch .. => true
  | _ => false

variable (exchange : Exchange)

/-- The targets an exchange leads the caller to ask. -/
def Exchange.asked : List Nat :=
  exchange.reaction.action.targets exchange.reaction.fill.owners.length

/-- The targets an exchange leads the caller to ask, apart from a destination it waited for. -/
def Exchange.visits : List Nat :=
  match exchange.event with
  | .timer => []
  | _ => exchange.asked

theorem Exchange.visits_eq_nil (idle : exchange.reaction.action.asks = false) :
    exchange.visits = [] := by
  unfold visits asked
  generalize exchange.reaction.action = action at idle
  cases action with
  | probe | batch => cases idle
  | _ => split <;> rfl

/-- The read leaves its first ranking for a newer membership's or the previous one's. -/
def Exchange.opensEpoch : Bool := exchange.reaction.fill.retried != exchange.fill.retried

/-- What the exchanges of the current epoch add up to. -/
def epochLog (read : Exchange → List Nat) (exchanges : List Exchange) : List Nat :=
  exchanges.foldl
    (fun log exchange => (if exchange.opensEpoch then [] else log) ++ read exchange) []

/-- The read moves to a newer membership. -/
def Exchange.refreshes : Bool :=
  match exchange.event, exchange.reaction.action with
  | .membership _ _, .rank .current _ => true
  | _, _ => false

/-- The read walks the owners under the previous membership. -/
def Exchange.startsFallback : Bool :=
  match exchange.event, exchange.reaction.action with
  | .ranked _, .done _ => false
  | .ranked _, _ => exchange.opensEpoch
  | _, _ => false

/-- The read waits for a destination that is behind. -/
def Exchange.waits : Bool :=
  match exchange.reaction.action with
  | .wait _ => true
  | _ => false

/-! ### The order of a walk's targets -/

namespace Fill

variable {fill : Fill} {walk : CandidateWalk}

/-- A walk's positions have distinct targets. -/
theorem Walks.target_injective (walks : fill.Walks walk) (valid : fill.Valid)
    {first second canonical : Nat} (found : walk.target first = some canonical)
    (again : walk.target second = some canonical) : first = second := by
  cases ranked : fill.rank with
  | none =>
    have ordered := walks.order ranked
    have inside := (walks.target_reader ranked found).2
    rw [← length_range (n := fill.owners.length), ← ordered.length_eq] at inside
    unfold CandidateWalk.target at found again
    rw [walks.rank, ranked] at found again
    exact (getElem?_inj inside (ordered.nodup_iff.mpr nodup_range)).mp (found.trans again.symm)
  | some rank =>
    have short := valid.rank rank ranked
    rcases walks.target_owner ranked found with ⟨_, same⟩ | ⟨_, same, -⟩ <;>
      rcases walks.target_owner ranked again with ⟨_, same'⟩ | ⟨_, same', -⟩ <;> omega

/-- The handoff targets of a walk follow one another. -/
theorem Walks.target_run (walks : fill.Walks walk) {rank : Nat} (owner : fill.rank = some rank)
    (valid : fill.Valid) {index canonical later : Nat} (found : walk.target index = some canonical)
    (handoff : fill.owners.length ≤ canonical) (inside : index + later < walk.count) :
    walk.target (index + later) = some (canonical + later) := by
  have listed : walk.targets.length = walk.count := by
    rw [walks.targets, walks.count]
    unfold CandidateWalk.new
    rw [walks.rank, owner]
  have target : walk.target (index + later) = some (walk.targets[index + later]) := by
    unfold CandidateWalk.target
    rw [walks.rank, owner, Option.isSome_some, if_pos rfl, if_pos inside, getElem?_eq_getElem]
  have short := valid.rank rank owner
  rw [target]
  rcases walks.target_owner owner found with ⟨before, same⟩ | ⟨_, _, -⟩
  · omega
  rcases walks.target_owner owner target with ⟨_, -⟩ | ⟨-, _, -⟩
  · omega
  · congr 1
    omega

end Fill

/-! ### What a walk has left behind -/

/-- The walk has moved past a target, or its helper was asked. -/
def CandidateWalk.Behind (walk : CandidateWalk) (canonical : Nat) : Prop :=
  (∃ index < walk.index, walk.target index = some canonical) ∨
    walk.helper = .used ∧ walk.pending.any (·.helper) = false ∧ canonical = walk.config.owners

namespace Fill

variable {fill after : Fill} {walk : CandidateWalk} {pending : Pending} {probe : Probe}

/-- The fill's walk does not come back to a target. The remaining-copy walk asks the owners
after its own, and an owner asked only those before its own until then. -/
def Behind (fill : Fill) (canonical : Nat) : Prop :=
  match fill.walk with
  | .none => False
  | .candidates walk => walk.Behind canonical
  | .remaining walk => canonical < walk.index ∨ fill.owners.length ≤ canonical

/-- The targets asked are distinct, and none will be asked again. -/
def Visited (fill : Fill) (log : List Nat) : Prop :=
  log.Nodup ∧ ∀ canonical ∈ log, fill.Behind canonical

/-- The last target asked is outstanding. -/
def Asked (fill : Fill) (log : List Nat) : Prop :=
  ∃ earlier probe, log = earlier ++ [probe.canonical] ∧ fill.probe = some probe ∧
    fill.Visited earlier

/-- The last target a reader asked is the next one it asks. -/
def Awaited (fill : Fill) (log : List Nat) : Prop :=
  ∃ earlier canonical walk, log = earlier ++ [canonical] ∧ fill.Visited earlier ∧
    fill.rank = none ∧ fill.walk = .candidates walk ∧
    walk.target walk.index = some canonical ∧ walk.helper ≠ .unset ∧ walk.helper ≠ .due ∧
    (walk.config.continuation.primaryConsumed = true → walk.index ≠ 0)

/-- What holds of the targets asked in an epoch while an action is outstanding. -/
def Visits (fill : Fill) (log : List Nat) : Option Action → Prop
  | some (.probe _) | some .validate | some (.rank .fallback _) => fill.Asked log
  | some .refresh => if fill.walk = .none then log = [] else fill.Asked log
  | some (.batch _ _ _) => fill.Visited log
  | some (.wait _) => fill.Awaited log
  | some (.rank .authority _) | some (.origin _) =>
    log.Nodup ∧ ∀ canonical ∈ log, canonical ≤ fill.rank.getD 0 ∨ fill.owners.length ≤ canonical
  | some (.publish _) | some (.done _) | some .idle => log.Nodup
  | none | some (.rank .current _) | some (.rank .previous _) | some .hints
  | some (.hedge _ _ _) => log = []

theorem visits_core {other : Fill} (same : after.core = other.core) (log : List Nat)
    (last : Option Action) : after.Visits log last ↔ other.Visits log last := by
  have kept (fill : Fill) : fill.core.Visits log last = fill.Visits log last := rfl
  rw [← kept after, same, kept]

theorem visited_nil (fill : Fill) : fill.Visited [] := ⟨nodup_nil, nofun⟩

variable {canonical : Nat} {log : List Nat} {budget left : AcquisitionBudget} {last : Option Action}
  {move : Move} {action : Action} {prepared : CandidateWalk}

theorem behind_candidates (walks : fill.walk = .candidates walk) :
    fill.Behind canonical ↔ walk.Behind canonical := by
  unfold Behind
  rw [walks]

theorem behind_remaining {walk : RemainingWalk} (walks : fill.walk = .remaining walk) :
    fill.Behind canonical ↔ canonical < walk.index ∨ fill.owners.length ≤ canonical := by
  unfold Behind
  rw [walks]

/-- A target that is not behind was not asked. -/
theorem Visited.snoc_nodup (visited : fill.Visited log)
    (ahead : ¬ fill.Behind canonical) : (log ++ [canonical]).Nodup :=
  ListUpdate.nodup_snoc visited.1 fun asked => ahead (visited.2 canonical asked)

theorem Walks.ahead (walks : fill.Walks walk) (valid : fill.Valid)
    (found : walk.target walk.index = some canonical) : ¬ walk.Behind canonical := by
  rintro (⟨index, earlier, asked⟩ | ⟨used, -, helper⟩)
  · exact absurd (walks.target_injective valid asked found) earlier.ne
  · have reader := walks.reader (by rw [used]; decide) (by rw [used]; decide)
    have listed := (walks.target_reader reader found).1
    rw [helper, walks.owners] at listed
    exact lt_irrefl _ listed

/-- The outstanding target is not behind. -/
theorem Asks.ahead (asks : fill.Asks walk pending probe) (valid : fill.Valid) :
    ¬ walk.Behind probe.canonical := by
  have walks := valid.walks walk asks.walking
  have asking := asks.asking.pending
  have outstanding := asks.outstanding
  cases outstanding with
  | helper bounded reader _ canonical =>
    rintro (⟨_, -, asked⟩ | ⟨-, idle, -⟩)
    · have listed := (walks.target_reader (walks.rank.symm.trans reader) asked).1
      rw [canonical, walks.owners] at listed
      exact lt_irrefl _ listed
    · rw [asking] at idle
      cases idle
  | target _ _ _ _ _ _ found => exact walks.ahead valid found

/-- Completing the outstanding probe leaves its target behind, and every earlier one. -/
theorem completes_behind {ended : CandidateWalk} {outcome : Outcome} {walkEnd : Option End}
    (completes : Completes fill budget walk pending probe outcome ended left walkEnd)
    (asked : walk.Behind canonical ∨ canonical = probe.canonical) : ended.Behind canonical := by
  have completed := completes.completed
  have target (index : Nat) : ended.target index = walk.target index := by
    unfold CandidateWalk.target
    rw [completed.config, completed.targets, completed.count, completed.order]
  have idle : ended.pending.any (·.helper) = false := by
    rw [completed.outstanding]
    rfl
  have used (helper : walk.helper = .used) : ended.helper = .used := by
    rcases completed.helper with same | ⟨-, armed, -⟩
    · exact same.trans helper
    · rw [helper] at armed
      cases armed
  rcases asked with (⟨index, earlier, asked⟩ | ⟨helper, -, last⟩) | rfl
  · refine .inl ⟨index, ?_, (target index).trans asked⟩
    rw [completed.index]
    exact Nat.lt_add_right _ earlier
  · exact .inr ⟨used helper, idle, completed.config ▸ last⟩
  · have outstanding := completes.asks.outstanding
    cases outstanding with
    | helper bounded _ helper canonical =>
      exact .inr ⟨used helper, idle, completed.config ▸ canonical⟩
    | target _ _ _ _ _ _ found =>
      refine .inl ⟨walk.index, ?_, (target walk.index).trans found⟩
      rw [completed.index]
      exact Nat.lt_succ_self walk.index

theorem Asked.sent (asked : fill.Asked log) (sent : fill.probe = some probe) :
    ∃ earlier, log = earlier ++ [probe.canonical] ∧ fill.Visited earlier := by
  obtain ⟨earlier, _, listed, outstanding, visited⟩ := asked
  obtain rfl := Option.mem_unique sent outstanding
  exact ⟨earlier, listed, visited⟩

/-- A fill that waits for a probe of its walk has asked its target last. -/
theorem asked_of_phase (phase : Phase fill last)
    (visits : fill.Visits log last) (walking : fill.walk ≠ .none)
    (busy : ∀ walk, fill.walk = .candidates walk → walk.pending ≠ none) : fill.Asked log := by
  cases phase with
  | batch walks _ idle => exact absurd idle (busy _ walks)
  | wait _ walks ready => exact absurd ready.pending (busy _ walks)
  | refresh => exact (if_neg walking).mp visits
  | fallback | probe | probeRemaining | validate | validateRemaining =>
    exact visits
  | _ walk => exact absurd walk walking

theorem Asks.busy (asks : fill.Asks walk pending probe) (other : CandidateWalk)
    (walks : fill.walk = .candidates other) : other.pending ≠ none := by
  obtain rfl := Walking.candidates.inj (asks.walking.symm.trans walks)
  rw [asks.asking.pending]
  nofun

theorem Asks.asked (asks : fill.Asks walk pending probe) (phase : Phase fill last)
    (visits : fill.Visits log last) :
    ∃ earlier, log = earlier ++ [probe.canonical] ∧ fill.Visited earlier := by
  refine (asked_of_phase phase visits ?_ asks.busy).sent asks.sent
  rw [asks.walking]
  nofun

section

variable {walk : RemainingWalk} (asks : fill.AsksRemaining walk probe)

include asks

theorem AsksRemaining.asked (phase : Phase fill last) (visits : fill.Visits log last) :
    ∃ earlier, log = earlier ++ [probe.canonical] ∧ fill.Visited earlier := by
  refine (asked_of_phase phase visits ?_ fun other walks => ?_).sent asks.sent
  · rw [asks.walking]
    nofun
  · exact Walking.noConfusion (asks.walking.symm.trans walks)

theorem AsksRemaining.ahead : ¬ fill.Behind probe.canonical := by
  rw [behind_remaining asks.walking, asks.index, not_or]
  exact ⟨lt_irrefl _, Nat.not_le.mpr asks.canonical⟩

end

/-- The targets asked so far are distinct. -/
theorem Visits.nodup (valid : fill.Valid)
    (phase : Phase fill last) (visits : fill.Visits log last) : log.Nodup := by
  have empty (unasked : log = []) : log.Nodup := unasked ▸ nodup_nil
  have one {walk : CandidateWalk} {pending : Pending} {probe : Probe}
      (asks : fill.Asks walk pending probe) : log.Nodup := by
    obtain ⟨earlier, rfl, visited⟩ := asks.asked phase visits
    refine visited.snoc_nodup ?_
    rw [behind_candidates asks.walking]
    exact asks.ahead valid
  have remaining {walk : RemainingWalk} {probe : Probe} (asks : fill.AsksRemaining walk probe) :
      log.Nodup := by
    obtain ⟨earlier, rfl, visited⟩ := asks.asked phase visits
    exact visited.snoc_nodup asks.ahead
  cases phase with
  | fresh | current | previous | hints | hedge =>
    exact empty visits
  | hedgeRefresh walk => exact empty ((if_pos walk).mp visits)
  | refresh asks | fallback asks | probe asks | validate asks => exact one asks
  | probeRemaining asks | validateRemaining asks => exact remaining asks
  | batch | authority | origin => exact visits.1
  | wait =>
    obtain ⟨_, _, walk, rfl, visited, -, walks, found, -⟩ := visits
    refine visited.snoc_nodup ?_
    rw [behind_candidates walks]
    exact (valid.walks walk walks).ahead valid found
  | publish | done => exact visits

/-! ### Every step keeps the targets apart -/

/-- Whether the outstanding action is a wait. -/
def isWait : Option Action → Bool
  | some (.wait _) => true
  | _ => false

/-- What holds of the targets asked in an epoch after a decision. -/
def MoveVisits (fill : Fill) (log : List Nat) (waited : Bool) : Move → Prop
  | .act action => fill.Visits log (some action)
  | .plan => if waited then fill.Awaited log else fill.Visited log

theorem moveVisits_core {other : Fill} (same : after.core = other.core)
    {waited : Bool} (visits : other.MoveVisits log waited move) :
    after.MoveVisits log waited move := by
  have kept (fill : Fill) :
      fill.core.MoveVisits log waited move = fill.MoveVisits log waited move := rfl
  rw [← kept after, same]
  exact visits

theorem isWait_of_phase (phase : Phase fill last)
    (busy : ∀ walk, fill.walk = .candidates walk → walk.pending ≠ none) : isWait last = false := by
  cases phase with
  | wait _ walks ready => exact absurd ready.pending (busy _ walks)
  | _ => rfl

theorem raced_visits (raced : Raced fill after move) : after.MoveVisits [] false move := by
  cases raced with
  | hedge => exact rfl
  | start => exact visited_nil _

theorem adopted_visits {ranked : Ranked} (adopted : Adopted fill ranked after move) :
    after.MoveVisits [] false move := by
  cases adopted with
  | previous | hints => exact rfl
  | raced raced => exact raced_visits raced

theorem raced_idle (raced : Raced fill after move) (acts : move = .act action) :
    action.asks = false := by
  cases raced with
  | hedge =>
    obtain rfl := Move.act.inj acts
    rfl
  | start => cases acts

theorem adopted_idle {ranked : Ranked} (adopted : Adopted fill ranked after move)
    (acts : move = .act action) : action.asks = false := by
  cases adopted with
  | previous | hints =>
    obtain rfl := Move.act.inj acts
    rfl
  | raced raced => exact raced_idle raced acts

variable {event : Event} {completed : Option Outcome}

/-- Only planning asks targets. -/
theorem decided_idle (decided : Decided fill budget event last completed after left move)
    (acts : move = .act action) : action.asks = false := by
  cases decided with
  | adopted _ _ adopted | fellBack _ _ _ _ _ adopted => exact adopted_idle adopted acts
  | hinted _ _ raced => exact raced_idle raced acts
  | hedgeWon delivered | copied _ delivered | batchCopied delivered =>
    cases delivered with
    | done | publish =>
      obtain rfl := Move.act.inj acts
      rfl
  | unraced | hedgeLost | hedgeSkipped | visited | waitOver | batched
  | missed | remained => cases acts
  | _ =>
    obtain rfl := Move.act.inj acts
    rfl

/-- A completed probe leaves the targets asked behind the walk. -/
theorem completes_visited {ended : CandidateWalk}
    {outcome : Outcome} {walkEnd : Option End} {earlier : List Nat} (valid : fill.Valid)
    (completes : Completes fill budget walk pending probe outcome ended left walkEnd)
    (visited : fill.Visited earlier) :
    ({ fill with walk := .candidates ended } : Fill).Visited (earlier ++ [probe.canonical]) := by
  have walks := completes.asks.walking
  constructor
  · refine visited.snoc_nodup ?_
    rw [behind_candidates walks]
    exact completes.asks.ahead valid
  · intro canonical asked
    refine completes_behind completes ?_
    rw [mem_append, mem_singleton] at asked
    exact asked.imp_left fun earlier => (behind_candidates walks).mp (visited.2 canonical earlier)

/-- Every decision keeps the targets of an epoch apart; a new ranking starts over. -/
theorem decided_visits (valid : fill.Valid) (phase : Phase fill last)
    (decided : Decided fill budget event last completed after left move)
    (visits : fill.Visits log last) :
    after.MoveVisits (if after.retried = fill.retried then log else []) (isWait last) move := by
  have distinct := Visits.nodup valid phase visits
  -- The epoch goes on, or nothing was asked in it, or a new one opens.
  suffices after.retried = fill.retried ∧ after.MoveVisits log (isWait last) move ∨
      (log = [] ∨ fill.retried = false ∧ after.retried = true) ∧
        after.MoveVisits [] (isWait last) move by
    rcases this with ⟨retried, holds⟩ | ⟨rfl | ⟨first, retried⟩, holds⟩
    · rwa [if_pos retried]
    · rwa [ite_self]
    · rwa [first, retried]
  cases decided with
  | hit | fetched | remainingCopied | published => exact .inl ⟨rfl, distinct⟩
  | begin => exact .inr ⟨.inl visits, rfl⟩
  | adopted ranked _ adopted => exact .inr ⟨.inl visits, adopted_visits adopted⟩
  | previous => exact .inr ⟨.inl visits, rfl⟩
  | hinted _ _ raced => exact .inr ⟨.inl visits, raced_visits raced⟩
  | unraced | hedgeLost => exact .inr ⟨.inl visits, visited_nil _⟩
  | hedgeWon delivered | copied _ delivered | batchCopied delivered =>
    cases delivered with
    | done | publish => exact .inl ⟨rfl, distinct⟩
  | hedgeStale =>
    cases phase with
    | hedge walk => exact .inr ⟨.inl visits, (if_pos walk).mpr rfl⟩
  | hedgeRefreshed _ first | refreshed _ first => exact .inr ⟨.inr ⟨first, rfl⟩, rfl⟩
  | hedgeSkipped walk => exact .inr ⟨.inl ((if_pos walk).mp visits), visited_nil _⟩
  | validate | waitOver | authorized => exact .inl ⟨rfl, visits⟩
  | refresh asks =>
    refine .inl ⟨rfl, (if_neg ?_).mpr visits⟩
    rw [asks.walking]
    nofun
  | visited completes =>
    have unwaited := isWait_of_phase phase completes.asks.busy
    obtain ⟨earlier, rfl, visited⟩ := completes.asks.asked phase visits
    refine .inl ⟨rfl, ?_⟩
    rw [unwaited]
    exact completes_visited valid completes visited
  | fallsBack _ asks =>
    obtain ⟨earlier, listed, visited⟩ := asks.asked phase visits
    exact .inl ⟨rfl, earlier, _, listed, asks.sent, visited⟩
  | @waited _ walk pending probe _ _ asks _ reader owner =>
    obtain ⟨earlier, listed, visited⟩ := asks.asked phase visits
    refine .inl ⟨rfl, earlier, probe.canonical, { walk with pending := none }, listed,
      ⟨visited.1, fun canonical asked => ?_⟩, reader, rfl, ?_, asks.asking.started,
      asks.asking.undue, ?_⟩
    · have behind := (behind_candidates asks.walking).mp (visited.2 canonical asked)
      exact behind.imp id fun helper => ⟨helper.1, rfl, helper.2.2⟩
    · have outstanding := asks.outstanding
      cases outstanding with
      | helper => cases owner
      | target _ _ _ _ _ _ found => exact found
    · have outstanding := asks.outstanding
      cases outstanding with
      | helper => cases owner
      | target _ _ _ _ _ _ _ _ _ _ unskipped => exact unskipped
  | fellBack _ _ first _ same adopted =>
    have retried : _ = true := core_retried same
    exact .inr ⟨.inr ⟨first, (adopted_counters adopted).1.trans retried⟩, adopted_visits adopted⟩
  | batched walks =>
    refine .inl ⟨rfl, visits.1, fun canonical asked => ?_⟩
    exact (behind_candidates walks).mp (visits.2 canonical asked)
  | missed =>
    refine .inl ⟨rfl, visits.1, fun canonical asked => ?_⟩
    exact (visits.2 canonical asked).imp_left Nat.lt_succ_of_le
  | @remained _ _ ended _ _ asks owners index =>
    have unwaited := isWait_of_phase phase fun other walks =>
      Walking.noConfusion (asks.walking.symm.trans walks)
    obtain ⟨_, rfl, visited⟩ := asks.asked phase visits
    refine .inl ⟨rfl, ?_⟩
    rw [unwaited]
    refine ⟨distinct, fun canonical asked => ?_⟩
    show canonical < ended.index ∨ fill.owners.length ≤ canonical
    rw [mem_append, mem_singleton] at asked
    rcases asked with asked | rfl
    · refine ((behind_remaining asks.walking).mp (visited.2 canonical asked)).imp_left ?_
      omega
    · have outstanding := asks.index
      omega

/-! ### Planning -/

theorem prepared_target (prepares : CandidateWalk.Prepared walk prepared)
    (started : walk.helper ≠ .unset) (index : Nat) : prepared.target index = walk.target index := by
  unfold CandidateWalk.target
  rw [prepares.config, prepares.targets, prepares.count,
    prepares.order.resolve_right fun reordered => started reordered.1]

section

variable (walks : fill.Walks walk) (prepares : CandidateWalk.Prepared walk prepared)

include walks prepares

/-- Preparing a walk leaves behind what it had left behind. -/
theorem prepared_behind (behind : walk.Behind canonical) :
    (∃ index < prepared.index, prepared.target index = some canonical) ∨
      walk.helper = .used ∧ prepared.helper = .used ∧ canonical = prepared.config.owners := by
  rcases behind with ⟨index, earlier, asked⟩ | ⟨used, -, last⟩
  · -- A walk that has not started has left nothing behind.
    have started : walk.helper ≠ .unset := fun unset =>
      absurd earlier (by rw [walks.fresh unset]; exact Nat.not_lt_zero index)
    exact .inl ⟨index, earlier.trans_le prepares.index_le,
      (prepared_target prepares started index).trans asked⟩
  · rcases prepares.helper with ⟨unset, -⟩ | ⟨due, -⟩ | ⟨-, -, same⟩
    · rw [used] at unset
      cases unset
    · rw [used] at due
      cases due
    · exact .inr ⟨used, same.trans used, prepares.config ▸ last⟩

/-- Asking the next target, or the helper, leaves behind what the walk had left behind. -/
theorem asking_behind (due : pending.helper = true → walk.helper = .due)
    (behind : walk.Behind canonical) :
    CandidateWalk.Behind { prepared with pending := some pending } canonical := by
  refine (prepared_behind walks prepares behind).imp id fun ⟨used, asked, last⟩ => ⟨asked, ?_, last⟩
  cases helper : pending.helper with
  | false => exact helper
  | true =>
    rw [used] at due
    cases due helper

end

/-- A batch asks the targets from the index on. -/
theorem batch_targets {count : Nat} (walks : fill.Walks prepared) (valid : fill.Valid)
    (found : prepared.target prepared.index = some canonical)
    (granted : prepared.isGranted canonical = true)
    (inside : prepared.index + count ≤ prepared.count) :
    ∀ later < count, prepared.target (prepared.index + later) = some (canonical + later) := by
  intro later _
  have handoff := CandidateWalk.isGranted_handoff granted
  rw [walks.owners] at handoff
  cases ranked : fill.rank with
  | none => exact absurd (walks.target_reader ranked found).1 (Nat.not_lt.mpr handoff)
  | some => exact walks.target_run ranked valid found handoff (by omega)

/-- A batch asks none of the targets that are behind. -/
theorem batch_ahead {count other later : Nat} (walks : fill.Walks walk) (valid : fill.Valid)
    (prepares : CandidateWalk.Prepared walk prepared)
    (found : prepared.target prepared.index = some canonical)
    (granted : prepared.isGranted canonical = true)
    (inside : prepared.index + count ≤ prepared.count) (behind : walk.Behind other)
    (few : later < count) : other ≠ canonical + later := by
  rintro rfl
  have started := walks.prepared valid.owners prepares
  have asked := batch_targets started valid found granted inside later few
  rcases prepared_behind walks prepares behind with ⟨_, _, same⟩ | ⟨used, -, -⟩
  · have equal := started.target_injective valid same asked
    omega
  · have reader := walks.reader (by rw [used]; decide) (by rw [used]; decide)
    have handoff := CandidateWalk.isGranted_handoff granted
    rw [started.owners] at handoff
    exact absurd (started.target_reader reader found).1 (Nat.not_lt.mpr handoff)

/-- A batch leaves its targets behind, and every earlier one. -/
theorem batch_visited {count : Nat} (valid : fill.Valid) (walks : fill.walk = .candidates walk)
    (prepares : CandidateWalk.Prepared walk prepared)
    (found : prepared.target prepared.index = some canonical)
    (granted : prepared.isGranted canonical = true)
    (inside : prepared.index + count ≤ prepared.count) (visited : fill.Visited log) :
    ({ fill with walk := .candidates { prepared with
        index := prepared.index + count, batch := count } } : Fill).Visited
      (log ++ (range count).map (canonical + ·)) := by
  have started := valid.walks walk walks
  have behind (other : Nat) (asked : other ∈ log) : walk.Behind other :=
    (behind_candidates walks).mp (visited.2 other asked)
  constructor
  · rw [nodup_append]
    refine ⟨visited.1, nodup_range.map (add_right_injective canonical), ?_⟩
    rintro other asked _ batched rfl
    obtain ⟨later, few, same⟩ := mem_map.mp batched
    exact batch_ahead started valid prepares found granted inside (behind other asked)
      (mem_range.mp few) same.symm
  · intro other member
    rcases mem_append.mp member with asked | batched
    · refine (prepared_behind started prepares (behind other asked)).imp ?_ ?_
      · exact fun ⟨index, earlier, asked⟩ => ⟨index, Nat.lt_add_right count earlier, asked⟩
      · refine fun ⟨_, used, last⟩ => ⟨used, ?_, last⟩
        rw [prepares.ready.pending]
        rfl
    · obtain ⟨later, few, rfl⟩ := mem_map.mp batched
      rw [mem_range] at few
      exact .inl ⟨prepared.index + later, Nat.add_lt_add_left few _,
        batch_targets (started.prepared valid.owners prepares) valid found granted inside later few⟩

/-- The targets an owner's walk has left behind stand before it, or after all owners. -/
theorem Walks.behind_owner (walks : fill.Walks walk) {rank : Nat}
    (owner : fill.rank = some rank) (behind : walk.Behind canonical) :
    canonical ≤ rank ∨ fill.owners.length ≤ canonical := by
  rcases behind with ⟨_, -, asked⟩ | ⟨-, -, last⟩
  · rcases walks.target_owner owner asked with ⟨_, same⟩ | ⟨-, _, -⟩
    · exact .inl (by omega)
    · exact .inr (by omega)
  · exact .inr (last.trans walks.owners).ge

section

variable (valid : fill.Valid) (planned : Planned fill budget after left action)

include valid planned

/-- Every plan asks targets that were not asked in this epoch. -/
theorem planned_visits (visited : fill.Visited log) :
    after.Visits (log ++ action.targets after.owners.length) (some action) := by
  cases planned with
  | @asks walk prepared _ probe _ walks prepares due =>
    refine ⟨log, probe, rfl, rfl, visited.1, fun canonical asked => ?_⟩
    exact asking_behind (valid.walks walk walks) prepares due
      ((behind_candidates walks).mp (visited.2 canonical asked))
  | @batch walk prepared canonical count _ walks prepares found granted _ inside =>
    have started := (valid.walks walk walks).prepared valid.owners prepares
    have handoff := CandidateWalk.isGranted_handoff granted
    rw [started.owners] at handoff
    have targets : (range count).map (fill.owners.length + (canonical - fill.owners.length) + ·) =
          (range count).map (canonical + ·) := by
      rw [Nat.add_sub_cancel' handoff]
    show Fill.Visited _ (log ++ (range count).map _)
    rw [targets]
    exact batch_visited valid walks prepares found granted inside visited
  | @concluded walk _ rank _ walks _ _ owner =>
    show (log ++ []).Nodup ∧ ∀ canonical ∈ log ++ [], canonical ≤ fill.rank.getD 0 ∨
      fill.owners.length ≤ canonical
    rw [append_nil, owner]
    exact ⟨visited.1, fun canonical asked => (valid.walks walk walks).behind_owner owner
      ((behind_candidates walks).mp (visited.2 canonical asked))⟩
  | @remaining _ probe walks =>
    refine ⟨log, probe, rfl, rfl, visited.1, fun canonical asked => ?_⟩
    exact (behind_remaining walks).mp (visited.2 canonical asked)

/-- After a wait the destination that was behind is asked again. -/
theorem planned_again (awaited : fill.Awaited log) : after.Visits log (some action) ∧
      ∃ probe, action = .probe probe ∧ log.getLast? = some probe.canonical := by
  obtain ⟨earlier, canonical, walk, rfl, visited, reader, walks, found, started, undue,
    unskipped⟩ := awaited
  have walking := valid.walks walk walks
  cases planned with
  | @asks other prepared _ probe _ others prepares due outstanding =>
    obtain rfl := Walking.candidates.inj (walks.symm.trans others)
    have index : prepared.index = walk.index :=
      prepares.index.resolve_right fun ⟨consumed, first, _⟩ => unskipped consumed first
    have again : probe.canonical = canonical := by
      cases outstanding with
      | helper => exact absurd (due rfl) undue
      | target _ _ _ _ _ _ asked =>
        rw [prepared_target prepares started, index, found] at asked
        exact (Option.some_inj.mp asked).symm
    constructor
    · refine ⟨earlier, probe, by rw [again], rfl, visited.1, fun other asked => ?_⟩
      exact asking_behind walking prepares due
        ((behind_candidates walks).mp (visited.2 other asked))
    · refine ⟨probe, rfl, ?_⟩
      rw [getLast?_append, again]
      rfl
  | @batch _ prepared _ _ _ others prepares asked granted =>
    obtain rfl := Walking.candidates.inj (walks.symm.trans others)
    have prepared := walking.prepared valid.owners prepares
    have handoff := CandidateWalk.isGranted_handoff granted
    rw [prepared.owners] at handoff
    exact absurd (prepared.target_reader reader asked).1 (Nat.not_lt.mpr handoff)
  | concluded _ _ _ owner =>
    rw [reader] at owner
    cases owner
  | remaining others => exact Walking.noConfusion (walks.symm.trans others)

end

end Fill

/-! ### Whole runs -/

variable {last : Option Action} {fill : Fill}

/-- Spending keeps the targets apart. -/
theorem Fill.charged_visits (budget spent : AcquisitionBudget) {log : List Nat}
    (visits : fill.Visits log last) : (fill.setRequestBudget budget spent).1.Visits log last := by
  rcases fill.setRequestBudget_cases budget spent with
    ⟨same, -, -⟩ | ⟨walk, pending, _, walks, asking, -, -, same⟩
  · rw [same]
    exact visits
  · rw [same]
    have visited {log : List Nat} (visited : fill.Visited log) :
        ({ fill with walk := .candidates { walk with
          pending := some { pending with bounded := some spent } } } : Fill).Visited log := by
      refine ⟨visited.1, fun canonical asked => ?_⟩
      have behind := (behind_candidates walks).mp (visited.2 canonical asked)
      rw [CandidateWalk.Behind, asking] at behind
      exact behind
    have asked (asked : fill.Asked log) : ({ fill with walk := .candidates { walk with
          pending := some { pending with bounded := some spent } } } : Fill).Asked log := by
      obtain ⟨earlier, probe, listed, sent, before⟩ := asked
      exact ⟨earlier, probe, listed, sent, visited before⟩
    have walking : fill.walk ≠ .none := by
      rw [walks]
      nofun
    unfold Visits at visits ⊢
    split
    · exact asked visits
    · exact asked visits
    · exact asked visits
    · exact (if_neg nofun).mpr (asked ((if_neg walking).mp visits))
    · exact visited visits
    · obtain ⟨earlier, canonical, _, listed, before, reader, others, rest⟩ := visits
      obtain rfl := Walking.candidates.inj (walks.symm.trans others)
      exact ⟨earlier, canonical, _, listed, visited before, reader, rfl, rest⟩
    all_goals exact visits

section

variable {spends : Spending} {world next : World} {exchange : Exchange}

theorem Answers.timer {event : Event} (answers : Answers fill last event) :
    event = .timer ∧ Fill.isWait last = true ∨
      (∃ error, event = .abort error) ∨ event ≠ .timer ∧ Fill.isWait last = false := by
  cases answers with
  | wait => exact .inl ⟨rfl, rfl⟩
  | abort error => exact .inr (.inl ⟨error, rfl⟩)
  | _ => exact .inr (.inr ⟨nofun, rfl⟩)

theorem Answers.membership {event : Event} (answers : Answers fill last event) {latest : Option Nat}
    {previousRecentMember : Bool} (refreshes : event = .membership latest previousRecentMember) :
    last = some .refresh := by
  cases answers with
  | refresh => rfl
  | _ => cases refreshes

theorem Exchange.carries {after : Fill}
    (same : exchange.reaction.fill.retried = after.retried) (log : List Nat) :
    (if exchange.opensEpoch then [] else log) =
      if after.retried = exchange.fill.retried then log else [] := by
  unfold opensEpoch
  rw [same]
  by_cases equal : after.retried = exchange.fill.retried
  · rw [if_pos equal, equal, bne_self_eq_false, if_neg Bool.false_ne_true]
  · rw [if_neg equal, if_pos (bne_iff_ne.mpr equal)]

/-- One exchange keeps the targets of an epoch apart, and a timer asks again for the last. -/
theorem Reacts.visits {log : List Nat} (reacts : Reacts spends world exchange next)
    (live : world.Live) (visits : world.fill.Visits log world.last) :
    next.fill.Visits ((if exchange.opensEpoch then [] else log) ++ exchange.visits) next.last ∧
      (exchange.event = .timer → exchange.reaction.action.asks = true →
        ∃ probe, exchange.reaction.action = .probe probe ∧
          log.getLast? = some probe.canonical) := by
  obtain ⟨_, steps⟩ := reacts.steps live
  have phase := steps.phase.of_core
  have charged := charged_visits world.budget exchange.spent visits
  rw [← reacts.charged] at charged
  have stepped := steps.stepped
  cases stepped with
  | failed _ action | unplanned _ action =>
    rw [exchange.visits_eq_nil (by rw [action]; rfl), append_nil, reacts.next, action]
    refine ⟨?_, fun _ asks => Bool.noConfusion asks⟩
    split
    · exact nodup_nil
    · exact Fill.Visits.nodup steps.valid phase charged
  | @acted after _ decided same =>
    have carries := exchange.carries (show exchange.reaction.fill.retried = after.retried from
        core_retried same) log
    have holds := decided_visits steps.valid phase decided charged
    have idle : exchange.reaction.action.asks = false := decided_idle decided rfl
    rw [exchange.visits_eq_nil idle, append_nil, reacts.next, carries]
    exact ⟨(visits_core same _ _).mpr holds, fun _ asks => absurd (idle.symm.trans asks) nofun⟩
  | @planned _ middle after _ _ dispatches decided kept planned same =>
    have carries := exchange.carries (show exchange.reaction.fill.retried = middle.retried from
        (core_retried same).trans ((planned_retried planned).trans (core_retried kept))) log
    have holds := moveVisits_core kept (decided_visits steps.valid phase decided charged)
    have followed := (decided_follows steps.valid phase decided).1.of_core kept
    rw [reacts.next, carries]
    rcases reacts.answers.timer with ⟨timer, waits⟩ | ⟨_, aborts⟩ | ⟨untimed, waits⟩
    · rw [waits] at holds
      obtain ⟨again, probe, asks, found⟩ := planned_again followed planned holds
      have unasked : exchange.visits = [] := by
        unfold Exchange.visits
        rw [timer]
      rw [unasked, append_nil]
      refine ⟨(visits_core same _ _).mpr again, fun _ _ => ⟨probe, asks, ?_⟩⟩
      split at found
      · exact found
      · cases found
    · rw [aborts] at dispatches
      cases dispatches
    · rw [waits] at holds
      have owners : exchange.reaction.fill.owners = after.owners :=
        core_field (·.owners) (fun _ => rfl) same
      have asked : exchange.visits = exchange.reaction.action.targets after.owners.length := by
        rw [← owners]
        unfold Exchange.visits
        split
        · rename_i timer
          exact absurd timer untimed
        · rfl
      rw [asked]
      exact ⟨(visits_core same _ _).mpr (planned_visits followed planned holds),
        fun timer => absurd timer untimed⟩

theorem run_visits {config : FillConfig} {budget : AcquisitionBudget} {exchanges : List Exchange}
    (run : Run (Reacts spends) (World.start config budget) exchanges world) :
    world.fill.Visits (epochLog Exchange.visits exchanges) world.last := by
  refine (run.history (fun (exchanges : List Exchange) (world : World) =>
    world.Live ∧ world.fill.Visits (epochLog Exchange.visits exchanges) world.last) ?_
    ⟨World.start_live config budget, rfl⟩).2
  intro exchanges before exchange after ⟨live, visits⟩ reacts
  refine ⟨reacts.live live, ?_⟩
  rw [epochLog, foldl_append]
  exact (reacts.visits live visits).1

/-! ### Waits and epochs -/

/-- The rankings a read may still leave, and the waits it may still make. -/
def Fill.epochsLeft (fill : Fill) (_ : Option Action) : Nat := if fill.retried then 0 else 1

def Fill.waitsLeft (fill : Fill) (_ : Option Action) : Nat := maxStaleWaits - fill.waits

theorem Fill.charged_counters (fill : Fill) (budget spent : AcquisitionBudget) :
    (fill.setRequestBudget budget spent).1.retried = fill.retried ∧
      (fill.setRequestBudget budget spent).1.waits = fill.waits := by
  rcases fill.setRequestBudget_cases budget spent with
    ⟨same, -, -⟩ | ⟨_, _, _, _, _, -, -, same⟩
  · rw [same]
    exact ⟨rfl, rfl⟩
  · rw [same]
    exact ⟨rfl, rfl⟩

/-- How an exchange that goes on changes the ranking: not at all, or it leaves the first. The waits
do not change, or it makes one of the few. -/
theorem Exchange.Steps.counters {completed : Option Outcome}
    (steps : exchange.Steps last completed) :
    (∃ error, exchange.reaction.action = .done (.error error)) ∨
      (exchange.reaction.fill.retried = exchange.fill.retried ∧
          (∀ version, last = some .refresh → exchange.reaction.action ≠ .rank .current version) ∨
        exchange.fill.retried = false ∧ exchange.reaction.fill.retried = true) ∧
      (exchange.reaction.fill.waits = exchange.fill.waits ∧ exchange.waits = false ∨
        exchange.fill.waits < maxStaleWaits ∧
          exchange.reaction.fill.waits = exchange.fill.waits + 1) := by
  have stepped := steps.stepped
  have unwaited (unwaited : ∀ duration, exchange.reaction.action ≠ .wait duration) :
      exchange.waits = false := by
    unfold Exchange.waits
    split
    · rename_i duration waits
      exact absurd waits (unwaited duration)
    · rfl
  cases stepped with
  | failed _ action | unplanned _ action => exact .inl ⟨_, action⟩
  | acted decided same =>
    obtain ⟨retried, waits⟩ := decided_counters decided
    rw [core_retried same, core_waits same]
    exact .inr ⟨retried.imp_left fun same =>
        ⟨same.1, fun version refreshes acts => same.2 version refreshes (congrArg Move.act acts)⟩,
      waits.imp_left fun same =>
        ⟨same.1, unwaited fun duration waits => same.2 duration (congrArg Move.act waits)⟩⟩
  | planned _ decided kept planned same =>
    obtain ⟨retried, waits⟩ := decided_counters decided
    obtain ⟨equal, unplanned, current⟩ := planned_waits planned
    rw [core_retried same, core_waits same, planned_retried planned, equal, core_retried kept,
      core_waits kept]
    exact .inr ⟨retried.imp_left fun same => ⟨same.1, fun version _ => current version⟩,
      waits.imp_left fun same => ⟨same.1, unwaited unplanned⟩⟩

section

variable (reacts : Reacts spends world exchange next) (live : world.Live)

include reacts live

/-- A refresh and a fallback walk each use up the ranking a read may leave. -/
theorem Reacts.epochs :
    (next.left Fill.epochsLeft + if exchange.refreshes || exchange.startsFallback then 1 else 0) ≤
      world.left Fill.epochsLeft := by
  obtain ⟨_, steps⟩ := reacts.steps live
  have charged := charged_counters world.fill world.budget exchange.spent
  rw [← reacts.charged] at charged
  have within := reacts.left_next Fill.epochsLeft
  rw [reacts.left Fill.epochsLeft (by unfold epochsLeft; rw [charged.1])]
  unfold Fill.epochsLeft at within ⊢
  rcases steps.counters with ⟨_, concluded⟩ | ⟨⟨same, current⟩ | ⟨first, opens⟩, -⟩
  · have neither : (exchange.refreshes || exchange.startsFallback) = false := by
      unfold Exchange.refreshes Exchange.startsFallback
      rw [concluded]
      cases exchange.event with
      | _ => rfl
    rw [reacts.left_failed _ concluded, neither]
    exact Nat.zero_le _
  · have unopened : exchange.opensEpoch = false := by
      unfold Exchange.opensEpoch
      rw [same, bne_self_eq_false]
    have neither : (exchange.refreshes || exchange.startsFallback) = false := by
      rw [Bool.or_eq_false_iff]
      unfold Exchange.refreshes Exchange.startsFallback
      constructor
      · split
        · rename_i membership ranks
          exact absurd ranks (current _ (reacts.answers.membership membership))
        · rfl
      · split
        · rfl
        · exact unopened
        · rfl
    rw [neither]
    rw [same] at within
    exact within
  · rw [opens, if_pos rfl] at within
    rw [first, if_neg Bool.false_ne_true]
    split <;> omega

/-- Every wait uses up one of those a read may make. -/
theorem Reacts.waits : (next.left Fill.waitsLeft + if exchange.waits then 1 else 0) ≤
    world.left Fill.waitsLeft := by
  obtain ⟨_, steps⟩ := reacts.steps live
  have charged := charged_counters world.fill world.budget exchange.spent
  rw [← reacts.charged] at charged
  have within := reacts.left_next Fill.waitsLeft
  rw [reacts.left Fill.waitsLeft (by unfold waitsLeft; rw [charged.2])]
  unfold Fill.waitsLeft at within ⊢
  rcases steps.counters with ⟨_, concluded⟩ | ⟨-, ⟨same, unwaited⟩ | ⟨_, _⟩⟩
  · have unwaited : exchange.waits = false := by
      unfold Exchange.waits
      rw [concluded]
    rw [reacts.left_failed _ concluded, unwaited]
    exact Nat.zero_le _
  · rw [same] at within
    rw [unwaited]
    exact within
  · split <;> omega

end

/-- However its peers answer, a read ends: it always reacts to an answer, and it takes at most
`maxExchanges` exchanges. In each epoch its walks ask every target once, the helper among them,
apart from asking again, after a wait, the destination it waited for, alone. It refreshes or falls
back at most once in all, and waits at most `maxStaleWaits` times. -/
theorem read_ends {config : FillConfig} {budget : AcquisitionBudget} {exchanges : List Exchange}
    (run : Run (Reacts spends) (World.start config budget) exchanges world) :
    exchanges.length ≤ maxExchanges ∧
      (∀ spent event now, spends world.last (world.fill.requestBudget world.budget) spent →
        Answers (world.fill.setRequestBudget world.budget spent).1 world.last event →
        ∃ exchange next, Reacts spends world exchange next ∧ exchange.spent = spent ∧
          exchange.event = event ∧ exchange.now = now) ∧
      (epochLog Exchange.visits exchanges).Nodup ∧
      (∀ exchange next, Reacts spends world exchange next → exchange.event = .timer →
        exchange.reaction.action.asks = true →
        ∃ probe, exchange.reaction.action = .probe probe ∧
          (epochLog Exchange.visits exchanges).getLast? = some probe.canonical) ∧
      exchanges.countP (fun exchange => exchange.refreshes || exchange.startsFallback) ≤ 1 ∧
      exchanges.countP Exchange.waits ≤ maxStaleWaits := by
  have live := run_live run
  have visits := run_visits run
  refine ⟨run_length_le run, ?_, ?_, ?_, ?_, ?_⟩
  · intro spent event now spending answers
    exact live.reacts spending answers now
  · rcases live with ⟨_, done, -⟩ | ⟨valid, phase⟩
    · rw [done] at visits
      exact visits
    · exact Fill.Visits.nodup valid phase.of_core visits
  · intro exchange next reacts timer asks
    exact (reacts.visits live visits).2 timer asks
  · have bounded := run.countP_le World.Live (World.left Fill.epochsLeft)
      (fun exchange => exchange.refreshes || exchange.startsFallback)
      (fun _ _ _ live reacts => reacts.live live) (fun _ _ _ live reacts => reacts.epochs live)
      (World.start_live config budget)
    exact le_trans (Nat.le_add_left _ _) bounded
  · have bounded := run.countP_le World.Live (World.left Fill.waitsLeft) Exchange.waits
      (fun _ _ _ live reacts => reacts.live live) (fun _ _ _ live reacts => reacts.waits live)
      (World.start_live config budget)
    exact le_trans (Nat.le_add_left _ _) bounded

end

/-- A reader's first owner is behind, and the reader waits for it: the owner is the last target
of the epoch, and one wait is made. -/
theorem read_ends_waited :
    ∃ exchanges world,
      Run (Reacts Drives)
          (World.start ⟨.page, false, false, 60000000000, .production⟩
            (.new 60000000000 8 32)) exchanges world ∧
        exchanges.countP Exchange.waits = 1 ∧ exchanges.countP Exchange.waits ≤ maxStaleWaits ∧
        exchanges.length ≤ maxExchanges ∧ (epochLog Exchange.visits exchanges).Nodup := by
  let ranking := plainRanking 2 [10, 7] none (by decide) (by decide)
  obtain ⟨exchanges, world, run, meets⟩ := pageWorld.exists_run [
      ⟨.start false, .nothing, 0⟩,
      ⟨.ranked (.ok ranking), .nothing, 0⟩,
      ⟨.reply (.answer .staleMembership true), .attempt pageInputs, 0⟩,
      ⟨.membership (some 2) false, .nothing, 0⟩]
    (fun exchanges _ => exchanges.countP Exchange.waits = 1) (by decide +kernel)
  obtain ⟨short, -, distinct, -, -, few⟩ := read_ends run
  exact ⟨exchanges, world, run, meets, few, short, distinct⟩

/-- The reader's wait is over, and it asks the same owner again in the same epoch. -/
theorem awaited_destination_asked_again :
    ∃ exchanges world,
      Run (Reacts Drives)
          (World.start ⟨.page, false, false, 60000000000, .production⟩
            (.new 60000000000 8 32)) exchanges world ∧
        epochLog Exchange.asked exchanges = [0, 0] := by
  let ranking := plainRanking 2 [10, 7] none (by decide) (by decide)
  exact pageWorld.exists_run [
      ⟨.start false, .nothing, 0⟩,
      ⟨.ranked (.ok ranking), .nothing, 0⟩,
      ⟨.reply (.answer .staleMembership true), .attempt pageInputs, 0⟩,
      ⟨.membership (some 2) false, .nothing, 0⟩,
      ⟨.timer, .nothing, 4000000000⟩]
    (fun exchanges _ => epochLog Exchange.asked exchanges = [0, 0]) (by decide +kernel)

end Unbounded.Read
