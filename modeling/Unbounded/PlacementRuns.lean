/-
This file proves that a placement answers as a full recomputation would, however
requests, refreshes and maintenance interleave and however memberships follow each
other. Every ranking, in the cache, held by a request or at the side, is one of the
membership its key names: of the members scored so far, or complete. Scoring more
members keeps it one, and so does building it from the ranking of the previous
membership.

A shared cell belongs to one key for all its life, so whoever holds it may go on
with it.
-/

import Unbounded.Placement
import Unbounded.UnionGraph

namespace Unbounded.Topology

open Table Option List

/-! ### Families of memberships -/

namespace Membership

variable {hashing : Hashing}

/-- The memberships have the same IDs and weights. -/
def SamePlacement (membership other : Membership hashing) : Prop :=
  (membership.members.map fun member => (member.id, member.weight)) =
    other.members.map fun member => (member.id, member.weight)

/-- A set of memberships in which each has no record of a predecessor or was built to follow one
of them, and different ones have different identities. -/
structure Family (family : Membership hashing → Prop) : Prop where
  linked : ∀ membership, family membership → membership.delta = none ∨
    ∃ old fresh : Membership hashing, family old ∧ membership = fresh.withPredecessor old
  distinct : ∀ membership other, family membership → family other →
    membership.identity = other.identity → membership.SamePlacement other

variable {membership : Membership hashing}

/-- The record of a predecessor is that of a merge. -/
theorem withPredecessor_delta {old : Membership hashing} {delta : MembershipDelta}
    (recorded : (membership.withPredecessor old).delta = some delta) :
    delta.base = old.identity ∧ delta.oldCount = old.members.length ∧
      Merge old.members membership.members 0 0 delta.changes := by
  unfold withPredecessor at recorded
  split at recorded
  · cases recorded
  obtain ⟨_, merged, rfl⟩ := map_eq_some_iff.mp recorded
  obtain ⟨_, rfl, merge⟩ := mergeChanges_spec merged (by omega) (Nat.zero_le _) (Nat.zero_le _)
  exact ⟨rfl, rfl, merge⟩

theorem Family.delta {family : Membership hashing → Prop} (belongs : Family family)
    (member : family membership) {delta : MembershipDelta}
    (recorded : membership.delta = some delta) :
    ∃ old, family old ∧ delta.base = old.identity ∧ delta.oldCount = old.members.length ∧
      Merge old.members membership.members 0 0 delta.changes := by
  rcases belongs.linked membership member with none | ⟨old, _, known, rfl⟩
  · rw [none] at recorded
    cases recorded
  · exact ⟨old, known, withPredecessor_delta recorded⟩

end Membership

/-! ### Rankings of a key -/

/-- Members with the same IDs and weights have the same rankings. -/
theorem Ranking.Ranks.congr {scoring : Scoring} {members other : List Member} {slot : Nat}
    {ranking : Ranking} (ranks : ranking.Ranks scoring members slot)
    (same : (members.map fun member => (member.id, member.weight)) =
      other.map fun member => (member.id, member.weight)) : ranking.Ranks scoring other slot := by
  have length : members.length = other.length := by
    have lengths := congrArg length same
    rwa [length_map, length_map] at lengths
  have lookup : ∀ position : Nat,
      (members[position]?.map fun member => (member.id, member.weight)) =
      other[position]?.map fun member => (member.id, member.weight) := by
    intro position
    rw [← getElem?_map, same, getElem?_map]
  have genuine : Score.Is scoring members slot = Score.Is scoring other slot := by
    funext score
    have here := lookup score.node
    unfold Score.Is Ranking.score
    cases first : members[score.node]? <;> cases second : other[score.node]? <;> simp_all
  have keys : rankKey scoring members slot = rankKey scoring other slot := by
    funext position
    have here := lookup position
    unfold rankKey
    cases first : members[position]? <;> cases second : other[position]? <;> simp_all
  have keys : keysOf scoring members slot = keysOf scoring other slot := by
    funext positions
    rw [keysOf, keys, keysOf]
  refine ⟨length ▸ ranks.cursor_le, ranks.kept.imp ?_ ?_⟩
  · intro keeps
    exact ⟨genuine ▸ keeps.genuine, keys ▸ keeps.head⟩
  · rintro ⟨done, whole, exact, part, short⟩
    rw [keys, length] at exact part
    exact ⟨done.trans length, genuine ▸ whole, exact, part, short⟩

namespace Placement

variable {hashing : Hashing} {scoring : Scoring} {family : Membership hashing → Prop}

/-- The ranking is one of every membership the key names. -/
def RanksFor (scoring : Scoring) (family : Membership hashing → Prop) (key : CacheKey)
    (ranking : Ranking) : Prop :=
  ∀ membership, family membership → membership.identity = key.1 →
    ranking.Ranks scoring membership.members key.2

theorem ranksFor_empty (key : CacheKey) : RanksFor scoring family key {} :=
  fun _ _ _ => Ranking.ranks_empty _ _ _

theorem ranksFor_of_ranks {membership : Membership hashing} (belongs : Membership.Family family)
    (member : family membership) {slot : Nat} {ranking : Ranking}
    (ranks : ranking.Ranks scoring membership.members slot) :
    RanksFor scoring family (membership.identity, slot) ranking :=
  fun _ other same => ranks.congr (belongs.distinct _ _ member other same.symm)

variable {key : CacheKey}

theorem RanksFor.referenced {ranking : Ranking} (ranks : RanksFor scoring family key ranking)
    (referenced : Bool) :
    RanksFor scoring family key { ranking with referenced } := fun membership member same => by
  obtain ⟨bound, kept⟩ := ranks membership member same
  exact ⟨bound, kept⟩

/-! ### The invariant -/

/-- Every cell belongs to one key and holds a ranking of it, and holders hold cells of their
keys. -/
structure Valid (scoring : Scoring) (family : Membership hashing → Prop) (owner : Nat → CacheKey)
    (placement : Placement hashing) : Prop where
  heap : ∀ address ranking, placement.heap.lookup address = some ranking →
    address < placement.nextAddress ∧ RanksFor scoring family (owner address) ranking
  cached : ∀ key address, placement.cache.entries.lookup key = some address →
    owner address = key ∧ ∃ ranking, placement.heap.lookup address = some ranking
  known : ∀ caller call, placement.calls.lookup caller = some call → family call.membership
  held : ∀ caller call address, placement.calls.lookup caller = some call →
    call.phase = .holding address →
    owner address = (call.membership.identity, scoring.slot call.key) ∧
      ∃ ranking, placement.heap.lookup address = some ranking
  active : ∀ slot address, placement.maintenance.active = some (slot, address) →
    (∃ identity, placement.maintenance.identity = some identity ∧
      owner address = (identity, slot)) ∧
      ∃ ranking, placement.heap.lookup address = some ranking
  refreshing : ∀ key ranking, placement.refresh = some (key, ranking) →
    RanksFor scoring family key ranking

variable {owner : Nat → CacheKey} {placement : Placement hashing} {address caller : Nat}

/-! ### The cache -/

/-- What stays when the cache makes room. -/
structure Trims (before after : Placement hashing) : Prop where
  calls : after.calls = before.calls
  maintenance : after.maintenance = before.maintenance
  refresh : after.refresh = before.refresh
  nextAddress : after.nextAddress = before.nextAddress
  capacity : after.capacity = before.capacity

theorem Trims.rfl' {placement : Placement hashing} : Trims placement placement :=
  ⟨rfl, rfl, rfl, rfl, rfl⟩

theorem mem_keys {cache : RankingCache} (member : key ∈ cache.keys) :
    ∃ address, cache.entries.lookup key = some address := by
  rw [RankingCache.keys, mem_insertionSort] at member
  exact isSome_iff_exists.mp (AList.lookup_isSome.mpr (AList.mem_keys.mp member))

/-- CLOCK finds an entry while there is one. -/
theorem next_spec {cache : RankingCache} (nonempty : 0 < cache.entries.size) :
    ∃ key address, cache.next = some key ∧ cache.entries.lookup key = some address := by
  have listed : cache.keys ≠ [] := by
    rw [← length_pos_iff_ne_nil, RankingCache.keys, length_insertionSort]
    rwa [AList.keys, keys, length_map]
  obtain ⟨first, _, keysEq⟩ := exists_cons_of_ne_nil listed
  unfold RankingCache.next
  cases found : cache.hand.bind cache.after with
  | none =>
    obtain ⟨address, looked⟩ := mem_keys (keysEq ▸ mem_cons_self)
    exact ⟨first, address, by rw [keysEq]; rfl, looked⟩
  | some key =>
    obtain ⟨_, -, after⟩ := bind_eq_some_iff.mp found
    obtain ⟨address, looked⟩ := mem_keys (mem_of_find?_eq_some after)
    exact ⟨key, address, rfl, looked⟩

theorem noteAdded_entries (cache : RankingCache) (identity : Nat) :
    (cache.noteAdded identity).entries = cache.entries := by
  unfold RankingCache.noteAdded
  split <;> rfl

theorem nextOld_lookup {base : Nat} (found : placement.nextOld base = some key) :
    ∃ address, placement.cache.entries.lookup key = some address := by
  have listed := (filter_eq_some_iff.mp found).1
  split at listed <;> exact mem_keys (mem_of_find?_eq_some listed)

/-! ### Requests -/

/-- The caller's request, in some phase. -/
def HasCall (placement : Placement hashing) (caller : Nat) (membership : Membership hashing)
    (key : Bytes) : Prop :=
  ∃ phase, placement.calls.lookup caller = some { membership, key, phase }

/-- Every request is still there, in some phase. -/
def Keeps (placement after : Placement hashing) : Prop :=
  ∀ caller membership key, placement.HasCall caller membership key →
    after.HasCall caller membership key

variable {after : Placement hashing}

theorem Keeps.of_calls (calls : after.calls = placement.calls) : placement.Keeps after := by
  intro _ _ _ has
  rwa [HasCall, calls]

theorem Keeps.setPhase (keeps : placement.Keeps after) (caller : Nat) (phase : RankPhase) :
    placement.Keeps (after.setPhase caller phase) := by
  intro other membership key has
  obtain ⟨old, looked⟩ := keeps other membership key has
  unfold HasCall Placement.setPhase
  rw [lookup_modify]
  split
  · rename_i same
    exact ⟨phase, by rw [← same, looked]; rfl⟩
  · exact ⟨old, looked⟩

/-- What a poll leaves: every request, and the owners if it returns them. -/
structure Polled (scoring : Scoring) (family : Membership hashing → Prop)
    (placement : Placement hashing) (call : RankCall hashing) (reply : RankReply)
    (after : Placement hashing) : Prop where
  valid : ∃ owner, after.Valid scoring family owner
  kept : placement.Keeps after
  returned : ∀ owners, reply = .ready (.ok owners) → owners =
    (placementOrder scoring call.membership.members (scoring.slot call.key)).take replicas

/-! ### Steps that keep the invariant -/

variable {call : RankCall hashing}

section

variable (valid : placement.Valid scoring family owner)

include valid

/-- The ranking of a cell changes to another one of its key. -/
theorem Valid.setRanking {old ranking : Ranking}
    (present : placement.heap.lookup address = some old)
    (ranks : RanksFor scoring family (owner address) ranking) :
    (placement.setRanking address ranking).Valid scoring family owner := by
  have still : ∀ other, (∃ found, placement.heap.lookup other = some found) →
      ∃ found, (placement.heap.insert address ranking).lookup other = some found := by
    rintro other ⟨found, looked⟩
    rw [lookup_insert_eq]
    split
    · exact ⟨ranking, rfl⟩
    · exact ⟨found, looked⟩
  exact { valid with
    heap := forall_insert valid.heap ⟨(valid.heap address old present).1, ranks⟩
    cached := fun key other looked => (valid.cached key other looked).imp_right (still other)
    held := fun caller call other looked phase =>
      (valid.held caller call other looked phase).imp_right (still other)
    active := fun slot other looked => (valid.active slot other looked).imp_right (still other) }

theorem Valid.shrink {cache : RankingCache}
    (smaller : ∀ key address, cache.entries.lookup key = some address →
      placement.cache.entries.lookup key = some address) :
    ({ placement with cache } : Placement hashing).Valid scoring family owner :=
  { valid with
    cached := fun key address looked => valid.cached key address (smaller key address looked) }

/-- CLOCK removes an entry at most. -/
theorem Valid.evictSteps {steps : Nat} (nonempty : 0 < steps → 0 < placement.cache.entries.size) :
    ∃ room after, Placement.evictSteps steps placement = some (room, after) ∧
      after.Valid scoring family owner ∧ Trims placement after := by
  induction steps generalizing placement with
  | zero => exact ⟨false, placement, rfl, valid, .rfl'⟩
  | succ steps ih =>
    obtain ⟨key, address, next, looked⟩ := next_spec (nonempty (Nat.zero_lt_succ steps))
    obtain ⟨-, ranking, present⟩ := valid.cached key address looked
    have ranks := (valid.heap address ranking present).2
    have turned : ({ placement with cache := { placement.cache with hand := some key } } :
        Placement hashing).Valid scoring family owner := valid.shrink fun _ _ looked => looked
    have moved := turned.setRanking present (ranks.referenced false)
    rw [Placement.evictSteps, next]
    simp only [bind_eq_bind, bind_some, looked, present]
    split
    · exact ⟨_, _, rfl, moved.shrink fun _ _ looked => (lookup_erase_some.mp looked).2,
        ⟨rfl, rfl, rfl, rfl, rfl⟩⟩
    · obtain ⟨room, after, evicted, valid, trims⟩ :=
        ih moved fun _ => nonempty (Nat.zero_lt_succ steps)
      exact ⟨room, after, evicted, valid, { trims with }⟩

theorem Valid.evictBounded (budget : Nat) :
    ∃ room after, placement.evictBounded budget = some (room, after) ∧
      after.Valid scoring family owner ∧ Trims placement after :=
  valid.evictSteps fun positive => by omega

/-- Making room removes an entry at most. -/
theorem Valid.makeRoom (membership : Membership hashing) (slot : Nat) :
    ∃ room after, placement.makeRoom membership slot = some (room, after) ∧
      after.Valid scoring family owner ∧ Trims placement after := by
  unfold Placement.makeRoom
  split
  · split
    · exact ⟨_, _, rfl, valid.shrink fun _ _ looked => (lookup_erase_some.mp looked).2,
        ⟨rfl, rfl, rfl, rfl, rfl⟩⟩
    · split <;> exact ⟨_, _, rfl, valid, .rfl'⟩
  · split
    · exact valid.evictBounded _
    · exact ⟨_, _, rfl, valid, .rfl'⟩

/-- A new cell belongs to its key. -/
theorem Valid.install {ranking : Ranking} (ranks : RanksFor scoring family key ranking) :
    ∃ address after owner', placement.install key ranking = (address, after) ∧
      after.Valid scoring family owner' ∧ owner' address = key ∧
      after.heap.lookup address = some ranking ∧ after.calls = placement.calls ∧
      after.maintenance = placement.maintenance ∧ after.refresh = placement.refresh := by
  let owner' : Nat → CacheKey := fun address =>
    if address = placement.nextAddress then key else owner address
  have old {address : Nat} {key : CacheKey} : (owner address = key ∧
      ∃ found, placement.heap.lookup address = some found) → owner' address = key ∧
      ∃ found, (placement.heap.insert placement.nextAddress ranking).lookup address =
        some found := by
    rintro ⟨owned, found, looked⟩
    have below := (valid.heap address found looked).1
    refine ⟨(if_neg below.ne).trans owned, found, ?_⟩
    rw [lookup_insert_eq, if_neg below.ne, looked]
  have self : owner' placement.nextAddress = key := if_pos rfl
  have uncached : ({ placement with
      heap := placement.heap.insert placement.nextAddress ranking
      nextAddress := placement.nextAddress + 1 } : Placement hashing).Valid scoring family owner' :=
    { valid with
      heap := fun address found looked => by
        rcases lookup_insert_some.mp looked with ⟨same, rfl⟩ | ⟨-, looked⟩
        · exact ⟨same ▸ Nat.lt_succ_self _, by rw [same, self]; exact ranks⟩
        · obtain ⟨below, ranks⟩ := valid.heap address found looked
          exact ⟨Nat.lt_succ_of_lt below, by rw [(old ⟨rfl, found, looked⟩).1]; exact ranks⟩
      cached := fun other address looked => old (valid.cached other address looked)
      held := fun caller call address looked phase =>
        old (valid.held caller call address looked phase)
      active := fun slot address looked => by
        obtain ⟨⟨identity, named, owned⟩, present⟩ := valid.active slot address looked
        exact ⟨⟨identity, named, (old ⟨owned, present⟩).1⟩, (old ⟨owned, present⟩).2⟩ }
  unfold Placement.install
  dsimp only
  split
  · exact ⟨_, _, owner', rfl, uncached, self, AList.lookup_insert _, rfl, rfl, rfl⟩
  refine ⟨_, _, owner', rfl, { uncached with cached := fun other address looked => ?_ }, self,
    AList.lookup_insert _, rfl, rfl, rfl⟩
  rw [noteAdded_entries, lookup_insert_eq] at looked
  split at looked
  · rename_i same
    cases looked
    exact ⟨same ▸ self, ranking, AList.lookup_insert _⟩
  · exact uncached.cached other address looked

/-- A request moves to a phase in which it holds a cell of its key at most. -/
theorem Valid.setPhase {phase : RankPhase}
    (holds : ∀ call address, placement.calls.lookup caller = some call → phase = .holding address →
      owner address = (call.membership.identity, scoring.slot call.key) ∧
        ∃ ranking, placement.heap.lookup address = some ranking) :
    (placement.setPhase caller phase).Valid scoring family owner :=
  { valid with
    known := fun other call looked => by
      simp only [Placement.setPhase, lookup_modify] at looked
      split at looked
      · obtain ⟨old, found, rfl⟩ := map_eq_some_iff.mp looked
        exact valid.known caller old found
      · exact valid.known other call looked
    held := fun other call address looked held => by
      simp only [Placement.setPhase, lookup_modify] at looked
      split at looked
      · obtain ⟨old, found, rfl⟩ := map_eq_some_iff.mp looked
        exact holds old address found held
      · exact valid.held other call address looked held }

/-- A cached answer is read from a complete ranking. -/
theorem Valid.readCached {Answer : Type} {membership : Membership hashing}
    (member : family membership) (key : Bytes)
    (read : Ranking → Answer) :
    ∃ answer, placement.readCached scoring membership key read = some answer ∧
      ∀ value, answer = some value → ∃ ranking, value = read ranking ∧
        Ranking.Complete scoring membership.members (scoring.slot key) ranking.best := by
  unfold Placement.readCached
  split
  · exact ⟨none, rfl, nofun⟩
  rename_i address looked
  obtain ⟨owned, ranking, present⟩ := valid.cached _ _ looked
  have ranks := (valid.heap address ranking present).2
  rw [owned] at ranks
  simp only [present, bind_eq_bind, bind_some]
  refine ⟨_, rfl, fun value same => ?_⟩
  split at same
  · rename_i done
    cases same
    exact ⟨ranking, rfl, (ranks membership member rfl).complete (beq_iff_eq.mp done)⟩
  · cases same

theorem Valid.setRefresh {refresh : Option (CacheKey × Ranking)}
    (ranks : ∀ key ranking, refresh = some (key, ranking) → RanksFor scoring family key ranking) :
    ({ placement with refresh } : Placement hashing).Valid scoring family owner :=
  { valid with refreshing := ranks }

/-- The result of a refresh is put in place. -/
theorem Valid.refreshInstall {ranking : Ranking} (ranks : RanksFor scoring family key ranking) :
    ∃ owner', (placement.refreshInstall key ranking).Valid scoring family owner' ∧
      (placement.refreshInstall key ranking).calls = placement.calls := by
  unfold Placement.refreshInstall
  split
  · exact ⟨owner, valid, rfl⟩
  split
  · rename_i address looked
    obtain ⟨owned, _, present⟩ := valid.cached key address looked
    have set := valid.setRanking present (owned ▸ ranks)
    refine ⟨owner, set.shrink fun other found looked => ?_, rfl⟩
    rwa [noteAdded_entries] at looked
  · obtain ⟨_, _, owner', installed, afterValid, -, -, calls, -⟩ :=
      valid.install ranks
    rw [installed]
    exact ⟨owner', afterValid, calls⟩

theorem Valid.refreshRoom (key : CacheKey) :
    ∃ room after, placement.refreshRoom key = some (room, after) ∧
      after.Valid scoring family owner ∧ Trims placement after := by
  unfold Placement.refreshRoom
  split
  · exact valid.evictBounded _
  · exact ⟨_, _, rfl, valid, .rfl'⟩

/-- Maintenance starts over or goes on, for this membership. -/
theorem Valid.restartWork (membership : Membership hashing) :
    (placement.restartWork membership).Valid scoring family owner ∧
      (placement.restartWork membership).calls = placement.calls ∧
      (placement.restartWork membership).maintenance.identity = some membership.identity := by
  unfold Placement.restartWork
  dsimp only
  split
  · exact ⟨{ valid with active := nofun }, rfl, rfl⟩
  rename_i same
  rw [not_or, not_not] at same
  split
  · exact ⟨{ valid with active := valid.active }, rfl, same.1⟩
  · exact ⟨valid, rfl, same.1⟩

variable (belongs : Membership.Family family)

include belongs

section

variable {membership : Membership hashing} (member : family membership)

include member

/-- Scoring more members into a cell of this membership's key. -/
theorem Valid.advanceAt {slot : Nat} (owned : owner address = (membership.identity, slot))
    (present : ∃ ranking, placement.heap.lookup address = some ranking) (work : Option Nat) :
    ∃ ranking after, placement.advanceAt scoring address membership slot work =
        some (ranking, after) ∧ after = placement.setRanking address ranking ∧
      after.Valid scoring family owner ∧ ranking.Ranks scoring membership.members slot ∧
      (work = none → ranking.cursor = membership.members.length) := by
  obtain ⟨old, looked⟩ := present
  have ranks := (valid.heap address old looked).2
  rw [owned] at ranks
  obtain ⟨ranking, advanced, next, -, all, -⟩ := (ranks membership member rfl).advance work
  refine ⟨ranking, _, ?_, rfl, valid.setRanking looked ?_, next, all⟩
  · unfold Placement.advanceAt
    simp only [looked, advanced, bind_eq_bind, bind_some]
    rfl
  · rw [owned]
    exact ranksFor_of_ranks belongs member next

/-- An entry built from that of the previous membership is one of this membership. -/
theorem Valid.updatedEntry (slot : Nat) :
    ∃ answer, placement.updatedEntry scoring membership slot = some answer ∧
      RanksFor scoring family (membership.identity, slot) (answer.getD {}) := by
  unfold Placement.updatedEntry
  cases recorded : membership.delta with
  | none => exact ⟨none, rfl, ranksFor_empty _⟩
  | some delta =>
    obtain ⟨old, known, base, count, merge⟩ := belongs.delta member recorded
    dsimp only
    cases looked : placement.cache.entries.lookup (delta.base, slot) with
    | none => exact ⟨none, rfl, ranksFor_empty _⟩
    | some address =>
      obtain ⟨owned, ranking, present⟩ := valid.cached _ _ looked
      have ranks := (valid.heap address ranking present).2
      rw [owned] at ranks
      obtain ⟨answer, updated, spec⟩ := Ranking.updated_spec old.ordered membership.ordered merge
        (ranks old known base.symm) count rfl
      simp only [present, bind_eq_bind, bind_some]
      split
      · refine ⟨answer, updated, ?_⟩
        cases answer with
        | none => exact ranksFor_empty _
        | some next => exact ranksFor_of_ranks belongs member (spec next rfl)
      · exact ⟨none, rfl, ranksFor_empty _⟩

/-- The entry of a slot is a cell of its key. -/
theorem Valid.ranking (slot : Nat) :
    ∃ answer after owner', placement.ranking scoring membership slot = some (answer, after) ∧
      after.Valid scoring family owner' ∧ after.calls = placement.calls ∧
      after.maintenance = placement.maintenance ∧ after.refresh = placement.refresh ∧
      (∀ address, answer = .ok address → owner' address = (membership.identity, slot) ∧
        ∃ ranking, after.heap.lookup address = some ranking) := by
  unfold Placement.ranking
  dsimp only
  cases looked : placement.cache.entries.lookup (membership.identity, slot) with
  | some address =>
    obtain ⟨owned, ranking, present⟩ := valid.cached _ _ looked
    have ranks := (valid.heap address ranking present).2
    simp only [present, bind_eq_bind, bind_some]
    refine ⟨_, _, owner, rfl, valid.setRanking present (ranks.referenced true), rfl, rfl, rfl, ?_⟩
    intro other same
    cases same
    exact ⟨owned, _, AList.lookup_insert _⟩
  | none =>
    obtain ⟨_, found, ranks⟩ := valid.updatedEntry belongs member slot
    obtain ⟨room, middle, made, middleValid, trims⟩ := valid.makeRoom membership slot
    simp only [found, made, bind_eq_bind, bind_some]
    cases room with
    | false =>
      exact ⟨_, middle, owner, rfl, middleValid, trims.calls, trims.maintenance, trims.refresh,
        nofun⟩
    | true =>
      obtain ⟨address, after, owner', installed, afterValid, owned, present, calls, maintenance,
        refresh⟩ := middleValid.install ranks
      refine ⟨.ok address, after, owner', ?_, afterValid, calls.trans trims.calls,
        maintenance.trans trims.maintenance, refresh.trans trims.refresh, ?_⟩
      · rw [installed]
        rfl
      · intro other same
        cases same
        exact ⟨owned, _, present⟩

/-- A full computation gives the first members of the order. -/
theorem Valid.rank (key : Bytes) :
    ∃ owners after owner', placement.rank scoring membership key = some (owners, after) ∧
      after.Valid scoring family owner' ∧ after.calls = placement.calls ∧
      owners = (placementOrder scoring membership.members (scoring.slot key)).take replicas := by
  obtain ⟨answer, middle, owner', found, middleValid, calls, -, -, entry⟩ :=
    valid.ranking belongs member (scoring.slot key)
  unfold Placement.rank
  simp only [found, bind_eq_bind, bind_some]
  cases answer with
  | ok address =>
    obtain ⟨owned, present⟩ := entry address rfl
    obtain ⟨ranking, _, advanced, rfl, afterValid, ranks, all⟩ :=
      middleValid.advanceAt belongs member owned present none
    simp only [advanced, bind_some]
    exact ⟨_, _, owner', rfl, afterValid, calls, Ranking.candidates_eq (ranks.complete (all rfl))⟩
  | error =>
    obtain ⟨_, advanced, ranks, -, all, -⟩ :=
      (Ranking.ranks_empty scoring membership.members (scoring.slot key)).advance none
    simp only [advanced, bind_some]
    exact ⟨_, middle, owner', rfl, middleValid, calls,
      Ranking.candidates_eq (ranks.complete (all rfl))⟩

/-- A refresh that returns owners returns the first members of the order. -/
theorem Valid.refreshKey (key : Bytes) :
    ∃ answer after owner', placement.refreshKey scoring membership key = some (answer, after) ∧
      after.Valid scoring family owner' ∧ after.calls = placement.calls ∧
      ∀ owners, answer = some owners → owners =
        (placementOrder scoring membership.members (scoring.slot key)).take replicas := by
  obtain ⟨cached, looked, settled⟩ := valid.readCached member key Ranking.candidates
  have looked : placement.cached scoring membership key = some cached := looked
  unfold Placement.refreshKey
  simp only [looked, bind_eq_bind, bind_some]
  cases cached with
  | some candidates =>
    refine ⟨_, _, owner, rfl, { valid with refreshing := nofun }, rfl, fun owners same => ?_⟩
    cases same
    obtain ⟨ranking, same, whole⟩ := settled candidates rfl
    exact same.trans (Ranking.candidates_eq whole)
  | none =>
    have work : RanksFor scoring family (membership.identity, scoring.slot key)
        (placement.refreshWork (membership.identity, scoring.slot key)) := by
      unfold Placement.refreshWork
      split
      · rename_i other ranking going
        split
        · rename_i same
          exact same ▸ valid.refreshing other ranking going
        · exact ranksFor_empty _
      · exact ranksFor_empty _
    obtain ⟨ranking, advanced, ranks, -⟩ := (work membership member rfl).advance (some workQuantum)
    have ranksFor := ranksFor_of_ranks belongs member ranks
    have working := valid.setRefresh (fun other found same => by
      cases same
      exact ranksFor : ∀ other found,
        some ((membership.identity, scoring.slot key), ranking) = some (other, found) → _)
    simp only [advanced, bind_some]
    split
    · exact ⟨_, _, owner, rfl, working, rfl, nofun⟩
    rename_i done
    have done : complete ranking membership = true := by simpa using done
    have exact := Ranking.candidates_eq (ranks.complete (beq_iff_eq.mp done))
    obtain ⟨room, middle, made, middleValid, trims⟩ :=
      working.refreshRoom (membership.identity, scoring.slot key)
    simp only [made, bind_some]
    cases room with
    | false => exact ⟨_, middle, owner, rfl, middleValid, trims.calls, nofun⟩
    | true =>
      have cleared : ({ middle with refresh := none } : Placement hashing).Valid scoring family
          owner := middleValid.setRefresh nofun
      obtain ⟨owner', installed, calls⟩ := cleared.refreshInstall ranksFor
      refine ⟨_, _, owner', rfl, installed, calls.trans trims.calls, fun owners same => ?_⟩
      cases same
      exact exact

/-- Moving an entry leaves a cell of this membership's key. -/
theorem Valid.maintainEntry
    (identity : placement.maintenance.identity = some membership.identity) (key : CacheKey)
    (address : Nat) :
    ∃ outcome after owner', placement.maintainEntry scoring membership key address =
        some (outcome, after) ∧ after.Valid scoring family owner' ∧
      after.calls = placement.calls := by
  unfold Placement.maintainEntry
  split
  · exact ⟨_, placement, owner, rfl, valid, rfl⟩
  obtain ⟨answer, middle, owner', found, middleValid, calls, maintenance, -, entry⟩ :=
    valid.ranking belongs member key.2
  simp only [found, bind_eq_bind, bind_some]
  cases answer with
  | error => exact ⟨_, middle, owner', rfl, middleValid, calls⟩
  | ok address =>
    obtain ⟨owned, ranking, present⟩ := entry address rfl
    have moved : ({ middle with cache := { middle.cache with
        entries := middle.cache.entries.erase key } } : Placement hashing).Valid scoring family
          owner' := middleValid.shrink fun _ _ looked => (lookup_erase_some.mp looked).2
    simp only [present, bind_some]
    refine ⟨_, _, owner', rfl, { moved with active := fun slot other working => ?_ }, calls⟩
    split at working
    · exact moved.active slot other working
    · cases working
      exact ⟨⟨membership.identity, maintenance ▸ identity, owned⟩, ranking, present⟩

/-- Maintenance keeps every cell one of its key. -/
theorem Valid.maintain :
    ∃ outcome after owner', placement.maintain scoring membership = some (outcome, after) ∧
      after.Valid scoring family owner' ∧ after.calls = placement.calls := by
  obtain ⟨started, calls, identity⟩ := valid.restartWork membership
  unfold Placement.maintain
  dsimp only
  generalize placement.restartWork membership = middle at started calls identity
  have finishes : middle.finishScan.Valid scoring family owner :=
    { started with active := started.active }
  split
  · exact ⟨_, middle, owner, rfl, started, calls⟩
  split
  · rename_i slot address working
    obtain ⟨⟨_, named, owned⟩, present⟩ := started.active slot address working
    obtain rfl := mem_unique identity named
    obtain ⟨_, after, advanced, rfl, afterValid, -⟩ :=
      started.advanceAt belongs member owned present (some workQuantum)
    unfold Placement.maintainActive
    simp only [advanced, bind_eq_bind, bind_some]
    refine ⟨_, _, owner, rfl, ?_, ?_⟩
    · split
      · exact { afterValid with active := nofun }
      · exact afterValid
    · split <;> exact calls
  · exact ⟨_, _, owner, rfl, finishes, calls⟩
  · split
    · exact ⟨_, _, owner, rfl, finishes, calls⟩
    rename_i key found
    obtain ⟨address, looked⟩ := nextOld_lookup found
    simp only [looked, bind_eq_bind, bind_some]
    obtain ⟨outcome, after, owner', moved, afterValid, same⟩ :=
      started.maintainEntry belongs member identity key address
    exact ⟨outcome, after, owner', moved, afterValid, same.trans calls⟩

end

/-- A request that holds its ranking is polled. -/
theorem Valid.pollHolding (member : family call.membership)
    (owned : owner address = (call.membership.identity, scoring.slot call.key))
    (present : ∃ ranking, placement.heap.lookup address = some ranking) :
    ∃ reply after, placement.pollHolding scoring caller call address = some (reply, after) ∧
      placement.Polled scoring family call reply after := by
  obtain ⟨_, _, advanced, rfl, middleValid, ranks, -⟩ :=
    valid.advanceAt belongs member owned present (some workQuantum)
  unfold Placement.pollHolding
  simp only [advanced, bind_eq_bind, bind_some]
  split
  · rename_i done
    refine ⟨_, _, rfl, ⟨owner, middleValid.setPhase nofun⟩,
      .setPhase (.of_calls rfl) _ _, fun owners same => ?_⟩
    cases same
    exact Ranking.candidates_eq (ranks.complete (beq_iff_eq.mp done))
  · exact ⟨_, _, rfl, ⟨owner, middleValid⟩, .of_calls rfl, nofun⟩

/-- A live request can be polled. -/
theorem Valid.poll
    (looked : placement.calls.lookup caller = some call) (live : call.phase ≠ .finished) :
    ∃ reply after, placement.poll scoring caller = some (reply, after) ∧
      placement.Polled scoring family call reply after := by
  have member := valid.known caller call looked
  unfold Placement.poll
  simp only [looked, bind_eq_bind, bind_some]
  cases phase : call.phase with
  | finished => exact absurd phase live
  | holding address =>
    obtain ⟨owned, present⟩ := valid.held caller call address looked phase
    exact valid.pollHolding belongs member owned present
  | created =>
    obtain ⟨answer, middle, owner', found, middleValid, calls, -, -, entry⟩ :=
      valid.ranking belongs member (scoring.slot call.key)
    simp only [found, bind_some]
    cases answer with
    | error =>
      exact ⟨_, _, rfl, ⟨owner', middleValid.setPhase nofun⟩, .setPhase (.of_calls calls) _ _,
        nofun⟩
    | ok address =>
      obtain ⟨owned, present⟩ := entry address rfl
      have holding : (middle.setPhase caller (.holding address)).Valid scoring family owner' := by
        refine middleValid.setPhase fun found other foundCall same => ?_
        cases same
        rw [calls, looked] at foundCall
        cases foundCall
        exact ⟨owned, present⟩
      have keeps := (Keeps.of_calls calls).setPhase caller (.holding address)
      obtain ⟨reply, after, polled, left⟩ := holding.pollHolding belongs member owned present
      exact ⟨reply, after, polled, left.valid, fun _ _ _ has => left.kept _ _ _ (keeps _ _ _ has),
        left.returned⟩

end

/-! ### Runs -/

/-- The membership an event passes. -/
def Event.membership : Event hashing → Option (Membership hashing)
  | .rank membership _ _ | .create _ membership _ | .cached membership _ _
  | .demoted membership _ _ | .isOwner membership _ _ _ | .refresh membership _ _
  | .maintain membership _ => some membership
  | .poll _ _ | .drop _ => none

/-- The answer is that of a full recomputation. -/
def Event.Right (scoring : Scoring) : Event hashing → Prop
  | .rank membership key owners | .cached membership key (some owners)
  | .refresh membership key (some owners) =>
    owners = (placementOrder scoring membership.members (scoring.slot key)).take replicas
  | .demoted membership key (some lower) =>
    let order := placementOrder scoring membership.members (scoring.slot key)
    lower.take 2 = (order.drop replicas).take 2 ∧
      (lower.drop 2).Sublist (order.drop rankedDepth) ∧ (lower.drop 2).Nodup
  | .isOwner membership key accepts true =>
    ((placementOrder scoring membership.members (scoring.slot key)).take replicas).any accepts =
      true
  | _ => True

theorem placementOrder_nodup (members : List Member) (slot : Nat) :
    (placementOrder scoring members slot).Nodup :=
  (perm_insertionSort _ _).nodup_iff.mpr nodup_range

/-- What an event leaves: the request it makes is there, and the owners it returns are those of the
caller's request. -/
def Accounts (scoring : Scoring) (placement : Placement hashing) : Event hashing → Prop
  | .create caller membership key => placement.HasCall caller membership key
  | .poll caller (.ready (.ok owners)) =>
    ∃ membership key, placement.HasCall caller membership key ∧
      owners = (placementOrder scoring membership.members (scoring.slot key)).take replicas
  | _ => True

/-- The placement accounts for the events so far, and every answer is right. -/
structure Recorded (scoring : Scoring) (family : Membership hashing → Prop)
    (events : List (Event hashing)) (placement : Placement hashing) : Prop where
  valid : ∃ owner, placement.Valid scoring family owner
  accounts : ∀ event ∈ events, placement.Accounts scoring event
  right : ∀ event ∈ events, event.Right scoring

variable {events : List (Event hashing)} {event : Event hashing}

theorem Keeps.accounts (keeps : placement.Keeps after)
    (accounts : placement.Accounts scoring event) : after.Accounts scoring event := by
  unfold Accounts at accounts ⊢
  split at accounts
  · exact keeps _ _ _ accounts
  · obtain ⟨membership, key, has, same⟩ := accounts
    exact ⟨membership, key, keeps _ _ _ has, same⟩
  · trivial

/-- A step that keeps the requests and accounts for its event. -/
theorem Recorded.next (recorded : Recorded scoring family events placement)
    (valid : ∃ owner, after.Valid scoring family owner) (keeps : placement.Keeps after)
    (own : after.Accounts scoring event) (right : event.Right scoring) :
    Recorded scoring family (events ++ [event]) after where
  valid := valid
  accounts := forall_mem_append.mpr
    ⟨fun event member => keeps.accounts (recorded.accounts event member),
      forall_mem_singleton.mpr own⟩
  right := forall_mem_append.mpr ⟨recorded.right, forall_mem_singleton.mpr right⟩

/-- Every step keeps the record. -/
theorem Recorded.step (belongs : Membership.Family family)
    (recorded : Recorded scoring family events placement)
    (performs : Performs scoring placement event after)
    (used : ∀ membership, event.membership = some membership → family membership) :
    Recorded scoring family (events ++ [event]) after := by
  obtain ⟨owner, valid⟩ := recorded.valid
  cases performs with
  | @rank _ membership key owners ranked =>
    obtain ⟨_, after', owner', ranked', afterValid, calls, right⟩ :=
      valid.rank belongs (used membership rfl) key
    obtain ⟨rfl, rfl⟩ := Prod.mk.inj (mem_unique ranked' ranked)
    exact recorded.next ⟨owner', afterValid⟩ (.of_calls calls) trivial right
  | @create caller membership key fresh =>
    refine recorded.next ⟨owner, { valid with
      known := forall_insert valid.known (used membership rfl), held := ?_ }⟩ ?_
      ⟨.created, AList.lookup_insert _⟩ trivial
    · intro other call address looked phase
      rcases lookup_insert_some.mp looked with ⟨-, rfl⟩ | ⟨-, looked⟩
      · cases phase
      · exact valid.held other call address looked phase
    · rintro other _ _ ⟨phase, looked⟩
      refine ⟨phase, ?_⟩
      rw [lookup_insert_eq, if_neg, looked]
      rintro rfl
      cases fresh.symm.trans looked
  | @poll _ caller _ polled =>
    have live : ∃ call, placement.calls.lookup caller = some call ∧ call.phase ≠ .finished := by
      have found := polled
      unfold Placement.poll at found
      rw [bind_eq_bind, bind_eq_some_iff] at found
      obtain ⟨call, looked, found⟩ := found
      refine ⟨call, looked, fun finished => ?_⟩
      rw [finished] at found
      cases found
    obtain ⟨call, looked, live⟩ := live
    obtain ⟨reply, after', polled', left⟩ := valid.poll belongs looked live
    obtain ⟨rfl, rfl⟩ := Prod.mk.inj (mem_unique polled' polled)
    refine recorded.next left.valid left.kept ?_ trivial
    match reply with
    | .ready (.ok owners) =>
      exact ⟨call.membership, call.key, left.kept _ _ _ ⟨call.phase, looked⟩,
        left.returned owners rfl⟩
    | .ready (.error _) | .pending => trivial
  | @drop caller =>
    exact recorded.next ⟨owner, valid.setPhase nofun⟩ (.setPhase (.of_calls rfl) caller _)
      trivial trivial
  | @cached membership key answer read =>
    obtain ⟨answer', read', settled⟩ := valid.readCached (used membership rfl) key
      Ranking.candidates
    obtain rfl := mem_unique read' read
    refine recorded.next ⟨owner, valid⟩ (.of_calls rfl) trivial ?_
    cases answer' with
    | none => trivial
    | some owners =>
      obtain ⟨ranking, rfl, whole⟩ := settled owners rfl
      exact Ranking.candidates_eq whole
  | @demoted membership key answer read =>
    obtain ⟨answer', read', settled⟩ := valid.readCached (used membership rfl) key Ranking.demoted
    obtain rfl := mem_unique read' read
    refine recorded.next ⟨owner, valid⟩ (.of_calls rfl) trivial ?_
    cases answer' with
    | none => trivial
    | some lower =>
      obtain ⟨ranking, rfl, whole⟩ := settled lower rfl
      obtain ⟨next, rest⟩ := Ranking.demoted_spec whole
      exact ⟨next, rest, (placementOrder_nodup _ _).sublist (rest.trans (drop_sublist _ _))⟩
  | @isOwner membership key accepts answer read =>
    obtain ⟨answer', read', settled⟩ := valid.readCached (used membership rfl) key
      (·.isOwner accepts)
    refine recorded.next ⟨owner, valid⟩ (.of_calls rfl) trivial ?_
    have same : some (answer'.getD false) = some answer := by
      rw [← read, Placement.isOwner, read']
      rfl
    cases answer with
    | false => trivial
    | true =>
      cases answer' with
      | none => cases same
      | some value =>
        obtain ⟨_, rfl, whole⟩ := settled value rfl
        show any _ accepts = true
        rw [← Ranking.isOwner_eq whole]
        exact some.inj same
  | @refresh _ membership key _ refreshed =>
    obtain ⟨answer', after', owner', refreshed', afterValid, calls, right⟩ :=
      valid.refreshKey belongs (used membership rfl) key
    obtain ⟨rfl, rfl⟩ := Prod.mk.inj (mem_unique refreshed' refreshed)
    refine recorded.next ⟨owner', afterValid⟩ (.of_calls calls) trivial ?_
    cases answer' with
    | none => trivial
    | some owners => exact right owners rfl
  | @maintain _ membership _ maintained =>
    obtain ⟨_, _, owner', maintained', afterValid, calls⟩ :=
      valid.maintain belongs (used membership rfl)
    obtain ⟨rfl, rfl⟩ := Prod.mk.inj (mem_unique maintained' maintained)
    exact recorded.next ⟨owner', afterValid⟩ (.of_calls calls) trivial trivial

theorem recorded_new (capacity : Nat) : Recorded scoring family [] (new capacity) where
  valid := ⟨fun _ => (0, 0), {
    heap := nofun
    cached := nofun
    known := nofun
    held := nofun
    active := nofun
    refreshing := nofun }⟩
  accounts := nofun
  right := nofun

open Transition in
/-- Placement answers equal a full recomputation, for every chain of memberships and every
interleaving of requests, refreshes, reads and maintenance: owners are the first three members of
the order, demoted members the next two and then a part of the rest. No call panics. -/
theorem placement_exact {capacity : Nat} {events : List (Event hashing)}
    {placement : Placement hashing} (run : Run (Performs scoring) (new capacity) events placement)
    (belongs : Membership.Family family)
    (used : ∀ event ∈ events, ∀ membership, event.membership = some membership →
      family membership) :
    (∀ event ∈ events, event.Right scoring) ∧
    (∀ caller membership key owners, .create caller membership key ∈ events →
      .poll caller (.ready (.ok owners)) ∈ events →
      owners = (placementOrder scoring membership.members (scoring.slot key)).take replicas) ∧
    (∀ membership, family membership → ∀ key accepts,
      (placement.rank scoring membership key).isSome ∧
      (placement.cached scoring membership key).isSome ∧
      (placement.demoted scoring membership key).isSome ∧
      (placement.isOwner scoring membership key accepts).isSome ∧
      (placement.refreshKey scoring membership key).isSome ∧
      (placement.maintain scoring membership).isSome) ∧
    ∀ caller call, placement.calls.lookup caller = some call → call.phase ≠ .finished →
      (placement.poll scoring caller).isSome := by
  have guarded := run.guarded
    (fun event => ∀ membership, event.membership = some membership → family membership) used
  have recorded : Recorded scoring family events placement :=
    guarded.history (Recorded scoring family)
      (fun _ _ _ _ recorded step => recorded.step belongs step.1 step.2) (recorded_new capacity)
  obtain ⟨_, valid⟩ := recorded.valid
  refine ⟨recorded.right, fun caller membership key owners created polled => ?_,
    fun membership member key accepts => ?_, fun caller call looked live => ?_⟩
  · obtain ⟨_, looked⟩ := recorded.accounts _ created
    obtain ⟨_, _, ⟨_, looked'⟩, same⟩ := recorded.accounts _ polled
    obtain ⟨rfl, rfl, -⟩ := RankCall.mk.inj (mem_unique looked' looked)
    exact same
  · obtain ⟨_, _, _, ranked, -⟩ := valid.rank belongs member key
    obtain ⟨_, owners, -⟩ := valid.readCached member key Ranking.candidates
    obtain ⟨_, lower, -⟩ := valid.readCached member key Ranking.demoted
    obtain ⟨_, tested, -⟩ := valid.readCached member key (·.isOwner accepts)
    obtain ⟨_, _, _, refreshed, -⟩ := valid.refreshKey belongs member key
    obtain ⟨_, _, _, maintained, -⟩ := valid.maintain belongs member
    rw [ranked, Placement.cached, owners, Placement.demoted, lower, Placement.isOwner, tested,
      refreshed, maintained]
    exact ⟨rfl, rfl, rfl, rfl, rfl, rfl⟩
  · obtain ⟨_, _, polled, -⟩ := valid.poll belongs looked live
    rw [polled]
    rfl

/-- So many members, in no pool. -/
def chainOf (count : Nat) : Membership Membership.spreadHashing where
  members := Membership.spreadMembers.take count
  pools := []
  since := replicate count 0
  ordered := Membership.spreadMembers_ordered.sublist (take_sublist count _)
  built := nofun

def chainStart : Membership Membership.spreadHashing := chainOf 2

def chainFresh : Membership Membership.spreadHashing := chainOf 5

/-- The five members, three of which joined the two. -/
def chainNext : Membership Membership.spreadHashing :=
  { chainFresh with
    generation := 1
    since := [0, 0, 1, 1, 1]
    delta := some {
      base := chainStart.identity, oldCount := 2, changes := [.added 2, .added 3, .added 4] } }

theorem chainNext_eq : chainNext = chainFresh.withPredecessor chainStart := by
  have merged : mergeChanges chainStart.members chainFresh.members 7 0 0 [] =
      some [.added 2, .added 3, .added 4] := by
    rw [show chainStart.members = [0, 1].map Membership.spreadMember from rfl,
      show chainFresh.members = [0, 1, 2, 3, 4].map Membership.spreadMember from rfl]
    simp [mergeChanges, mergeChanges.proceed, Membership.spreadMember, maxIncrementalChanges]
  unfold Membership.withPredecessor
  dsimp only
  rw [show chainStart.members.length + chainFresh.members.length = 7 from rfl, merged]
  rfl

/-- The later a member stands, the better it scores. -/
def chainScoring : Scoring where
  keyHash key := key.length
  sample _ id := 2 ^ 63 + 2 ^ 58 * (id.map Fin.val).headD 0

theorem chain_family : Membership.Family fun membership =>
    membership = chainStart ∨ membership = chainNext where
  linked membership member := by
    rcases member with rfl | rfl
    · exact .inl rfl
    · exact .inr ⟨chainStart, chainFresh, .inl rfl, chainNext_eq⟩
  distinct membership other member known same := by
    rcases member with rfl | rfl <;> rcases known with rfl | rfl
    · rfl
    · exact absurd same (by decide +kernel)
    · exact absurd same (by decide +kernel)
    · rfl

theorem placement_exact_chain :
    ∃ placement : Placement Membership.spreadHashing,
      Transition.Run (Performs chainScoring) (new 8)
        [.rank chainStart [] [1, 0], .rank chainNext [] [4, 3, 2],
          .demoted chainNext [] (some [1, 0])] placement ∧
      [4, 3, 2] =
        (placementOrder chainScoring chainNext.members (chainScoring.slot [])).take replicas := by
  have test : (((new 8).rank chainScoring chainStart []).bind fun first =>
      (first.2.rank chainScoring chainNext []).bind fun second =>
        (second.2.demoted chainScoring chainNext []).map fun third =>
          (first.1, second.1, third)) = some ([1, 0], [4, 3, 2], some [1, 0]) := by
    decide +kernel
  obtain ⟨⟨owners, _⟩, ranked, test⟩ := bind_eq_some_iff.mp test
  obtain ⟨⟨owners', second⟩, ranked', test⟩ := bind_eq_some_iff.mp test
  obtain ⟨lower, read, same⟩ := map_eq_some_iff.mp test
  obtain ⟨rfl, rfl, rfl⟩ : owners = [1, 0] ∧ owners' = [4, 3, 2] ∧ lower = some [1, 0] := by
    simpa only [Prod.mk.injEq] using same
  have run : Transition.Run (Performs chainScoring) (new 8)
      [.rank chainStart [] [1, 0], .rank chainNext [] [4, 3, 2],
        .demoted chainNext [] (some [1, 0])] second :=
    .cons (.rank ranked) (.cons (.rank ranked') (.single (.demoted read)))
  refine ⟨second, run, ?_⟩
  refine (placement_exact run chain_family fun event member membership passed => ?_).1
    (.rank chainNext [] [4, 3, 2]) (by simp)
  simp only [mem_cons, not_mem_nil, or_false] at member
  rcases member with rfl | rfl | rfl <;> cases passed
  · exact .inl rfl
  · exact .inr rfl
  · exact .inr rfl

end Placement

end Unbounded.Topology
