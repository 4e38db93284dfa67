/-
This file proves that the cache of search results keeps its entries in one chain,
from the oldest to the newest. Reading an entry moves it to the newest end,
storing adds one there, and evicting takes the oldest; none of them ever follows
a link to a missing entry, and none of them changes what an entry holds.
-/

import Unbounded.Paths
import Unbounded.LinkedChain
import Unbounded.ListUpdate

namespace Unbounded.Topology.PathCache

open Option List

/-- The links of the entries. -/
def links (cache : PathCache) : Links PathKey := fun key =>
  (cache.entries.lookup key).map fun entry => (entry.older, entry.newer)

/-- What the entries hold. -/
def payload (cache : PathCache) (key : PathKey) : Option (List Route × Nat) :=
  (cache.entries.lookup key).map fun entry => (entry.alternatives, entry.bytes)

/-- The entries of these keys form the chain, from the oldest to the newest. -/
structure Threaded (cache : PathCache) (chain : List PathKey) : Prop where
  nodup : chain.Nodup
  segment : cache.links.Segment none chain none
  oldest : cache.oldest = chain.head?
  newest : cache.newest = chain.getLast?

/-- The caches hold the same. -/
structure SamePayload (next cache : PathCache) : Prop where
  payload : ∀ key, next.payload key = cache.payload key
  bytes : next.bytes = cache.bytes

theorem SamePayload.trans {first second third : PathCache} (later : third.SamePayload second)
    (earlier : second.SamePayload first) : third.SamePayload first :=
  ⟨fun key => (later.payload key).trans (earlier.payload key), later.bytes.trans earlier.bytes⟩

variable {cache : PathCache} {key : PathKey} {chain : List PathKey} {newer older : Option PathKey}

theorem exists_entry (linked : cache.links key = some (older, newer)) :
    ∃ entry, cache.entries.lookup key = some entry :=
  (map_eq_some_iff.mp linked).imp fun _ => And.left

variable {entry : CacheEntry}

theorem links_eq (found : cache.entries.lookup key = some entry) :
    cache.links key = some (entry.older, entry.newer) := by
  unfold links
  rw [found]
  rfl

/-- Changing the links of an entry leaves the others, and what the entries hold. -/
theorem change_spec (update : CacheEntry → CacheEntry)
    (found : cache.entries.lookup key = some entry)
    (keeps : (update entry).alternatives = entry.alternatives ∧
      (update entry).bytes = entry.bytes) :
    ∃ next, cache.change key update = some next ∧ next.SamePayload cache ∧
      next.oldest = cache.oldest ∧ next.newest = cache.newest ∧
      next.entries.lookup key = some (update entry) ∧
      ∀ other, other ≠ key → next.entries.lookup other = cache.entries.lookup other := by
  unfold change
  rw [found]
  refine ⟨_, rfl, ⟨fun other => ?_, rfl⟩, rfl, rfl, AList.lookup_insert _,
    fun other different => AList.lookup_insert_ne different⟩
  unfold payload
  rw [Table.lookup_insert_eq]
  split
  · rename_i same
    rw [same, found, map_some, map_some, keeps.1, keeps.2]
  · rfl

variable {next : PathCache}

theorem links_congr (same : next.entries.lookup key = cache.entries.lookup key) :
    next.links key = cache.links key := by
  unfold links
  rw [same]

/-- Linking past an entry at the newer side. -/
theorem linkNewer_spec {front : List PathKey} (fresh : Option PathKey)
    (nodup : front.Nodup) (segment : cache.links.Segment none front newer) :
    ∃ next, cache.linkNewer front.getLast? fresh = some next ∧ next.SamePayload cache ∧
      next.links.Segment none front fresh ∧ next.newest = cache.newest ∧
      next.oldest = (if front = [] then fresh else cache.oldest) ∧
      ∀ other, other ∉ front → next.entries.lookup other = cache.entries.lookup other := by
  rcases eq_nil_or_concat front with rfl | ⟨_, last, rfl⟩
  · exact ⟨_, rfl, ⟨fun _ => rfl, rfl⟩, trivial, rfl, rfl, fun _ _ => rfl⟩
  rw [concat_eq_append] at *
  obtain ⟨before, after, linked⟩ := segment.mem (mem_append_right _ mem_cons_self)
  obtain ⟨_, found⟩ := exists_entry linked
  obtain ⟨next, changed, payload, oldest, newest, here, others⟩ :=
    change_spec ({ · with newer := fresh }) found ⟨rfl, rfl⟩
  have apart := (nodup_append.mp nodup).2.2
  refine ⟨next, ?_, payload, ?_, newest, ?_, fun other outside => ?_⟩
  · rw [getLast?_concat]
    exact changed
  · refine segment.relinkNewer (fun member inside => ?_) fun before after linked => ?_
    · exact links_congr (others member fun same => apart member inside last mem_cons_self same)
    · rw [links_eq found] at linked
      cases linked
      exact links_eq here
  · rw [if_neg (append_ne_nil_of_right_ne_nil _ (cons_ne_nil _ _)), oldest]
  · refine others other fun same => outside ?_
    exact mem_append_right _ (mem_singleton.mpr same)

/-- Linking past an entry at the older side. -/
theorem linkOlder_spec {back : List PathKey} (fresh : Option PathKey)
    (nodup : back.Nodup) (segment : cache.links.Segment older back none) :
    ∃ next, cache.linkOlder back.head? fresh = some next ∧ next.SamePayload cache ∧
      next.links.Segment fresh back none ∧ next.oldest = cache.oldest ∧
      next.newest = (if back = [] then fresh else cache.newest) ∧
      ∀ other, other ∉ back → next.entries.lookup other = cache.entries.lookup other := by
  cases back with
  | nil => exact ⟨_, rfl, ⟨fun _ => rfl, rfl⟩, trivial, rfl, rfl, fun _ _ => rfl⟩
  | cons =>
    obtain ⟨_, found⟩ := exists_entry segment.1
    obtain ⟨next, changed, payload, oldest, newest, here, others⟩ :=
      change_spec ({ · with older := fresh }) found ⟨rfl, rfl⟩
    have apart := (nodup_cons.mp nodup).1
    refine ⟨next, changed, payload, ?_, oldest, ?_, fun other outside => ?_⟩
    · refine segment.relinkOlder (fun member inside => ?_) fun before after linked => ?_
      · exact links_congr (others member fun same => apart (same ▸ inside))
      · rw [links_eq found] at linked
        cases linked
        exact links_eq here
    · rw [if_neg (cons_ne_nil _ _), newest]
    · exact others other fun same => outside (same ▸ mem_cons_self)

/-- Taking an entry out of the chain links its neighbors together. -/
theorem Threaded.unlink {before after : List PathKey}
    (threaded : cache.Threaded (before ++ key :: after)) :
    ∃ next, cache.unlink before.getLast? after.head? = some next ∧
      next.Threaded (before ++ after) ∧ next.SamePayload cache ∧
      next.entries.lookup key = cache.entries.lookup key := by
  obtain ⟨nodup, segment, oldest, newest⟩ := threaded
  rw [Links.segment_append] at segment
  have parts := nodup_append.mp nodup
  have outsideFront : key ∉ before := fun inside => parts.2.2 key inside key mem_cons_self rfl
  have outsideBack : key ∉ after := (nodup_cons.mp parts.2.1).1
  have backNodup : after.Nodup := (nodup_cons.mp parts.2.1).2
  have disjoint : ∀ other ∈ after, other ∉ before := fun other inside member =>
    parts.2.2 other member other (mem_cons_of_mem _ inside) rfl
  obtain ⟨middle, linkedNewer, payloadNewer, segmentNewer, newestNewer, oldestNewer, keptNewer⟩ :=
    linkNewer_spec after.head? parts.1 segment.1
  have backSegment : middle.links.Segment (some key) after none :=
    segment.2.2.congr fun other inside => links_congr (keptNewer other (disjoint other inside))
  obtain ⟨next, linkedOlder, payloadOlder, segmentOlder, oldestOlder, newestOlder, keptOlder⟩ :=
    linkOlder_spec before.getLast? backNodup backSegment
  refine ⟨next, ?_, ⟨?_, ?_, ?_, ?_⟩, payloadOlder.trans payloadNewer, ?_⟩
  · unfold PathCache.unlink
    rw [linkedNewer]
    exact linkedOlder
  · exact nodup.sublist (List.Sublist.append_left (sublist_cons_self key after) before)
  · rw [Links.segment_append, or_none, or_none]
    refine ⟨segmentNewer.congr fun other inside => ?_, segmentOlder⟩
    exact links_congr (keptOlder other fun back => disjoint other back inside)
  · rw [oldestOlder, oldestNewer]
    cases before with
    | nil => rfl
    | cons => exact oldest
  · rw [newestOlder, newestNewer, newest]
    cases after with
    | nil => simp
    | cons =>
      rw [if_neg (cons_ne_nil _ _), getLast?_append_cons, getLast?_cons_cons, getLast?_append_cons]
  · rw [keptOlder key outsideBack, keptNewer key outsideFront]

/-- A chain grows by one key at the newest end. -/
theorem Threaded.extend (threaded : cache.Threaded chain) (outside : key ∉ chain)
    (linked : next.links key = some (chain.getLast?, none))
    (others : ∀ other ∈ chain, chain.getLast? ≠ some other → next.links other = cache.links other)
    (relinked : ∀ last before after, chain.getLast? = some last →
      cache.links last = some (before, after) → next.links last = some (before, some key))
    (oldest : next.oldest = (chain ++ [key]).head?) (newest : next.newest = some key) :
    next.Threaded (chain ++ [key]) where
  nodup := ListUpdate.nodup_snoc threaded.nodup outside
  segment := by
    rw [Links.segment_append]
    refine ⟨?_, by rw [or_none]; exact ⟨linked, trivial⟩⟩
    have segment := threaded.segment
    have nodup := threaded.nodup
    rcases eq_nil_or_concat chain with rfl | ⟨_, last, rfl⟩
    · trivial
    rw [concat_eq_append] at *
    rw [getLast?_concat] at others relinked
    refine segment.relinkNewer (fun member inside => ?_) fun before after => relinked last _ _ rfl
    refine others member (mem_append_left _ inside) fun same => ?_
    exact (nodup_append.mp nodup).2.2 member inside last mem_cons_self (some.inj same).symm
  oldest := oldest
  newest := by rw [newest, getLast?_concat]

/-- Putting an entry at the newest end of a chain that is not empty. -/
theorem Threaded.touch
    (threaded : cache.Threaded chain) (nonempty : chain ≠ []) (outside : key ∉ chain)
    (found : cache.entries.lookup key = some entry) :
    ∃ next, cache.touch key = some next ∧ next.Threaded (chain ++ [key]) ∧
      next.SamePayload cache := by
  obtain ⟨last, newest⟩ := ne_none_iff_exists'.mp (mt getLast?_eq_none_iff.mp nonempty)
  have inside : last ∈ chain := mem_of_getLast? newest
  obtain ⟨_, _, linked⟩ := threaded.segment.mem inside
  obtain ⟨_, foundLast⟩ := exists_entry linked
  have different : key ≠ last := fun same => outside (same ▸ inside)
  obtain ⟨_, changed, payload, oldestMiddle, -, here, others⟩ :=
    change_spec ({ · with newer := some key }) foundLast ⟨rfl, rfl⟩
  obtain ⟨next, changedKey, payloadKey, oldestNext, -, hereKey, othersKey⟩ :=
    change_spec ({ · with older := some last, newer := none })
      ((others key different).trans found) ⟨rfl, rfl⟩
  refine ⟨{ next with newest := some key }, ?_, threaded.extend outside ?_ ?_ ?_ ?_ rfl,
    { payloadKey.trans payload with }⟩
  · unfold PathCache.touch
    rw [threaded.newest, newest]
    simp only [changed, changedKey, bind_eq_bind, bind_some]
    rfl
  · rw [newest]
    exact links_eq hereKey
  · intro other member distinct
    refine links_congr ((othersKey other fun same => outside (same ▸ member)).trans ?_)
    exact others other fun same => distinct (newest.trans (congrArg some same.symm))
  · intro _ older newer same links
    cases newest.symm.trans same
    rw [links_eq foundLast] at links
    cases links
    exact links_eq ((othersKey last different.symm).trans here)
  · exact (oldestNext.trans oldestMiddle).trans (threaded.oldest.trans
      (head?_append_of_ne_nil _ nonempty).symm)

/-! ### The whole cache -/

/-- The bytes charged for a key. -/
def charged (cache : PathCache) (key : PathKey) : Nat := ((cache.payload key).map (·.2)).getD 0

/-- The chain holds every entry, and the bytes are those of its entries. -/
structure Ordered (cache : PathCache) (chain : List PathKey) : Prop where
  threaded : cache.Threaded chain
  complete : ∀ key, key ∈ chain ↔ ∃ held, cache.payload key = some held
  bytes : cache.bytes = (chain.map cache.charged).sum

theorem ordered_empty : Ordered {} [] where
  threaded := ⟨nodup_nil, trivial, rfl, rfl⟩
  complete _ := ⟨nofun, fun ⟨_, held⟩ => (nomatch held)⟩
  bytes := rfl

theorem charged_congr (same : next.SamePayload cache) : next.charged = cache.charged := by
  funext key
  rw [charged, charged, same.payload]

section

variable (ordered : cache.Ordered chain)

include ordered

theorem Ordered.of_perm {other : List PathKey}
    (threaded : next.Threaded other) (same : next.SamePayload cache)
    (perm : other.Perm chain) : next.Ordered other where
  threaded := threaded
  complete key := by rw [perm.mem_iff, ordered.complete, same.payload]
  bytes := by rw [same.bytes, ordered.bytes, charged_congr same, (perm.map _).sum_eq]

theorem Ordered.mem_iff : key ∈ chain ↔ (cache.entries.lookup key).isSome := by
  rw [ordered.complete, payload, isSome_iff_exists]
  simp

theorem Ordered.size : cache.entries.size = chain.length := by
  have keys : cache.entries.keys.Perm chain := by
    refine (perm_ext_iff_of_nodup cache.entries.nodupKeys ordered.threaded.nodup).mpr ?_
    intro key
    rw [ordered.mem_iff, AList.lookup_isSome]
    rfl
  rw [← keys.length_eq]
  exact (length_map _).symm

theorem Ordered.split (found : cache.entries.lookup key = some entry) :
    ∃ before after, chain = before ++ key :: after ∧ entry.older = before.getLast? ∧
      entry.newer = after.head? := by
  have member : key ∈ chain := ordered.mem_iff.mpr (by rw [found]; rfl)
  obtain ⟨before, after, rfl⟩ := append_of_mem member
  have segment := (Links.segment_append.mp ordered.threaded.segment).2.1
  rw [links_eq found, or_none, or_none, some.injEq, Prod.mk.injEq] at segment
  exact ⟨before, after, rfl, segment⟩

/-- Reading moves the entry to the newest end, and changes nothing else. -/
theorem Ordered.get (key : PathKey) :
    ∃ next, cache.get key = some ((cache.payload key).map (·.1), next) ∧
      next.Ordered (if key ∈ chain then chain.erase key ++ [key] else chain) ∧
      next.SamePayload cache := by
  unfold PathCache.get
  cases found : cache.entries.lookup key with
  | none =>
    have outside : key ∉ chain := by
      rw [ordered.mem_iff, found]
      nofun
    refine ⟨cache, ?_, (if_neg outside).symm ▸ ordered, ⟨fun _ => rfl, rfl⟩⟩
    rw [payload, found]
    rfl
  | some entry =>
    have held : (cache.payload key).map (·.1) = some entry.alternatives := by
      rw [payload, found]
      rfl
    rw [held]
    dsimp only
    obtain ⟨before, after, rfl, older, newer⟩ := ordered.split found
    have outside : key ∉ before ++ after :=
      (nodup_cons.mp (nodup_middle.mp ordered.threaded.nodup)).1
    rw [if_pos (mem_append_right _ mem_cons_self),
      erase_append_right _ fun inside => outside (mem_append_left _ inside),
      erase_cons_head]
    cases after with
    | nil =>
      rw [newer, append_nil]
      exact ⟨cache, rfl, ordered, ⟨fun _ => rfl, rfl⟩⟩
    | cons =>
      obtain ⟨_, first, threaded, payloadFirst, kept⟩ := ordered.threaded.unlink
      obtain ⟨next, touched, threadedNext, payloadNext⟩ := threaded.touch
        (append_ne_nil_of_right_ne_nil _ (cons_ne_nil _ _)) outside (kept.trans found)
      refine ⟨next, ?_, ordered.of_perm threadedNext (payloadNext.trans payloadFirst) ?_,
        payloadNext.trans payloadFirst⟩
      · rw [newer, older, first]
        simp only [head?_cons, isSome_some, if_true, bind_eq_bind, bind_some, touched]
        rfl
      · exact (perm_append_singleton _ _).trans perm_middle.symm

omit ordered in
/-- Evicting takes the oldest entry. -/
theorem Ordered.evict {rest : List PathKey} (ordered : cache.Ordered (key :: rest)) :
    ∃ next, cache.evict = some next ∧ next.Ordered rest ∧
      ∀ other held, next.payload other = some held → cache.payload other = some held := by
  obtain ⟨held, present⟩ := (ordered.complete key).mp mem_cons_self
  obtain ⟨entry, found, rfl⟩ := map_eq_some_iff.mp present
  have outside := (nodup_cons.mp ordered.threaded.nodup).1
  have newer : entry.newer = rest.head? := by
    have first := ordered.threaded.segment.1
    rw [links_eq found, or_none, some.injEq, Prod.mk.injEq] at first
    exact first.2
  generalize cut : ({ cache with oldest := rest.head?, entries := cache.entries.erase key } :
    PathCache) = shorter
  have kept : ∀ other, other ≠ key → shorter.entries.lookup other = cache.entries.lookup other := by
    intro other different
    rw [← cut]
    exact AList.lookup_erase_ne different
  have segment : shorter.links.Segment (some key) rest none :=
    ordered.threaded.segment.2.congr fun other member =>
      links_congr (kept other fun same => outside (same ▸ member))
  obtain ⟨next, linked, payload, segmentNext, oldest, newest, -⟩ :=
    linkOlder_spec none (nodup_cons.mp ordered.threaded.nodup).2 segment
  -- the entries that stay hold what they held
  have held : ∀ other, next.payload other = if other = key then none else cache.payload other := by
    intro other
    rw [payload.payload, PathCache.payload, ← cut, Table.lookup_erase_eq]
    split <;> rfl
  refine ⟨{ next with bytes := next.bytes - entry.bytes }, ?_, ⟨⟨?_, segmentNext, ?_, ?_⟩, ?_, ?_⟩,
    fun other value there => ?_⟩
  · unfold PathCache.evict PathCache.unlink
    have linkedHere : PathCache.linkOlder
        { cache with oldest := rest.head?, entries := cache.entries.erase key } rest.head? none =
          some next := cut ▸ linked
    rw [ordered.threaded.oldest]
    simp only [head?_cons, bind_eq_bind, bind_some, found, newer, PathCache.linkNewer, linkedHere]
    rfl
  · exact (nodup_cons.mp ordered.threaded.nodup).2
  · rw [oldest, ← cut]
  · rw [newest, ← cut]
    cases rest with
    | nil => rfl
    | cons => exact ordered.threaded.newest
  · intro other
    show other ∈ rest ↔ ∃ value, next.payload other = some value
    rw [held]
    split
    · rename_i same
      simp [same, outside]
    · rename_i different
      rw [← ordered.complete other, mem_cons, or_iff_right different]
  · have total := ordered.bytes
    have first : cache.charged key = entry.bytes := by
      rw [charged, present]
      rfl
    have others : rest.map next.charged = rest.map cache.charged := by
      refine map_congr_left fun other member => ?_
      rw [charged, charged, held, if_neg fun same : other = key => outside (same ▸ member)]
    rw [map_cons, sum_cons] at total
    show next.bytes - entry.bytes = (rest.map next.charged).sum
    rw [others, payload.bytes, ← cut]
    show cache.bytes - entry.bytes = _
    omega
  · have before := (held other).symm.trans there
    split at before
    · cases before
    · exact before

omit ordered in
theorem Ordered.charged_eq (ordered : next.Ordered chain)
    (kept : ∀ key held, next.payload key = some held → cache.payload key = some held)
    (member : key ∈ chain) : next.charged key = cache.charged key := by
  obtain ⟨held, found⟩ := (ordered.complete key).mp member
  rw [charged, charged, found, kept key held found]

/-- The entries of these keys are more than the limits leave room for. -/
def Exceeds (cache : PathCache) (entries bytes : Nat) (keys : List PathKey) : Prop :=
  entries ≤ keys.length ∨ bytes < (keys.map cache.charged).sum

/-- Evicting drops the oldest entries, until the limits are kept and no further. -/
theorem Ordered.makeRoom
    {entries steps : Nat} (bytes : Nat) (positive : 0 < entries) (enough : chain.length < steps) :
    ∃ next count, PathCache.makeRoom entries bytes steps cache = some next ∧
      next.Ordered (chain.drop count) ∧ ¬ cache.Exceeds entries bytes (chain.drop count) ∧
      (∀ fewer < count, cache.Exceeds entries bytes (chain.drop fewer)) ∧
      ∀ key held, next.payload key = some held → cache.payload key = some held := by
  induction steps generalizing cache chain with
  | zero => omega
  | succ _ ih =>
    unfold PathCache.makeRoom
    by_cases concluded : entries ≤ cache.entries.size ∨ bytes < cache.bytes
    · rw [if_pos concluded]
      rw [ordered.size, ordered.bytes] at concluded
      cases chain with
      | nil =>
        simp only [length_nil, map_nil, sum_nil] at concluded
        omega
      | cons key rest =>
        obtain ⟨evicted, first, orderedRest, kept⟩ := ordered.evict
        obtain ⟨next, count, made, orderedNext, fits, needed, keptNext⟩ :=
          ih orderedRest (by rw [length_cons] at enough; omega)
        have same : ∀ count, evicted.Exceeds entries bytes (rest.drop count) ↔
            cache.Exceeds entries bytes (rest.drop count) := fun count => by
          unfold Exceeds
          rw [map_congr_left fun other member =>
            orderedRest.charged_eq kept (mem_of_mem_drop member)]
        refine ⟨next, count + 1, ?_, orderedNext, mt (same count).mpr fits, fun fewer below => ?_,
          fun key held found => kept key held (keptNext key held found)⟩
        · rw [first]
          exact made
        · cases fewer with
          | zero => exact concluded
          | succ fewer => exact (same fewer).mp (needed fewer (Nat.lt_of_succ_lt_succ below))
    · rw [if_neg concluded]
      rw [ordered.size, ordered.bytes] at concluded
      exact ⟨cache, 0, rfl, ordered, concluded, nofun, fun _ _ found => found⟩

omit ordered in
/-- The newest entry, if any, links to a key that is added. -/
theorem Threaded.linkLast (threaded : cache.Threaded chain) (key : PathKey) :
    ∃ next, cache.linkLast key = some next ∧ next.SamePayload cache ∧
      next.oldest = (chain ++ [key]).head? ∧
      (∀ other ∈ chain, chain.getLast? ≠ some other → next.links other = cache.links other) ∧
      ∀ last before after, chain.getLast? = some last →
        cache.links last = some (before, after) → next.links last = some (before, some key) := by
  unfold PathCache.linkLast
  rw [threaded.newest]
  cases newest : chain.getLast? with
  | none =>
    rw [getLast?_eq_none_iff] at newest
    subst newest
    exact ⟨_, rfl, ⟨fun _ => rfl, rfl⟩, rfl, nofun, nofun⟩
  | some last =>
    have inside : last ∈ chain := mem_of_getLast? newest
    obtain ⟨_, _, linked⟩ := threaded.segment.mem inside
    obtain ⟨_, found⟩ := exists_entry linked
    obtain ⟨next, changed, payload, oldest, -, here, others⟩ :=
      change_spec ({ · with newer := some key }) found ⟨rfl, rfl⟩
    refine ⟨next, changed, payload, ?_, fun other member distinct => ?_, ?_⟩
    · rw [oldest, threaded.oldest, head?_append_of_ne_nil _ (ne_nil_of_mem inside)]
    · exact links_congr (others other fun same => distinct (congrArg some same.symm))
    · intro _ _ newer same links
      cases same
      rw [links_eq found] at links
      cases links
      exact links_eq here

/-- Adding a result at the newest end. -/
theorem Ordered.append
    (missing : cache.entries.lookup key = none) (alternatives : List Route) (charge : Nat) :
    ∃ next, cache.append key alternatives charge = some next ∧ next.Ordered (chain ++ [key]) ∧
      next.bytes = cache.bytes + charge ∧ ∀ other held, next.payload other = some held →
        cache.payload other = some held ∨ other = key ∧ held.1 = alternatives := by
  have outside : key ∉ chain := by
    rw [ordered.mem_iff, missing]
    nofun
  obtain ⟨middle, linked, payload, oldest, others, relinked⟩ := ordered.threaded.linkLast key
  let entry : CacheEntry := { alternatives, older := cache.newest, newer := none, bytes := charge }
  generalize made : ({ middle with
    newest := some key, entries := middle.entries.insert key entry
    bytes := middle.bytes + charge } : PathCache) = next
  have here : next.entries.lookup key = some entry := by
    rw [← made]
    exact AList.lookup_insert _
  have kept : ∀ other, other ≠ key → next.entries.lookup other = middle.entries.lookup other := by
    intro other different
    rw [← made]
    exact AList.lookup_insert_ne different
  have held : ∀ other, next.payload other =
      if other = key then some (alternatives, charge) else cache.payload other := by
    intro other
    split
    · rename_i same
      rw [same, PathCache.payload, here]
      rfl
    · rename_i different
      rw [PathCache.payload, kept other different]
      exact payload.payload other
  have distinct : ∀ other ∈ chain, other ≠ key := fun other member same => outside (same ▸ member)
  have bytesNext : next.bytes = cache.bytes + charge := by rw [← payload.bytes, ← made]
  refine ⟨next, ?_, ⟨ordered.threaded.extend outside ?_ ?_ ?_ ?_ ?_, ?_, ?_⟩, bytesNext, ?_⟩
  · unfold PathCache.append
    rw [linked, ← made]
    rfl
  · rw [links_eq here, ← ordered.threaded.newest]
  · intro other member last
    exact (links_congr (kept other (distinct other member))).trans (others other member last)
  · intro last before after newest links
    have member : last ∈ chain := mem_of_getLast? newest
    exact (links_congr (kept last (distinct last member))).trans
      (relinked last before after newest links)
  · rw [← made]
    exact oldest
  · rw [← made]
  · intro other
    rw [held, mem_append, mem_singleton, ordered.complete]
    split
    · rename_i same
      exact iff_of_true (.inr same) ⟨_, rfl⟩
    · rename_i different
      rw [or_iff_left different]
  · have last : next.charged key = charge := by
      rw [charged, held, if_pos rfl]
      rfl
    have before : chain.map next.charged = chain.map cache.charged := by
      refine map_congr_left fun other member => ?_
      rw [charged, charged, held, if_neg (distinct other member)]
    rw [map_append, map_singleton, sum_append, sum_singleton, last, before,
      ← ordered.bytes, bytesNext]
  · intro other _ there
    rw [held] at there
    split at there
    · rename_i same
      cases there
      exact .inr ⟨same, rfl⟩
    · exact .inl there

/-- A store that changes nothing: there is no room at all, the key is held already, or the
result is too big. -/
def Skips (cache : PathCache) (key : PathKey) (charge entries bytes : Nat) : Prop :=
  (entries = 0 ∨ bytes = 0 ∨ (cache.entries.lookup key).isSome) ∨ bytes < charge

/-- Storing changes nothing, or drops the oldest entries as far as needed and adds the result at
the newest end. -/
theorem Ordered.store (key : PathKey) (alternatives : List Route) (charge entries bytes : Nat) :
    ∃ next, cache.store key alternatives charge entries bytes = some next ∧
      (cache.Skips key charge entries bytes ∧ next = cache ∨
        ¬ cache.Skips key charge entries bytes ∧ ∃ count, next.Ordered (chain.drop count ++ [key]) ∧
          next.bytes ≤ bytes ∧ (chain.drop count).length < entries ∧
          ∀ fewer < count, cache.Exceeds entries (bytes - charge) (chain.drop fewer)) ∧
      ∀ key' held, next.payload key' = some held →
        cache.payload key' = some held ∨ key' = key ∧ held.1 = alternatives := by
  unfold PathCache.store
  by_cases skipped : entries = 0 ∨ bytes = 0 ∨ (cache.entries.lookup key).isSome
  · rw [if_pos skipped]
    exact ⟨cache, rfl, .inl ⟨.inl skipped, rfl⟩, fun _ _ found => .inl found⟩
  rw [if_neg skipped]
  by_cases big : bytes < charge
  · rw [if_pos big]
    exact ⟨cache, rfl, .inl ⟨.inr big, rfl⟩, fun _ _ found => .inl found⟩
  rw [if_neg big]
  have missing : key ∉ chain := fun held => skipped (.inr (.inr (ordered.mem_iff.mp held)))
  obtain ⟨room, count, made, orderedRoom, fits, needed, kept⟩ := ordered.makeRoom (bytes - charge)
    (Nat.pos_of_ne_zero fun zero => skipped (.inl zero))
    (show chain.length < cache.entries.size + 1 by rw [ordered.size]; omega)
  have missingRoom : room.entries.lookup key = none := not_isSome_iff_eq_none.mp fun held =>
    missing (mem_of_mem_drop (orderedRoom.mem_iff.mpr held))
  obtain ⟨next, appended, orderedNext, _, keptNext⟩ :=
    orderedRoom.append missingRoom alternatives charge
  unfold Exceeds at fits
  have roomBytes : room.bytes = ((chain.drop count).map cache.charged).sum := by
    rw [orderedRoom.bytes, map_congr_left fun other member => orderedRoom.charged_eq kept member]
  refine ⟨next, ?_, .inr ⟨fun skips => skips.elim skipped big, count, orderedNext, ?_, ?_, needed⟩,
    fun other held found => (keptNext other held found).imp_left (kept other held)⟩
  · rw [made]
    exact appended
  · omega
  · omega

end

/-! ### The order of last use -/

/-- A call on the cache, a store with the bytes charged for its result. -/
inductive CacheCall
  | get (key : PathKey)
  | store (key : PathKey) (alternatives : List Route) (charge : Nat)

/-- The cache after a call, under fixed limits. -/
def perform (cache : PathCache) (entries bytes : Nat) : CacheCall → Option PathCache
  | .get key => (cache.get key).map (·.2)
  | .store key alternatives charge => cache.store key alternatives charge entries bytes

instance (charge entries bytes : Nat) : Decidable (cache.Skips key charge entries bytes) :=
  inferInstanceAs (Decidable (_ ∨ _))

/-- The key a call uses: that of an entry it finds, or adds. -/
def uses (cache : PathCache) (entries bytes : Nat) : CacheCall → List PathKey
  | .get key => if (cache.entries.lookup key).isSome then [key] else []
  | .store key _ charge => if cache.Skips key charge entries bytes then [] else [key]

/-- Serve calls in turn, and list the keys they use, the last one first. -/
def serve (entries bytes : Nat) (cache : PathCache) (used : List PathKey) :
    List CacheCall → Option (PathCache × List PathKey)
  | [] => some (cache, used)
  | call :: rest => do
    let next ← cache.perform entries bytes call
    serve entries bytes next (cache.uses entries bytes call ++ used) rest

/-- The keys were used, the first of them the longest ago. -/
def Recent (used chain : List PathKey) : Prop :=
  chain ⊆ used ∧ chain.Pairwise fun first second => used.idxOf second < used.idxOf first

/-- The chain holds every entry, the least recently used first, within the limits. -/
structure LeastRecent (cache : PathCache) (entries bytes : Nat) (used chain : List PathKey) :
    Prop where
  ordered : cache.Ordered chain
  recent : Recent used chain
  count : chain.length ≤ entries
  limit : cache.bytes ≤ bytes

variable {entries bytes : Nat} {used : List PathKey}

/-- A key that is used is the most recent one. -/
theorem Recent.append {kept : List PathKey} (recent : Recent used chain)
    (sublist : kept.Sublist chain) (outside : key ∉ kept) :
    Recent (key :: used) (kept ++ [key]) := by
  have different : ∀ other ∈ kept, key ≠ other := fun other member same => outside (same ▸ member)
  refine ⟨fun other member => ?_, pairwise_append.mpr
    ⟨(recent.2.sublist sublist).imp_of_mem fun first second less => ?_,
      pairwise_singleton _ _, fun first member last same => ?_⟩⟩
  · rcases mem_append.mp member with old | new
    · exact mem_cons_of_mem _ (recent.1 (sublist.subset old))
    · exact mem_singleton.mp new ▸ mem_cons_self
  · rw [idxOf_cons_ne _ (different _ first), idxOf_cons_ne _ (different _ second)]
    exact Nat.succ_lt_succ less
  · rw [mem_singleton.mp same, idxOf_cons_self,
      idxOf_cons_ne _ (different _ member)]
    exact Nat.succ_pos _

theorem LeastRecent.get (least : cache.LeastRecent entries bytes used chain) (key : PathKey) :
    ∃ next, cache.get key = some ((cache.payload key).map (·.1), next) ∧
      next.LeastRecent entries bytes (cache.uses entries bytes (.get key) ++ used)
        (if key ∈ chain then chain.erase key ++ [key] else chain) := by
  obtain ⟨next, looked, ordered, same⟩ := least.ordered.get key
  have limit : next.bytes ≤ bytes := same.bytes.trans_le least.limit
  refine ⟨next, looked, ordered, ?_, ?_, limit⟩
  · rw [uses]
    simp only [← least.ordered.mem_iff]
    split
    · exact least.recent.append erase_sublist
        least.ordered.threaded.nodup.not_mem_erase
    · exact least.recent
  · split
    · rename_i inside
      rw [length_append, length_erase_of_mem inside, length_singleton,
        Nat.sub_add_cancel (length_pos_of_mem inside)]
      exact least.count
    · exact least.count

theorem LeastRecent.store (least : cache.LeastRecent entries bytes used chain) (key : PathKey)
    (alternatives : List Route) (charge : Nat) :
    ∃ next count other, cache.store key alternatives charge entries bytes = some next ∧
      next.LeastRecent entries bytes
        (cache.uses entries bytes (.store key alternatives charge) ++ used) other ∧
      (cache.Skips key charge entries bytes → next = cache ∧ other = chain) ∧
      (¬ cache.Skips key charge entries bytes → other = chain.drop count ++ [key] ∧
        ∀ fewer < count, cache.Exceeds entries (bytes - charge) (chain.drop fewer)) := by
  obtain ⟨next, stored, effect, -⟩ := least.ordered.store key alternatives charge entries bytes
  rcases effect with ⟨skips, rfl⟩ | ⟨adds, count, ordered, limit, fits, needed⟩
  · refine ⟨next, 0, chain, stored, ?_, fun _ => ⟨rfl, rfl⟩, absurd skips⟩
    rw [uses, if_pos skips]
    exact least
  · refine ⟨next, count, _, stored, ⟨ordered, ?_, ?_, limit⟩, fun skips => absurd skips adds,
      fun _ => ⟨rfl, needed⟩⟩
    · rw [uses, if_neg adds]
      refine least.recent.append (drop_sublist _ _) fun inside => ?_
      exact (nodup_append.mp ordered.threaded.nodup).2.2 key inside key mem_cons_self rfl
    · rw [length_append]
      exact fits

/-- Every sequence of calls is served, and keeps the chain in the order of last use. -/
theorem LeastRecent.serve (calls : List CacheCall)
    (least : cache.LeastRecent entries bytes used chain) :
    ∃ next later other, PathCache.serve entries bytes cache used calls = some (next, later) ∧
      next.LeastRecent entries bytes later other := by
  induction calls generalizing cache used chain with
  | nil => exact ⟨cache, used, chain, rfl, least⟩
  | cons call _ ih =>
    cases call with
    | get key =>
      obtain ⟨_, looked, least⟩ := least.get key
      simp only [PathCache.serve, perform, looked, map_some, bind_eq_bind, bind_some]
      exact ih least
    | store key alternatives charge =>
      obtain ⟨_, _, _, stored, least, -⟩ := least.store key alternatives charge
      simp only [PathCache.serve, perform, stored, bind_eq_bind, bind_some]
      exact ih least

/-- The cache is an exact LRU. Under fixed limits, any sequence of calls is served without a
missing entry, and leaves one chain: following `newer` from `oldest` visits the keys of all
entries once, the least recently used first, and following `older` from `newest` visits them in
reverse. The bytes are those of the entries, and both limits hold. The next call then moves the
key it finds to the newest end; or adds its result there, after it dropped entries from the
oldest end as long as the others left no room for it; or changes nothing. -/
theorem path_cache_exact_lru (entries bytes : Nat) (calls : List CacheCall) :
    ∃ cache used chain, serve entries bytes {} [] calls = some (cache, used) ∧
      (∀ steps, cache.entries.size ≤ steps →
        cache.links.forward steps cache.oldest = chain ∧
        cache.links.backward steps cache.newest = chain.reverse) ∧
      chain.Nodup ∧ (∀ key, key ∈ chain ↔ (cache.entries.lookup key).isSome) ∧
      Recent used chain ∧ cache.bytes = (chain.map cache.charged).sum ∧ cache.bytes ≤ bytes ∧
      cache.entries.size ≤ entries ∧
      (∀ key, ∃ next, cache.get key = some ((cache.payload key).map (·.1), next) ∧
        next.Ordered (if key ∈ chain then chain.erase key ++ [key] else chain)) ∧
      ∀ key alternatives charge, ∃ next count,
        cache.store key alternatives charge entries bytes = some next ∧
        (cache.Skips key charge entries bytes → next = cache) ∧
        (¬ cache.Skips key charge entries bytes → next.Ordered (chain.drop count ++ [key]) ∧
          ∀ fewer < count, cache.Exceeds entries (bytes - charge) (chain.drop fewer)) := by
  have start : LeastRecent {} entries bytes [] [] :=
    ⟨ordered_empty, ⟨nil_subset _, .nil⟩, Nat.zero_le _, Nat.zero_le _⟩
  obtain ⟨cache, used, chain, served, least⟩ := start.serve calls
  have threaded := least.ordered.threaded
  refine ⟨cache, used, chain, served, fun steps enough => ?_, threaded.nodup,
    fun _ => least.ordered.mem_iff, least.recent, least.ordered.bytes, least.limit, ?_,
    fun key => ?_, fun key alternatives charge => ?_⟩
  · rw [least.ordered.size] at enough
    rw [threaded.oldest, threaded.newest]
    exact ⟨threaded.segment.forward_eq enough, threaded.segment.backward_eq enough⟩
  · exact least.ordered.size.trans_le least.count
  · obtain ⟨next, looked, least⟩ := least.get key
    exact ⟨next, looked, least.ordered⟩
  · obtain ⟨next, count, _, stored, least, skips, adds⟩ :=
      least.store key alternatives charge
    exact ⟨next, count, stored, fun skipped => (skips skipped).1,
      fun added => ⟨(adds added).1 ▸ least.ordered, (adds added).2⟩⟩

end Unbounded.Topology.PathCache
