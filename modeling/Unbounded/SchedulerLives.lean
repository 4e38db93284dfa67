/-
This file keeps the account of what is delivered to the contracts of one key. A
contract remembers the pages it has in flight and the pages that are completed; a
page is completed with the only successful result for it, and the slot that holds
the result is consumed once.

Slots may outlive their contract, and a contract that is gone may begin a new life
under the same key. The pages of one life are those of the slots selected in it,
whenever they are consumed.
-/

import Unbounded.SchedulerOwners

namespace Unbounded.Subscriptions

open Table Option List ListUpdate Transition

/-- What a contract remembers of a selection until its slot is gone. -/
structure Flying where
  token : Nat
  page : Nat
  settled : Bool

def Entry.flying {Version : Type*} (entry : Entry Version) : List Flying :=
  entry.pending.map fun flight => ⟨flight.token, flight.page, flight.settled⟩

section

variable {Membership Receiver Version Payload Error : Type*}
  {fanout after : Slots Membership Receiver Version Payload Error}
  {key : EntryKey Membership Receiver} {tokens delivered : List Nat}
  {completed : List Interval} {flying : List Flying}
  {slot : Slot Membership Receiver Version Payload Error}

/-- The slot of a selection: it belongs to the contract, waits for work on its page, and has a
successful result only if the selection is settled. -/
structure Backs (key : EntryKey Membership Receiver)
    (fanout : Slots Membership Receiver Version Payload Error) (flight : Flying)
    (slot : Slot Membership Receiver Version Payload Error) : Prop where
  owner : slot.owner = key
  waits : slot.result = none → flight.settled = false ∧
    ∃ work, fanout.flights.lookup slot.flight = some work ∧ work.page = flight.page
  answers : ∀ delivery, slot.result = some (.ok delivery) →
    flight.settled = true ∧ delivery.grant.page = flight.page

/-- A live contract: the slots selected in its life, the pages delivered to it, what is completed
and what is in flight. -/
structure Serving (key : EntryKey Membership Receiver) (tokens delivered : List Nat)
    (completed : List Interval) (flying : List Flying)
    (fanout : Slots Membership Receiver Version Payload Error) : Prop where
  separated : Separated completed
  tokensDistinct : (flying.map (·.token)).Nodup
  pagesDistinct : (flying.map (·.page)).Nodup
  listed : ∀ flight ∈ flying, flight.token ∈ tokens
  covered : ∀ flight ∈ flying, flight.settled = true ↔ Covers completed flight.page
  backed : ∀ flight ∈ flying, ∃ slot, fanout.pending.lookup flight.token = some slot ∧
    Backs key fanout flight slot
  owned : ∀ token ∈ tokens, ∀ slot, fanout.pending.lookup token = some slot →
    ∃ flight ∈ flying, flight.token = token
  known : ∀ token ∈ tokens, token ≤ fanout.next
  distinct : delivered.Nodup
  gone : ∀ page ∈ delivered, Covers completed page ∧ ∀ flight ∈ flying, flight.page ≠ page

/-- A contract whose life is over: the slots left of it hold results for distinct pages that were
not delivered, and the contract now under its key, if any, knows none of them. -/
structure Served (key : EntryKey Membership Receiver) (tokens delivered : List Nat)
    (flying : List Flying) (fanout : Slots Membership Receiver Version Payload Error) : Prop where
  distinct : delivered.Nodup
  known : ∀ token ∈ tokens, token ≤ fanout.next
  owner : ∀ token ∈ tokens, ∀ slot, fanout.pending.lookup token = some slot → slot.owner = key
  unowned : ∀ flight ∈ flying, flight.token ∉ tokens
  undelivered : ∀ token ∈ tokens, ∀ slot, fanout.pending.lookup token = some slot →
    ∀ delivery, slot.result = some (.ok delivery) → delivery.grant.page ∉ delivered
  apart : ∀ token ∈ tokens, ∀ slot, fanout.pending.lookup token = some slot →
    ∀ other ∈ tokens, ∀ next, fanout.pending.lookup other = some next → token ≠ other →
      ∀ first second, slot.result = some (.ok first) → next.result = some (.ok second) →
        first.grant.page ≠ second.grant.page

theorem Served.nil (flying : List Flying)
    (fanout : Slots Membership Receiver Version Payload Error) :
    Served key [] [] flying fanout :=
  ⟨nodup_nil, nofun, nofun, fun _ _ => not_mem_nil, nofun, nofun⟩

theorem Serving.nil (fanout : Slots Membership Receiver Version Payload Error) :
    Serving key [] [] [] [] fanout :=
  ⟨separated_nil, nodup_nil, nodup_nil, nofun, nofun, nofun, nofun, nofun, nodup_nil, nofun⟩

/-- Only membership matters. -/
theorem Serving.perm {other : List Flying} (serving : Serving key tokens delivered completed flying
      fanout) (same : flying.Perm other) : Serving key tokens delivered completed other fanout where
  __ := serving
  tokensDistinct := (same.map _).nodup_iff.mp serving.tokensDistinct
  pagesDistinct := (same.map _).nodup_iff.mp serving.pagesDistinct
  listed := fun flight member => serving.listed flight (same.mem_iff.mpr member)
  covered := fun flight member => serving.covered flight (same.mem_iff.mpr member)
  backed := fun flight member => serving.backed flight (same.mem_iff.mpr member)
  owned := by
    intro token member slot found
    obtain ⟨flight, flies, own⟩ := serving.owned token member slot found
    exact ⟨flight, same.mem_iff.mp flies, own⟩
  gone := fun page member => ⟨(serving.gone page member).1, fun flight flies =>
    (serving.gone page member).2 flight (same.mem_iff.mpr flies)⟩

variable {token : Nat}

/-- A slot of a life belongs to a selection in flight. -/
theorem Serving.flies (serving : Serving key tokens delivered completed flying fanout)
    (member : token ∈ tokens) (found : fanout.pending.lookup token = some slot) :
    ∃ flight ∈ flying, flight.token = token ∧ Backs key fanout flight slot := by
  obtain ⟨flight, inFlight, own⟩ := serving.owned token member slot found
  obtain ⟨_, present, backs⟩ := serving.backed flight inFlight
  rw [own, found] at present
  cases present
  exact ⟨flight, inFlight, own, backs⟩

/-- A contract's life is over when the contract is gone. -/
theorem Serving.concluded (serving : Serving key tokens delivered completed flying fanout) :
    Served key tokens delivered [] fanout := by
  refine ⟨serving.distinct, serving.known, ?_, nofun, ?_, ?_⟩
  · intro token member slot found
    obtain ⟨flight, -, -, backs⟩ := serving.flies member found
    exact backs.owner
  · intro token member slot found delivery succeeded again
    obtain ⟨flight, inFlight, -, backs⟩ := serving.flies member found
    exact (serving.gone _ again).2 flight inFlight (backs.answers delivery succeeded).2.symm
  · intro token member slot found _ otherMember _ otherFound differs first second
      succeeded otherSucceeded same
    obtain ⟨_, inFlight, own, backs⟩ := serving.flies member found
    obtain ⟨_, inFlight', own', backs'⟩ := serving.flies otherMember otherFound
    rw [(backs.answers first succeeded).2, (backs'.answers second otherSucceeded).2] at same
    have equal := inj_on_of_nodup_map serving.pagesDistinct inFlight inFlight' same
    exact differs (own.symm.trans (equal ▸ own'))

/-! ### Slots that change without a delivery -/

/-- A slot keeps its owner, and its result unless an error takes its place; while it waits, it
waits for the same work. -/
structure Carries (fanout after : Slots Membership Receiver Version Payload Error)
    (slot next : Slot Membership Receiver Version Payload Error) : Prop where
  owner : next.owner = slot.owner
  result : next.result = slot.result ∨ ∃ error, next.result = some (.error error)
  work : next.result = none → ∀ work, fanout.flights.lookup slot.flight = some work →
    after.flights.lookup next.flight = some work

theorem Carries.same {found : Option (Slot Membership Receiver Version Payload Error)}
    (flights : ∀ flight work, fanout.flights.lookup flight = some work →
      after.flights.lookup flight = some work) : Option.Rel (Carries fanout after) found found := by
  cases found with
  | none => exact .none
  | some slot => exact .some ⟨rfl, .inl rfl, fun _ => flights slot.flight⟩

variable {next : Slot Membership Receiver Version Payload Error}
  {delivery : Delivery Payload Membership Receiver Version}

theorem Carries.ok (carries : Carries fanout after slot next)
    (succeeded : next.result = some (.ok delivery)) : slot.result = some (.ok delivery) := by
  rcases carries.result with same | ⟨_, failed⟩
  · exact same.symm.trans succeeded
  · rw [failed] at succeeded
    cases succeeded

variable {flight : Flying}

theorem Backs.carry
    (backs : Backs key fanout flight slot) (carries : Carries fanout after slot next) :
    Backs key after flight next where
  owner := carries.owner.trans backs.owner
  waits := by
    intro waiting
    rcases carries.result with same | ⟨_, failed⟩
    · obtain ⟨unsettled, work, flies, page⟩ := backs.waits (same.symm.trans waiting)
      exact ⟨unsettled, work, carries.work waiting work flies, page⟩
    · rw [failed] at waiting
      cases waiting
  answers := fun delivery succeeded => backs.answers delivery (carries.ok succeeded)

theorem Serving.carry (serving : Serving key tokens delivered completed flying fanout)
    (next : fanout.next ≤ after.next)
    (slots : ∀ token ∈ tokens, Option.Rel (Carries fanout after) (fanout.pending.lookup token)
      (after.pending.lookup token)) :
    Serving key tokens delivered completed flying after :=
  { serving with
    backed := by
      intro flight member
      obtain ⟨slot, found, backs⟩ := serving.backed flight member
      obtain ⟨later, present, carries⟩ :=
        exists_of_some_rel (slots _ (serving.listed flight member)) found
      exact ⟨later, present, backs.carry carries⟩
    owned := by
      intro token member slot found
      obtain ⟨old, present, -⟩ := exists_of_rel_some (slots token member) found
      exact serving.owned token member old present
    known := fun token member => (serving.known token member).trans next }

section

variable (served : Served key tokens delivered flying fanout)

include served

/-- Slots of a life that is over may go, and change without a delivery. -/
theorem Served.fade (next : fanout.next ≤ after.next)
    (slots : ∀ token ∈ tokens, ∀ slot, after.pending.lookup token = some slot → ∃ old,
      fanout.pending.lookup token = some old ∧ slot.owner = old.owner ∧ ∀ delivery,
      slot.result = some (.ok delivery) → old.result = some (.ok delivery)) :
    Served key tokens delivered flying after where
  __ := served
  known := fun token member => (served.known token member).trans next
  owner := by
    intro token member slot found
    obtain ⟨old, present, owner, -⟩ := slots token member slot found
    exact owner.trans (served.owner token member old present)
  undelivered := by
    intro token member slot found delivery succeeded
    obtain ⟨old, present, -, kept⟩ := slots token member slot found
    exact served.undelivered token member old present delivery (kept delivery succeeded)
  apart := by
    intro token member slot found other otherMember next otherFound differs first second
      succeeded otherSucceeded
    obtain ⟨old, present, -, kept⟩ := slots token member slot found
    obtain ⟨old', present', -, kept'⟩ := slots other otherMember next otherFound
    exact served.apart token member old present other otherMember old' present' differs first
      second (kept first succeeded) (kept' second otherSucceeded)

theorem Served.carry (next : fanout.next ≤ after.next) (slots : ∀ token ∈ tokens,
      Option.Rel (Carries fanout after) (fanout.pending.lookup token)
        (after.pending.lookup token)) :
    Served key tokens delivered flying after := by
  refine served.fade next fun token member slot found => ?_
  obtain ⟨old, present, carries⟩ := exists_of_rel_some (slots token member) found
  exact ⟨old, present, carries.owner, fun _ => carries.ok⟩

end

variable {others rest : List Flying}

theorem Served.unknown (served : Served key tokens delivered flying fanout)
    (unowned : ∀ flight ∈ others, flight.token ∉ tokens) :
    Served key tokens delivered others fanout :=
  { served with unowned }

/-! ### A selection -/

section

variable {work : FlightKey Membership Version} {owner : EntryKey Membership Receiver}
  {deadline token flight : Nat} {leader : Bool}

/-- A new slot leaves those of earlier tokens alone. -/
theorem attach_carries (unflown : fanout.flights.lookup (fanout.next + 1) = none)
    (attaches : Fanout.Attaches fanout work owner deadline (after, token, flight, leader))
    {other : Nat} (earlier : other ≤ fanout.next) :
    Option.Rel (Carries fanout after) (fanout.pending.lookup other)
      (after.pending.lookup other) := by
  obtain ⟨-, -, pending, -, flights⟩ := attaches.spec
  rw [pending, lookup_insert_eq, if_neg (by omega)]
  refine Carries.same fun flight work flies => ?_
  rw [flights flight]
  · exact flies
  · rintro rfl
    rw [unflown] at flies
    cases flies

/-- A selection of a page that is neither completed nor in flight. -/
theorem Serving.attach (serving : Serving key tokens delivered completed flying fanout)
    (unflown : fanout.flights.lookup (fanout.next + 1) = none)
    (attaches : Fanout.Attaches fanout work key deadline (after, token, flight, leader))
    (uncovered : ¬ Covers completed work.page)
    (grounded : ∀ flight ∈ flying, flight.page ≠ work.page) :
    Serving key (tokens ++ [token]) delivered completed
      (flying ++ [⟨token, work.page, false⟩]) after := by
  obtain ⟨rfl, next, pending, flies, -⟩ := attaches.spec
  have carried := serving.carry (next.symm ▸ Nat.le_succ _) fun other member =>
    attach_carries unflown attaches (serving.known other member)
  have own : after.pending.lookup (fanout.next + 1) = some {
      owner := key, flight, deadline, result := none, waker := none, promoted := false } := by
    rw [pending, AList.lookup_insert]
  have newer {other : Nat} (member : other ∈ tokens) : other ≠ fanout.next + 1 := by
    have earlier := serving.known other member
    omega
  refine ⟨serving.separated, ?_, ?_, ?_, ?_, ?_, ?_, ?_, serving.distinct, ?_⟩
  · exact nodup_map_snoc serving.tokensDistinct fun flight inFlight =>
      newer (serving.listed flight inFlight)
  · exact nodup_map_snoc serving.pagesDistinct grounded
  · exact forall_mem_snoc (fun other earlier => mem_append_left _ (serving.listed other earlier))
      mem_concat_self
  · exact forall_mem_snoc serving.covered (iff_of_false Bool.false_ne_true uncovered)
  · exact forall_mem_snoc carried.backed
      ⟨_, own, rfl, fun _ => ⟨rfl, work, flies, rfl⟩, nofun⟩
  · intro other member slot found
    rcases mem_append.mp member with earlier | last
    · obtain ⟨flight, inFlight, same⟩ := carried.owned other earlier slot found
      exact ⟨flight, mem_append_left _ inFlight, same⟩
    · exact ⟨_, mem_concat_self, (mem_singleton.mp last).symm⟩
  · exact forall_mem_snoc carried.known next.ge
  · intro page member
    refine ⟨(serving.gone page member).1, forall_mem_snoc (serving.gone page member).2 ?_⟩
    rintro rfl
    exact uncovered (serving.gone _ member).1

end

/-! ### A completion -/

section

variable [DecidableEq Membership] [DecidableEq Receiver]
  (state : Entries Membership Receiver Version × Nat) (token : Nat)
  (owner : EntryKey Membership Receiver) (work : FlightKey Membership Version)

/-- What constructing a response does: it fails and charges nothing, or settles the selection the
slot was made for. -/
inductive Outcome :
    (Entries Membership Receiver Version × Nat) ×
      Except Error (Delivery Payload Membership Receiver Version) → Prop
  | failed (error : Error) : Outcome (state, .error error)
  | settled {entry index contract count flight delivery}
      (found : state.1.lookup owner = some entry)
      (located : locate (fun flight => decide (flight.token = token)) entry.pending =
        some (index, flight)) (page : delivery.grant.page = work.page) :
      Outcome ((state.1.insert owner { entry with
          completed := includeItem entry.completed work.page
          subscription := { entry.subscription with byteBudget := contract }
          pending := entry.pending.set index { flight with settled := true } }, count),
        .ok delivery)

theorem settle_outcome [OfKind Error] (limit : Nat) (result : Except Error (Payload × Nat)) :
    Outcome state token owner work (Scheduler.settle limit result state token owner work) := by
  unfold Scheduler.settle
  split
  · exact .failed _
  split
  · exact .failed _
  rename_i found
  split
  · exact .failed _
  rename_i located
  split
  · dsimp only
    split
    · exact .failed _
    · exact .settled found located rfl
  · exact .failed _

end

/-- A response for another slot, or a failed one, changes no contract in flight. -/
theorem Serving.fail {error : Error}
    (serving : Serving key tokens delivered completed flying fanout)
    (found : fanout.pending.lookup token = some slot) :
    Serving key tokens delivered completed flying { fanout with
      pending := fanout.pending.insert token { slot with
        result := some (.error error), waker := none } } := by
  refine serving.carry le_rfl fun other _ => ?_
  rw [lookup_insert_eq]
  split
  · rename_i same
    rw [same, found]
    exact .some ⟨rfl, .inr ⟨error, rfl⟩, nofun⟩
  · exact Carries.same fun _ _ => id

/-- A successful response settles the selection of its slot. -/
theorem Serving.settle (serving : Serving key tokens delivered completed (flight :: rest) fanout)
    (found : fanout.pending.lookup flight.token = some slot)
    (page : delivery.grant.page = flight.page) :
    Serving key tokens delivered (includeItem completed flight.page)
      (⟨flight.token, flight.page, true⟩ :: rest) { fanout with
        pending := fanout.pending.insert flight.token { slot with
          result := some (.ok delivery), waker := none } } := by
  obtain ⟨separated, covers⟩ := includeItem_spec serving.separated flight.page
  have tokensDistinct := nodup_cons.mp serving.tokensDistinct
  have pagesDistinct := nodup_cons.mp serving.pagesDistinct
  have own : Backs key fanout flight slot := by
    obtain ⟨_, present, backs⟩ := serving.backed flight mem_cons_self
    rw [found] at present
    cases present
    exact backs
  have other {next : Flying} (member : next ∈ rest) : next.token ≠ flight.token := by
    intro same
    exact tokensDistinct.1 (mem_map.mpr ⟨next, member, same⟩)
  refine ⟨separated, serving.tokensDistinct, serving.pagesDistinct, ?_, ?_, ?_, ?_, serving.known,
    serving.distinct, ?_⟩
  · exact forall_mem_cons.mpr (forall_mem_cons.mp serving.listed)
  · intro next member
    rw [covers]
    rcases mem_cons.mp member with rfl | later
    · exact iff_of_true rfl (.inr rfl)
    have differs : next.page ≠ flight.page := fun same =>
      pagesDistinct.1 (mem_map.mpr ⟨next, later, same⟩)
    rw [or_iff_left differs]
    exact serving.covered next (mem_cons_of_mem _ later)
  · intro next member
    rcases mem_cons.mp member with rfl | later
    · refine ⟨_, AList.lookup_insert _, own.owner, nofun, ?_⟩
      rintro _ ⟨⟩
      exact ⟨rfl, page⟩
    · obtain ⟨slot, present, backs⟩ := serving.backed next (mem_cons_of_mem _ later)
      refine ⟨slot, ?_, { backs with }⟩
      rw [lookup_insert_eq, if_neg (other later)]
      exact present
  · intro token member next present
    rcases lookup_insert_some.mp present with ⟨same, -⟩ | ⟨-, present⟩
    · exact ⟨_, mem_cons_self, same.symm⟩
    obtain ⟨old, flies, same⟩ := serving.owned token member next present
    rcases mem_cons.mp flies with rfl | later
    · exact ⟨_, mem_cons_self, same⟩
    · exact ⟨old, mem_cons_of_mem _ later, same⟩
  · intro gone member
    obtain ⟨covered, elsewhere⟩ := serving.gone gone member
    exact ⟨(covers gone).mpr (.inl covered), forall_mem_cons.mpr (forall_mem_cons.mp elsewhere)⟩

variable {entry : Entry Version}

/-- The selections of a contract after one of them is settled. -/
theorem flying_settle {index : Nat} {flight : Flight}
    (found : entry.pending[index]? = some flight) :
    ∃ rest, entry.flying.Perm (⟨flight.token, flight.page, flight.settled⟩ :: rest) ∧
      ∀ completed subscription, ({ entry with
        completed, subscription
        pending := entry.pending.set index { flight with settled := true } } : Entry Version
          ).flying.Perm (⟨flight.token, flight.page, true⟩ :: rest) := by
  obtain ⟨before, after, whole, replaced⟩ := set_split found { flight with settled := true }
  refine ⟨(before ++ after).map fun flight => ⟨flight.token, flight.page, flight.settled⟩, ?_,
    fun _ _ => ?_⟩
  · unfold Entry.flying
    rw [whole]
    exact perm_middle.map _
  · rw [replaced]
    exact perm_middle.map _

variable {returned : (Entries Membership Receiver Version × Nat) ×
    Except Error (Delivery Payload Membership Receiver Version)}
  {work : FlightKey Membership Version} {state : Entries Membership Receiver Version × Nat}

/-- Constructing one response keeps a live contract. -/
theorem Serving.answer [DecidableEq Membership] [DecidableEq Receiver]
    (live : state.1.lookup key = some entry)
    (serving : Serving key tokens delivered entry.completed entry.flying fanout)
    (found : fanout.pending.lookup token = some slot) (waiting : slot.result = none)
    (flies : fanout.flights.lookup slot.flight = some work)
    (outcome : Outcome state token slot.owner work returned) :
    ∃ next, returned.1.1.lookup key = some next ∧
      Serving key tokens delivered next.completed next.flying { fanout with
        pending := fanout.pending.insert token { slot with
          result := some returned.2, waker := none } } := by
  cases outcome with
  | failed => exact ⟨entry, live, serving.fail found⟩
  | @settled _ _ _ _ flight _ present located page =>
    obtain ⟨listed, same⟩ := locate_eq_some located
    have token : flight.token = token := of_decide_eq_true same
    subst token
    by_cases own : slot.owner = key
    · subst own
      obtain rfl := mem_unique live present
      obtain ⟨_, before, after⟩ := flying_settle listed
      have serves := serving.perm before
      obtain ⟨_, backed, backs⟩ := serves.backed _ mem_cons_self
      obtain rfl := mem_unique found backed
      obtain ⟨-, _, known, samePage⟩ := backs.waits waiting
      obtain rfl := mem_unique flies known
      refine ⟨_, AList.lookup_insert _, ?_⟩
      rw [samePage]
      exact (serves.settle found (page.trans samePage)).perm (after _ _).symm
    · refine ⟨entry, ?_, ?_⟩
      · rw [lookup_insert_eq, if_neg (Ne.symm own)]
        exact live
      · -- A slot of another contract is none of this one's.
        have foreign : flight.token ∉ tokens := fun member => by
          obtain ⟨_, -, -, backs⟩ := serving.flies member found
          exact own backs.owner
        refine serving.carry le_rfl fun other member => ?_
        have differs : other ≠ flight.token := fun same => foreign (same ▸ member)
        rw [lookup_insert_eq, if_neg differs]
        exact Carries.same fun _ _ => id

/-- Constructing one response delivers nothing to a life that is over. -/
theorem Served.answer [DecidableEq Membership] [DecidableEq Receiver]
    (served : Served key tokens delivered ((state.1.lookup key).elim [] Entry.flying) fanout)
    (found : fanout.pending.lookup token = some slot)
    (outcome : Outcome state token slot.owner work returned) :
    Served key tokens delivered ((returned.1.1.lookup key).elim [] Entry.flying) { fanout with
      pending := fanout.pending.insert token { slot with
        result := some returned.2, waker := none } } := by
  cases outcome with
  | failed =>
    refine served.fade le_rfl fun other member next present => ?_
    rcases lookup_insert_some.mp present with ⟨same, rfl⟩ | ⟨-, present⟩
    · exact ⟨slot, same ▸ found, rfl, nofun⟩
    · exact ⟨next, present, rfl, fun _ => id⟩
  | @settled _ _ _ _ flight delivery known located page =>
    obtain ⟨listed, same⟩ := locate_eq_some located
    have token : flight.token = token := of_decide_eq_true same
    subst token
    -- The settled selection is of the contract now under its key, so of no life that is over.
    have foreign : flight.token ∉ tokens := fun member => by
      have own := served.owner _ member slot found
      rw [own] at known
      rw [known] at served
      refine served.unowned ⟨flight.token, flight.page, flight.settled⟩ ?_ member
      exact mem_map.mpr ⟨flight, mem_of_getElem? listed, rfl⟩
    have kept : Served key tokens delivered _ { fanout with
        pending := fanout.pending.insert flight.token { slot with
          result := some (.ok delivery), waker := none } } :=
      served.fade le_rfl fun other member next present => by
        have differs : other ≠ flight.token := fun same => foreign (same ▸ member)
        rw [lookup_insert_eq, if_neg differs] at present
        exact ⟨next, present, rfl, fun _ => id⟩
    refine kept.unknown fun other flies => ?_
    rw [lookup_insert_eq] at flies
    split at flies
    · rename_i own
      rw [own, known] at served
      obtain ⟨_, before, after⟩ := flying_settle listed
      have unowned := fun other member => served.unowned other (before.mem_iff.mpr member)
      rcases mem_cons.mp ((after _ _).mem_iff.mp flies) with rfl | later
      · exact unowned ⟨flight.token, flight.page, flight.settled⟩ mem_cons_self
      · exact unowned other (mem_cons_of_mem _ later)
    · exact served.unowned other flies

/-! ### All lives of a key -/

/-- What a key's contracts were delivered: the slots of the current life, those of the lives that
are over, and the pages delivered to each. -/
structure Ledger (key : EntryKey Membership Receiver) (current : List Nat)
    (past : List (List Nat)) (delivered : List Nat → List Nat) (entry : Option (Entry Version))
    (fanout : Slots Membership Receiver Version Payload Error) : Prop where
  serving : ∀ live, entry = some live →
    Serving key current (delivered current) live.completed live.flying fanout
  served : entry = none → Served key current (delivered current) [] fanout
  concluded : ∀ tokens ∈ past,
    Served key tokens (delivered tokens) (entry.elim [] Entry.flying) fanout

section

variable {current : List Nat} {past : List (List Nat)} {pages : List Nat → List Nat}
  {entry : Option (Entry Version)}

theorem Ledger.carry (ledger : Ledger key current past pages entry fanout)
    (next : fanout.next ≤ after.next)
    (slots : ∀ token ≤ fanout.next, Option.Rel (Carries fanout after)
      (fanout.pending.lookup token) (after.pending.lookup token)) :
    Ledger key current past pages entry after where
  serving := fun live found => (ledger.serving live found).carry next fun token member =>
    slots token ((ledger.serving live found).known token member)
  served := fun missing => (ledger.served missing).carry next fun token member =>
    slots token ((ledger.served missing).known token member)
  concluded := fun tokens member => (ledger.concluded tokens member).carry next fun token listed =>
    slots token ((ledger.concluded tokens member).known token listed)

/-- Constructing one response keeps the ledger of every key. -/
theorem Ledger.answer [DecidableEq Membership] [DecidableEq Receiver] {token : Nat}
    (ledger : Ledger key current past pages (state.1.lookup key) fanout)
    (found : fanout.pending.lookup token = some slot) (waiting : slot.result = none)
    (flies : fanout.flights.lookup slot.flight = some work)
    (outcome : Outcome state token slot.owner work returned) :
    Ledger key current past pages (returned.1.1.lookup key) { fanout with
      pending := fanout.pending.insert token { slot with
        result := some returned.2, waker := none } } := by
  have present : returned.1.1.lookup key = none ↔ state.1.lookup key = none := by
    cases outcome with
    | failed => exact Iff.rfl
    | settled known =>
      rw [lookup_insert_eq]
      split
      · rename_i own
        rw [own, known]
        exact iff_of_false nofun nofun
      · exact Iff.rfl
  refine ⟨fun live becomes => ?_, fun missing => ?_, fun tokens member => ?_⟩
  · cases before : state.1.lookup key with
    | none =>
      rw [present.mpr before] at becomes
      cases becomes
    | some entry =>
      obtain ⟨_, after, serving⟩ :=
        Serving.answer before (ledger.serving entry before) found waiting flies outcome
      obtain rfl := mem_unique after becomes
      exact serving
  · have before := present.mp missing
    have served : Served key current (pages current)
        ((state.1.lookup key).elim [] Entry.flying) fanout := by
      rw [before]
      exact ledger.served before
    have answered := served.answer found outcome
    rw [missing] at answered
    exact answered
  · exact (ledger.concluded tokens member).answer found outcome

/-- A flight nobody waits for may go. -/
theorem Ledger.land (flight : Nat) (ledger : Ledger key current past pages entry fanout)
    (next : after.next = fanout.next) (pending : after.pending = fanout.pending)
    (flights : ∀ other, other ≠ flight → after.flights.lookup other = fanout.flights.lookup other)
    (free : ∀ token slot, fanout.pending.lookup token = some slot → slot.result = none →
      slot.flight ≠ flight) :
    Ledger key current past pages entry after := by
  refine ledger.carry next.ge fun token _ => ?_
  rw [pending]
  cases found : fanout.pending.lookup token with
  | none => exact .none
  | some slot =>
    refine .some ⟨rfl, .inl rfl, fun waiting work flies => ?_⟩
    rw [flights _ (free token slot found waiting)]
    exact flies

/-- Moving the followers of a flight to the elected one leaves them waiting for the same work. -/
theorem Ledger.retarget {working : List Nat} {orphan : Nat → Prop} {flight elected : Nat}
    (wake : List Nat) (ledger : Ledger key current past pages entry fanout)
    (owners : fanout.Owners working orphan) (known : fanout.flights.lookup flight = some work)
    (follower : ∃ slot, fanout.Unanswered flight elected slot) (differs : elected ≠ flight) :
    Ledger key current past pages entry { fanout with
      flights := fanout.flights.insert elected work
      pending := (((fanout.unanswered flight).filter fun token => decide (token ≠ flight)).foldl
        (Fanout.retarget elected) (fanout.pending, wake)).1 } := by
  obtain ⟨slot, waits⟩ := follower
  have unflown : fanout.flights.lookup elected = none :=
    (owners.placed waits.1).follows (waits.2.1.trans_ne differs.symm)
  refine ledger.carry le_rfl fun token _ => ?_
  rw [Fanout.retargetAll_lookup elected ((Fanout.unanswered_nodup fanout flight).filter _)]
  split
  · rename_i member
    obtain ⟨_, found, follows, -⟩ := Fanout.mem_unanswered.mp (mem_of_mem_filter member)
    rw [found]
    refine .some ⟨rfl, .inl rfl, fun _ other flies => ?_⟩
    rw [follows, known] at flies
    rw [AList.lookup_insert]
    exact flies
  · refine Carries.same fun other work flies => ?_
    rw [lookup_insert_eq, if_neg]
    · exact flies
    · rintro rfl
      rw [unflown] at flies
      cases flies

/-- Finishing a flight keeps the ledger of every key. -/
theorem Ledger.finish [DecidableEq Membership] [DecidableEq Receiver] [OfKind Error]
    {working : List Nat} {orphan : Nat → Prop} {limit count flight : Nat}
    {result : Except Error (Payload × Nat)} {promote : Bool} {wake : List Nat}
    {entries : Entries Membership Receiver Version}
    (ledger : Ledger key current past pages (entries.lookup key) fanout)
    (owners : fanout.Owners working orphan) :
    Ledger key current past pages
      ((fanout.finish flight promote (Scheduler.settle limit result) (entries, count)
        wake).2.1.1.lookup key)
      (fanout.finish flight promote (Scheduler.settle limit result) (entries, count) wake).1 := by
  have listed := Fanout.unanswered_nodup fanout flight
  unfold Fanout.finish
  split
  · exact ledger
  rename_i work known
  dsimp only
  split
  · rename_i elected first
    obtain ⟨differs, follower⟩ := Fanout.elected_waits first
    obtain ⟨answers, follows, others⟩ :=
      fanout.promoted_slots work flight (Scheduler.settle limit result) elected (entries, count)
        wake
    have moved := ledger.retarget wake owners known follower differs
    have flown : (fanout.flights.insert elected work).lookup flight = some work :=
      (AList.lookup_insert_ne differs.symm).trans known
    have answered := Fanout.answerAll_invariant (fun table policy =>
        Ledger key current past pages (policy.1.lookup key) { fanout with
          flights := fanout.flights.insert elected work, pending := table })
      (fun slot => slot.flight = flight ∧ slot.result = none) (listed.filter _)
      (fun table policy token slot _ found waiting ledger =>
        ledger.answer found waiting.2 (waiting.1 ▸ flown)
          (settle_outcome policy token slot.owner work limit result))
      ((((fanout.unanswered flight).filter fun token => decide (token ≠ flight)).foldl
        (Fanout.retarget elected) (fanout.pending, wake)).1, (entries, count),
        (((fanout.unanswered flight).filter fun token => decide (token ≠ flight)).foldl
        (Fanout.retarget elected) (fanout.pending, wake)).2)
      (fun token member => by
        obtain ⟨waiting, leads⟩ := mem_filter.mp member
        rw [Fanout.retargetAll_lookup elected (listed.filter _), if_neg]
        · exact Fanout.mem_unanswered.mp waiting
        · exact fun among => of_decide_eq_true (mem_filter.mp among).2
            (of_decide_eq_true leads)) moved
    refine answered.land flight rfl rfl (fun other elsewhere => ?_)
      fun token slot found waiting => ?_
    · rw [lookup_insert_eq, lookup_insert_eq, lookup_erase_eq, if_neg elsewhere]
    · by_cases awaits : ∃ old, fanout.Unanswered flight token old
      · obtain ⟨old, awaits⟩ := awaits
        by_cases leads : token = flight
        · subst leads
          obtain ⟨result, answered⟩ := answers old awaits
          obtain rfl := mem_unique answered found
          cases waiting
        · obtain rfl := some_inj.mp ((follows token old awaits leads).symm.trans found)
          exact differs
      · have kept := (others token (not_exists.mp awaits)).symm.trans found
        exact fun own => awaits ⟨slot, kept, own, waiting⟩
  · obtain ⟨answers, others⟩ :=
      fanout.answered_slots work flight (Scheduler.settle limit result) (entries, count) wake
    have answered := Fanout.answerAll_invariant (fun table policy =>
        Ledger key current past pages (policy.1.lookup key) { fanout with pending := table })
      (fun slot => slot.flight = flight ∧ slot.result = none) listed
      (fun table policy token slot _ found waiting ledger =>
        ledger.answer found waiting.2 (waiting.1 ▸ known)
          (settle_outcome policy token slot.owner work limit result))
      (fanout.pending, (entries, count), wake)
      (fun token member => Fanout.mem_unanswered.mp member) ledger
    refine answered.land flight rfl rfl (fun other elsewhere =>
      ?_) fun token slot found waiting => ?_
    · rw [lookup_erase_eq, if_neg elsewhere]
    · by_cases awaits : ∃ old, fanout.Unanswered flight token old
      · obtain ⟨old, awaits⟩ := awaits
        obtain ⟨_, answered⟩ := answers token old awaits
        obtain rfl := mem_unique answered found
        cases waiting
      · have kept := (others token (not_exists.mp awaits)).symm.trans found
        exact fun own => awaits ⟨slot, kept, own, waiting⟩

end

/-! ### A slot that is gone -/

/-- What a removed slot delivers to a life: nothing, or the page of its result. -/
def Delivers (slot : Slot Membership Receiver Version Payload Error) (token : Nat)
    (tokens before now : List Nat) : Prop :=
  now = before ∨ token ∈ tokens ∧ ∃ delivery, slot.result = some (.ok delivery) ∧
    now = before ++ [delivery.grant.page]

variable {now : List Nat}

theorem Served.remove (served : Served key tokens delivered flying fanout)
    (found : fanout.pending.lookup token = some slot)
    (delivers : Delivers slot token tokens delivered now)
    (fewer : ∀ flight ∈ others, ∃ old ∈ flying, old.token = flight.token) :
    Served key tokens now others { fanout with pending := fanout.pending.erase token } := by
  have kept {other : Nat} {next : Slot Membership Receiver Version Payload Error}
      (present : (fanout.pending.erase token).lookup other = some next) :
      other ≠ token ∧ fanout.pending.lookup other = some next := by
    exact lookup_erase_some.mp present
  refine ⟨?_, served.known, ?_, ?_, ?_, ?_⟩
  · rcases delivers with rfl | ⟨member, delivery, succeeded, rfl⟩
    · exact served.distinct
    · exact nodup_snoc served.distinct
        (served.undelivered token member slot found delivery succeeded)
  · exact fun other member next present => served.owner other member next (kept present).2
  · intro flight flies
    obtain ⟨old, before, same⟩ := fewer flight flies
    exact same ▸ served.unowned old before
  · intro other member next present delivery succeeded again
    obtain ⟨differs, present⟩ := kept present
    rcases delivers with rfl | ⟨consumed, first, success, rfl⟩
    · exact served.undelivered other member next present delivery succeeded again
    rcases mem_append.mp again with before | last
    · exact served.undelivered other member next present delivery succeeded before
    · exact served.apart other member next present token consumed slot found differs delivery
        first succeeded success (mem_singleton.mp last)
  · intro other member next present third thirdMember last thirdPresent
    exact served.apart other member next (kept present).2 third thirdMember last
      (kept thirdPresent).2

/-- The slot of a selection is gone, and the selection with it. -/
theorem Serving.consume (serving : Serving key tokens delivered completed (flight :: rest) fanout)
    (found : fanout.pending.lookup flight.token = some slot)
    (delivers : Delivers slot flight.token tokens delivered now) :
    Serving key tokens now completed rest { fanout with
      pending := fanout.pending.erase flight.token } := by
  obtain ⟨unlisted, tokensDistinct⟩ := nodup_cons.mp serving.tokensDistinct
  obtain ⟨unpaged, pagesDistinct⟩ := nodup_cons.mp serving.pagesDistinct
  obtain ⟨_, present, backs⟩ := serving.backed flight mem_cons_self
  obtain rfl := mem_unique found present
  have later {next : Flying} (member : next ∈ rest) : next ∈ flight :: rest :=
    mem_cons_of_mem _ member
  refine ⟨serving.separated, tokensDistinct, pagesDistinct, fun next member =>
    serving.listed next (later member), fun next member => serving.covered next (later member),
    ?_, ?_, serving.known, ?_, ?_⟩
  · intro next member
    obtain ⟨slot, present, holds⟩ := serving.backed next (later member)
    refine ⟨slot, ?_, { holds with }⟩
    rw [lookup_erase_eq, if_neg]
    · exact present
    · exact fun same => unlisted (mem_map.mpr ⟨next, member, same⟩)
  · intro token member slot present
    obtain ⟨differs, present⟩ := lookup_erase_some.mp present
    obtain ⟨next, flies, same⟩ := serving.owned token member slot present
    rcases mem_cons.mp flies with rfl | among
    · exact absurd same.symm differs
    · exact ⟨next, among, same⟩
  · rcases delivers with rfl | ⟨-, delivery, succeeded, rfl⟩
    · exact serving.distinct
    · refine nodup_snoc serving.distinct fun before => ?_
      exact (serving.gone _ before).2 flight mem_cons_self (backs.answers delivery succeeded).2.symm
  · intro page member
    have earlier (before : page ∈ delivered) : Covers completed page ∧
        ∀ next ∈ rest, next.page ≠ page :=
      ⟨(serving.gone page before).1, fun next among =>
        (serving.gone page before).2 next (later among)⟩
    rcases delivers with rfl | ⟨-, delivery, succeeded, rfl⟩
    · exact earlier member
    rcases mem_append.mp member with before | last
    · exact earlier before
    obtain ⟨settled, same⟩ := backs.answers delivery succeeded
    rw [mem_singleton.mp last, same]
    refine ⟨(serving.covered flight mem_cons_self).mp settled, fun next among again => ?_⟩
    exact unpaged (mem_map.mpr ⟨next, among, again⟩)

/-- What a contract has in flight after a slot is gone. -/
theorem flying_drop (entry : Entry Version) (token : Nat) :
    ((entry.drop token).completed = entry.completed) ∧
      ((∀ flight ∈ entry.flying, flight.token ≠ token) ∧ (entry.drop token).flying = entry.flying ∨
        ∃ flight, flight.token = token ∧
          entry.flying.Perm (flight :: (entry.drop token).flying)) := by
  unfold Entry.drop
  split
  · rename_i missing
    refine ⟨rfl, .inl ⟨fun flight member same => ?_, rfl⟩⟩
    obtain ⟨old, listed, rfl⟩ := mem_map.mp member
    have differs := locate_eq_none.mp missing old listed
    rw [decide_eq_false_iff_not] at differs
    exact differs same
  · rename_i flight located
    obtain ⟨listed, same⟩ := locate_eq_some located
    have removed := (swapRemove_perm listed).map fun flight : Flight =>
      (⟨flight.token, flight.page, flight.settled⟩ : Flying)
    split <;> exact ⟨rfl, .inr ⟨_, of_decide_eq_true same, removed⟩⟩

/-- A slot that is gone is dropped by its own contract only. -/
theorem Serving.remove [DecidableEq Membership] [DecidableEq Receiver]
    (serving : Serving key tokens delivered entry.completed entry.flying fanout)
    (found : fanout.pending.lookup token = some slot)
    (delivers : Delivers slot token tokens delivered now) :
    Serving key tokens now (if key = slot.owner then entry.drop token else entry).completed
      (if key = slot.owner then entry.drop token else entry).flying
      { fanout with pending := fanout.pending.erase token } := by
  by_cases member : token ∈ tokens
  · obtain ⟨flight, flies, same, backs⟩ := serving.flies member found
    rw [if_pos backs.owner.symm]
    obtain ⟨completed, ⟨missing, -⟩ | ⟨dropped, rfl, removed⟩⟩ := flying_drop entry token
    · exact absurd same (missing flight flies)
    · rw [completed]
      exact (serving.perm removed).consume found delivers
  · have unlisted : ∀ flight ∈ entry.flying, flight.token ≠ token := fun flight flies same =>
      member (same ▸ serving.listed flight flies)
    have kept : (if key = slot.owner then entry.drop token else entry).completed = entry.completed ∧
        (if key = slot.owner then entry.drop token else entry).flying = entry.flying := by
      split
      · obtain ⟨completed, ⟨-, same⟩ | ⟨dropped, own, removed⟩⟩ := flying_drop entry token
        · exact ⟨completed, same⟩
        · exact absurd own (unlisted dropped (removed.mem_iff.mpr mem_cons_self))
      · exact ⟨rfl, rfl⟩
    rw [kept.1, kept.2]
    rcases delivers with rfl | ⟨consumed, -⟩
    · refine serving.carry le_rfl fun other listed => ?_
      have differs : other ≠ token := fun same => member (same ▸ listed)
      rw [lookup_erase_eq, if_neg differs]
      exact Carries.same fun _ _ => id
    · exact absurd consumed member

/-- Removing a slot keeps the ledger of every key. -/
theorem Ledger.remove [DecidableEq Membership] [DecidableEq Receiver]
    {current : List Nat} {past : List (List Nat)}
    {pages now : List Nat → List Nat} {entries : Entries Membership Receiver Version}
    (ledger : Ledger key current past pages (entries.lookup key) fanout)
    (found : fanout.pending.lookup token = some slot)
    (delivers : ∀ tokens, Delivers slot token tokens (pages tokens) (now tokens)) :
    Ledger key current past now ((entries.modify slot.owner (·.drop token)).lookup key)
      { fanout with pending := fanout.pending.erase token } := by
  have after : (entries.modify slot.owner (·.drop token)).lookup key =
      (entries.lookup key).map fun entry =>
        if key = slot.owner then entry.drop token else entry := by
    rw [lookup_modify]
    split
    · rename_i own
      rw [own]
    · simp
  rw [after]
  generalize entries.lookup key = before at ledger
  refine ⟨fun live becomes => ?_, fun missing => ?_, fun tokens member => ?_⟩
  · obtain ⟨entry, rfl, rfl⟩ := map_eq_some_iff.mp becomes
    exact (ledger.serving entry rfl).remove found (delivers _)
  · exact (ledger.served (map_eq_none_iff.mp missing)).remove found (delivers _) nofun
  · refine (ledger.concluded tokens member).remove found (delivers _) fun flight flies => ?_
    cases before with
    | none => cases flies
    | some entry =>
      change flight ∈ (if key = slot.owner then entry.drop token else entry).flying at flies
      split at flies
      · obtain ⟨-, ⟨-, same⟩ | ⟨_, -, removed⟩⟩ := flying_drop entry token
        · rw [same] at flies
          exact ⟨flight, flies, rfl⟩
        · exact ⟨flight, removed.mem_iff.mpr (mem_cons_of_mem _ flies), rfl⟩
      · exact ⟨flight, flies, rfl⟩

end

end Unbounded.Subscriptions
