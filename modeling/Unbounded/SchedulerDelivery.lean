/-
This file proves that a contract is never delivered a page twice, and has no page
in flight twice. A selection takes a page that is neither completed nor in flight;
every other step leaves the account of the key's lives as it is. Together with the
replay window this is what a receiver may rely on over the life of a contract.
-/

import Unbounded.SchedulerLives
import Unbounded.SchedulerWindow

namespace Unbounded.Subscriptions

open List ListUpdate Transition

section

variable {Membership Receiver Version Payload Error : Type*}
  {fanout after : Slots Membership Receiver Version Payload Error}
  {key : EntryKey Membership Receiver} {slot : Slot Membership Receiver Version Payload Error}

/-! ### The vote -/

/-- Marking the pages in flight as done. -/
theorem foldl_includeItem (flights : List Flight) {completed : List Interval}
    (separated : Separated completed) :
    Separated (flights.foldl (fun done flight => includeItem done flight.page) completed) ∧
      ∀ page, Covers (flights.foldl (fun done flight => includeItem done flight.page) completed)
        page ↔ Covers completed page ∨ ∃ flight ∈ flights, flight.page = page := by
  induction flights generalizing completed with
  | nil => exact ⟨separated, fun page => by simp⟩
  | cons flight _ ih =>
    obtain ⟨included, covers⟩ := includeItem_spec separated flight.page
    obtain ⟨done, doneCovers⟩ := ih included
    refine ⟨done, fun page => ?_⟩
    rw [foldl_cons, doneCovers, covers, or_assoc, @eq_comm Nat page flight.page]
    simp only [mem_cons, exists_eq_or_imp]

variable {entry : Entry Version}

/-- A page that is voted for is neither completed nor in flight. -/
theorem vote_grounded [DecidableEq Membership] [DecidableEq Receiver] [DecidableEq Version]
    {scheduler : Scheduler Membership Receiver Version Payload Error}
    {demand : Demand} {eligible : Nat → Option Bool} {page : Nat}
    (live : scheduler.entries.lookup key = some entry) (separated : Separated entry.completed)
    (voted : scheduler.vote key entry.subscription.version demand.intervals eligible =
      .ok (some page)) :
    ¬ Covers entry.completed page ∧ ∀ flight ∈ entry.pending, flight.page ≠ page := by
  obtain ⟨done, covers⟩ := foldl_includeItem entry.pending separated
  -- Only the contract itself votes as the target, with what it has neither done nor in flight.
  have votes {other : EntryKey Membership Receiver} {contract : Entry Version}
      {vote : Receiver × Bool × List Interval}
      (listed : scheduler.demandOf key entry.subscription.version demand.intervals other contract =
        some vote) :
      (∀ interval ∈ vote.2.2, interval.start < interval.stop) ∧
        (vote.2.1 = true → other = key ∧ vote.2.2 = outstanding demand.intervals
          (contract.pending.foldl (fun done flight => includeItem done flight.page)
            contract.completed)) := by
    unfold Scheduler.demandOf at listed
    split at listed
    · cases listed
    split at listed
    · cases listed
      exact ⟨outstanding_nonempty _ _, nofun⟩
    · rename_i same
      cases listed
      exact ⟨outstanding_nonempty _ _, fun _ => ⟨not_not.mp same, rfl⟩⟩
  obtain ⟨vote, member, target, inside⟩ := select_target (fun vote member => by
    obtain ⟨other, -, listed⟩ := mem_filterMap.mp member
    exact (votes listed).1) voted
  obtain ⟨⟨_, _⟩, present, listed⟩ := mem_filterMap.mp member
  obtain ⟨same, demanded⟩ := (votes listed).2 target
  subst same
  obtain rfl := Option.some_inj.mp (live.symm.trans (Table.mem_entries.mp present))
  rw [demanded] at inside
  have outside := ((outstanding_covers (canonical_separated demand.canonical) done).mp inside).2
  rw [covers, not_or, not_exists] at outside
  exact ⟨outside.1, fun flight flies same => outside.2 flight ⟨flies, same⟩⟩

/-! ### Turns -/

section

variable {turn : Turn Membership Receiver Version Payload Error}
  {before next : Scheduler Membership Receiver Version Payload Error}

/-- The slot a turn consumes with a successful result, and the page it delivers. -/
def Turn.delivery (turn : Turn Membership Receiver Version Payload Error) : Option (Nat × Nat) :=
  match turn.call, turn.reply with
  | .poll waiter, .polled (.ready (.ok delivery)) => some (waiter, delivery.grant.page)
  | _, _ => none

variable (turns : List (Turn Membership Receiver Version Payload Error))

/-- The pages delivered through some slots, in order. -/
def deliveredPages (tokens : List Nat) : List Nat :=
  ((turns.filterMap Turn.delivery).filter fun delivery => decide (delivery.1 ∈ tokens)).map (·.2)

theorem deliveredPages_none (undelivered : turn.delivery = none) :
    deliveredPages (turns ++ [turn]) = deliveredPages turns := by
  unfold deliveredPages
  simp [undelivered]

theorem deliveredPages_nil : deliveredPages turns [] = [] := by
  unfold deliveredPages
  simp

variable {turns}

theorem deliveredPages_newer {last token : Nat}
    (consumed : ∀ delivery ∈ turns.filterMap Turn.delivery, delivery.1 ≤ last)
    (newer : last < token) (tokens : List Nat) :
    deliveredPages turns (tokens ++ [token]) = deliveredPages turns tokens := by
  refine congrArg (map _) (filter_congr fun delivery member => ?_)
  have earlier := consumed delivery member
  rw [decide_eq_decide, mem_append, mem_singleton]
  exact ⟨fun either => either.resolve_right (by omega), .inl⟩

/-- What a turn that consumes a slot delivers through it. -/
theorem delivers_poll
    {waiter : Nat} {result : Except Error (Delivery Payload Membership Receiver Version)}
    (found : slot.result = some result) (called : turn.call = .poll waiter)
    (replied : turn.reply = .polled (.ready result)) (tokens : List Nat) :
    Delivers slot waiter tokens (deliveredPages turns tokens)
      (deliveredPages (turns ++ [turn]) tokens) := by
  cases result with
  | error =>
    have nothing : turn.delivery = none := by
      unfold Turn.delivery
      rw [called, replied]
    rw [deliveredPages_none turns nothing]
    exact .inl rfl
  | ok delivery =>
    have delivers : turn.delivery = some (waiter, delivery.grant.page) := by
      unfold Turn.delivery
      rw [called, replied]
    unfold deliveredPages
    rw [filterMap_append, filterMap_cons_some delivers, filterMap_nil,
      filter_append, map_append, filter_singleton]
    by_cases member : waiter ∈ tokens
    · rw [decide_eq_true member]
      exact .inr ⟨member, delivery, found, rfl⟩
    · rw [decide_eq_false member, cond_false, map_nil, append_nil]
      exact .inl rfl

/-- A contract's life is over when its contract is gone; a new one has been delivered nothing. -/
theorem Ledger.arrive {current : List Nat} {past : List (List Nat)} {old : Option (Entry Version)}
    (new : Option (Entry Version))
    (ledger : Ledger key current past (deliveredPages turns) old fanout)
    (lost : ∀ entry, new = some entry → old = some entry) :
    Ledger key (if new.isSome then (current, past) else ([], current :: past)).1
      (if new.isSome then (current, past) else ([], current :: past)).2
      (deliveredPages turns) new fanout := by
  cases new with
  | some entry =>
    rw [lost entry rfl] at ledger
    exact ledger
  | none =>
    refine ⟨nofun, fun _ => ?_, fun tokens member => ?_⟩
    · rw [if_neg nofun, deliveredPages_nil]
      exact .nil _ _
    · rcases mem_cons.mp member with rfl | earlier
      · cases old with
        | none => exact ledger.served rfl
        | some entry => exact (ledger.serving entry rfl).concluded
      · exact (ledger.concluded tokens earlier).unknown nofun

/-- Changes to a contract that leave what it completed and has in flight. -/
theorem Ledger.frame {current : List Nat} {past : List (List Nat)} {pages : List Nat → List Nat}
    {old new : Entry Version} (ledger : Ledger key current past pages (some old) fanout)
    (completed : new.completed = old.completed) (flying : new.flying = old.flying) :
    Ledger key current past pages (some new) fanout := by
  refine ⟨?_, nofun, fun tokens member => ?_⟩
  · rintro _ ⟨⟩
    rw [completed, flying]
    exact ledger.serving old rfl
  · have served := ledger.concluded tokens member
    rw [Option.elim_some] at served ⊢
    rw [flying]
    exact served

/-- Slots whose work and results stay. -/
theorem Ledger.touch {current : List Nat} {past : List (List Nat)} {pages : List Nat → List Nat}
    {entry : Option (Entry Version)} {token : Nat}
    {new : Slot Membership Receiver Version Payload Error}
    (ledger : Ledger key current past pages entry fanout)
    (found : fanout.pending.lookup token = some slot) (owner : new.owner = slot.owner)
    (flight : new.flight = slot.flight) (result : new.result = slot.result) :
    Ledger key current past pages entry { fanout with
      pending := fanout.pending.insert token new } := by
  refine ledger.carry le_rfl fun other _ => ?_
  rw [Table.lookup_insert_eq]
  split
  · rename_i same
    rw [same, found]
    exact .some ⟨owner, .inl result, fun _ work flies => flight ▸ flies⟩
  · exact Carries.same fun _ _ => id

theorem Moves.next_le (moves : Moves turn fanout after) : fanout.next ≤ after.next := by
  cases moves with
  | kept | taken | parked | removed => exact le_rfl
  | attached attaches => exact attaches.spec.2.1 ▸ Nat.le_succ _
  | finished finished | abandoned _ _ finished =>
    cases finished with
    | missing => exact le_rfl
    | answered _ next | promoted _ _ next => exact next.ge

end

/-! ### Requests leave what is in flight -/

theorem release_flying (entry : Entry Version) (sequence : Nat) :
    (entry.release sequence).completed = entry.completed ∧
      (entry.release sequence).flying = entry.flying := by
  unfold Entry.release
  split <;> exact ⟨rfl, rfl⟩

variable {next : Entry Version}

theorem reserves_pending {reservation : Reservation}
    (reserves : Entry.Reserves entry reservation next) :
    next.completed = entry.completed ∧ next.pending = entry.pending := by
  cases reserves with
  | free | supersedes => exact ⟨rfl, rfl⟩

variable {subscription : Contract Version} {deadline : Nat}

theorem admitsLate_flying (admits : Entry.AdmitsLate entry subscription deadline next) :
    next.completed = entry.completed ∧ next.flying = entry.flying := by
  cases admits with
  | admits _ _ reserves _ takes =>
    obtain ⟨completed, pending⟩ := reserves_pending reserves
    cases takes with
    | none | taken => exact ⟨completed, congrArg (map _) pending⟩

/-- Covering flights leaves their tokens and pages alone. -/
theorem coverPending_flying (bytes : Nat) (flights : List Flight) :
    (Entry.coverPending bytes flights).1.map
        (fun flight => (⟨flight.token, flight.page, flight.settled⟩ : Flying)) =
      flights.map fun flight => ⟨flight.token, flight.page, flight.settled⟩ := by
  induction flights generalizing bytes with
  | nil => rfl
  | cons _ _ ih =>
    unfold Entry.coverPending
    split
    · exact congrArg (cons _) (ih bytes)
    · exact congrArg (cons _) (ih _)

theorem admitsNewer_flying {granted : Nat}
    (admits : Entry.AdmitsNewer entry subscription deadline granted next) :
    next.completed = entry.completed ∧ next.flying = entry.flying := by
  cases admits with
  | admits reserves ceiling =>
    obtain ⟨completed, pending⟩ := reserves_pending reserves
    subst ceiling
    refine ⟨completed, ?_⟩
    show (Entry.coverPending _ _).1.map _ = _
    rw [coverPending_flying]
    exact congrArg (map _) pending

theorem refused_flying [DecidableEq Version] {granted : Nat} {kind : Kind}
    (refused : entry.admitNewer subscription deadline granted = (next, .error kind)) :
    next.completed = entry.completed ∧ next.flying = entry.flying := by
  obtain ⟨_, -, rfl⟩ := Entry.refused_narrows refused
  exact ⟨rfl, rfl⟩

/-! ### What a turn delivers -/

section

variable [DecidableEq Membership] [DecidableEq Receiver]
  {turn : Turn Membership Receiver Version Payload Error}
  {before next acting : Scheduler Membership Receiver Version Payload Error}
  {current : List Nat} {past : List (List Nat)} {pages : List Nat → List Nat}

/-- The slot a turn selects for a contract. -/
def Turn.selection (turn : Turn Membership Receiver Version Payload Error)
    (key : EntryKey Membership Receiver) : Option Nat :=
  match turn.call, turn.reply with
  | .select admitted _, .selected (.ok (.ok selected)) =>
    if admitted.1 = key then some selected.waiter else none
  | _, _ => none

/-- The slots of a key's current life and of those before it. A contract that is gone starts
over. -/
def Turn.lived (key : EntryKey Membership Receiver) (lives : List Nat × List (List Nat))
    (turn : Turn Membership Receiver Version Payload Error) : List Nat × List (List Nat) :=
  let lives := if (turn.acting.entries.lookup key).isSome then lives else ([], lives.1 :: lives.2)
  (lives.1 ++ (turn.selection key).toList, lives.2)

/-- The slots selected in the current life of a key's contract, and in those before it. -/
def lives (key : EntryKey Membership Receiver)
    (turns : List (Turn Membership Receiver Version Payload Error)) : List Nat × List (List Nat) :=
  turns.foldl (Turn.lived key) ([], [])

variable {turns : List (Turn Membership Receiver Version Payload Error)}

/-- A turn that neither selects nor delivers leaves the tokens and the pages of an account. -/
theorem Ledger.quiet (selects : turn.selection key = none) (delivers : turn.delivery = none)
    (ledger : Ledger key current past (deliveredPages turns) (next.entries.lookup key)
      next.fanout) :
    Ledger key (current ++ (turn.selection key).toList) past (deliveredPages (turns ++ [turn]))
      (next.entries.lookup key) next.fanout := by
  rw [deliveredPages_none turns delivers, selects, Option.toList_none, append_nil]
  exact ledger

variable {contract : EntryKey Membership Receiver}

/-- A request that is admitted, or refused, delivers nothing. -/
theorem Ledger.admits [DecidableEq Version] {subscription : Contract Version}
    {returned : Scheduler Membership Receiver Version Payload Error ×
      Except Kind (Admitted Membership Receiver)}
    (ledger : Ledger key current past pages (acting.entries.lookup key) acting.fanout)
    (empty : acting.entries.lookup key = none → current = [] ∧ pages [] = [])
    (admits : Admits acting subscription deadline contract returned) :
    Ledger key current past pages (returned.1.entries.lookup key) returned.1.fanout := by
  have changed {old new : Entry Version} (found : acting.entries.lookup contract = some old)
      (same : new.completed = old.completed ∧ new.flying = old.flying) :
      Ledger key current past pages ((acting.entries.insert contract new).lookup key)
        acting.fanout := by
    rw [Table.lookup_insert_eq]
    split
    · rename_i own
      rw [own, found, ← own] at ledger
      exact ledger.frame same.1 same.2
    · exact ledger
  cases admits with
  | refused => exact ledger
  | late found _ admitted =>
    exact changed found (admitsLate_flying (Entry.admitLate_admits admitted))
  | newer found _ admitted =>
    exact changed found (admitsNewer_flying (Entry.admitNewer_admits admitted))
  | narrowed found refused => exact changed found (refused_flying refused)
  | fresh missing =>
    rw [Table.lookup_insert_eq]
    split
    · rename_i own
      subst own
      obtain ⟨rfl, nothing⟩ := empty missing
      refine ⟨?_, nofun, fun tokens member => (ledger.concluded tokens member).unknown nofun⟩
      rintro _ ⟨⟩
      rw [nothing]
      exact .nil _
    · exact ledger

variable {working : List Nat}

section

variable (ledger : Ledger key current past pages (acting.entries.lookup key) acting.fanout)
include ledger

section

variable {orphan : Nat → Prop} (owners : acting.fanout.Owners working orphan)

include owners

/-- A selection takes a page that its contract neither has nor awaits. -/
theorem Ledger.select [DecidableEq Version] {sequence : Nat} {eligible : Nat → Option Bool}
    {returned : Scheduler Membership Receiver Version Payload Error ×
      Except Kind (Except Nat (Selected Version))}
    (newer : ∀ token, acting.fanout.next < token → pages (current ++ [token]) = pages current)
    (selects : Selects acting contract sequence eligible returned) :
    Ledger key (current ++ (match returned.2 with
      | .ok (.ok selected) => if contract = key then some selected.waiter else none
      | _ => none).toList) past pages (returned.1.entries.lookup key) returned.1.fanout := by
  cases selects with
  | refused | unknown =>
    rw [Option.toList_none, append_nil]
    exact ledger
  | @selected entry reservation page token flight leader fanout found request funded asked voted
      attached =>
    have attaches := Fanout.attach_attaches attached
    have unflown : acting.fanout.flights.lookup (acting.fanout.next + 1) = none :=
      Option.not_isSome_iff_eq_none.mp fun present =>
        absurd (owners.owned _ present).1 (Nat.not_succ_le_self _)
    obtain ⟨newToken, next, -⟩ := attaches.spec
    have carried : Ledger key current past pages (acting.entries.lookup key) fanout :=
      ledger.carry (next.symm ▸ Nat.le_succ _) fun other earlier =>
        attach_carries unflown attaches earlier
    dsimp only
    by_cases own : contract = key
    · subst own
      rw [if_pos rfl, Option.toList_some, AList.lookup_insert]
      rw [found] at ledger carried
      have serving := ledger.serving entry rfl
      obtain ⟨uncovered, grounded⟩ := vote_grounded found serving.separated voted
      have flying : (entry.commit sequence token page reservation).flying =
          entry.flying ++ [⟨token, page, false⟩] := map_append
      refine ⟨?_, nofun, fun tokens member => ?_⟩
      · rintro _ ⟨⟩
        rw [newer token (newToken ▸ Nat.lt_succ_self _), flying]
        refine serving.attach unflown attaches uncovered fun other flies => ?_
        obtain ⟨flight, listed, rfl⟩ := mem_map.mp flies
        exact grounded flight listed
      · have served := carried.concluded tokens member
        refine served.unknown ?_
        rw [Option.elim_some, flying]
        refine forall_mem_snoc served.unowned fun listed => ?_
        have earlier := (ledger.concluded tokens member).known token listed
        rw [newToken] at earlier
        exact absurd earlier (Nat.not_succ_le_self _)
    · rw [if_neg own, Option.toList_none, append_nil, Table.lookup_insert_eq,
        if_neg (Ne.symm own)]
      exact carried

/-- Completing or abandoning work delivers nothing by itself. -/
theorem Ledger.complete [OfKind Error] (flight : Nat) (result : Except Error (Payload × Nat))
    (promote : Bool) :
    Ledger key current past pages ((acting.finish flight result promote).entries.lookup key)
      (acting.finish flight result promote).fanout :=
  ledger.finish owners

end

/-- Giving up a slot, and the flight it was elected for. -/
theorem Ledger.giveUp [OfKind Error] {now : List Nat → List Nat} {token : Nat}
    (owners : acting.fanout.Owners working fun _ => False)
    (found : acting.fanout.pending.lookup token = some slot)
    (delivers : ∀ tokens, Delivers slot token tokens (pages tokens) (now tokens)) :
    Ledger key current past now
      ((if slot.promoted then (acting.removePending token).1.cancelWork slot.flight
        else (acting.removePending token).1).entries.lookup key)
      (if slot.promoted then (acting.removePending token).1.cancelWork slot.flight
        else (acting.removePending token).1).fanout := by
  have removed : (acting.removePending token).1 = { acting with
      fanout := { acting.fanout with pending := acting.fanout.pending.erase token }
      entries := acting.entries.modify slot.owner (·.drop token) } := by
    unfold Scheduler.removePending Fanout.remove
    rw [found]
  have dropped : Ledger key current past now ((acting.removePending token).1.entries.lookup key)
      (acting.removePending token).1.fanout := by
    rw [removed]
    exact ledger.remove found delivers
  split
  · have left := owners.remove found
    have same : (acting.removePending token).1.fanout = { acting.fanout with
        pending := acting.fanout.pending.erase token } := congrArg Scheduler.fanout removed
    rw [← same] at left
    exact dropped.complete left slot.flight (.error (OfKind.ofKind .cancelled)) false
  · exact dropped

end

variable [DecidableEq Version] [OfKind Error]

/-- What a turn does to the account of a key. -/
theorem Performs.ledger (performs : Performs before turn next)
    (ledger : Ledger key current past (deliveredPages turns) (turn.acting.entries.lookup key)
      turn.acting.fanout) (owners : turn.acting.fanout.Owners working fun _ => False)
    (empty : turn.acting.entries.lookup key = none → current = [])
    (consumed : ∀ delivery ∈ turns.filterMap Turn.delivery, delivery.1 ≤ turn.acting.fanout.next) :
    Ledger key (current ++ (turn.selection key).toList) past (deliveredPages (turns ++ [turn]))
      (next.entries.lookup key) next.fanout := by
  obtain ⟨time, call, acting, reply⟩ := turn
  have performed := performs.performs
  dsimp only at performed ledger owners empty consumed ⊢
  cases call with
  | advance | takeWakes =>
    obtain ⟨rfl, rfl⟩ := Prod.mk.inj performed
    exact ledger.quiet rfl rfl
  | admitRequest subscription membership receiver deadline =>
    cases performed
    have admitted := ledger.admits (fun missing => ⟨empty missing, deliveredPages_nil turns⟩)
      (admitAt_admits acting subscription membership receiver deadline)
    exact admitted.quiet rfl rfl
  | release admitted =>
    cases performed
    refine .quiet rfl rfl ?_
    dsimp only [Scheduler.release]
    rw [Table.lookup_modify]
    split
    · rename_i own
      rw [own] at ledger ⊢
      cases found : acting.entries.lookup admitted.1 with
      | none =>
        rw [found] at ledger
        exact ledger
      | some entry =>
        rw [found] at ledger
        obtain ⟨completed, flying⟩ := release_flying entry admitted.2
        exact ledger.frame completed flying
    · exact ledger
  | select admitted eligible =>
    have performed : (acting.selectAt admitted eligible).map id Reply.selected = (next, reply) :=
      performed
    have selected := ledger.select owners
      (fun token newer => deliveredPages_newer consumed newer current)
      (selectAt_selects acting admitted eligible)
    generalize acting.selectAt admitted eligible = returned at performed selected
    cases performed
    rw [deliveredPages_none turns rfl]
    rcases returned with ⟨_, _ | _ | _⟩ <;> exact selected
  | complete work result promote =>
    cases performed
    exact (ledger.complete owners work result promote).quiet rfl rfl
  | cancelWork work =>
    cases performed
    exact (ledger.complete owners work (.error (OfKind.ofKind .cancelled)) false).quiet rfl rfl
  | takeWork waiter =>
    cases performed
    refine .quiet rfl rfl ?_
    split
    · exact ledger
    rename_i slot found
    split
    · exact ledger
    · exact ledger.touch found rfl rfl rfl
  | poll waiter =>
    have performed : (acting.poll waiter).map id Reply.polled = (next, reply) := performed
    unfold Scheduler.poll at performed
    split at performed
    · cases performed
      exact ledger.quiet rfl rfl
    · rename_i slot found
      split at performed
      · cases performed
        exact .quiet rfl rfl (ledger.touch found rfl rfl rfl)
      · rename_i result resolved
        cases performed
        rw [show Turn.selection _ key = none from rfl, Option.toList_none, append_nil]
        exact ledger.giveUp owners found (delivers_poll resolved rfl rfl)
  | cancelWaiter waiter =>
    cases performed
    refine .quiet rfl rfl ?_
    cases found : acting.fanout.pending.lookup waiter with
    | none =>
      rw [cancelWaiter_eq, found]
      exact ledger
    | some =>
      rw [cancelWaiter_eq, found]
      exact ledger.giveUp owners found fun _ => .inl rfl

/-- A turn consumes a slot that was there. -/
theorem Performs.delivery_le {delivery : Nat × Nat} (performs : Performs before turn next)
    (owners : turn.acting.fanout.Owners working fun _ => False)
    (delivers : turn.delivery = some delivery) : delivery.1 ≤ turn.acting.fanout.next := by
  obtain ⟨_, call, acting, reply⟩ := turn
  have performed := performs.performs
  cases call with
  | poll waiter =>
    have performed : (acting.poll waiter).map id Reply.polled = (next, reply) := performed
    unfold Scheduler.poll at performed
    split at performed
    · cases performed
      cases delivers
    · rename_i found
      have known : waiter ≤ acting.fanout.next := (owners.placed found).known
      split at performed
      · cases performed
        cases delivers
      · rename_i result _
        cases performed
        cases result with
        | error => cases delivers
        | ok =>
          cases delivers
          exact known
  | advance | admitRequest | release | select | complete | cancelWork | takeWork | cancelWaiter
  | takeWakes => cases delivers

/-- The account of a key in a reachable state. -/
structure Accounts (key : EntryKey Membership Receiver)
    (turns : List (Turn Membership Receiver Version Payload Error))
    (scheduler : Scheduler Membership Receiver Version Payload Error) : Prop where
  owners : scheduler.fanout.Owners (outstandingWork turns) fun _ => False
  consumed : ∀ delivery ∈ turns.filterMap Turn.delivery, delivery.1 ≤ scheduler.fanout.next
  ledger : Ledger key (lives key turns).1 (lives key turns).2 (deliveredPages turns)
    (scheduler.entries.lookup key) scheduler.fanout

/-- A turn keeps the account of every key. -/
theorem Performs.accounts
    (performs : Performs before turn next) (accounts : Accounts key turns before) :
    Accounts key (turns ++ [turn]) next := by
  have acting := performs.acting_owners accounts.owners
  obtain ⟨sameNext, flights, slots⟩ := performs.acting_fanout
  have arrived : Ledger key (lives key turns).1 (lives key turns).2 (deliveredPages turns)
      (before.entries.lookup key) turn.acting.fanout := by
    refine accounts.ledger.carry sameNext.ge fun token _ => ?_
    have expires := slots token
    generalize before.fanout.pending.lookup token = old at expires
    generalize turn.acting.fanout.pending.lookup token = new at expires
    cases expires with
    | none => exact .none
    | some expires =>
      rcases expires with rfl | rfl
      · exact Carries.same fun flight work flies => (flights flight).trans flies
      · exact .some ⟨rfl, .inr ⟨_, rfl⟩, nofun⟩
  have current := arrived.arrive (turn.acting.entries.lookup key)
    fun entry found => performs.found found
  have consumed : ∀ delivery ∈ turns.filterMap Turn.delivery,
      delivery.1 ≤ turn.acting.fanout.next :=
    fun delivery member => sameNext ▸ accounts.consumed delivery member
  refine ⟨?_, fun delivery member => ?_, ?_⟩
  · rw [outstandingWork_snoc]
    exact performs.moves.owners acting
  · rw [filterMap_append] at member
    refine le_trans ?_ performs.moves.next_le
    rcases mem_append.mp member with earlier | last
    · exact consumed delivery earlier
    obtain ⟨_, listed, delivers⟩ := mem_filterMap.mp last
    rw [mem_singleton.mp listed] at delivers
    exact performs.delivery_le acting delivers
  · rw [lives, foldl_append]
    refine performs.ledger current acting (fun missing => ?_) consumed
    rw [missing]
    rfl

variable {initial last : Scheduler Membership Receiver Version Payload Error}

theorem run_accounts {limits : SubscriptionLimits} (started : Scheduler.new limits = some initial)
    (run : Run Performs initial turns last) (key : EntryKey Membership Receiver) :
    Accounts key turns last := by
  refine run.history (fun turns state => Accounts key turns state)
    (fun turns state turn next accounts performs => performs.accounts accounts) ?_
  unfold Scheduler.new at started
  split at started
  · cases started
    exact ⟨.start, nofun, nofun, fun _ => .nil _ _, nofun⟩
  · cases started

/-- A key without a contract has nothing on its log. -/
theorem run_unlogged (run : Run Performs initial turns last)
    (missing : last.entries.lookup key = none) : admissions key turns = [] := by
  cases run with
  | nil => rfl
  | @snoc _ _ _ turn _ performs =>
    have fate := performs.fate key
    rw [missing] at fate
    rw [admissions_snoc]
    generalize acting : turn.acting.entries.lookup key = old at fate
    cases fate with
    | kept unadmitted =>
      unfold Turn.logged
      rw [acting, unadmitted]
      rfl

/-- Over the life of a contract every sequence is admitted once, none further below the highest
than the granted flights, no page is delivered twice, and none is in flight twice. -/
theorem contract_serves_once {limits : SubscriptionLimits}
    {initial last : Scheduler Membership Receiver Version Payload Error}
    {turns : List (Turn Membership Receiver Version Payload Error)}
    (started : Scheduler.new limits = some initial) (run : Run Performs initial turns last)
    (key : EntryKey Membership Receiver) :
    ((admissions key turns).map (·.sequence)).Nodup ∧
      (∀ turn next subscription entry, Performs last turn next →
        turn.admission key = some subscription → turn.acting.entries.lookup key = some entry →
        ∀ earlier ∈ admissions key turns,
          earlier.sequence < subscription.sequence + entry.flights) ∧
      (∀ tokens ∈ (lives key turns).1 :: (lives key turns).2, (deliveredPages turns tokens).Nodup) ∧
      ∀ entry, last.entries.lookup key = some entry → (entry.pending.map (·.page)).Nodup := by
  have recorded := run_recorded started run
  have ledger := (run_accounts started run key).ledger
  refine ⟨?_, ?_, fun tokens member => ?_, fun entry found => ?_⟩
  · cases found : last.entries.lookup key with
    | none =>
      rw [run_unlogged run found]
      exact nodup_nil
    | some entry => exact (recorded.logged key entry found).distinct
  · intro turn next subscription entry performs admits acting earlier member
    have below := ((recorded.logged key entry (performs.found acting)).recorded earlier member).1
    have fate := performs.fate key
    rw [acting] at fate
    generalize next.entries.lookup key = new at fate
    cases fate with
    | @late _ _ _ admission _ _ admitted =>
      obtain rfl := Option.mem_unique admits admission
      cases Entry.admitLate_admits admitted with
      | admits =>
        omega
    | @newer _ _ _ admission _ _ _ _ =>
      obtain rfl := Option.mem_unique admits admission
      omega
    | kept unadmitted | refused unadmitted | released unadmitted | selected unadmitted
    | settled unadmitted | dropped unadmitted =>
      rw [unadmitted] at admits
      cases admits
  · rcases mem_cons.mp member with rfl | earlier
    · cases found : last.entries.lookup key with
      | none => exact (ledger.served found).distinct
      | some entry => exact (ledger.serving entry found).distinct
    · exact (ledger.concluded tokens earlier).distinct
  · have distinct := (ledger.serving entry found).pagesDistinct
    unfold Entry.flying at distinct
    rwa [map_map] at distinct

/-- Two requests of one contract: the late one is admitted, both are served, and both pages are
delivered. -/
theorem contract_serves_once_late :
    ∃ (initial last : Scheduler Nat Nat Nat Nat Kind) (turns : List (Turn Nat Nat Nat Nat Kind)),
      Scheduler.new ⟨4, 4, 4, 4, 2⟩ = some initial ∧ Run Performs initial turns last ∧
        (admissions ⟨0, 0, 0⟩ turns).map (·.sequence) = [2, 1] ∧
        deliveredPages turns (lives ⟨0, 0, 0⟩ turns).1 = [0, 1] ∧
        ((admissions ⟨0, 0, 0⟩ turns).map (·.sequence)).Nodup ∧
        (deliveredPages turns (lives ⟨0, 0, 0⟩ turns).1).Nodup := by
  let demand : Demand := ⟨[⟨0, 2⟩], by decide, by decide⟩
  obtain ⟨initial, turns, last, started, run, admitted, delivered⟩ :=
    Scheduler.exists_run ⟨4, 4, 4, 4, 2⟩ [
        (some 1, .admitRequest ⟨0, 0, demand, 2, 4, 100000000, some 2⟩ 0 0 100),
        (some 1, .admitRequest ⟨0, 0, demand, 1, 4, 100000000, some 2⟩ 0 0 100),
        (some 1, .select (⟨0, 0, 0⟩, 2) fun _ => some true),
        (some 1, .select (⟨0, 0, 0⟩, 1) fun _ => some true),
        (none, .complete 1 (.ok (7, 20)) false), (none, .complete 2 (.ok (8, 20)) false),
        (some 2, .poll 1), (some 2, .poll 2)]
      (fun (turns : List (Turn Nat Nat Nat Nat Kind)) _ =>
        (admissions ⟨0, 0, 0⟩ turns).map (·.sequence) = [2, 1] ∧
        deliveredPages turns (lives ⟨0, 0, 0⟩ turns).1 = [0, 1]) (by decide +kernel)
  obtain ⟨once, -, apart, -⟩ := contract_serves_once started run ⟨0, 0, 0⟩
  exact ⟨initial, last, turns, started, run, admitted, delivered, once, apart _ mem_cons_self⟩

end

end

end Unbounded.Subscriptions
