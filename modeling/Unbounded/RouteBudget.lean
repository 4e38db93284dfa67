/-
This file models the budget of a forwarded request and proves that a chain of
relays is finite and loop free. A signed route counts its sender among the
visited nodes, a search does not count its holder; the two forms differ by one,
and at a relay by the link that reached it. Each relay that goes on appends
itself and spends a link, so the sum of the two stays what it was at the origin.
-/

import Unbounded.ListUpdate
import Unbounded.Transition
import Unbounded.Word

namespace Unbounded.Route

open List ListUpdate Transition Word

/-! ### The budget rule -/

/-- Maximum number of links on any route. -/
def maxLinks : Nat := 8

/-- Why a route budget is rejected. -/
inductive RouteFault
  | deadlineExceeded
  | hopBudgetExhausted
  | invalid
  deriving DecidableEq, Repr

/-- Wire-form sum rule. -/
def withinWire (visited links : Nat) : Bool :=
  decide (saturatingAdd 64 visited links ≤ maxLinks + 1)

/-- Wire-form shape check: someone was visited, and there are between one and `maxLinks` links. -/
def checkWire (visited links : Nat) : Except RouteFault Unit :=
  if links = 0 ∨ links > maxLinks ∨ visited = 0 ∨ withinWire visited links = false then
    .error .hopBudgetExhausted
  else .ok ()

/-- Wire-form transition: one signer appends itself and spends exactly one link. -/
def checkWireTransition (oldLinks newLinks : Nat) : Except RouteFault Unit :=
  if oldLinks ≤ 1 ∨ newLinks ≠ oldLinks - 1 then .error .hopBudgetExhausted else .ok ()

variable {Node : Type*} [DecidableEq Node]

/-- Search-form rule: `visited` excludes `holder`. -/
def validate (visited : List Node) (holder destination : Node) (links deadline now : Nat) :
    Except RouteFault Unit :=
  if now ≥ deadline then .error .deadlineExceeded
  else if visited.length > maxLinks ∨ visited.length + links > maxLinks then
    .error .hopBudgetExhausted
  else if visited.contains holder || visited.contains destination ||
      visited.zipIdx.any (fun entry => (visited.take entry.2).contains entry.1) then
    .error .invalid
  else .ok ()

/-- Search budget of a node for a received wire-form route: how many of the first visited nodes
to keep, and the links left. The origin searching its own route spends no link. -/
def searchBudget (visited : List Node) (links : Nat) (node : Node) :
    Except RouteFault (Nat × Nat) :=
  if visited.getLast? = some node then .ok (visited.length - 1, links)
  else match checkedSub links 1 with
    | none => .error .hopBudgetExhausted
    | some links => .ok (visited.length, links)

/-- Links on the outbound wire-form route after a relay appends itself. -/
def relay (visited : List Node) (destination : Node) (links : Nat) (node : Node) :
    Except RouteFault Nat :=
  if destination = node ∨ visited.contains node then .error .invalid
  else match checkedSub links 1 with
    | none => .error .hopBudgetExhausted
    | some links => .ok links

/-- Relay budgets, kept as results so that the caller rejects an invalid one first. -/
structure RelayPlan where
  search : Except RouteFault (Nat × Nat)
  outbound : Except RouteFault Nat

/-- What a node does with a verified request. -/
inductive Hop
  | staleMembership
  | serve
  | relay (plan : RelayPlan)

/-- Decide the hop at a node for a verified wire-form route. -/
def decideHop (node : Node) (visited : List Node) (destination : Node) (links : Nat)
    (membershipKnown : Bool) : Hop :=
  if membershipKnown = false then .staleMembership
  else if destination = node then .serve
  else .relay ⟨searchBudget visited links node, relay visited destination links node⟩

/-! ### What a relay does -/

section

variable {visited : List Node} {destination node : Node} {links spent : Nat} {known : Bool}
  {plan : RelayPlan}

theorem checkWire_ok {visited links : Nat} (accepted : checkWire visited links = .ok ()) :
    0 < visited ∧ 0 < links ∧ visited + links ≤ maxLinks + 1 := by
  unfold checkWire at accepted
  split at accepted
  · cases accepted
  rename_i fits
  simp only [not_or] at fits
  have sum : saturatingAdd 64 visited links ≤ maxLinks + 1 :=
    of_decide_eq_true (Bool.ne_false_iff.mp fits.2.2.2)
  rw [saturatingAdd, maxLinks] at sum
  rw [maxLinks]
  omega

/-- A relay's plan: unless it is on the route, it may search with as many links as it passes on,
one less than it was given. -/
theorem decideHop_relay (hop : decideHop node visited destination links known = .relay plan)
    (valid : plan.outbound ≠ .error .invalid) :
    destination ≠ node ∧ node ∉ visited ∧
      (links = 0 ∧ plan = ⟨.error .hopBudgetExhausted, .error .hopBudgetExhausted⟩ ∨
        0 < links ∧ plan = ⟨.ok (visited.length, links - 1), .ok (links - 1)⟩) := by
  unfold decideHop at hop
  split at hop
  · cases hop
  split at hop
  · cases hop
  rename_i elsewhere
  cases hop
  simp only [relay, ne_eq] at valid
  split at valid
  · exact absurd rfl valid
  rename_i fresh
  have absent : node ∉ visited := fun listed => fresh (.inr (contains_iff_mem.mpr listed))
  have unheld : visited.getLast? ≠ some node := fun last => absent (mem_of_getLast? last)
  refine ⟨elsewhere, absent, ?_⟩
  rw [searchBudget, relay, if_neg unheld, if_neg fresh, checkedSub]
  rcases Nat.eq_zero_or_pos links with rfl | positive
  · exact .inl ⟨rfl, rfl⟩
  · rw [if_pos (show 1 ≤ links from positive)]
    exact .inr ⟨positive, rfl⟩

/-- A search within the budget is refused only for its deadline, or for a destination that was
visited. -/
theorem validate_eq (distinct : visited.Nodup) (fresh : node ∉ visited)
    (fits : visited.length + links ≤ maxLinks) (deadline now : Nat) :
    validate visited node destination links deadline now =
      if deadline ≤ now then .error .deadlineExceeded
      else if destination ∈ visited then .error .invalid else .ok () := by
  have once : visited.zipIdx.any (fun entry => (visited.take entry.2).contains entry.1) =
      false := by
    rw [any_eq_false]
    intro entry listed again
    obtain ⟨_, _, here⟩ := mem_take_iff_getElem.mp (contains_iff_mem.mp again)
    obtain ⟨_, there⟩ := List.getElem?_eq_some_iff.mp (List.mem_zipIdx_iff_getElem?.mp listed)
    have same := (distinct.getElem_inj_iff).mp (here.trans there.symm)
    omega
  have room : ¬ (visited.length > maxLinks ∨ visited.length + links > maxLinks) := by omega
  have absent : visited.contains node = false := by simpa using fresh
  unfold validate
  rw [if_neg room, absent, once, Bool.or_false, Bool.false_or]
  simp only [contains_iff_mem, ge_iff_le]

end

/-! ### Chains of relays -/

/-- A wire-form route: the nodes that sent it on, and its links. -/
structure WireRoute (Node : Type*) where
  visited : List Node
  links : Nat

/-- A node relays a route: it appends itself and spends its outbound budget. -/
inductive Relays (destination : Node) : WireRoute Node → Node → WireRoute Node → Prop
  | relay {route node known plan links}
      (hop : decideHop node route.visited destination route.links known = .relay plan)
      (spends : plan.outbound = .ok links) :
      Relays destination route node ⟨route.visited ++ [node], links⟩

variable {destination : Node} {origin route : WireRoute Node} {relays : List Node}

/-- What a chain keeps of its origin's route. -/
structure Descends (destination : Node) (origin : WireRoute Node) (relays : List Node)
    (route : WireRoute Node) : Prop where
  visited : route.visited = origin.visited ++ relays
  distinct : route.visited.Nodup
  elsewhere : destination ∉ relays
  sum : route.visited.length + route.links = origin.visited.length + origin.links

theorem Relays.descends {node : Node} {after : WireRoute Node}
    (descends : Descends destination origin relays route)
    (relays' : Relays destination route node after) :
    Descends destination origin (relays ++ [node]) after := by
  cases relays' with
  | relay hop spends =>
    obtain ⟨elsewhere, fresh, ⟨-, rfl⟩ | ⟨_, rfl⟩⟩ := decideHop_relay hop (by rw [spends]; nofun)
    · cases spends
    cases spends
    refine ⟨?_, ?_, ?_, ?_⟩
    · rw [descends.visited, append_assoc]
    · exact nodup_snoc descends.distinct fresh
    · rw [mem_append, mem_singleton]
      exact not_or.mpr ⟨descends.elsewhere, elsewhere⟩
    · have sum := descends.sum
      simp only [length_append, length_singleton]
      omega

theorem run_descends (distinct : origin.visited.Nodup)
    (run : Run (Relays destination) origin relays route) :
    Descends destination origin relays route :=
  run.history (Descends destination origin) (fun _ _ _ _ descends step => step.descends descends)
    ⟨(append_nil _).symm, distinct, not_mem_nil, rfl⟩

/-- Relay chains are finite and loop free. No node appears twice; the nodes of a chain are joined
by at most `maxLinks` links, and a well-formed route is sent over at most that many in all. A
transition that is accepted keeps the sum of the nodes visited and the links left. At every relay
the search budget meets the search-form rule, unless the deadline has passed or the origin's route
holds the destination, and it never allows a longer path than the outbound links. -/
theorem relay_chains_finite (accepted : checkWire origin.visited.length origin.links = .ok ())
    (distinct : origin.visited.Nodup) (run : Run (Relays destination) origin relays route) :
    route.visited = origin.visited ++ relays ∧ route.visited.Nodup ∧
    route.visited.length ≤ maxLinks + 1 ∧ relays.length ≤ maxLinks ∧
    (checkWire route.visited.length route.links = .ok () → route.visited.length ≤ maxLinks) ∧
    (∀ (signer : Node) (links : Nat), checkWireTransition route.links links = .ok () →
      (route.visited ++ [signer]).length + links = route.visited.length + route.links) ∧
    ∀ node known plan, decideHop node route.visited destination route.links known = .relay plan →
      plan.outbound ≠ .error .invalid → ∀ keep left, plan.search = .ok (keep, left) →
      (∃ links, plan.outbound = .ok links ∧ left ≤ links) ∧
      ∀ deadline now, validate (route.visited.take keep) node destination left deadline now =
        if deadline ≤ now then .error .deadlineExceeded
        else if destination ∈ origin.visited then .error .invalid else .ok () := by
  have descends := run_descends distinct run
  have sum := descends.sum
  obtain ⟨_, _⟩ := checkWire_ok accepted
  have counted : route.visited.length = origin.visited.length + relays.length := by
    rw [descends.visited, length_append]
  refine ⟨descends.visited, descends.distinct, by omega, by omega, fun sends => ?_,
    fun signer links accepts => ?_, fun node known plan hop valid keep left search => ?_⟩
  · have more := checkWire_ok sends
    omega
  · unfold checkWireTransition at accepts
    split at accepts
    · cases accepts
    · simp only [length_append, length_singleton]
      omega
  · obtain ⟨elsewhere, fresh, ⟨-, rfl⟩ | ⟨_, rfl⟩⟩ := decideHop_relay hop valid
    · cases search
    cases search
    refine ⟨⟨_, rfl, le_rfl⟩, fun deadline now => ?_⟩
    rw [take_length, validate_eq descends.distinct fresh (by omega) deadline now, descends.visited]
    simp only [mem_append, descends.elsewhere, or_false]

/-- Node 0 sends to node 9 with eight links by way of the nodes 1 and 2. -/
theorem relay_chains_finite_two :
    Run (Relays 9) ⟨[0], 8⟩ [1, 2] ⟨[0, 1, 2], 6⟩ ∧ [0, 1, 2].Nodup ∧
      [0, 1, 2].length ≤ maxLinks + 1 := by
  have first : Relays 9 ⟨[0], 8⟩ 1 ⟨[0, 1], 7⟩ :=
    .relay (show decideHop 1 [0] 9 8 true = _ from rfl) rfl
  have second : Relays 9 ⟨[0, 1], 7⟩ 2 ⟨[0, 1, 2], 6⟩ :=
    .relay (show decideHop 2 [0, 1] 9 7 true = _ from rfl) rfl
  have run := Run.cons first (Run.single second)
  obtain ⟨-, distinct, short, -⟩ := relay_chains_finite rfl (by decide) run
  exact ⟨run, distinct, short⟩

end Unbounded.Route
