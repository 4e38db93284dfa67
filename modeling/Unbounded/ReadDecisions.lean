/-
This file holds the vocabulary of the read path's sans-IO decisions: the errors
they produce, the outcomes a probe of another node can have, the order in which
a reader visits a page's owners, and the classification of a peer's answer. It
ends with the check every origin authority must pass: an owner may contact
origin only with one piece of evidence for each owner ranked before it.
-/

import Mathlib

namespace Unbounded.Read

/-! ### Errors and outcomes -/

/-- Errors produced or interpreted by sans-IO read decisions. -/
inductive Error
  | invalidConfiguration
  | invalidRequest
  | headerTooLarge
  | notFound
  | internal
  | versionUnavailable
  | unavailable
  | overloaded
  | deadlineExceeded
  | cancelled
  | unauthorized
  | originRejected
  | originForbidden
  | incompatibleMembership
  | hopBudgetExhausted
  | corruptRecord
  | missingKey
  | io
  | os (code : Int)
  deriving DecidableEq, Repr

/-- Where a filled page came from. -/
inductive Source
  | «local»
  | hedge
  | peer
  | origin
  deriving DecidableEq, Repr

/-- How a probe of another node ended, as evidence. -/
inductive ProbeOutcome
  | copyMiss
  | unreachable
  | overloaded
  | versionUnavailable
  /-- An authenticated response carried a copy that could not be used locally. -/
  | unusableCopy
  deriving DecidableEq, Repr

/-! ### The order in which a reader visits the owners -/

/-- Canonical ranks in the order a non-owner visits them. At most three owners exist. -/
structure VisitOrder where
  ranks : List Nat
  short : ranks.length ≤ 3
  deriving DecidableEq, Repr

/-- The identity order over the first `len` (at most three) ranks. -/
def VisitOrder.canonical (len : Nat) : VisitOrder where
  ranks := List.range (min len 3)
  short := by
    rw [List.length_range]
    exact Nat.min_le_right len 3

/-- The canonical rank visited at `index`, if any. -/
def VisitOrder.get (order : VisitOrder) (index : Nat) : Option Nat := order.ranks[index]?

/-! ### Classifying a peer's answer -/

/-- Payload-free shape of a peer operation. `fresh` is true for a fresh metadata selector. -/
inductive OperationKind
  | subscribe
  | page
  | metadata (fresh : Bool)
  | bootstrap
  | prefetch
  deriving DecidableEq, Repr

/-- Payload-free shape of a peer response. -/
inductive ResponseKind
  | selected
  | bootstrap
  | page
  | metadata
  | miss
  | notFound
  | versionUnavailable
  | unavailable
  | overloaded
  | originRejected
  | originForbidden
  | staleMembership
  | prefetch
  deriving DecidableEq, Repr

/-- Whether this response carries a page or metadata payload. -/
def ResponseKind.hasPayload : ResponseKind → Bool
  | .selected | .bootstrap | .page | .metadata => true
  | _ => false

/-- Whether a payload response is of the kind the operation asks for. -/
def ResponseKind.answers : ResponseKind → OperationKind → Bool
  | .selected, .subscribe => true
  | .bootstrap, .bootstrap => true
  | .page, .page => true
  | .metadata, .metadata _ => true
  | _, _ => false

/-- Classify one authenticated candidate response. `acquire` describes the actual probe.
`.ok none` is a usable payload and `.ok (some outcome)` a recoverable probe outcome. -/
def classify (response : ResponseKind) (operation : OperationKind) (acquire : Bool)
    (validate : Unit → Except Error Unit) : Except Error (Option ProbeOutcome) :=
  if response.hasPayload then
    if !response.answers operation then .error .corruptRecord
    else (validate ()).map fun _ => none
  else match response with
    | .miss => .ok (some .copyMiss)
    | .notFound =>
      match operation, acquire with
      | .bootstrap, true => .error .notFound
      | .metadata true, true => .error .notFound
      | _, _ => .error .unauthorized
    | .versionUnavailable => .ok (some .versionUnavailable)
    | .unavailable => .ok (some .unreachable)
    | .overloaded => .ok (some .overloaded)
    | .originRejected => .error .originRejected
    | .originForbidden => .error .originForbidden
    | .staleMembership => .error .incompatibleMembership
    | _ => .error .corruptRecord

/-- A payload validation failure as a recoverable outcome. Only page content validation is
recoverable. -/
def unusableCopy (error : Error) (operation : OperationKind) : Option ProbeOutcome :=
  match error, operation with
  | .corruptRecord, .page | .corruptRecord, .bootstrap
  | .missingKey, .page | .missingKey, .bootstrap => some .unusableCopy
  | _, _ => none

/-- Outcomes that say nothing final about the owner they came from. -/
def transient : ProbeOutcome → Bool
  | .unreachable | .overloaded | .unusableCopy => true
  | _ => false

/-- Error after every ranked owner missed: one transient predecessor makes the miss transient
rather than authoritative. -/
def originMissError (predecessorEvidence : List ProbeOutcome) : Error :=
  if predecessorEvidence.any transient then .unavailable else .versionUnavailable

/-! ### Origin authority -/

/-- Facts an origin authority was minted from. `page` stands for the object and the page of
the request; `member` says whether the authority's node still belongs to its membership, and
`isLocal` marks a node's own grant, which rests on no ranking. -/
structure AuthorityFacts (Page : Type) where
  page : Page
  rank : Nat
  predecessorEvidence : Nat
  member : Bool
  isLocal : Bool
  deriving DecidableEq, Repr

/-- Validate an origin authority for `page`. -/
def validateOriginAuthority {Page : Type} [DecidableEq Page] (facts : AuthorityFacts Page)
    (page : Page) : Except Error Unit :=
  if page ≠ facts.page then .error .unauthorized
  else if facts.rank ≥ 3 ∨ facts.predecessorEvidence ≠ facts.rank ∨ ¬ facts.member then
    .error .unauthorized
  else if facts.isLocal ∧ (facts.rank ≠ 0 ∨ facts.predecessorEvidence ≠ 0) then
    .error .unauthorized
  else .ok ()

end Unbounded.Read
