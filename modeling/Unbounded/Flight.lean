/-
This file models the transition state of one flight: several callers want the
same page, one of them acquires it, and the others wait for what comes of it. An
outcome is held back while an operation of the acquisition still runs; it is
exposed by a settlement, which also wakes every parked caller. The acquisition
may be revoked when its leader fails, or continue on behalf of another caller.

Results, publications, callers' policies, failures and wake targets are
parameters. Every method of the source is handed a vector it pushes wake targets
to; here that vector travels with the state, as its last field.
-/

import Unbounded.Table
import Unbounded.Word

namespace Unbounded.Flights

/-! ### Callers, phases and outcomes -/

/-- What the policies of the attached callers say at one moment. -/
structure WaiterPolicy (Policy Failure : Type*) where
  /-- Check cancellation, deadline, and any other request-owned policy. -/
  check : Policy → Option Failure
  deadline : Policy → Nat

/-- One attached caller's policy, acquisition eligibility, and notification state. -/
structure Waiter (Policy Failure Target : Type*) where
  policy : Policy
  /-- Whether this caller can acquire rather than only observe results. -/
  acquisition : Bool
  /-- Whether partial publication permits another attempt for this caller. -/
  complete : Bool
  /-- Whether this caller has already received its acquisition opportunity. -/
  issued : Bool
  /-- Sticky policy or cancellation failure. -/
  error : Option Failure
  /-- Latest wake target, taken once when notification is enqueued. -/
  waker : Option Target

/-- Whether an unissued acquisition opportunity remains usable. -/
def Waiter.eligible {Policy Failure Target : Type*} (waiter : Waiter Policy Failure Target) :
    Bool :=
  waiter.acquisition && !waiter.issued && waiter.error.isNone

/-- Attempt outcome held behind the retained-operation completion fence. -/
inductive Outcome (Publication Failure : Type*)
  | published (value : Publication)
  | failed (error : Failure)
  | retry

/-- Flight lifecycle independent of application-specific result semantics. -/
inductive Phase (Whole Publication Failure : Type*)
  /-- A leader may acquire and publish a result. -/
  | acquiring
  /-- No retained attempt blocks election of an eligible caller. -/
  | retryPending
  /-- An outcome exists but retained operations may still own resources. -/
  | draining (outcome : Outcome Publication Failure)
  /-- A fully settled complete result is available. -/
  | complete (value : Whole)
  /-- A fully settled terminal error is available. -/
  | failed (error : Failure)

namespace Phase

variable {Whole Publication Failure : Type*}

def isAcquiring : Phase Whole Publication Failure → Bool
  | acquiring => true
  | _ => false

def isRetryPending : Phase Whole Publication Failure → Bool
  | retryPending => true
  | _ => false

/-- An acquisition has begun and is not settled. -/
def isRunning : Phase Whole Publication Failure → Bool
  | acquiring | draining _ => true
  | _ => false

/-- An outcome is available to every caller. -/
def isFinal : Phase Whole Publication Failure → Bool
  | complete _ | failed _ => true
  | _ => false

variable {phase : Phase Whole Publication Failure}

theorem isAcquiring_iff : phase.isAcquiring = true ↔ phase = acquiring := by
  cases phase <;> simp [isAcquiring]

theorem isRetryPending_iff : phase.isRetryPending = true ↔ phase = retryPending := by
  cases phase <;> simp [isRetryPending]

end Phase

/-- Adapter interpretation of a successfully settled publication. -/
inductive Published (Whole Part : Type*)
  /-- A result that satisfies all callers. -/
  | complete (value : Whole)
  /-- A reusable intermediate result that may require another acquisition. -/
  | partially (value : Part)

/-- The acquisition attempt within one entry. -/
structure Identity where
  generation : Nat
  deriving DecidableEq

/-- The next generation, unless the limit or the counter is exhausted. -/
def Identity.advance (identity : Identity) (limit : Nat) : Option Identity :=
  if limit ≤ identity.generation then none
  else (Word.checkedAdd 64 identity.generation 1).map fun generation => ⟨generation⟩

/-! ### The state and its methods -/

/-- Worker-local waiter index and transition state driven by an owning adapter. -/
structure State (Whole Part Publication Policy Failure Target : Type*) where
  phase : Phase Whole Publication Failure := .retryPending
  /-- Current leader's waiter identifier, retained until settlement. After a handover this is
  the adopting waiter, not the elected one. -/
  leader : Option Nat := none
  /-- Waiter elected for the current acquisition generation. -/
  elected : Option Nat := none
  /-- Whether the running acquisition may pass to another waiter when its leader fails its
  policy, instead of being revoked. -/
  handover : Bool := false
  waiters : Table Nat (Waiter Policy Failure Target) := ∅
  /-- Deadline index used for bounded expiration work, the earliest first. -/
  deadlines : List (Nat × Nat) := []
  /-- Settled intermediate result retained across another acquisition. -/
  partialResult : Option Part := none
  /-- The wake targets enqueued by the current call. -/
  wakes : List Target := []

/-- The order of the deadline index. -/
def dueBefore (first second : Nat × Nat) : Prop :=
  first.1 < second.1 ∨ (first.1 = second.1 ∧ first.2 ≤ second.2)

instance : DecidableRel dueBefore := fun _ _ => inferInstanceAs (Decidable (_ ∨ _))

namespace State

variable {Whole Part Publication Policy Failure Target : Type*}
  (state : State Whole Part Publication Policy Failure Target)
  (view : WaiterPolicy Policy Failure)

/-- The attached callers in the order of their identifiers. -/
def attached : List ((_ : Nat) × Waiter Policy Failure Target) :=
  state.waiters.entries.insertionSort fun first second => first.1 ≤ second.1

/-- Some attached caller can still be elected. -/
def anyEligible : Bool := state.attached.any fun entry => entry.2.eligible

/-- Attach a caller using an identifier allocated by the owning table. -/
def register (id : Nat) (policy : Policy) (acquisition complete : Bool) :
    State Whole Part Publication Policy Failure Target :=
  let due := (view.deadline policy, id)
  { state with
    deadlines := if due ∈ state.deadlines then state.deadlines
      else state.deadlines.orderedInsert dueBefore due
    waiters := state.waiters.insert id {
      policy, acquisition, complete, issued := false, error := none, waker := none } }

/-- Remove a caller and its deadline without declaring operation completion. -/
def detach (id : Nat) : State Whole Part Publication Policy Failure Target :=
  match state.waiters.lookup id with
  | none => state
  | some waiter =>
    { state with
      waiters := state.waiters.erase id
      deadlines := state.deadlines.erase (view.deadline waiter.policy, id) }

/-- Mark only the supplying caller; refresh decides whether to revoke a leader. -/
def cancel (id : Nat) (error : Failure) : State Whole Part Publication Policy Failure Target :=
  { state with
    waiters := state.waiters.modify id fun waiter => { waiter with error := some error } }

/-- Hold an outcome back until the operations are done. -/
def beginCompletion (outcome : Outcome Publication Failure) :
    State Whole Part Publication Policy Failure Target :=
  { state with phase := .draining outcome }

/-- The wake targets of the parked callers, in the order of their identifiers. -/
def parked : List Target := state.attached.filterMap fun entry => entry.2.waker

/-- Enqueue all parked caller notifications without invoking their wakers. -/
def notify : State Whole Part Publication Policy Failure Target :=
  { state with
    waiters := state.waiters.mapValues fun waiter => { waiter with waker := none }
    wakes := state.wakes ++ state.parked }

/-- Elect an eligible waiter under a new generation. The result says whether it was elected; it
is absent when the generations are exhausted. -/
def elect (id : Nat) (identity : Identity) (limit : Nat) :
    Option (State Whole Part Publication Policy Failure Target × Identity × Bool) :=
  if state.phase.isRetryPending then
    match (state.waiters.lookup id).filter Waiter.eligible with
    | none => some (state, identity, false)
    | some waiter =>
      (identity.advance limit).map fun advanced =>
        ({ state with
           phase := .acquiring
           leader := some id
           elected := some id
           handover := false
           waiters := state.waiters.insert id { waiter with issued := true } }, advanced, true)
  else some (state, identity, false)

/-- Permit the current acquisition to pass to another eligible waiter when its leader fails its
policy while operations still run. -/
def allowHandover : State Whole Part Publication Policy Failure Target :=
  if state.phase.isAcquiring then { state with handover := true } else state

/-- Whether the running acquisition now continues on behalf of a waiter other than the one
elected for it. -/
def handedOver : Bool := state.phase.isAcquiring && decide (state.leader ≠ state.elected)

/-- Validate the active leader. The elected waiter's capability survives a handover. -/
def validateLeader (id : Nat) : Bool :=
  state.phase.isAcquiring && (decide (state.leader = some id) || decide (state.elected = some id))

/-- Check one caller and enqueue its wake if its policy has failed. -/
def refreshWaiter (id : Nat) : State Whole Part Publication Policy Failure Target :=
  match state.waiters.lookup id with
  | none => state
  | some waiter =>
    match waiter.error <|> view.check waiter.policy with
    | none => state
    | some error =>
      { state with
        waiters := state.waiters.insert id { waiter with error := some error, waker := none }
        deadlines := state.deadlines.erase (view.deadline waiter.policy, id)
        wakes := state.wakes ++ waiter.waker.toList }

/-- Consume at most so many due deadline entries. -/
def expireDue (view : WaiterPolicy Policy Failure) (now : Nat) :
    Nat → State Whole Part Publication Policy Failure Target →
      State Whole Part Publication Policy Failure Target
  | 0, state => state
  | count + 1, state =>
    match state.deadlines with
    | [] => state
    | (deadline, id) :: rest =>
      if now < deadline then state
      else expireDue view now count (refreshWaiter { state with deadlines := rest } view id)

/-- Consume at most 64 due deadline entries, independently of leader checks. -/
def refreshExpired (now : Nat) : State Whole Part Publication Policy Failure Target :=
  expireDue view now 64 state

/-- Pass the running acquisition to the first candidate whose policy still holds. -/
def adoptFirst (view : WaiterPolicy Policy Failure) :
    List (Nat × Nat) → State Whole Part Publication Policy Failure Target →
      State Whole Part Publication Policy Failure Target × Bool
  | [], state => (state, false)
  | (_, id) :: rest, state =>
    let checked := state.refreshWaiter view id
    if (checked.waiters.lookup id).any fun waiter => waiter.error.isNone then
      ({ checked with leader := some id }, true)
    else adoptFirst view rest checked

/-- The eligible waiters besides the leader, the latest deadline first. -/
def candidates : List (Nat × Nat) :=
  ((state.attached.filter fun entry =>
    decide (some entry.1 ≠ state.leader) && entry.2.eligible).map fun entry =>
      (view.deadline entry.2.policy, entry.1)).insertionSort fun first second =>
        dueBefore second first

/-- Pass the running acquisition to the live eligible waiter with the latest deadline. It is not
marked issued: it spends none of its own budget unless the acquisition settles to a retry and
elects it. -/
def handOver : State Whole Part Publication Policy Failure Target × Bool :=
  adoptFirst view (state.candidates view) state

/-- Interpret a publication. A partial result renews the callers that need the complete one. -/
def exposePublished :
    Published Whole Part → State Whole Part Publication Policy Failure Target
  | .complete value => { state with partialResult := none, phase := .complete value }
  | .partially value =>
    { state with
      partialResult := some value
      waiters := state.waiters.mapValues fun waiter =>
        if waiter.complete then { waiter with issued := false } else waiter
      phase := .retryPending }

/-- Interpret an outcome whose operations are done. -/
def expose (unavailable : Failure) (split : Publication → Published Whole Part) :
    Outcome Publication Failure → State Whole Part Publication Policy Failure Target
  | .published value => state.exposePublished (split value)
  | .failed error => { state with phase := .failed error }
  | .retry =>
    { state with phase := if state.anyEligible then .retryPending else .failed unavailable }

/-- Expose an outcome only after the adapter confirms all operations completed. -/
def settle (idle : Bool) (unavailable : Failure) (split : Publication → Published Whole Part) :
    State Whole Part Publication Policy Failure Target :=
  if idle then
    match state.phase with
    | .draining outcome =>
      (expose { state with leader := none, elected := none, handover := false } unavailable split
        outcome).notify
    | _ => state
  else state

/-- Revoke acquisition immediately, retaining its outcome behind completion. The elected
caller's work is revoked; an adopting waiter keeps its own election opportunity. -/
def revoke (error : Failure) : State Whole Part Publication Policy Failure Target :=
  let marked := match state.elected with
    | some id => state.cancel id error
    | none => state
  (marked.beginCompletion .retry).notify

/-- Pass a lost leader's acquisition on, or revoke it. -/
def replaceLeader (idle : Bool) (canceled : Failure) :
    State Whole Part Publication Policy Failure Target :=
  let leader := state.leader.bind fun id => state.waiters.lookup id
  if state.phase.isAcquiring && leader.all (fun waiter => waiter.error.isSome) then
    let error := (leader.bind fun waiter => waiter.error).getD canceled
    -- A running operation continues for another live waiter rather than being canceled.
    let passed := if state.handover && !idle then state.handOver view else (state, false)
    if passed.2 then passed.1 else passed.1.revoke error
  else state

/-- Check the leader's policy. -/
def refreshLeader : State Whole Part Publication Policy Failure Target :=
  match state.leader with
  | some id => state.refreshWaiter view id
  | none => state

/-- Fail a pending retry that nobody is left to take and that holds no partial result. -/
def failStranded (idle : Bool) (unavailable : Failure)
    (split : Publication → Published Whole Part) :
    State Whole Part Publication Policy Failure Target :=
  if state.phase.isRetryPending && state.partialResult.isNone && !state.anyEligible then
    (state.beginCompletion (.failed unavailable)).settle idle unavailable split
  else state

/-- Check the leader and up to 64 expired callers, then settle eligible outcomes. -/
def refresh (idle : Bool) (unavailable canceled : Failure) (now : Nat)
    (split : Publication → Published Whole Part) :
    State Whole Part Publication Policy Failure Target :=
  let checked := (state.refreshLeader view).refreshExpired view now
  let settled := (checked.replaceLeader view idle canceled).settle idle unavailable split
  settled.failStranded idle unavailable split

end State

end Unbounded.Flights
