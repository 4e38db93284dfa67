/-
This file models the acquisition budget: the deadline, attempts and route links
one read may spend. Every operation takes the budget it is called on and
returns the budget it leaves behind together with its result, so that a failing
operation's effect on the budget is something to prove and not something the
types already say.

The specification of an operation is what it does to two sums. An attempt is
either available or sent to a destination as a remote credit, and a link is
either available or charged. No operation raises either sum over the budgets it
consumes and produces, and no operation moves a deadline later.
-/

import Unbounded.ReadDecisions
import Unbounded.Word

namespace Unbounded.Read

open Word

/-! ### The budget and its operations -/

/-- The acquisition budget of one read. Instants are natural numbers. -/
structure AcquisitionBudget where
  deadline : Nat
  attempts : Nat
  links : Nat
  chargedLinks : Nat
  failedRoute : Bool
  /-- Attempts sent to destinations as remote credits and not refunded yet. -/
  remoteSent : Nat
  deriving DecidableEq, Repr

namespace AcquisitionBudget

def new (deadline attempts links : Nat) : AcquisitionBudget where
  deadline := deadline
  attempts := attempts
  links := links
  chargedLinks := 0
  failedRoute := false
  remoteSent := 0

variable (budget : AcquisitionBudget)

/-- Debit `attempts` that one request carries to its destination as remote credits. -/
def sendRemote (attempts : Nat) : AcquisitionBudget × Except Error Nat :=
  match checkedSub budget.attempts attempts with
  | none => (budget, .error .unavailable)
  | some left =>
    ({ budget with
        attempts := left
        remoteSent := saturatingAdd 32 budget.remoteSent attempts }, .ok attempts)

/-- Return remote credits that were never used, at most what was sent. -/
def refundRemote (attempts : Nat) : AcquisitionBudget × Except Error Unit :=
  match checkedSub budget.remoteSent attempts with
  | none => (budget, .error .invalidRequest)
  | some sent =>
    match checkedAdd 32 budget.attempts attempts with
    | none => (budget, .error .invalidRequest)
    | some available => ({ budget with remoteSent := sent, attempts := available }, .ok ())

/-- Debit one attempt; returns the tighter deadline. -/
def beginAttempt (now callerDeadline : Nat) : AcquisitionBudget × Except Error Nat :=
  let deadline := min budget.deadline callerDeadline
  if now ≥ deadline then (budget, .error .deadlineExceeded)
  else match checkedSub budget.attempts 1 with
    | none => (budget, .error .unavailable)
    | some left => ({ budget with attempts := left }, .ok deadline)

def chargeLinks (links : Nat) : AcquisitionBudget × Except Error Unit :=
  match checkedSub budget.links links with
  | none => (budget, .error .hopBudgetExhausted)
  | some left =>
    ({ budget with
        links := left
        chargedLinks := saturatingAdd 16 budget.chargedLinks links }, .ok ())

/-- Return links of a verified completed route, at most what was charged. -/
def refundLinks (links : Nat) : AcquisitionBudget × Except Error Unit :=
  match checkedSub budget.chargedLinks links with
  | none => (budget, .error .invalidRequest)
  | some charged =>
    match checkedAdd 8 budget.links links with
    | none => (budget, .error .invalidRequest)
    | some available => ({ budget with chargedLinks := charged, links := available }, .ok ())

/-- Links one attempt may use. Observing a failure raises this ceiling, never the credits. -/
def routeLinks : Nat := min budget.links (if budget.failedRoute then 8 else 4)

def noteRouteFailure : AcquisitionBudget := { budget with failedRoute := true }

/-- Consume an owned child's unused credits. The child is gone whether or not this succeeds. -/
def reunite (child : AcquisitionBudget) : AcquisitionBudget × Except Error Unit :=
  match checkedAdd 32 budget.attempts child.attempts with
  | none => (budget, .error .invalidRequest)
  | some attempts =>
    match checkedAdd 8 budget.links child.links with
    | none => (budget, .error .invalidRequest)
    | some links =>
      ({ budget with
          deadline := min budget.deadline child.deadline
          attempts := attempts
          links := links
          failedRoute := budget.failedRoute || child.failedRoute }, .ok ())

/-- Move credits into an independently owned child. -/
def partition (attempts links : Nat) : AcquisitionBudget × Except Error AcquisitionBudget :=
  match checkedSub budget.attempts attempts with
  | none => (budget, .error .unavailable)
  | some remainingAttempts =>
    match checkedSub budget.links links with
    | none => (budget, .error .hopBudgetExhausted)
    | some remainingLinks =>
      ({ budget with attempts := remainingAttempts, links := remainingLinks },
        .ok { new budget.deadline attempts links with failedRoute := budget.failedRoute })

/-- Move every credit, and every debit that may still be refunded, into a new budget. -/
def transfer : AcquisitionBudget × AcquisitionBudget :=
  ({ budget with attempts := 0, links := 0, chargedLinks := 0, remoteSent := 0 }, budget)

/-- Debit a peer route's attempt and all its forwarded links. -/
def beginPeerAttempt (now callerDeadline links : Nat) : AcquisitionBudget × Except Error Nat :=
  if links = 0 then (budget, .error .invalidRequest)
  else
    let deadline := min budget.deadline callerDeadline
    if now ≥ deadline then (budget, .error .deadlineExceeded)
    else if budget.attempts = 0 then (budget, .error .unavailable)
    else match checkedSub budget.links links with
      | none => (budget, .error .hopBudgetExhausted)
      | some remaining =>
        ({ budget with
            attempts := budget.attempts - 1
            links := remaining
            chargedLinks := saturatingAdd 16 budget.chargedLinks links }, .ok deadline)

/-- Attempts this budget holds or may still have refunded. -/
def attemptCredits : Nat := budget.attempts + budget.remoteSent

/-- Links this budget holds or may still have refunded. -/
def linkCredits : Nat := budget.links + budget.chargedLinks

/-! ### What each operation can do -/

theorem sendRemote_cases (attempts : Nat) :
    (∃ error, budget.sendRemote attempts = (budget, .error error)) ∨ attempts ≤ budget.attempts ∧
        budget.sendRemote attempts = ({ budget with
              attempts := budget.attempts - attempts
              remoteSent := saturatingAdd 32 budget.remoteSent attempts }, .ok attempts) := by
  unfold sendRemote
  split
  · exact .inl ⟨_, rfl⟩
  rename_i taken
  obtain ⟨enough, rfl⟩ := checkedSub_eq_some.mp taken
  exact .inr ⟨enough, rfl⟩

theorem refundRemote_cases (attempts : Nat) :
    (∃ error, budget.refundRemote attempts = (budget, .error error)) ∨
      attempts ≤ budget.remoteSent ∧ budget.refundRemote attempts = ({ budget with
              remoteSent := budget.remoteSent - attempts
              attempts := budget.attempts + attempts }, .ok ()) := by
  unfold refundRemote
  split
  · exact .inl ⟨_, rfl⟩
  rename_i taken
  obtain ⟨enough, rfl⟩ := checkedSub_eq_some.mp taken
  split
  · exact .inl ⟨_, rfl⟩
  rename_i added
  obtain ⟨-, rfl⟩ := checkedAdd_eq_some.mp added
  exact .inr ⟨enough, rfl⟩

theorem beginAttempt_cases (now callerDeadline : Nat) :
    (∃ error, budget.beginAttempt now callerDeadline = (budget, .error error)) ∨
      1 ≤ budget.attempts ∧ budget.beginAttempt now callerDeadline =
          ({ budget with attempts := budget.attempts - 1 },
            .ok (min budget.deadline callerDeadline)) := by
  unfold beginAttempt
  dsimp only
  split
  · exact .inl ⟨_, rfl⟩
  split
  · exact .inl ⟨_, rfl⟩
  rename_i taken
  obtain ⟨enough, rfl⟩ := checkedSub_eq_some.mp taken
  exact .inr ⟨enough, rfl⟩

theorem chargeLinks_cases (links : Nat) :
    (∃ error, budget.chargeLinks links = (budget, .error error)) ∨ links ≤ budget.links ∧
        budget.chargeLinks links = ({ budget with
              links := budget.links - links
              chargedLinks := saturatingAdd 16 budget.chargedLinks links }, .ok ()) := by
  unfold chargeLinks
  split
  · exact .inl ⟨_, rfl⟩
  rename_i taken
  obtain ⟨enough, rfl⟩ := checkedSub_eq_some.mp taken
  exact .inr ⟨enough, rfl⟩

theorem refundLinks_cases (links : Nat) :
    (∃ error, budget.refundLinks links = (budget, .error error)) ∨ links ≤ budget.chargedLinks ∧
        budget.refundLinks links = ({ budget with
              chargedLinks := budget.chargedLinks - links
              links := budget.links + links }, .ok ()) := by
  unfold refundLinks
  split
  · exact .inl ⟨_, rfl⟩
  rename_i taken
  obtain ⟨enough, rfl⟩ := checkedSub_eq_some.mp taken
  split
  · exact .inl ⟨_, rfl⟩
  rename_i added
  obtain ⟨-, rfl⟩ := checkedAdd_eq_some.mp added
  exact .inr ⟨enough, rfl⟩

theorem reunite_cases (child : AcquisitionBudget) :
    (∃ error, budget.reunite child = (budget, .error error)) ∨
      budget.attempts + child.attempts < 2 ^ 32 ∧ budget.links + child.links < 2 ^ 8 ∧
        budget.reunite child = ({ budget with
              deadline := min budget.deadline child.deadline
              attempts := budget.attempts + child.attempts
              links := budget.links + child.links
              failedRoute := budget.failedRoute || child.failedRoute }, .ok ()) := by
  unfold reunite
  split
  · exact .inl ⟨_, rfl⟩
  rename_i attempts addedAttempts
  obtain ⟨attemptsFit, rfl⟩ := checkedAdd_eq_some.mp addedAttempts
  split
  · exact .inl ⟨_, rfl⟩
  rename_i links addedLinks
  obtain ⟨linksFit, rfl⟩ := checkedAdd_eq_some.mp addedLinks
  exact .inr ⟨attemptsFit, linksFit, rfl⟩

theorem partition_cases (attempts links : Nat) :
    (∃ error, budget.partition attempts links = (budget, .error error)) ∨
      attempts ≤ budget.attempts ∧ links ≤ budget.links ∧ budget.partition attempts links =
          ({ budget with
              attempts := budget.attempts - attempts
              links := budget.links - links },
            .ok { new budget.deadline attempts links with
              failedRoute := budget.failedRoute }) := by
  unfold partition
  split
  · exact .inl ⟨_, rfl⟩
  rename_i takenAttempts
  obtain ⟨enoughAttempts, rfl⟩ := checkedSub_eq_some.mp takenAttempts
  split
  · exact .inl ⟨_, rfl⟩
  rename_i takenLinks
  obtain ⟨enoughLinks, rfl⟩ := checkedSub_eq_some.mp takenLinks
  exact .inr ⟨enoughAttempts, enoughLinks, rfl⟩

theorem beginPeerAttempt_cases (now callerDeadline links : Nat) :
    (∃ error, budget.beginPeerAttempt now callerDeadline links = (budget, .error error)) ∨
      1 ≤ budget.attempts ∧ links ≤ budget.links ∧
        budget.beginPeerAttempt now callerDeadline links = ({ budget with
              attempts := budget.attempts - 1
              links := budget.links - links
              chargedLinks := saturatingAdd 16 budget.chargedLinks links },
            .ok (min budget.deadline callerDeadline)) := by
  unfold beginPeerAttempt
  dsimp only
  split
  · exact .inl ⟨_, rfl⟩
  split
  · exact .inl ⟨_, rfl⟩
  split
  · exact .inl ⟨_, rfl⟩
  rename_i nonzero
  split
  · exact .inl ⟨_, rfl⟩
  rename_i taken
  obtain ⟨enough, rfl⟩ := checkedSub_eq_some.mp taken
  exact .inr ⟨Nat.one_le_iff_ne_zero.mpr nonzero, enough, rfl⟩

/-- A peer attempt begins before its deadline. -/
theorem beginPeerAttempt_now {now callerDeadline links overall : Nat} {left : AcquisitionBudget}
    (begins : budget.beginPeerAttempt now callerDeadline links = (left, .ok overall)) :
    now < overall := by
  unfold beginPeerAttempt at begins
  dsimp only at begins
  split at begins
  · cases congrArg Prod.snd begins
  split at begins
  · cases congrArg Prod.snd begins
  rename_i early
  split at begins
  · cases congrArg Prod.snd begins
  split at begins
  · cases congrArg Prod.snd begins
  · rw [← Except.ok.inj (congrArg Prod.snd begins)]
    exact Nat.lt_of_not_le early

end AcquisitionBudget

/-! ### Calls on a budget -/

/-- One call on a budget. `reunite` consumes the child it is given. -/
inductive BudgetCall
  | sendRemote (attempts : Nat)
  | refundRemote (attempts : Nat)
  | beginAttempt (now callerDeadline : Nat)
  | chargeLinks (links : Nat)
  | refundLinks (links : Nat)
  | noteRouteFailure
  | reunite (child : AcquisitionBudget)
  | partition (attempts links : Nat)
  | transfer
  | beginPeerAttempt (now callerDeadline links : Nat)
  deriving DecidableEq, Repr

/-- What a successful call returns. -/
inductive BudgetReply
  | unit
  | credits (attempts : Nat)
  | deadline (instant : Nat)
  | child (budget : AcquisitionBudget)
  deriving DecidableEq, Repr

/-- Perform one call: the budget left behind and the call's result. -/
def AcquisitionBudget.perform (budget : AcquisitionBudget) :
    BudgetCall → AcquisitionBudget × Except Error BudgetReply
  | .sendRemote attempts => (budget.sendRemote attempts).map id (·.map .credits)
  | .refundRemote attempts => (budget.refundRemote attempts).map id (·.map fun _ => .unit)
  | .beginAttempt now callerDeadline =>
    (budget.beginAttempt now callerDeadline).map id (·.map .deadline)
  | .chargeLinks links => (budget.chargeLinks links).map id (·.map fun _ => .unit)
  | .refundLinks links => (budget.refundLinks links).map id (·.map fun _ => .unit)
  | .noteRouteFailure => (budget.noteRouteFailure, .ok .unit)
  | .reunite child => (budget.reunite child).map id (·.map fun _ => .unit)
  | .partition attempts links => (budget.partition attempts links).map id (·.map .child)
  | .transfer => (budget.transfer.1, .ok (.child budget.transfer.2))
  | .beginPeerAttempt now callerDeadline links =>
    (budget.beginPeerAttempt now callerDeadline links).map id (·.map .deadline)

/-- The budget a call consumes. -/
def BudgetCall.consumed : BudgetCall → Multiset AcquisitionBudget
  | .reunite child => {child}
  | _ => 0

/-- The budget a call's result hands to its caller. -/
def BudgetReply.produced : Except Error BudgetReply → Multiset AcquisitionBudget
  | .ok (.child budget) => {budget}
  | _ => 0

end Unbounded.Read
