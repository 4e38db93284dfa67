/-
This file models how a health check session reports its state. Each change of
the state sends an event to the session's callback loop, after the lock is
released and only if the channel has room. The loop takes the events one at a
time, compares each with the state at that moment and calls the registered
callback with those that still name it.

The callbacks of one session never overlap. When every sender has returned, the
channel is empty and the loop waits, the last callback named the state, provided
that its event was not dropped. A dropped event is not sent again, so without
that the session can stay misreported.
-/

import Mathlib

namespace Unbounded.Health

open List

/-! ### The session -/

inductive SessionState
  | down
  | up
  | adminDown
deriving DecidableEq

structure StateEvent where
  newState : SessionState
  oldState : SessionState
deriving DecidableEq

/-- What the callback loop does: it waits for an event, holds one to compare with the state, or
is inside the callback. -/
inductive Invocation
  | waiting
  | taken (event : StateEvent)
  | calling (event : StateEvent)
deriving DecidableEq

/-- The select of `callbackLoop`: the outer one, the one that drains, or none after its return. -/
inductive Select
  | outer
  | drain
  | returned
deriving DecidableEq

/-- A session with a registered callback. The events in `sending` belong to calls of
`setStateIf` that have released the lock and not yet tried the channel. The last three fields
are history: whether an event that names the state was dropped since the state changed, and the
callbacks that were entered and that returned. -/
structure Session where
  state : SessionState := .down
  sending : List StateEvent := []
  callbackCh : List StateEvent := []
  cancelled : Bool := false
  select : Select := .outer
  invocation : Invocation := .waiting
  lost : Bool := false
  entered : List StateEvent := []
  returned : List StateEvent := []

inductive Action
  | setStateIf (newState : SessionState) (ready : Bool)
  | send (index : Nat)
  | receive
  | invokeCallback
  | finish
  | cancel
  | done

namespace Session

variable (session : Session)

/-- The part of `setStateIf` under the lock. -/
def setStateIf (newState : SessionState) (ready : Bool) : Session :=
  if session.state = newState ∨ ready = false then session
  else
    let sending := session.sending ++ [⟨newState, session.state⟩]
    { session with state := newState, sending, lost := false }

/-- The rest of `setStateIf`: the send that does not block. -/
def send (index : Nat) : Session :=
  match session.sending[index]? with
  | none => session
  | some event =>
    let sending := session.sending.eraseIdx index
    if session.callbackCh.length < 8 then
      { session with sending, callbackCh := session.callbackCh ++ [event] }
    else { session with sending, lost := session.lost || event.newState == session.state }

/-- The loop takes the oldest event, or returns if it drains an empty channel. -/
def receive : Session :=
  match session.select, session.invocation, session.callbackCh with
  | .returned, _, _ => session
  | _, .waiting, event :: callbackCh => { session with callbackCh, invocation := .taken event }
  | .drain, .waiting, [] => { session with select := .returned }
  | _, _, _ => session

/-- `invokeCallback` up to the call: a stale event is skipped. -/
def invokeCallback : Session :=
  match session.invocation with
  | .taken event =>
    if event.newState ≠ session.state then { session with invocation := .waiting }
    else { session with invocation := .calling event, entered := session.entered ++ [event] }
  | _ => session

/-- The callback returns. -/
def finish : Session :=
  match session.invocation with
  | .calling event =>
    { session with invocation := .waiting, returned := session.returned ++ [event] }
  | _ => session

/-- The outer select sees that the context is done. -/
def done : Session :=
  match session.cancelled, session.select, session.invocation with
  | true, .outer, .waiting => { session with select := .drain }
  | _, _, _ => session

/-- One step of any party. A step that its party cannot take changes nothing. -/
def perform : Action → Session
  | .setStateIf newState ready => session.setStateIf newState ready
  | .send index => session.send index
  | .receive => session.receive
  | .invokeCallback => session.invokeCallback
  | .finish => session.finish
  | .cancel => { session with cancelled := true }
  | .done => session.done

/-- The session after a sequence of steps from its creation. -/
def run (actions : List Action) : Session := actions.foldl perform {}

/-- State changes have stopped and the queue has drained. -/
def Settled : Prop := session.sending = [] ∧ session.callbackCh = [] ∧ session.invocation = .waiting

/-- The state the last callback named, and without a callback the initial one. -/
def reported : SessionState := (session.entered.getLast?.map StateEvent.newState).getD .down

/-- The callback that is running. -/
def running : Option StateEvent :=
  match session.invocation with
  | .calling event => some event
  | _ => none

end Session

/-! ### What every step keeps -/

/-- Every callback but a running last one has returned, and a state that was not reported last
has an event on its way, unless one was lost. -/
structure Sound (session : Session) : Prop where
  serial : session.entered = session.returned ++ session.running.toList
  reports : session.lost = true ∨ session.reported = session.state ∨
    ∃ event, event.newState = session.state ∧ (event ∈ session.sending ∨
      event ∈ session.callbackCh ∨ session.invocation = .taken event)

variable {session : Session}

namespace Sound

section

variable (sound : Sound session)

include sound

theorem setStateIf (newState : SessionState) (ready : Bool) :
    Sound (session.setStateIf newState ready) := by
  unfold Session.setStateIf
  split
  · exact sound
  · exact { sound with reports := .inr (.inr ⟨_, rfl, .inl mem_concat_self⟩) }

theorem send (index : Nat) : Sound (session.send index) := by
  unfold Session.send
  split
  · exact sound
  rename_i event found
  have parts : ∀ other ∈ session.sending, other = event ∨
      other ∈ session.sending.eraseIdx index := by
    intro other member
    obtain ⟨position, place⟩ := mem_iff_getElem?.mp member
    rw [mem_eraseIdx_iff_getElem?]
    grind
  split
  · refine { sound with reports := sound.reports.imp_right (.imp_right ?_) }
    rintro ⟨other, named, waits⟩
    refine ⟨other, named, ?_⟩
    grind
  · refine { sound with reports := ?_ }
    rcases sound.reports with lost | current | ⟨other, named, waits⟩
    · exact .inl (by rw [lost, Bool.true_or])
    · exact .inr (.inl current)
    · grind

theorem receive : Sound session.receive := by
  unfold Session.receive
  obtain ⟨serial, reports⟩ := sound
  unfold Session.running at serial
  split
  · exact ⟨serial, reports⟩
  · rename_i waiting queued _
    rw [waiting] at serial
    rw [waiting, queued] at reports
    refine ⟨serial, reports.imp_right (.imp_right ?_)⟩
    rintro ⟨other, named, waits⟩
    refine ⟨other, named, ?_⟩
    grind
  · exact ⟨serial, reports⟩
  · exact ⟨serial, reports⟩

theorem invokeCallback : Sound session.invokeCallback := by
  unfold Session.invokeCallback
  split
  · rename_i event taken
    obtain ⟨serial, reports⟩ := sound
    rw [Session.running, taken] at serial
    rw [taken] at reports
    split
    · rename_i stale
      refine ⟨serial, reports.imp_right (.imp_right ?_)⟩
      rintro ⟨other, named, waits⟩
      refine ⟨other, named, waits.imp_right (.imp_right ?_)⟩
      rintro ⟨⟩
      exact absurd named stale
    · rename_i current
      refine ⟨?_, .inr (.inl ?_)⟩
      · rw [serial]
        simp [Session.running]
      · rw [Session.reported, getLast?_concat]
        exact not_not.mp current
  · exact sound

theorem finish : Sound session.finish := by
  unfold Session.finish
  split
  · rename_i event calling
    obtain ⟨serial, reports⟩ := sound
    rw [Session.running, calling] at serial
    refine ⟨serial.trans (append_nil _).symm, reports.imp_right (.imp_right ?_)⟩
    rw [calling]
    rintro ⟨other, named, waits⟩
    exact ⟨other, named, waits.imp_right (.imp_right nofun)⟩
  · exact sound

theorem perform (action : Action) : Sound (session.perform action) := by
  cases action with
  | setStateIf newState ready => exact sound.setStateIf newState ready
  | send index => exact sound.send index
  | receive => exact sound.receive
  | invokeCallback => exact sound.invokeCallback
  | finish => exact sound.finish
  | cancel => exact { sound with }
  | done =>
    change Sound session.done
    unfold Session.done
    split
    · exact { sound with }
    · exact sound

end

theorem run (actions : List Action) : Sound (Session.run actions) :=
  foldlRecOn actions Session.perform ⟨rfl, .inr (.inl rfl)⟩ fun _ sound action _ =>
    sound.perform action

end Sound

/-! ### The last callback -/

/-- Whatever the interleaving, callbacks do not overlap, and at rest the last one named the
state, unless an event that names it was dropped since the state changed. -/
theorem last_callback_current (actions : List Action) :
    let session := Session.run actions
    session.entered = session.returned ++ session.running.toList ∧
      (session.Settled → session.lost = false → session.reported = session.state) := by
  have sound := Sound.run actions
  refine ⟨sound.serial, fun ⟨sent, drained, waiting⟩ kept => ?_⟩
  have reports := sound.reports
  rw [sent, drained, waiting, kept] at reports
  simpa using reports

/-- A change that the loop reports. -/
theorem last_callback_current_up :
    let session := Session.run [.setStateIf .up true, .send 0, .receive, .invokeCallback, .finish]
    session.state = .up ∧ session.reported = .up :=
  ⟨rfl, (last_callback_current _).2 ⟨rfl, rfl, rfl⟩ rfl⟩

/-- A change and its send. -/
def change (newState : SessionState) : List Action := [.setStateIf newState true, .send 0]

def flap : List Action := change .up ++ change .down

/-- One turn of the loop. -/
def turn : List Action := [.receive, .invokeCallback, .finish]

/-- A loop that falls behind. Eight changes fill the channel; after that each flap has room for
its first event only, so that the channel holds eight times up. The callback for up runs when
the session goes down for the last time, and that event is dropped. -/
def overrun : List Action :=
  (replicate 4 flap ++ replicate 8 (turn ++ flap)).flatten ++ [.receive] ++ change .up ++
    [.invokeCallback] ++ change .down ++ [.finish] ++ (replicate 8 turn).flatten

/-- The session is down at rest, and its last callback said up. -/
theorem overrun_reports_up : (Session.run overrun).Settled ∧
    (Session.run overrun).state = .down ∧ (Session.run overrun).reported = .up := by
  unfold Session.Settled
  decide +kernel

end Unbounded.Health
