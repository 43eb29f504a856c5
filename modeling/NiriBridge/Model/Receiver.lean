import NiriBridge.Model.Input
import NiriBridge.Support.Hoare

/-!
# Model — Receiver

`receiver.rs`: the receiving end of a connection, over any backend that injects input.  A backend is
a state and what each call does to it; whether a call succeeds, and what a failing call has changed,
is the backend's.

`passed` is a history variable: every event `input` hands to the backend, with its session and
sequence number.  Nothing reads it.
-/

namespace NiriBridge

open Hoare

/-- `receiver::InputSink`. -/
class InputSink (B : Type) where
  poll : B → Result Unit × B
  emit : InputEvent → B → Result Unit × B
  selectOutput : String → B → Result Unit × B
  configureTouchpads : List Touchpad.Descriptor → B → Result Unit × B
  resetTouchpads : B → Result Unit × B

/-- `Receiver`: the session it takes input from, the input it expects next, and what it still has to
release. -/
structure Receiver (B : Type) where
  sink : B
  state : ControlState
  session : Option ℕ
  expectedSequence : ℕ
  pendingReleases : SortedSet ℕ
  passed : List (ℕ × ℕ × InputEvent)

/-- What a call does: it changes the receiver, or fails. -/
abbrev ReceiverM (B : Type) := EStateM Error (Receiver B)

namespace Receiver

variable {B : Type}

/-- `Receiver::new`. -/
def new (sink : B) : Receiver B where
  sink := sink
  state := .default
  session := none
  expectedSequence := 0
  pendingReleases := ∅
  passed := []

/-- `?` on a result that does not touch the receiver. -/
def check {α : Type} (r : Result α) : ReceiverM B α := lift id r

/-- A call of the backend. -/
def call (f : B → Result Unit × B) : ReceiverM B Unit := fun r =>
  match f r.sink with
  | (.ok (), sink) => .ok () { r with sink := sink }
  | (.error e, sink) => .error e { r with sink := sink }

variable [InputSink B]

/-- `Receiver::poll`. -/
def poll : ReceiverM B Unit := call InputSink.poll

/-- `Receiver::configure_touchpads`, only between sessions. -/
def configureTouchpads (devices : List Touchpad.Descriptor) : ReceiverM B Unit := do
  let r ← get
  check (ensure (r.session = none ∧ devices.length ≤ 4)
    "Cannot change touchpad devices during input")
  call (InputSink.configureTouchpads devices)

/-- `Receiver::begin`: whether the session is granted. -/
def «begin» (session : ℕ) : ReceiverM B Bool := do
  check (ensure (session ≠ 0) "Session identifier cannot be zero")
  let r ← get
  check (ensure (r.pendingReleases = ∅) "Backend cleanup must complete before a new session")
  let (started, state) := r.state.start .receiving
  if started then
    set { r with state := state, session := some session, expectedSequence := 0 }
    return true
  else return false

/-- The loop of `release`; the result is `first_error`. -/
def releaseCodes : List ℕ → Option Error → ReceiverM B (Option Error)
  | [], first => pure first
  | code :: codes, first => do
      match ← attempt (call (InputSink.emit (.release code))) with
      | .ok () =>
          modify fun r => { r with pendingReleases := r.pendingReleases.erase code }
          releaseCodes codes first
      | .error e => releaseCodes codes (first.or (some e))

/-- Asks for the release of the codes, and of those that are still pending. -/
def release (codes : List ℕ) : ReceiverM B Unit := do
  modify fun r => { r with pendingReleases := r.pendingReleases.extend codes }
  let r ← get
  match ← releaseCodes r.pendingReleases.toList none with
  | some e => throw e
  | none => return ()

/-- The cleanup after a session: the codes, and the touchpads whether or not that failed. -/
def releaseWithTouchpads (codes : List ℕ) : ReceiverM B Unit := do
  let keys ← attempt (release codes)
  let pads ← attempt (call InputSink.resetTouchpads)
  check keys
  check pads

/-- `Receiver::stop`. -/
def stop (reason : StopReason) : ReceiverM B Unit := do
  let r ← get
  let (effects, state) := r.state.stop reason
  set { r with session := none, state := state }
  releaseWithTouchpads effects.releaseCodes

/-- A press, held before it is emitted: a write that fails half-way is still followed by a
release. -/
def remember (event : InputEvent) (state : ControlState) : ControlState :=
  match event.heldTransition with
  | some (code, true) => state.press code
  | _ => state

/-- A release, no longer held once it has been emitted. -/
def forget (event : InputEvent) (state : ControlState) : ControlState :=
  match event.heldTransition with
  | some (code, false) => state.release code
  | _ => state

/-- Returns false for a stale or inactive session without injecting its events. -/
def input (session sequence : ℕ) (event : InputEvent) : ReceiverM B Bool := do
  let r ← get
  if r.session ≠ some session ∨ r.state.mode ≠ .receiving then return false
  else if sequence ≠ r.expectedSequence then
    stop .disconnected
    throw ["Input sequence mismatch"]
  else
    match event.validate with
    | .error e =>
        stop .disconnected
        throw e
    | .ok () =>
        -- `checked_add`
        if 2 ^ 64 ≤ r.expectedSequence + 1 then
          stop .disconnected
          throw ["Input sequence exhausted"]
        else
          set { r with
            state := remember event r.state
            passed := r.passed ++ [(session, sequence, event)] }
          match ← attempt (call (InputSink.emit event)) with
          | .error e =>
              let _ ← attempt (stop .disconnected)
              throw e
          | .ok () =>
              modify fun r' => { r' with
                state := forget event r'.state
                expectedSequence := r.expectedSequence + 1 }
              return true

/-- `Receiver::end`: the end of another session is ignored. -/
def «end» (session : ℕ) : ReceiverM B Unit := do
  let r ← get
  if r.session = some session then stop .returned else return ()

/-- The common part of `local_lock` and `peer_lock`, after the control state has changed. -/
def lockChanged (effects : StopEffects) (state : ControlState) : ReceiverM B Unit := do
  let r ← get
  if state.mode ≠ .receiving then
    set { r with state := state, session := none }
    releaseWithTouchpads effects.releaseCodes
  else
    set { r with state := state }
    release effects.releaseCodes

/-- `Receiver::local_lock`. -/
def localLock (locked : Bool) : ReceiverM B Unit := do
  let r ← get
  let (effects, state) := r.state.localLockChanged locked
  lockChanged effects state

/-- `Receiver::peer_lock`. -/
def peerLock (locked : Bool) : ReceiverM B Unit := do
  let r ← get
  let (effects, state) := r.state.peerLockChanged locked
  lockChanged effects state

/-- `Receiver::physical_activity`: whoever uses the device itself takes it back. -/
def physicalActivity : ReceiverM B Unit := do
  let r ← get
  match r.state.receiverPhysicalActivity with
  | some (effects, state) =>
      set { r with state := state, session := none }
      releaseWithTouchpads effects.releaseCodes
  | none => return ()

/-- Whether an event places the pointer. -/
def isAbsolute : InputEvent → Bool
  | .absolute .. => true
  | _ => false

/-- `Receiver::position`. -/
def position (event : InputEvent) : ReceiverM B Unit := do
  check (ensure (isAbsolute event) "Only an absolute pointer placement is allowed here")
  check event.validate
  call (InputSink.emit event)

/-- `Receiver::position_on`: the pointer is placed on an output. -/
def positionOn (output : String) (event : InputEvent) : ReceiverM B Unit := do
  let r ← get
  check (ensure (r.pendingReleases = ∅ ∧ (r.session = none ∨ r.expectedSequence = 0))
    "Release active input before changing pointer output")
  check (ensure (isAbsolute event) "Only an absolute pointer placement is allowed here")
  check event.validate
  call (InputSink.selectOutput output)
  call (InputSink.emit event)

end Receiver

end NiriBridge
