import NiriBridge.Model.Control
import NiriBridge.Model.Touchpad

/-!
# Model — Protocol

`protocol.rs`: the frames two devices exchange.  `held_transition` is what an input event does to
the keys and buttons that are down, `release` the event that lets one go.
-/

namespace NiriBridge

/-- `Axis`: a direction to scroll in. -/
inductive Axis where
  | horizontal
  | vertical
deriving DecidableEq, Repr

/-- `ScrollSource`: what a scroll comes from. -/
inductive ScrollSource where
  | wheel
  | finger
  | continuous
deriving DecidableEq, Repr

/-- `InputEvent`: what an input session carries. -/
inductive InputEvent where
  | touchpad (device timeUs : ℕ) (events : List Touchpad.Event)
  | key (code : ℕ) (pressed : Bool)
  | button (code : ℕ) (pressed : Bool)
  | motion (dx dy : ℚ)
  | absolute (x y width height : ℕ)
  | scroll (axis : Axis) (amount : ℚ) (source : ScrollSource)
  | scrollStop (axis : Axis) (source : ScrollSource)
deriving DecidableEq, Repr

namespace InputEvent

/-- `InputEvent::validate`. -/
def validate : InputEvent → Result Unit
  | touchpad device timeUs events => do
      ensure (device < 4) "Invalid touchpad index"
      ensure (1 ≤ timeUs ∧ timeUs ≤ 1000000000000000) "Invalid touchpad event time"
      Touchpad.validateFrame events
  | key code _ => ensure (1 ≤ code ∧ code ≤ 255) "Unsupported keyboard code"
  | button code _ => ensure (272 ≤ code ∧ code ≤ 279) "Unsupported pointer button"
  | motion dx dy => ensure (∀ v ∈ [dx, dy], |v| ≤ 32768) "Invalid relative motion"
  | absolute x y width height =>
      ensure (0 < width ∧ 0 < height ∧ x < width ∧ y < height) "Invalid absolute position"
  | scroll _ amount _ => ensure (|amount| ≤ 32768) "Invalid scroll amount"
  | scrollStop _ _ => .ok ()

/-- The key or button an event presses or releases. -/
def heldTransition : InputEvent → Option (ℕ × Bool)
  | key code pressed | button code pressed => some (code, pressed)
  | _ => none

/-- The event that lets a key or a button go. -/
def release (code : ℕ) : InputEvent := if 272 ≤ code then button code false else key code false

@[simp] theorem heldTransition_release (code : ℕ) :
    (release code).heldTransition = some (code, false) := by
  unfold release
  split_ifs <;> rfl

end InputEvent

/-- `EdgePosition`: a connection, and where along it. -/
structure EdgePosition where
  edgeId : String
  fraction : ℚ
deriving DecidableEq, Repr

/-- `EdgePosition::validate`. -/
def EdgePosition.validate (p : EdgePosition) : Result Unit := do
  ensure (validEdgeId p.edgeId) "Invalid edge identifier"
  ensure (0 ≤ p.fraction ∧ p.fraction ≤ 1) "Invalid edge position"

/-- `VERSION`. -/
def VERSION : ℕ := 5

/-- `Message`: what a frame carries. -/
inductive Message where
  | desktop (info : Desktop)
  | layout (message : LayoutMessage)
  | touchpads (devices : List Touchpad.Descriptor)
  | hello (version : ℕ)
  | «begin» (session : ℕ) (entry : EdgePosition)
  | input (session sequence : ℕ) (event : InputEvent)
  | «end» (session : ℕ) (exit : Option EdgePosition)
  | ping (nonce : ℕ)
  | pong (nonce : ℕ)
  | lockState (locked : Bool)
deriving DecidableEq, Repr

/-- `Message::validate`. -/
def Message.validate : Message → Result Unit
  | desktop info => info.validate
  | layout message => message.validate
  | touchpads devices => do
      ensure (devices.length ≤ 4) "Too many touchpads"
      forEach Touchpad.Descriptor.validate devices
  | hello version => ensure (version = VERSION) "Unsupported protocol version"
  | .begin session entry => do
      ensure (session ≠ 0) "Session identifier cannot be zero"
      entry.validate
  | input session _ event => do
      ensure (session ≠ 0) "Session identifier cannot be zero"
      event.validate
  | .end session exit => do
      ensure (session ≠ 0) "Session identifier cannot be zero"
      forEach EdgePosition.validate exit.toList
  | ping _ | pong _ | lockState _ => .ok ()

end NiriBridge
