import NiriBridge.Model.Input
import NiriBridge.Support.Hoare

/-!
# Model — Activity

`activity.rs`: the physical devices the source reads for takeover and for forwarding.  The
coordinator works over any `ActivitySource`; `ActivityMonitor` is the one that reads evdev devices.
What the kernel answers is part of the monitor's state: call number `n` finds `hardware n`.
-/

namespace NiriBridge

open Hoare

/-- `activity::ActivitySource`. -/
class ActivitySource (A : Type) where
  /-- Somebody has used a physical device. -/
  sample : EStateM Error A Bool
  suspend : A → A
  keyboardState : A → Option (SortedSet ℕ)
  takeKeyboardEvents : A → List InputEvent × A
  prepareTouchpads : EStateM Error A (List Touchpad.Descriptor)
  routeTouchpads : Bool → EStateM Error A (List InputEvent)
  takeTouchpadEvents : A → List InputEvent × A

/-- Opening a device, with the keys that are down on it. -/
inductive Opened where
  | missing
  | refused (e : Error)
  | «open» (keys : List ℕ)

/-- `fetch_events` on a device that is open. -/
inductive Fetched where
  | wouldBlock
  | gone
  | failed
  | events (events : List Touchpad.RawEvent)

/-- What one pass finds at a device: how opening it ends, and what it has to read. -/
structure DeviceReading where
  opened : Opened
  fetched : Fetched

/-- What the kernel answers to one call. -/
structure Hardware where
  /-- `touchpad::Router::new` on the selected devices. -/
  touchpads : Result Touchpad.Router
  pads : ℕ → Touchpad.PadInput
  ticks : ℕ → Touchpad.Tick
  devices : ℕ → DeviceReading

/-- `ActivityMonitor`: the selected devices, the keys they hold, and the grabbed touchpads if those
are forwarded as such. -/
structure ActivityMonitor where
  /-- For every selected device, whether it is open. -/
  slots : List Bool
  keyboard : PhysicalKeys
  nativeTouchpads : Bool
  touchpads : Option Touchpad.Router
  touchpadProfiles : Option (List Touchpad.Descriptor)
  hardware : ℕ → Hardware
  calls : ℕ

namespace ActivityMonitor

/-- `ActivityMonitor::new`, with no device open yet. -/
def new (devices : ℕ) (nativeTouchpads : Bool) (hardware : ℕ → Hardware) :
    Result ActivityMonitor := do
  ensure (0 < devices ∧ devices ≤ 32) "Configure between one and 32 physical activity devices"
  return {
    slots := List.replicate devices false
    keyboard := default
    nativeTouchpads := nativeTouchpads
    touchpads := none
    touchpadProfiles := none
    hardware := hardware
    calls := 0 }

/-- What a monitor does: it changes itself, or fails. -/
abbrev MonitorM := EStateM Error ActivityMonitor

/-- The kernel's answers to this call. -/
def ask : MonitorM Hardware := fun m => .ok (m.hardware m.calls) { m with calls := m.calls + 1 }

/-- `ActivityMonitor::suspend`: every device is closed, and what they held is forgotten. -/
def suspend (m : ActivityMonitor) : ActivityMonitor :=
  { m with slots := m.slots.map fun _ => false, keyboard := default, touchpads := none }

/-- `take_keyboard_events`: the key transitions since they were last taken. -/
def takeKeyboardEvents (m : ActivityMonitor) : List InputEvent × ActivityMonitor :=
  (m.keyboard.drain.1, { m with keyboard := m.keyboard.drain.2 })

/-- `prepare_touchpads`: the router of the selected pads; their profiles are kept. -/
def prepareTouchpads : MonitorM (List Touchpad.Descriptor) := do
  let m ← get
  if m.nativeTouchpads then
    let hardware ← ask
    let router ← lift id hardware.touchpads
    let profiles := router.pads.map (·.descriptor)
    modify fun m => { m with touchpadProfiles := some profiles, touchpads := some router }
    return profiles
  else return []

/-- A captured frame as an input event. -/
def frameEvent (frame : Touchpad.CapturedFrame) : InputEvent :=
  .touchpad frame.1 frame.2.1 frame.2.2

/-- `route_touchpads`: the router switches sides, and hands over what it has to send for that. -/
def routeTouchpads (remote : Bool) : MonitorM (List InputEvent) := do
  let hardware ← ask
  let m ← get
  match m.touchpads with
  | none => return []
  | some router =>
      let (frames, router) ← lift id (router.route hardware.ticks remote)
      set { m with touchpads := some router }
      return frames.map frameEvent

/-- `take_touchpad_events`: the frames that wait in the router. -/
def takeTouchpadEvents (m : ActivityMonitor) : List InputEvent × ActivityMonitor :=
  match m.touchpads with
  | none => ([], m)
  | some router => (router.drain.1.map frameEvent, { m with touchpads := some router.drain.2 })

/-- A key of one device goes up or down. -/
def updateKey (index code : ℕ) (pressed : Bool) : MonitorM Unit := do
  let m ← get
  let keyboard ← lift id (m.keyboard.update index code pressed)
  set { m with keyboard := keyboard }

/-- The keys that are down on a device when it is opened. -/
def pressAll (index : ℕ) : List ℕ → MonitorM Unit
  | [] => pure ()
  | code :: codes => do
      updateKey index code true
      pressAll index codes

/-- The device at an index is open from now on, or closed. -/
def setSlot (index : ℕ) («open» : Bool) : MonitorM Unit :=
  modify fun m => { m with slots := m.slots.set index «open» }

/-- The events of one device; the result says whether one of them is activity. -/
def readEvents (index : ℕ) : List Touchpad.RawEvent → MonitorM Bool
  | [] => pure false
  | event :: events => do
      -- `EventType::KEY`, but for the repetition of a key that is held
      (if event.type = 1 ∧ event.value ≠ 2 then
        updateKey index event.code (decide (event.value ≠ 0))
      else pure ())
      let active := event.type == 1 || event.type == 3 || (event.type == 2 && event.value != 0)
      let rest ← readEvents index events
      return active || rest

/-- Reads a device that is open. -/
def readDevice (index : ℕ) (reading : DeviceReading) : MonitorM Bool := do
  match reading.fetched with
  | .wouldBlock => return false
  | .events events => readEvents index events
  | .failed => throw ["Physical input activity monitoring failed"]
  | .gone =>
      setSlot index false
      let m ← get
      let keyboard ← lift id (m.keyboard.disconnect index)
      set { m with keyboard := keyboard }
      return false

/-- One device of a pass: it is read if it is open, and opened with the keys it holds if it is not.
-/
def sampleDevice (index : ℕ) (isOpen : Bool) (reading : DeviceReading) : MonitorM Bool := do
  if isOpen then readDevice index reading
  else
    match reading.opened with
    | .missing => return false
    | .refused e => throw e
    | .open keys =>
        pressAll index keys
        setSlot index true
        readDevice index reading

/-- The loop over the selected devices; the answer is whether one was active. -/
def sampleDevices (hardware : Hardware) : ℕ → List Bool → MonitorM Bool
  | _, [] => pure false
  | index, isOpen :: slots => do
      let active ← sampleDevice index isOpen (hardware.devices index)
      let rest ← sampleDevices hardware (index + 1) slots
      return active || rest

/-- The touchpads are opened again after they were suspended. -/
def restoreTouchpads : MonitorM Unit := do
  let m ← get
  match m.touchpads, m.touchpadProfiles with
  | none, some previous =>
      if m.nativeTouchpads then
        let next ← prepareTouchpads
        lift id (ensure (previous = next)
          "Touchpad capabilities changed; reconnect to renegotiate them")
      else return ()
  | _, _ => return ()

/-- The part of a pass about the touchpads. -/
def sampleTouchpads (hardware : Hardware) : MonitorM Bool := do
  let m ← get
  match m.touchpads with
  | none => return false
  | some router =>
      let (active, router) ← lift id (router.sample hardware.pads)
      set { m with touchpads := some router }
      return active

/-- `ActivityMonitor::sample`, one pass: whether there was physical activity. -/
def sample : MonitorM Bool := do
  restoreTouchpads
  let hardware ← ask
  let touched ← sampleTouchpads hardware
  let m ← get
  let active ← sampleDevices hardware 0 m.slots
  return touched || active

instance : ActivitySource ActivityMonitor where
  sample := sample
  suspend := suspend
  keyboardState m := some m.keyboard.held
  takeKeyboardEvents := takeKeyboardEvents
  prepareTouchpads := prepareTouchpads
  routeTouchpads := routeTouchpads
  takeTouchpadEvents := takeTouchpadEvents

end ActivityMonitor

end NiriBridge
