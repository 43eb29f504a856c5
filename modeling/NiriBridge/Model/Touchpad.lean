import NiriBridge.Model.Error
import NiriBridge.Support.SortedMap
import NiriBridge.Support.SortedSet
import Mathlib.Algebra.Group.Int.Defs
import Mathlib.Algebra.Group.Nat.Defs

/-!
# Model — Touchpad

`touchpad.rs`: native multi-touch forwarding.  A frame is a list of events, a change relative to the
state its reader has; `TouchState` is that state.  `Router` reads the physical pads, mirrors their
frames locally, and queues them for the peer while sharing.

What the kernel answers is an argument: `RawEvent`s and a `Reading` of each device for one call of
`Router::sample`, and a `Tick` (the clock, and whether the write is accepted) for each write.
-/

namespace NiriBridge.Touchpad

/-! ### Codes, descriptors and frames -/

/-- `BTN_TOUCH`. -/
def TOUCH : ℕ := 330
/-- `ABS_MT_SLOT`. -/
def SLOT : ℕ := 47
/-- `ABS_MT_TRACKING_ID`. -/
def TRACKING : ℕ := 57

/-- `touch_key`. -/
def touchKey (code : ℕ) : Bool :=
  (272 ≤ code && code ≤ 274) || code == 325 || code == 328 || code == 330 ||
    (333 ≤ code && code ≤ 335)

/-- `touch_axis`. -/
def touchAxis (code : ℕ) : Bool :=
  code == 0 || code == 1 || code == 24 || code == 28 || (47 ≤ code && code ≤ 61)

/-- `AxisInfo`: the range of an axis, and how exact it is. -/
structure AxisInfo where
  code : ℕ
  minimum : ℤ
  maximum : ℤ
  fuzz : ℤ
  flat : ℤ
  resolution : ℤ
deriving DecidableEq, Repr

/-- `Descriptor`: what a touchpad can report. -/
structure Descriptor where
  keys : List ℕ
  properties : List ℕ
  axes : List AxisInfo
deriving DecidableEq, Repr

/-- `Kind`: a key, or a value on an axis. -/
inductive Kind where
  | key
  | absolute
deriving DecidableEq, Repr

/-- `Event`: what a touchpad reports. -/
structure Event where
  kind : Kind
  code : ℕ
  value : ℤ
deriving DecidableEq, Repr

/-- A key of a touchpad. -/
def Event.key (code : ℕ) (value : ℤ) : Event := ⟨.key, code, value⟩

/-- A value on an axis. -/
def Event.abs (code : ℕ) (value : ℤ) : Event := ⟨.absolute, code, value⟩

/-- The bounds of one event that hold whatever the device. -/
def Event.admissible (e : Event) : Bool :=
  match e.kind with
  | .key => touchKey e.code && (0 ≤ e.value && e.value ≤ 1)
  | .absolute => touchAxis e.code && (-1000000 ≤ e.value && e.value ≤ 1000000)

/-- `validate_frame`. -/
def validateFrame (events : List Event) : Result Unit := do
  ensure (events ≠ [] ∧ events.length ≤ 512) "Invalid touchpad frame size"
  forEach (fun e => ensure (e.admissible = true) "Invalid touchpad event") events

namespace Descriptor

/-- The axis a descriptor advertises under a code. -/
def axis? (d : Descriptor) (code : ℕ) : Option AxisInfo := d.axes.find? (·.code == code)

/-- The checks of one axis, given the axes before it. -/
def validateAxis (previous : List AxisInfo) (axis : AxisInfo) : Result Unit := do
  ensure (touchAxis axis.code = true ∧ axis.code ∉ previous.map AxisInfo.code)
    "Unsupported or duplicate touchpad axis"
  ensure (-1000000 ≤ axis.minimum ∧ axis.minimum ≤ 1000000 ∧ axis.minimum ≤ axis.maximum ∧
      axis.maximum ≤ 1000000)
    "Invalid touchpad axis range"
  ensure (∀ v ∈ [axis.fuzz, axis.flat, axis.resolution], 0 ≤ v ∧ v ≤ 100000)
    "Invalid touchpad axis calibration"

/-- The loop over the axes; `previous` are those it has passed. -/
def validateAxes (previous : List AxisInfo) : List AxisInfo → Result Unit
  | [] => .ok ()
  | axis :: axes => do
      validateAxis previous axis
      validateAxes (previous ++ [axis]) axes

/-- `Descriptor::validate`. -/
def validate (d : Descriptor) : Result Unit := do
  ensure ((2 ≤ d.keys.length ∧ d.keys.length ≤ 16) ∧ ∀ code ∈ d.keys, touchKey code = true)
    "Unsupported touchpad keys"
  ensure (d.keys.Nodup) "Duplicate touchpad key"
  ensure (TOUCH ∈ d.keys ∧ 325 ∈ d.keys) "Touchpad contact capabilities are missing"
  ensure (d.properties.length ≤ 5 ∧ 0 ∈ d.properties ∧ ∀ p ∈ d.properties, p ∈ [0, 2, 3, 4, 6])
    "Unsupported touchpad properties"
  ensure (4 ≤ d.axes.length ∧ d.axes.length ≤ 20) "Invalid touchpad axis count"
  validateAxes [] d.axes
  ensure ([0, 1, SLOT, 53, 54, TRACKING].all (d.axes.map AxisInfo.code).contains)
    "A slot-based multi-touch touchpad is required"
  let slot ← orError "unwrap" (d.axis? SLOT)
  ensure (slot.minimum = 0 ∧ (0 ≤ slot.maximum ∧ slot.maximum < 32))
    "Unsupported touchpad contact count"

/-- `slots`: how many contacts there can be. -/
def slots (d : Descriptor) : ℕ :=
  match d.axis? SLOT with
  | some axis => (axis.maximum + 1).toNat
  | none => 0

/-- `validate_event`. -/
def validateEvent (d : Descriptor) (event : Event) : Result Unit :=
  match event.kind with
  | .key => ensure (event.code ∈ d.keys) "Touchpad key was not advertised"
  | .absolute => do
      let axis ← orError "Touchpad axis was not advertised" (d.axis? event.code)
      ensure ((axis.minimum ≤ event.value ∧ event.value ≤ axis.maximum) ∨
          (event.code = TRACKING ∧ event.value = -1))
        "Touchpad value is outside its axis range"

/-- `Descriptor::validate_frame`. -/
def validateFrame (d : Descriptor) (frame : List Event) : Result Unit := do
  Touchpad.validateFrame frame
  forEach d.validateEvent frame

end Descriptor

/-! ### The state of a reader -/

/-- `TouchState`: the current slot, the pressed keys, the axes, and the contact in each slot. -/
structure TouchState where
  slot : ℕ
  keys : SortedSet ℕ
  axes : SortedMap ℕ ℤ
  contacts : List (SortedMap ℕ ℤ)
deriving DecidableEq

/-- What the kernel reports of a device: pressed keys, the value of each absolute axis, and the
value of a multi-touch axis in each slot. -/
structure Reading where
  keys : Result (List ℕ)
  axes : Result (List (ℕ × ℤ))
  slotValues : ℕ → Option (ℕ → ℤ)

/-- `value as usize`, of an `i32`. -/
def asUsize (value : ℤ) : ℕ := (value % 2 ^ 64).toNat

namespace TouchState

/-- `TouchState::new`: no key and no contact, and every axis at its minimum. -/
def new (d : Descriptor) : TouchState where
  slot := 0
  keys := ∅
  axes := .ofList ((d.axes.filter (·.code < SLOT)).map fun a => (a.code, a.minimum))
  contacts := List.replicate d.slots (.ofList [(TRACKING, -1)])

/-- One axis of `TouchState::read`. -/
def readAxis (r : Reading) (state : TouchState) (code : ℕ) (value : ℤ) : Result TouchState :=
  if code < SLOT then .ok { state with axes := state.axes.insert code value }
  else if code = SLOT then .ok { state with slot := asUsize value }
  else do
    let values ← orError "Cannot inspect touchpad contacts" (r.slotValues code)
    return { state with
      contacts := state.contacts.mapIdx fun index c => c.insert code (values index) }

/-- The loop of `read`. -/
def readAxes (r : Reading) (state : TouchState) : List (ℕ × ℤ) → Result TouchState
  | [] => .ok state
  | (code, value) :: axes => do
      let state ← readAxis r state code value
      readAxes r state axes

/-- `TouchState::read`: the state of the device, as the kernel reports it. -/
def read (r : Reading) (d : Descriptor) : Result TouchState := do
  let keys ← r.keys
  let axes ← r.axes
  let state ← readAxes r { new d with keys := .ofList (keys.filter touchKey) } axes
  ensure (state.slot < state.contacts.length) "Touchpad has an invalid current slot"
  return state

/-- The tracking id of a contact, `-1` where the source takes it so. -/
def tracking (contact : SortedMap ℕ ℤ) : ℤ := (contact.get? TRACKING).getD (-1)

/-- `idle`: no key is down, and no slot has a contact. -/
def idle (s : TouchState) : Bool :=
  s.keys.isEmpty && s.contacts.all fun c => (c.get? TRACKING).all (· < 0)

/-- What an event changes. -/
def applyEvent (s : TouchState) (event : Event) : TouchState :=
  match event.kind with
  | .key =>
      if event.value = 0 then { s with keys := s.keys.erase event.code }
      else { s with keys := s.keys.insert event.code }
  | .absolute =>
      if event.code = SLOT then { s with slot := asUsize event.value }
      else if SLOT < event.code then
        { s with contacts := s.contacts.modify s.slot fun c => c.insert event.code event.value }
      else { s with axes := s.axes.insert event.code event.value }

/-- `apply`: the events of a frame, one after the other. -/
def apply (s : TouchState) (events : List Event) : TouchState := events.foldl applyEvent s

/-- The part of a snapshot that describes slot `index`. -/
def snapshotSlot (index : ℕ) (contact : SortedMap ℕ ℤ) : List Event :=
  if 0 ≤ tracking contact then
    [.abs SLOT index, .abs TRACKING (tracking contact)] ++
      (contact.toList.filter fun p => p.1 ≠ TRACKING).map fun p => .abs p.1 p.2
  else []

/-- The part of `snapshot` about the slots. -/
def snapshotSlots (index : ℕ) : List (SortedMap ℕ ℤ) → List Event
  | [] => []
  | contact :: contacts => snapshotSlot index contact ++ snapshotSlots (index + 1) contacts

/-- `snapshot`: the frame that takes a new device to this state. -/
def snapshot (s : TouchState) : List Event :=
  [.key TOUCH (if TOUCH ∈ s.keys then 1 else 0)] ++
    snapshotSlots 0 s.contacts ++
    s.axes.toList.map (fun p => .abs p.1 p.2) ++
    (s.keys.toList.filter (· ≠ TOUCH)).map (.key · 1) ++
    [.abs SLOT s.slot]

/-- The end of the contact in every slot. -/
def releaseSlots : ℕ → ℕ → List Event
  | _, 0 => []
  | index, n + 1 => [.abs SLOT index, .abs TRACKING (-1)] ++ releaseSlots (index + 1) n

/-- `releases`: the frame that ends every contact and lets every key go. -/
def releases (s : TouchState) : List Event :=
  [.key TOUCH 0] ++ releaseSlots 0 s.contacts.length ++
    (s.keys.toList.filter (· ≠ TOUCH)).map (.key · 0)

end TouchState

/-! ### The virtual touchpad -/

/-- `RemoteClock`: the source's clock against the own one, and the last time it gave. -/
structure RemoteClock where
  offset : Option ℤ := none
  last : ℕ := 0
deriving DecidableEq, Repr

/-- `RemoteClock::map`: the local time of a frame captured at `source` that arrives at `now`. -/
def RemoteClock.map (c : RemoteClock) (source now : ℕ) : RemoteClock × ℕ :=
  let observed := (now : ℤ) - (source : ℤ)
  let offset := match c.offset with
    | some previous => min previous observed
    | none => observed
  let time := (max ((source : ℤ) + offset) 1).toNat
  let time := min (max time c.last) now
  ({ offset := some offset, last := time }, time)

/-- One write to a device: the monotonic clock when it is asked for and when it is made, and whether
the kernel takes it. -/
structure Tick where
  asked : ℕ
  now : ℕ
  write : Result Unit

/-- `VirtualTouchpad`: what its readers have been told, and when it was last written. -/
structure VirtualTouchpad where
  descriptor : Descriptor
  state : TouchState
  remoteClock : RemoteClock
  lastTime : ℕ

namespace VirtualTouchpad

/-- `emit_at`: a frame that is not too late is written. -/
def emitAt (tick : Tick) (events : List Event) (time : ℕ) (pad : VirtualTouchpad) :
    Result VirtualTouchpad := do
  pad.descriptor.validateFrame events
  ensure (time ≤ tick.now ∧ tick.now - time ≤ 200000)
    "Touchpad input became too delayed; restoring local control"
  let time := min (max time pad.lastTime) tick.now
  tick.write
  return { pad with lastTime := time, state := pad.state.apply events }

/-- `emit`: a frame of now. -/
def emit (tick : Tick) (events : List Event) (pad : VirtualTouchpad) : Result VirtualTouchpad :=
  emitAt tick events tick.asked pad

/-- `emit_remote`: a frame with the time of its source. -/
def emitRemote (tick : Tick) (events : List Event) (time : ℕ) (pad : VirtualTouchpad) :
    Result VirtualTouchpad :=
  let (clock, time) := pad.remoteClock.map time tick.asked
  emitAt tick events time { pad with remoteClock := clock }

/-- `reset`: what is down is released, and the state begins anew. -/
def reset (tick : Tick) (pad : VirtualTouchpad) : Result VirtualTouchpad := do
  let pad ← pad.emit tick pad.state.releases
  return { pad with state := .new pad.descriptor, remoteClock := {} }

end VirtualTouchpad

/-! ### The router -/

/-- `PhysicalTouchpad`: its state, the virtual pad that mirrors it, whether it is grabbed, and the
frame it is in the middle of. -/
structure PhysicalTouchpad where
  descriptor : Descriptor
  state : TouchState
  mirror : VirtualTouchpad
  grabbed : Bool
  frame : List Event

/-- A pad as `Router::open` leaves it. -/
def PhysicalTouchpad.opened (d : Descriptor) : PhysicalTouchpad where
  descriptor := d
  state := .new d
  mirror := { descriptor := d, state := .new d, remoteClock := {}, lastTime := 0 }
  grabbed := false
  frame := []

/-- The pad's index, the capture time in microseconds, and the frame. -/
abbrev CapturedFrame := ℕ × ℕ × List Event

/-- `Router`: the physical pads, the side their frames go to, and those that wait to be sent. -/
structure Router where
  pads : List PhysicalTouchpad
  remote : Bool
  pending : List CapturedFrame

/-- An evdev event as it is read from a physical device. -/
structure RawEvent where
  type : ℕ
  code : ℕ
  value : ℤ
  time : ℕ
deriving DecidableEq, Repr

/-- What the kernel answers about one pad during `Router::sample`. -/
structure PadInput where
  /-- The events that were waiting, or the failure to read them. -/
  events : Result (List RawEvent)
  /-- The keys of the device that are down when it is not grabbed yet. -/
  keyState : Result (List ℕ)
  grab : Result Unit
  /-- The frames from before the grab are read and dropped. -/
  flush : Result Unit
  /-- The device after the grab. -/
  reading : Reading
  /-- `release_physical`, when the device was not idle after all. -/
  handoff : Result Unit
  mirror : Tick

namespace Router

/-- `Router::open` on devices with these descriptors. -/
def opened (descriptors : List Descriptor) : Result Router := do
  forEach Descriptor.validate descriptors
  return { pads := descriptors.map .opened, remote := false, pending := [] }

/-- The end of a frame, `SYN_REPORT`. -/
def completeFrame (remote : Bool) (index : ℕ) (input : PadInput) (time : ℕ)
    (pad : PhysicalTouchpad) (pending : List CapturedFrame) :
    Result (PhysicalTouchpad × List CapturedFrame) := do
  ensure (pending.length < 128) "Touchpad forwarding queue is full"
  let frame := pad.frame
  let pad := { pad with frame := [] }
  pad.descriptor.validateFrame frame
  let pad := { pad with state := pad.state.apply frame }
  if remote then
    return (pad, pending ++ [(index, time, frame)])
  else
    let mirror ← pad.mirror.emitAt input.mirror frame time
    return ({ pad with mirror := mirror }, pending)

/-- One event of the loop of `Router::sample`. -/
def sampleEvent (remote : Bool) (index : ℕ) (input : PadInput) (event : RawEvent)
    (pad : PhysicalTouchpad) (pending : List CapturedFrame) :
    Result (PhysicalTouchpad × List CapturedFrame) := do
  if pad.grabbed then
    let (pad, pending) ←
      (if event.type = 0 ∧ event.code = 3 then
        .error ["Touchpad events were lost; restoring local control"]
      else if event.type = 0 ∧ event.code = 0 ∧ pad.frame ≠ [] then
        completeFrame remote index input event.time pad pending
      else if event.type = 1 ∧ touchKey event.code ∧ event.value ≠ 2 then
        .ok ({ pad with frame := pad.frame ++ [.key event.code event.value] }, pending)
      else if event.type = 3 ∧ touchAxis event.code then
        .ok ({ pad with frame := pad.frame ++ [.abs event.code event.value] }, pending)
      else .ok (pad, pending))
    ensure (pad.frame.length ≤ 512) "Touchpad frame is too large"
    return (pad, pending)
  else return (pad, pending)

/-- The loop over the events of a pad. -/
def sampleEvents (remote : Bool) (index : ℕ) (input : PadInput) :
    List RawEvent → PhysicalTouchpad → List CapturedFrame →
      Result (PhysicalTouchpad × List CapturedFrame)
  | [], pad, pending => .ok (pad, pending)
  | event :: events, pad, pending => do
      let (pad, pending) ← sampleEvent remote index input event pad pending
      sampleEvents remote index input events pad pending

/-- A pad that is not grabbed is grabbed once nothing touches it. -/
def acquire (input : PadInput) (pad : PhysicalTouchpad) : Result PhysicalTouchpad := do
  if pad.grabbed then return pad
  else
    let keys ← input.keyState
    if keys.any touchKey then return pad
    else
      context "Cannot acquire the selected touchpad" input.grab
      input.flush
      let state ← TouchState.read input.reading pad.descriptor
      if state.idle then return { pad with state := state, grabbed := true }
      else
        input.handoff
        return pad

/-- One pad of a pass: its events, and an attempt to grab it. -/
def samplePad (remote : Bool) (index : ℕ) (input : PadInput) (pad : PhysicalTouchpad)
    (pending : List CapturedFrame) : Result (Bool × PhysicalTouchpad × List CapturedFrame) := do
  let events ← input.events
  ensure (events.length ≤ 4096) "Touchpad input queue is full"
  let active := pad.grabbed && events.any fun e => e.type == 1 || e.type == 3
  let (pad, pending) ← sampleEvents remote index input events pad pending
  let pad ← acquire input pad
  return (active, pad, pending)

/-- The loop over the pads. -/
def samplePads (remote : Bool) (input : ℕ → PadInput) :
    ℕ → List PhysicalTouchpad → List CapturedFrame →
      Result (Bool × List PhysicalTouchpad × List CapturedFrame)
  | _, [], pending => .ok (false, [], pending)
  | index, pad :: pads, pending => do
      let (active, pad, pending) ← samplePad remote index (input index) pad pending
      let (active', pads, pending) ← samplePads remote input (index + 1) pads pending
      return (active || active', pad :: pads, pending)

/-- `Router::sample`: whether a pad that is grabbed was touched. -/
def sample (input : ℕ → PadInput) (r : Router) : Result (Bool × Router) := do
  let (active, pads, pending) ← samplePads r.remote input 0 r.pads r.pending
  return (active, { r with pads := pads, pending := pending })

/-- One pad of the loop of `Router::route`. -/
def routePad (remote : Bool) (index : ℕ) (tick : Tick) (pad : PhysicalTouchpad) :
    Result (PhysicalTouchpad × List CapturedFrame) := do
  if pad.grabbed then
    let snapshot := pad.state.snapshot
    if remote then
      let mirror ← pad.mirror.reset tick
      return ({ pad with mirror := mirror }, [(index, tick.now, snapshot)])
    else
      let mirror ← pad.mirror.emit tick snapshot
      return ({ pad with mirror := mirror }, [])
  else return (pad, [])

/-- The loop over the pads when the side changes. -/
def routePads (remote : Bool) (tick : ℕ → Tick) :
    ℕ → List PhysicalTouchpad → Result (List PhysicalTouchpad × List CapturedFrame)
  | _, [] => .ok ([], [])
  | index, pad :: pads => do
      let (pad, snapshots) ← routePad remote index (tick index) pad
      let (pads, snapshots') ← routePads remote tick (index + 1) pads
      return (pad :: pads, snapshots ++ snapshots')

/-- `Router::route`: the pads are shown to the other side, and hidden from this one. -/
def route (tick : ℕ → Tick) (remote : Bool) (r : Router) :
    Result (List CapturedFrame × Router) :=
  if r.remote = remote then .ok ([], r)
  else do
    let (pads, snapshots) ← routePads remote tick 0 r.pads
    return (snapshots, { pads := pads, remote := remote, pending := [] })

/-- `Router::drain`. -/
def drain (r : Router) : List CapturedFrame × Router := (r.pending, { r with pending := [] })

end Router

end NiriBridge.Touchpad
