import NiriBridge.Model.Coordinator
import NiriBridge.Model.Strips
import Mathlib.Data.String.Basic

/-!
# Model — Capture

`capture_probe.rs`: the capture worker of the bridge.  `State` is what it keeps while it dispatches
the events of the compositor, and each handler is a function on it; a handler that panics has no
result.  Proxies of the compositor are numbers, and requests to it leave no trace here.

Two variables are history, and nothing reads them: `accepted`, every input that was buffered or
handed to the channel before the capture finished, and `buffered`, those of them from before the
capture was ready.
-/

namespace NiriBridge.Capture

/-- `capture_probe::Counts`. -/
structure Counts where
  pointerLockObserved : Bool
  keyboardFocusObserved : Bool
  shortcutsInhibitedObserved : Bool
  relativeMotionEvents : ℕ
  keyboardEvents : ℕ
  buttonEvents : ℕ
  scrollEvents : ℕ
  stopReason : String
deriving DecidableEq

/-- `capture_probe::Strip`: a strip with its proxies. -/
structure Laid where
  strip : Strip
  surface : ℕ
  layer : ℕ
  outputId : ℕ
  armed : Bool
  pointerInside : Bool

/-- `StreamContext`, with the messages that the channel has taken. -/
structure StreamContext where
  generation : ℕ
  sent : List StreamEvent

/-- `State`: what the worker keeps while it dispatches events. -/
structure State where
  counts : Counts
  finished : Bool
  requested : Bool
  outputs : SortedMap String ℕ
  pointer : Bool
  keyboard : Bool
  strips : List Laid
  selected : Option ℕ
  stream : Option StreamContext
  readyReported : Bool
  startFraction : ℚ
  pendingInputs : List InputEvent
  pressedKeys : SortedSet ℕ
  scrollSource : ScrollSource
  accepted : List InputEvent
  buffered : List InputEvent

/-- What a handler finds. -/
structure Surroundings where
  /-- `StreamContext::cancel`. -/
  cancelled : Bool
  /-- The channel does not take the message with this number. -/
  full : ℕ → Bool
  /-- The buffer of a strip is allocated and written. -/
  allocated : Bool

namespace State

/-- `State::new`. -/
def new (stream : Option StreamContext) : State where
  counts := ⟨false, false, false, 0, 0, 0, 0, ""⟩
  finished := false
  requested := false
  outputs := ∅
  pointer := false
  keyboard := false
  strips := []
  selected := none
  stream := stream
  readyReported := false
  startFraction := 0
  pendingInputs := []
  pressedKeys := ∅
  scrollSource := .wheel
  accepted := []
  buffered := []

/-! ### The stream -/

/-- What the channel has taken. -/
def sent (s : State) : List StreamEvent := (s.stream.map StreamContext.sent).getD []

/-- The surface of the strip for which the capture was requested. -/
def selectedSurface (s : State) : Option ℕ :=
  (s.selected.bind fun index => s.strips[index]?).map Laid.surface

/-- `finish`: the capture ends, for the reason that is given first. -/
def finish (s : State) (reason : String) : State :=
  { s with
    counts := if s.finished then s.counts else { s.counts with stopReason := reason }
    finished := true }

/-- `try_send` of a message. -/
def trySend (s : State) (full : ℕ → Bool) (event : CaptureEvent) : Option State :=
  match s.stream with
  | none => some s
  | some stream =>
      if full stream.sent.length then none
      else some { s with
        stream := some { stream with sent := stream.sent ++ [⟨stream.generation, event⟩] } }

/-- Writes one event to the channel; a channel that is full ends the capture. -/
def publish (env : Surroundings) (event : CaptureEvent) (s : State) : State :=
  if s.finished then s else (s.trySend env.full event).getD (s.finish "event_queue_unavailable")

/-- Writes the events one after the other. -/
def publishAll (env : Surroundings) (events : List CaptureEvent) (s : State) : State :=
  events.foldl (fun s event => s.publish env event) s

/-- An input is buffered or handed to the channel. -/
def accept (event : InputEvent) (s : State) : State :=
  if s.finished then s else { s with accepted := s.accepted ++ [event] }

/-- `input`: an input that is valid is sent, or buffered until the capture is ready. -/
def input (env : Surroundings) (event : InputEvent) (s : State) : State :=
  match event.validate with
  | .error _ => s.finish "unsupported_input"
  | .ok () =>
      if s.readyReported then (s.accept event).publish env (.input event)
      else if s.pendingInputs.length < 128 then
        { s.accept event with pendingInputs := s.pendingInputs ++ [event] }
      else s.finish "event_queue_unavailable"

/-- Everything that a capture needs has been granted. -/
def granted (s : State) : Bool :=
  s.counts.pointerLockObserved && s.counts.keyboardFocusObserved &&
  s.counts.shortcutsInhibitedObserved

/-- The capture becomes ready: what `report_ready` does with the selected edge. -/
def report (env : Surroundings) (edge : ℕ) (s : State) : State :=
  let s := { s with readyReported := true, buffered := s.accepted }
  let s := s.publish env (.started edge s.startFraction)
  let pending := s.pendingInputs
  let s := { s with pendingInputs := [] }
  let s := s.publishAll env (pending.map .input)
  s.publish env .ready

/-- `report_ready`, once the pointer, the keyboard and the shortcuts are the worker's. -/
def reportReady (env : Surroundings) (s : State) : Option State :=
  if !s.readyReported && s.granted then
    -- `expect("A ready capture has a selected edge")`
    s.selected.map fun edge => s.report env edge
  else some s

/-- `request_capture`, at an edge and where along it the pointer entered. -/
def requestCapture (env : Surroundings) (edge : ℕ) (fraction : ℚ) (s : State) : State :=
  if s.requested || s.finished then s
  else if s.stream.isSome && env.cancelled then s.finish "cancelled"
  else
    let s := { s with startFraction := max 0 (min 1 fraction) }
    if (s.strips[edge]?).isSome && s.pointer then
      { s with selected := some edge, requested := true }
    else s

/-- `paint`: the buffer of a strip, within the limits of its size. -/
def paint (env : Surroundings) (index width height : ℕ) (s : State) : Result Unit := do
  ensure (0 < width ∧ 0 < height ∧ width ≤ 32768 ∧ height ≤ 32768) "Invalid capture strip size"
  ensure (width * height * 4 ≤ 4 * 1024 * 1024) "Capture strip exceeds buffer limit"
  ensure env.allocated "Could not allocate the capture strip"
  ensure (index < s.strips.length) "Capture surface missing"

end State

/-! ### The events of the compositor -/

/-- The events of `wl_output`. -/
inductive OutputEvent where
  | geometry
  | scale
  | mode
  | name (name : String)
  | other

/-- The capabilities of a seat, if they are known. -/
inductive SeatEvent where
  | capabilities (caps : Option (Bool × Bool))
  | other

/-- The events of a layer surface. -/
inductive LayerEvent where
  | configure (width height : ℕ)
  | closed

/-- `wl_pointer`'s source of a scroll. -/
inductive AxisSource where
  | wheel
  | finger
  | continuous
  | wheelTilt
deriving DecidableEq

/-- Values of enumerations that the program does not know are `none`. -/
inductive PointerEvent where
  | enter (surface : ℕ) (surfaceX surfaceY : ℚ)
  | leave (surface : ℕ)
  | button (button : ℕ) (pressed : Option Bool)
  | axisSource (source : Option AxisSource)
  | axis (axis : Option Axis) (value : ℚ)
  | axisStop (axis : Option Axis)
  | other

/-- The events of a relative pointer. -/
inductive RelativeEvent where
  | motion (dx dy : ℚ)

/-- The events of `wl_keyboard`; a press is `none` when the state is unknown. -/
inductive KeyboardEvent where
  | enter (surface : ℕ) (keys : List UInt8)
  | leave
  | key (key : ℕ) (pressed : Option Bool)
  | other

/-- The events of a locked pointer. -/
inductive LockedPointerEvent where
  | locked
  | unlocked

/-- The events of a shortcuts inhibitor. -/
inductive InhibitorEvent where
  | active
  | inactive

/-- An event with the object it is for, where the handler asks. -/
inductive Dispatched where
  | output (proxy : ℕ) (event : OutputEvent)
  | seat (event : SeatEvent)
  | layer (proxy : ℕ) (event : LayerEvent)
  | pointer (event : PointerEvent)
  | relative (event : RelativeEvent)
  | keyboard (event : KeyboardEvent)
  | locked (event : LockedPointerEvent)
  | inhibitor (event : InhibitorEvent)

namespace State

/-! ### Handlers -/

/-- The handler of `wl_output`: a change of an output that has a strip ends the capture. -/
def outputEvent (proxy : ℕ) (event : OutputEvent) (s : State) : State :=
  match event with
  | .geometry | .scale | .mode =>
      if s.strips.any fun strip => strip.outputId == proxy then
        s.finish "output_configuration_changed"
      else s
  | .name name => { s with outputs := s.outputs.insert name proxy }
  | .other => s

/-- The handler of `wl_seat`: a requested capture needs its pointer and its keyboard. -/
def seatEvent (event : SeatEvent) (s : State) : State :=
  match event with
  | .capabilities (some (pointer, keyboard)) =>
      let s := { s with pointer := s.pointer || pointer, keyboard := s.keyboard || keyboard }
      if s.requested && (!pointer || !keyboard) then s.finish "seat_removed" else s
  | _ => s

/-- The handler of a layer surface. -/
def layerEvent (env : Surroundings) (proxy : ℕ) (event : LayerEvent) (s : State) : State :=
  match event with
  | .configure width height =>
      match s.strips.findIdx? fun strip => strip.layer == proxy with
      | none => s.finish "surface_error"
      | some index => if (s.paint env index width height).isOk then s else s.finish "surface_error"
  | .closed => s.finish "surface_closed"

/-- The strip with this surface. -/
def entered (surface : ℕ) (s : State) : Option ℕ :=
  s.strips.findIdx? fun strip => strip.surface == surface

/-- The pointer enters a surface: an armed strip requests the capture. -/
def pointerEnter (env : Surroundings) (surface : ℕ) (surfaceX surfaceY : ℚ) (s : State) : State :=
  match s.entered surface with
  | none => s
  | some index =>
      let s :=
        { s with strips := s.strips.modify index fun strip => { strip with pointerInside := true } }
      match s.strips[index]? with
      | some laid =>
          if laid.armed then s.requestCapture env index
            (enterFraction laid.strip surfaceX surfaceY) else s
      | none => s

/-- The pointer leaves a surface, whose strip is armed again. -/
def pointerLeave (surface : ℕ) (s : State) : State :=
  match s.entered surface with
  | none => s
  | some index => { s with
      strips :=
        s.strips.modify index fun strip => { strip with pointerInside := false, armed := true } }

/-- The handler of `wl_pointer`. -/
def pointerEvent (env : Surroundings) (event : PointerEvent) (s : State) : State :=
  match event with
  | .enter surface surfaceX surfaceY => s.pointerEnter env surface surfaceX surfaceY
  | .leave surface => s.pointerLeave surface
  | .button button (some pressed) =>
      if s.requested then
        let s := { s with counts := { s.counts with buttonEvents := s.counts.buttonEvents + 1 } }
        if button < 2 ^ 16 then s.input env (.button button pressed) else s
      else s
  | .axisSource (some source) => { s with
      scrollSource := match source with
        | .finger => .finger
        | .continuous => .continuous
        | .wheel | .wheelTilt => .wheel }
  | .axis (some axis) value =>
      if s.requested then
        let s := { s with counts := { s.counts with scrollEvents := s.counts.scrollEvents + 1 } }
        s.input env (.scroll axis value s.scrollSource)
      else s
  | .axisStop (some axis) =>
      if s.requested then s.input env (.scrollStop axis s.scrollSource) else s
  | _ => s

/-- The handler of a relative pointer. -/
def relativeEvent (env : Surroundings) (event : RelativeEvent) (s : State) : State :=
  match event with
  | .motion dx dy =>
      if s.requested then
        let s := { s with
          counts := { s.counts with relativeMotionEvents := s.counts.relativeMotionEvents + 1 } }
        s.input env (.motion dx dy)
      else s

/-- `keys.as_chunks::<4>()`: the keys, and whether no byte is left over. -/
def keyChunks : List UInt8 → List ℕ × Bool
  | a :: b :: c :: d :: rest =>
      let (keys, whole) := keyChunks rest
      ((a.toNat + 2 ^ 8 * b.toNat + 2 ^ 16 * c.toNat + 2 ^ 24 * d.toNat) :: keys, whole)
  | [] => ([], true)
  | _ => ([], false)

/-- A key that is down when the keyboard enters. -/
def enterKey (env : Surroundings) (s : State) (key : ℕ) : State :=
  if key < 2 ^ 16 ∧ key ∉ s.pressedKeys then
    { s with pressedKeys := s.pressedKeys.insert key }.input env (.key key true)
  else s

/-- The keyboard enters the selected surface, with the keys it holds. -/
def keyboardEnter (env : Surroundings) (keys : List UInt8) (s : State) : Option State :=
  let s := { s with counts := { s.counts with keyboardFocusObserved := true } }
  let (codes, whole) := keyChunks keys
  if whole then (codes.foldl (enterKey env) s).reportReady env
    else some (s.finish "invalid_key_state")

/-- A key goes up or down: the emergency release, or an input if it was not so before. -/
def changeKey (env : Surroundings) (code : ℕ) (pressed : Bool) (s : State) : State :=
  let changed := if pressed then decide (code ∉ s.pressedKeys) else decide (code ∈ s.pressedKeys)
  let s := { s with
    pressedKeys := if pressed then s.pressedKeys.insert code else s.pressedKeys.erase code }
  let emergency := emergencyModifiers s.pressedKeys
  if code = 1 ∧ pressed ∧ (s.stream.isNone ∨ emergency) then s.finish "escape"
  else if changed then s.input env (.key code pressed)
  else s

/-- A key of the selected surface. -/
def key (env : Surroundings) (key : ℕ) (pressed : Option Bool) (s : State) : State :=
  let s := { s with counts := { s.counts with keyboardEvents := s.counts.keyboardEvents + 1 } }
  if key < 2 ^ 16 then s.changeKey env key (pressed == some true) else s.finish "unsupported_input"

/-- The handler of `wl_keyboard`. -/
def keyboardEvent (env : Surroundings) (event : KeyboardEvent) (s : State) : Option State :=
  match event with
  | .enter surface keys =>
      if s.selectedSurface = some surface then s.keyboardEnter env keys else some s
  | .leave => some (if s.counts.keyboardFocusObserved then s.finish "keyboard_focus_lost" else s)
  | .key code pressed => some (if s.requested then s.key env code pressed else s)
  | .other => some s

/-- The handler of the locked pointer. -/
def lockedPointerEvent (env : Surroundings) (event : LockedPointerEvent) (s : State) :
    Option State :=
  match event with
  | .locked => { s with counts := { s.counts with pointerLockObserved := true } }.reportReady env
  | .unlocked => some (s.finish "pointer_unlocked")

/-- The handler of the shortcuts inhibitor. -/
def inhibitorEvent (env : Surroundings) (event : InhibitorEvent) (s : State) : Option State :=
  match event with
  | .active =>
      { s with counts := { s.counts with shortcutsInhibitedObserved := true } }.reportReady env
  | .inactive => some (if s.requested then s.finish "shortcuts_inhibitor_lost" else s)

/-- The handler of an event; `none` is for a panic. -/
def dispatch (env : Surroundings) (event : Dispatched) (s : State) : Option State :=
  match event with
  | .output proxy event => some (s.outputEvent proxy event)
  | .seat event => some (s.seatEvent event)
  | .layer proxy event => some (s.layerEvent env proxy event)
  | .pointer event => some (s.pointerEvent env event)
  | .relative event => some (s.relativeEvent env event)
  | .keyboard event => s.keyboardEvent env event
  | .locked event => s.lockedPointerEvent env event
  | .inhibitor event => s.inhibitorEvent env event

/-! ### The worker -/

/-- Pointers that are at an edge already have to leave it before they can be captured. -/
def arm (env : Surroundings) (s : State) : State :=
  let strips := s.strips.map fun strip : Laid => { strip with armed := !strip.pointerInside }
  let s := { s with strips := strips }
  s.publish env .armed

/-- The surfaces are destroyed. -/
def cleanup (s : State) : State := { s with strips := [] }

/-- The last message, which the channel may not take. -/
def conclude (full : ℕ → Bool) (s : State) : State :=
  (s.trySend full (.finished s.counts.stopReason)).getD s

/-- The events of a round, one after the other. -/
def dispatchAll : List (Dispatched × Surroundings) → State → Option State
  | [], s => some s
  | (event, env) :: events, s => do
      let s ← s.dispatch env event
      dispatchAll events s

/-- The strips as they are laid, with their proxies. -/
def lay (strips : List Strip) (proxies : ℕ → ℕ × ℕ) (s : State) : State :=
  { s with strips := s.strips ++ strips.zipIdx.map fun p =>
      ⟨p.1, (proxies p.2).1, (proxies p.2).2, (s.outputs.get? p.1.output).getD 0, false, false⟩ }

end State

/-- One turn of the loop of a worker. -/
structure Round where
  cancelled : Bool
  events : List (Dispatched × Surroundings)

/-- What a worker finds.  After its rounds the connection fails. -/
structure Journal where
  outputs : OutputTable
  proxies : ℕ → ℕ × ℕ
  /-- The events of the first round trip, and of the two after the strips are laid. -/
  first : List (Dispatched × Surroundings)
  second : List (Dispatched × Surroundings)
  arming : Surroundings
  rounds : List Round
  failure : Error
  /-- The events of the last round trip. -/
  last : List (Dispatched × Surroundings)
  concluding : Surroundings

namespace State

/-- The loop of the worker, over the rounds that come; when none comes any more it fails. -/
def loop (failure : Error) : List Round → State → Option (Result Unit × State)
  | [], s => some (if s.finished then .ok () else .error failure, s)
  | round :: rounds, s =>
      if s.finished then some (.ok (), s)
      else if round.cancelled then some (.ok (), s.finish "cancelled")
      else do
        let s ← s.dispatchAll round.events
        loop failure rounds s

/-- What the strips need. -/
def setup (j : Journal) (options : List Options) (s : State) : Result (List Strip) := do
  ensure (s.pointer ∧ s.keyboard) "A keyboard and pointer seat is required"
  Capture.strips j.outputs (s.outputs.toList.map Prod.fst) options

/-- `worker_stream`. -/
def workerStream (j : Journal) (options : List Options) (generation : ℕ) :
    Option (Result Counts × State) := do
  let s ← (new (some ⟨generation, []⟩)).dispatchAll j.first
  match s.setup j options with
  | .error e => return (.error e, s)
  | .ok strips =>
      let s ← (s.lay strips j.proxies).dispatchAll j.second
      let (outcome, s) ← (s.arm j.arming).loop j.failure j.rounds
      let s :=
        if s.finished then s else s.finish (if outcome.isOk then "timeout" else "connection_error")
      let s ← s.cleanup.dispatchAll j.last
      let s := s.conclude j.concluding.full
      return (outcome.map fun _ => s.counts, s)

end State

end NiriBridge.Capture
