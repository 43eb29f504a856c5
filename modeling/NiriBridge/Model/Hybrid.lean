import NiriBridge.Model.Receiver
import NiriBridge.Model.Touchpad

/-!
# Model — Hybrid

`pointer.rs`, `Hybrid`: the backend of a receiver on the desktop, a pointer, a keyboard and the
negotiated virtual touchpads.  The pointer and the keyboard are any backends.  A touchpad is the
`VirtualTouchpad` of `touchpad.rs` and the kernel device it writes to: what the device's readers
have been told, and how the kernel answers the writes to come.
-/

namespace NiriBridge

open Touchpad

namespace Hybrid

/-- How the kernel answers one write: the clock and the result, and whether a write that fails has
taken effect all the same. -/
structure Answer where
  tick : Tick
  landed : Bool

/-- The kernel's side of a virtual touchpad. -/
structure Device where
  /-- What its readers have been told. -/
  state : TouchState
  answers : ℕ → Answer

namespace Device

/-- The answer to the next write. -/
def answer (device : Device) : Answer := device.answers 0

/-- One answer has been used up. -/
def asked (device : Device) : Device := { device with answers := fun n => device.answers (n + 1) }

/-- A device whose readers have been told the events. -/
def take (device : Device) (events : List Event) : Device :=
  { device with state := device.state.apply events }

end Device

/-- A virtual touchpad and the device it writes to. -/
structure Pad where
  pad : VirtualTouchpad
  device : Device

namespace Pad

/-- `VirtualTouchpad::create`, with the answers of the device the kernel has made. -/
def create (descriptor : Descriptor) (answers : ℕ → Answer) : Pad where
  pad := { descriptor := descriptor, state := .new descriptor, remoteClock := {}, lastTime := 0 }
  device := { state := .new descriptor, answers := answers }

/-- `emit_at`: the frame is checked and timed before the write, and taken note of after it. -/
def emitAt (events : List Event) (time : ℕ) (p : Pad) : Result Unit × Pad :=
  match p.pad.emitAt { p.device.answer.tick with write := .ok () } events time with
  | .error e => (.error e, { p with device := p.device.asked })
  | .ok pad =>
      match p.device.answer.tick.write with
      | .ok () => (.ok (), { pad := pad, device := p.device.asked.take events })
      | .error e =>
          (.error e, { p with
            device := if p.device.answer.landed then p.device.asked.take events
              else p.device.asked })

/-- `VirtualTouchpad::emit` at a pad. -/
def emit (events : List Event) (p : Pad) : Result Unit × Pad :=
  p.emitAt events p.device.answer.tick.asked

/-- `VirtualTouchpad::emit_remote` at a pad. -/
def emitRemote (events : List Event) (time : ℕ) (p : Pad) : Result Unit × Pad :=
  let (clock, time) := p.pad.remoteClock.map time p.device.answer.tick.asked
  Pad.emitAt events time { p with pad := { p.pad with remoteClock := clock } }

/-- `VirtualTouchpad::reset` at a pad. -/
def reset (p : Pad) : Result Unit × Pad :=
  match p.emit p.pad.state.releases with
  | (.error e, p) => (.error e, p)
  | (.ok (), p) => (.ok (), { p with
      pad := { p.pad with state := .new p.pad.descriptor, remoteClock := {} } })

end Pad

end Hybrid

/-- The backend of the receiver: a pointer, a keyboard, and the touchpads that were negotiated. -/
structure Hybrid (P K : Type) where
  pointer : P
  keyboard : K
  touchpads : List Hybrid.Pad
  /-- The kernel's answers to the requests for a new device: the answers of that device, or an
  error. -/
  devices : ℕ → Result (ℕ → Hybrid.Answer)

namespace Hybrid

variable {P K : Type}

/-- `Hybrid::connect`, with no touchpad yet. -/
def connect (pointer : P) (keyboard : K) (devices : ℕ → Result (ℕ → Answer)) : Hybrid P K :=
  { pointer := pointer, keyboard := keyboard, touchpads := [], devices := devices }

/-- The loop of `reset_touchpads`. -/
def resetPads : List Pad → Result Unit × List Pad
  | [] => (.ok (), [])
  | p :: pads =>
      match p.reset with
      | (.error e, p) => (.error e, p :: pads)
      | (.ok (), p) => ((resetPads pads).1, p :: (resetPads pads).2)

/-- `reset_touchpads`. -/
def resetTouchpads (h : Hybrid P K) : Result Unit × Hybrid P K :=
  ((resetPads h.touchpads).1, { h with touchpads := (resetPads h.touchpads).2 })

/-- The loop of `configure_touchpads`, and the answers left over. -/
def createPads (devices : ℕ → Result (ℕ → Answer)) :
    List Descriptor → Result (List Pad) × (ℕ → Result (ℕ → Answer))
  | [] => (.ok [], devices)
  | descriptor :: descriptors =>
      match descriptor.validate with
      | .error e => (.error e, devices)
      | .ok () =>
          let rest := fun n => devices (n + 1)
          match devices 0 with
          | .error e => (.error e, rest)
          | .ok answers =>
              let (pads, rest) := createPads rest descriptors
              (do let pads ← pads; return .create descriptor answers :: pads, rest)

/-- `configure_touchpads`, once. -/
def configureTouchpads (descriptors : List Descriptor) (h : Hybrid P K) :
    Result Unit × Hybrid P K :=
  if descriptors.length ≤ 4 ∧ h.touchpads.isEmpty then
    match createPads h.devices descriptors with
    | (.ok pads, devices) => (.ok (), { h with touchpads := pads, devices := devices })
    | (.error e, devices) => (.error e, { h with devices := devices })
  else (.error ["Touchpad negotiation may occur only once"], h)

/-- `emit`: a frame of a touchpad goes to its pad, a key to the keyboard, and the rest to the
pointer. -/
def emit [InputSink P] [InputSink K] (event : InputEvent) (h : Hybrid P K) :
    Result Unit × Hybrid P K :=
  match event with
  | .touchpad device timeUs events =>
      match h.touchpads[device]? with
      | none => (.error ["Touchpad was not negotiated"], h)
      | some p =>
          let (result, p) := p.emitRemote events timeUs
          (result, { h with touchpads := h.touchpads.set device p })
  | .key .. =>
      let (result, keyboard) := InputSink.emit event h.keyboard
      (result, { h with keyboard := keyboard })
  | _ =>
      let (result, pointer) := InputSink.emit event h.pointer
      (result, { h with pointer := pointer })

instance [InputSink P] [InputSink K] : InputSink (Hybrid P K) where
  poll h :=
    let (result, pointer) := InputSink.poll h.pointer
    (result, { h with pointer := pointer })
  emit := emit
  selectOutput output h :=
    let (result, pointer) := InputSink.selectOutput output h.pointer
    (result, { h with pointer := pointer })
  configureTouchpads := configureTouchpads
  resetTouchpads := resetTouchpads

end Hybrid

end NiriBridge
