import Mathlib.Data.List.Basic
import NiriBridge.Model.Touchpad

/-!
# Model — Handoff

`touchpad.rs`, `handoff_frames` and `finish_physical_handoff`: how a grabbed pad is given back to
the readers that have not seen what happened under the grab.

`InputDevice` is the input core of the kernel, which the source writes to: a key event that changes
nothing is dropped; the value of an axis is smoothed against the value the core holds and dropped if
it is then that value; a slot is only staged, and reported with the next multi-touch value that is
not dropped.
-/

namespace NiriBridge.Touchpad

/-- `input_defuzz_abs_event`. -/
def defuzz (fuzz value old : ℤ) : ℤ :=
  if fuzz ≠ 0 then
    if old - fuzz.tdiv 2 < value ∧ value < old + fuzz.tdiv 2 then old
    else if old - fuzz < value ∧ value < old + fuzz then (old * 3 + value).tdiv 4
    else if old - fuzz * 2 < value ∧ value < old + fuzz * 2 then (old + value).tdiv 2
    else value
  else value

/-- A device as the kernel holds it. -/
structure InputDevice where
  /-- Its keys and values; the slot is `ABS_MT_SLOT`. -/
  state : TouchState
  /-- The slot the next multi-touch values are for. -/
  staged : ℕ

namespace InputDevice

/-- The fuzz of an axis, if it has one. -/
def fuzz (d : Descriptor) (code : ℕ) : ℤ := ((d.axis? code).map AxisInfo.fuzz).getD 0

/-- The value of a multi-touch axis in a slot. -/
def cellValue (s : TouchState) (slot code : ℕ) : ℤ :=
  ((s.contacts[slot]?.bind (·.get? code))).getD 0

/-- What is reported of an event that is written to the device. -/
def deliver (d : Descriptor) (k : InputDevice) (e : Event) : List Event :=
  match e.kind with
  | .key => if decide (e.code ∈ k.state.keys) = decide (e.value ≠ 0) then [] else [e]
  | .absolute =>
      if e.code = SLOT then []
      else if SLOT < e.code then
        let old := cellValue k.state k.staged e.code
        let value := defuzz (fuzz d e.code) e.value old
        if value = old then []
        else (if k.staged = k.state.slot then [] else [.abs SLOT k.staged]) ++ [.abs e.code value]
      else
        let old := (k.state.axes.get? e.code).getD 0
        let value := defuzz (fuzz d e.code) e.value old
        if value = old then [] else [.abs e.code value]

/-- The slot that is staged after an event. -/
def stage (d : Descriptor) (k : InputDevice) (e : Event) : ℕ :=
  if e.kind = .absolute ∧ e.code = SLOT ∧ 0 ≤ e.value ∧ asUsize e.value < d.slots then
    asUsize e.value
  else k.staged

/-- The device after an event, which is what its readers make of what is reported. -/
def handle (d : Descriptor) (k : InputDevice) (e : Event) : InputDevice :=
  ⟨k.state.apply (k.deliver d e), k.stage d e⟩

/-- The device after a frame, and all that is reported of it. -/
def write (d : Descriptor) (k : InputDevice) : List Event → InputDevice × List Event
  | [] => (k, [])
  | e :: es =>
      let (k', shown) := write d (k.handle d e) es
      (k', k.deliver d e ++ shown)

end InputDevice

/-! ### The frames -/

namespace Descriptor

/-- The multi-touch axes but the tracking id. -/
def slotAxes (d : Descriptor) : List AxisInfo :=
  d.axes.filter fun a => SLOT < a.code ∧ a.code ≠ TRACKING

/-- The axes that are not multi-touch. -/
def plainAxes (d : Descriptor) : List AxisInfo := d.axes.filter (·.code < SLOT)

/-- One pass over every slot, with the same events in each. -/
def everySlot (d : Descriptor) (events : List Event) : List Event :=
  (List.range d.slots).flatMap fun slot : ℕ => .abs SLOT slot :: events

/-- The first frame of `handoff_frames`: every key is up, no slot has a contact, and every axis ends
at its maximum. -/
def hiddenFrame (d : Descriptor) : List Event :=
  d.keys.map (.key · 0) ++
    d.everySlot (.abs TRACKING (-1) ::
      d.slotAxes.flatMap fun a => [.abs a.code a.minimum, .abs a.code a.maximum]) ++
    d.plainAxes.map fun a => .abs a.code a.maximum

/-- The second frame of `handoff_frames`: the axes return to their minimum. -/
def neutralFrame (d : Descriptor) : List Event :=
  (d.keys.filter (325 ≤ ·)).map (.key · 0) ++
    d.everySlot (.abs TRACKING (-1) :: d.slotAxes.map fun a => .abs a.code a.minimum) ++
    d.plainAxes.map fun a => .abs a.code a.minimum

/-- `handoff_frames`. -/
def handoffFrames (d : Descriptor) : Result (List Event × List Event) := do
  d.validate
  ensure
    (d.axes.any fun a => (a.code == 53 || a.code == 54) && 2 * a.fuzz < a.maximum - a.minimum)
    "Touchpad coordinates cannot be synchronized"
  forEach d.validateFrame (d.hiddenFrame.toChunks 256 ++ d.neutralFrame.toChunks 256)
  return (d.hiddenFrame, d.neutralFrame)

/-- The frame that also begins a contact in every slot, for a reader that an earlier release has
left with contacts of its own. -/
def repairFrame (d : Descriptor) (hidden : List Event) : Result (List Event) := do
  let tracking ← orError "unwrap" (d.axis? TRACKING)
  let trackingId := max tracking.minimum 0
  ensure (trackingId ≤ tracking.maximum) "Touchpad tracking IDs cannot be restored"
  let hidden := hidden ++ d.everySlot [.abs TRACKING trackingId]
  forEach d.validateFrame (hidden.toChunks 256)
  return hidden

end Descriptor

/-- How the kernel answers the three calls of `finish_physical_handoff`. -/
structure HandoffAnswers where
  hidden : Result Unit
  ungrab : Result Unit
  neutral : Result Unit

/-- The device afterwards, and what its other readers have been shown: nothing under the grab. -/
def finishPhysicalHandoff (answers : HandoffAnswers) (d : Descriptor)
    (grabbed repairLegacyReader : Bool) (k : InputDevice) : Result (InputDevice × List Event) := do
  ensure (grabbed = true) "Touchpad restoration requires exclusive ownership"
  let (hidden, neutral) ← d.handoffFrames
  let hidden ← (if repairLegacyReader then d.repairFrame hidden else .ok hidden)
  answers.hidden
  let (k, _) := k.write d hidden
  answers.ungrab
  answers.neutral
  return k.write d neutral

end NiriBridge.Touchpad
