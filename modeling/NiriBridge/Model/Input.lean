import NiriBridge.Model.Protocol

/-!
# Model — Input

`input.rs`: the physical keys of the source, and the control state of a receiver with the keys and
buttons it holds.
-/

namespace NiriBridge

/-! ### Physical keys -/

/-- `PhysicalKeys`: the keys that each keyboard holds, and the transitions of all of them together.
-/
structure PhysicalKeys where
  devices : SortedMap ℕ (SortedSet ℕ)
  pending : List InputEvent
deriving DecidableEq

namespace PhysicalKeys

instance : Inhabited PhysicalKeys := ⟨∅, []⟩

/-- Some device holds the code. -/
def anyHolds (devices : SortedMap ℕ (SortedSet ℕ)) (code : ℕ) : Bool :=
  devices.toList.any fun p => decide (code ∈ p.2)

/-- `PhysicalKeys::update`: a key counts as held while one keyboard holds it. -/
def update (k : PhysicalKeys) (device code : ℕ) (pressed : Bool) : Result PhysicalKeys :=
  if 1 ≤ code ∧ code ≤ 255 then do
    let keys := (k.devices.get? device).getD ∅
    let devices := k.devices.insert device (if pressed then keys.insert code else keys.erase code)
    if anyHolds k.devices code = anyHolds devices code then return { k with devices := devices }
    else
      ensure (k.pending.length < 512)
        "Physical keyboard queue is full; restoring local control"
      return { devices := devices,
               pending := k.pending ++ [.key code (anyHolds devices code)] }
  else .ok k

/-- The loop of `disconnect`. -/
def disconnectCodes (k : PhysicalKeys) (device : ℕ) : List ℕ → Result PhysicalKeys
  | [] => .ok k
  | code :: codes => do
      let k ← k.update device code false
      k.disconnectCodes device codes

/-- `PhysicalKeys::disconnect`: what the keyboard held is let go. -/
def disconnect (k : PhysicalKeys) (device : ℕ) : Result PhysicalKeys := do
  let k ← k.disconnectCodes device ((k.devices.get? device).getD ∅).toList
  return { k with devices := k.devices.erase device }

/-- `PhysicalKeys::held`. -/
def held (k : PhysicalKeys) : SortedSet ℕ := .ofList (k.devices.toList.flatMap fun p => p.2.toList)

/-- `PhysicalKeys::drain`. -/
def drain (k : PhysicalKeys) : List InputEvent × PhysicalKeys :=
  (k.pending, { k with pending := [] })

end PhysicalKeys

/-- Control, Alt and Shift are down. -/
def emergencyModifiers (keys : SortedSet ℕ) : Bool :=
  [[29, 97], [56, 100], [42, 54]].all fun group => group.any fun code => decide (code ∈ keys)

/-! ### Held inputs -/

/-- `HeldInputs`: the keys and buttons that a session holds down. -/
structure HeldInputs where
  keys : SortedSet ℕ
deriving DecidableEq

namespace HeldInputs

/-- `HeldInputs::press`. -/
def press (h : HeldInputs) (code : ℕ) : HeldInputs := ⟨h.keys.insert code⟩

/-- `HeldInputs::release`. -/
def release (h : HeldInputs) (code : ℕ) : HeldInputs := ⟨h.keys.erase code⟩

/-- `HeldInputs::release_all`. -/
def releaseAll (h : HeldInputs) : List ℕ × HeldInputs := (h.keys.toList, ⟨∅⟩)

end HeldInputs

/-- `Mode`: whether a device sends, receives, or does neither. -/
inductive Mode where
  | «local»
  | sending
  | receiving
  | paused
deriving DecidableEq, Repr

/-- `StopReason`: why a session stops. -/
inductive StopReason where
  | returned
  | disconnected
  | emergency
  | localTakeover
  | locked
deriving DecidableEq, Repr

/-- `StopEffects`: what is to be done when a session stops. -/
structure StopEffects where
  releaseCodes : List ℕ
  releaseCapture : Bool
  notifyPeer : Bool
deriving DecidableEq, Repr

/-- `ControlState`: the mode of a device, and whether it or its peer is locked. -/
structure ControlState where
  mode : Mode
  localLocked : Bool
  peerLocked : Bool
  held : HeldInputs
deriving DecidableEq

namespace ControlState

/-- `ControlState::default`. -/
def default : ControlState := ⟨.local, false, false, ⟨∅⟩⟩

/-- `ControlState::start`: a session begins only on unlocked devices that have none. -/
def start (s : ControlState) (mode : Mode) : Bool × ControlState :=
  if s.mode ≠ .local ∨ s.localLocked ∨ s.peerLocked ∨ ¬ (mode = .sending ∨ mode = .receiving) then
    (false, s)
  else (true, { s with mode := mode })

/-- `ControlState::press`. -/
def press (s : ControlState) (code : ℕ) : ControlState :=
  if s.mode = .sending ∨ s.mode = .receiving then { s with held := s.held.press code } else s

/-- `ControlState::release`. -/
def release (s : ControlState) (code : ℕ) : ControlState := { s with held := s.held.release code }

/-- `ControlState::stop`. -/
def stop (s : ControlState) (reason : StopReason) : StopEffects × ControlState :=
  let active := decide (s.mode = .sending ∨ s.mode = .receiving)
  let (codes, held) := s.held.releaseAll
  ({ releaseCodes := codes,
     releaseCapture := decide (s.mode = .sending),
     notifyPeer := active && decide (reason ≠ .disconnected) },
   { s with held := held, mode := if s.localLocked || s.peerLocked then .paused else .local })

/-- `StopEffects::default`. -/
def noEffects : StopEffects := ⟨[], false, false⟩

/-- `ControlState::local_lock_changed`. -/
def localLockChanged (s : ControlState) (locked : Bool) : StopEffects × ControlState :=
  if s.localLocked = locked then (noEffects, s)
  else stop { s with localLocked := locked } .locked

/-- `ControlState::peer_lock_changed`. -/
def peerLockChanged (s : ControlState) (locked : Bool) : StopEffects × ControlState :=
  if s.peerLocked = locked then (noEffects, s)
  else stop { s with peerLocked := locked } .locked

/-- `ControlState::receiver_physical_activity`. -/
def receiverPhysicalActivity (s : ControlState) : Option (StopEffects × ControlState) :=
  if s.mode = .receiving then some (s.stop .localTakeover) else none

end ControlState

end NiriBridge
