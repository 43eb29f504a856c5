import NiriBridge.Model.Config

/-!
# Model — Control

`control.rs`: what a device tells its peer about its desktop, the commands of the control socket,
and the messages of a paired layout save.
-/

namespace NiriBridge

/-- `Transform`: how an output is turned. -/
inductive Transform where
  | normal
  | rotate90
  | rotate180
  | rotate270
  | flipped
  | flipped90
  | flipped180
  | flipped270
deriving DecidableEq, Repr

/-- `niri::LogicalOutput`. -/
structure LogicalOutput where
  x : ℤ
  y : ℤ
  width : ℕ
  height : ℕ
  scale : ℚ
  transform : Transform
deriving DecidableEq, Repr

/-- The outputs that have a logical size, by name. -/
abbrev Outputs := List (String × LogicalOutput)

/-- `contains_key`. -/
def Outputs.containsKey (outputs : Outputs) (name : String) : Bool := (outputs.lookup name).isSome

/-- `desktop::outputs`: every output by name, with its logical size if it is enabled. -/
abbrev OutputTable := List (String × Option LogicalOutput)

/-- The outputs that are switched on. -/
def OutputTable.logical (table : OutputTable) : Outputs :=
  table.filterMap fun p => p.2.map fun output => (p.1, output)

/-- `DesktopInfo`: what a device tells its peer about its edges and outputs. -/
structure Desktop where
  edges : List EdgeConfig
  revision : String
  outputs : Outputs
deriving DecidableEq, Repr

/-- `DesktopInfo::validate`. -/
def Desktop.validate (d : Desktop) : Result Unit := do
  validateEdges d.edges
  ensure (d.outputs.length ≤ 32 ∧ d.revision.utf8ByteSize ≤ 64) "Invalid desktop metadata"
  forEach (fun p : String × LogicalOutput =>
    ensure (p.1.utf8ByteSize ≤ 128 ∧ 0 < p.2.width ∧ p.2.width ≤ 32768 ∧ 0 < p.2.height ∧
        p.2.height ≤ 32768 ∧ 0 < p.2.scale)
      "Invalid desktop output") d.outputs

/-- `LayoutRequest`: the edges of both devices, and the revisions they are to replace. -/
structure LayoutRequest where
  localEdges : List EdgeConfig
  peerEdges : List EdgeConfig
  localRevision : String
  peerRevision : String
deriving DecidableEq, Repr

/-- `LayoutRequest::validate`. -/
def LayoutRequest.validate (r : LayoutRequest) : Result Unit := do
  validateEdges r.localEdges
  validateEdges r.peerEdges
  ensure ((∀ e ∈ r.localEdges, e.id ∈ r.peerEdges.map EdgeConfig.id) ∧
      ∀ e ∈ r.peerEdges, e.id ∈ r.localEdges.map EdgeConfig.id)
    "layout_ids_invalid"
  ensure (r.localRevision.utf8ByteSize = 64 ∧ r.peerRevision.utf8ByteSize = 64)
    "Invalid layout revision"

/-- A reply to a control client; `data` is a JSON object. -/
inductive Reply where
  | success (data : List (String × Option String))
  | failure (code : String)
deriving DecidableEq, Repr

/-- `LayoutMessage`: the messages by which two devices save a layout. -/
inductive LayoutMessage where
  | prepare (id : String) (edges : List EdgeConfig) (revision : String)
  | prepared (id : String) (ok : Bool) (error : Option String)
  | commit (id : String)
  | result (id : String) (ok : Bool) (revision error : Option String)
  | abort (id : String)
deriving DecidableEq, Repr

namespace LayoutMessage

/-- `id`: the transaction a message belongs to. -/
def id : LayoutMessage → String
  | prepare id _ _ | prepared id _ _ | commit id | result id _ _ _ | abort id => id

/-- The checks of a message but for its id. -/
def validateBody : LayoutMessage → Result Unit
  | prepare _ edges revision => do
      validateEdges edges
      ensure (revision.utf8ByteSize = 64) "Invalid layout revision"
  | prepared _ _ error | result _ _ _ error =>
      ensure (∀ e ∈ error, e.utf8ByteSize ≤ 64) "Invalid layout result"
  | commit _ | abort _ => .ok ()

/-- `is_ascii_hexdigit`. -/
def isHexdigit (c : Char) : Bool :=
  c.isDigit || ('a' ≤ c && c ≤ 'f') || ('A' ≤ c && c ≤ 'F')

/-- `LayoutMessage::validate`. -/
def validate (m : LayoutMessage) : Result Unit := do
  m.validateBody
  ensure (m.id.utf8ByteSize = 32 ∧ m.id.toList.all isHexdigit) "Invalid layout transaction"

end LayoutMessage

end NiriBridge
