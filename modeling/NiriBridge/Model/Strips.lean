import NiriBridge.Model.Input

/-!
# Model — Strips

`capture_probe.rs`: the surfaces a capture worker lays along the configured edges.  A layer surface
is placed by its anchors, margins and size; `Surface.region` is where the compositor shows it.
Sizes of outputs fit an `i32`, so the casts of the source keep the values.
-/

namespace NiriBridge

/-- `LogicalOutput`, its extent along an edge. -/
def LogicalOutput.length (output : LogicalOutput) : Edge → ℕ
  | .top | .bottom => output.width
  | .left | .right => output.height

/-- Whether a side is at the top or at the bottom. -/
def Edge.horizontal : Edge → Bool
  | .top | .bottom => true
  | .left | .right => false

/-- The coordinate along the edge. -/
def Edge.along {α : Type} (edge : Edge) (x y : α) : α := if edge.horizontal then x else y

/-- `capture_probe::Options`. -/
structure Options where
  output : String
  boundary : Boundary
  seconds : ℕ
deriving DecidableEq, Repr

/-- `Options::validate`. -/
def Options.validate (options : Options) : Result Unit := do
  options.boundary.validate
  ensure (options.output ≠ "") "Choose an output from doctor"
  ensure (1 ≤ options.seconds ∧ options.seconds ≤ 30)
    "Capture duration must be between 1 and 30 seconds"

/-- What `CaptureTask::start` makes of an edge. -/
def EdgeConfig.options (edge : EdgeConfig) : Options := ⟨edge.output, edge.boundary, 15⟩

/-! ### Layer surfaces -/

/-- The two sides a surface is anchored to. -/
structure Anchor where
  bottom : Bool
  right : Bool
deriving DecidableEq, Repr

/-- `set_anchor`, `set_margin` and `set_size`. -/
structure Surface where
  anchor : Anchor
  marginTop : ℤ
  marginLeft : ℤ
  width : ℕ
  height : ℕ
deriving DecidableEq, Repr

/-- The pixel is covered by the surface; margins count from the anchored sides. -/
def Surface.region (surface : Surface) (output : LogicalOutput) (x y : ℤ) : Prop :=
  (if surface.anchor.right then output.width - surface.width ≤ x ∧ x < output.width
    else surface.marginLeft ≤ x ∧ x < surface.marginLeft + surface.width) ∧
  (if surface.anchor.bottom then output.height - surface.height ≤ y ∧ y < output.height
    else surface.marginTop ≤ y ∧ y < surface.marginTop + surface.height)

instance (surface : Surface) (output : LogicalOutput) (x y : ℤ) :
    Decidable (surface.region output x y) := inferInstanceAs (Decidable (_ ∧ _))

/-- A strip that is laid: its surface, and how long it is. -/
structure Strip where
  output : String
  edge : Edge
  surface : Surface
  extent : ℕ
deriving DecidableEq, Repr

namespace Capture

/-- Where the strip begins along its edge. -/
def offset (b : Boundary) (length : ℕ) : ℤ := ⌊b.start * length⌋

/-- How long the strip is. -/
def extent (b : Boundary) (length : ℕ) : ℕ := ⌊(b.end - b.start) * length⌋.toNat

/-- The anchors that put a surface at a side. -/
def anchor : Edge → Anchor
  | .top => ⟨false, false⟩
  | .bottom => ⟨true, false⟩
  | .left => ⟨false, false⟩
  | .right => ⟨false, true⟩

/-- The surface of a strip, two pixels deep. -/
def surface (edge : Edge) (offset : ℤ) (extent : ℕ) : Surface where
  anchor := anchor edge
  marginTop := if edge.horizontal then 0 else offset
  marginLeft := if edge.horizontal then offset else 0
  width := if edge.horizontal then extent else 2
  height := if edge.horizontal then 2 else extent

/-- One turn of the loop that creates the strips; `registry` are the outputs that Wayland has. -/
def strip (outputs : OutputTable) (registry : List String) (options : Options) : Result Strip := do
  let output ← orError "Output not found in the Niri session" (outputs.lookup options.output)
  let logical ← orError "The selected output is disabled" output
  ensure (options.output ∈ registry) "Output name not found in the Wayland registry"
  let length := logical.length options.boundary.edge
  let extent := extent options.boundary length
  ensure (1 ≤ extent) "Capture span is narrower than one logical pixel"
  return {
    output := options.output
    edge := options.boundary.edge
    surface := surface options.boundary.edge (offset options.boundary length) extent
    extent := extent }

/-- The strips of all edges, or the first error. -/
def stripsFrom (outputs : OutputTable) (registry : List String) : List Options → Result (List Strip)
  | [] => .ok []
  | options :: rest => do
      let first ← strip outputs registry options
      let strips ← stripsFrom outputs registry rest
      return first :: strips

/-- `worker_internal` up to the loop, for a stream of events. -/
def strips (outputs : OutputTable) (registry : List String) (options : List Options) :
    Result (List Strip) := do
  ensure (options ≠ [] ∧ options.length ≤ MAX_EDGES) "Invalid capture edge count"
  forEach Options.validate options
  stripsFrom outputs registry options

/-- `wl_pointer::Event::Enter`: the position on the strip as a part of it. -/
def enterFraction (strip : Strip) (surfaceX surfaceY : ℚ) : ℚ :=
  strip.edge.along surfaceX surfaceY / strip.extent

end Capture

end NiriBridge
