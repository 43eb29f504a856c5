import NiriBridge.Model.Control
import NiriBridge.Model.Strips
import NiriBridge.Support.Gaps
import NiriBridge.Support.Hoare
import NiriBridge.Support.Rounding
import Mathlib.Data.List.MinMax
import Mathlib.Data.List.Sort
import Mathlib.Data.Prod.Lex

/-!
# Model — Draft

`ui/canvas.py`, the class `LayoutDraft`: the connections of two desktops while they are edited, and
the edits of `ui/app.py` that write to it.  The arithmetic is exact.  `own` is the source's `local`,
and an id of `uuid.uuid4` is an argument of the program that asks for it.  Python's exceptions are
their codes.
-/

namespace NiriBridge.Canvas

open Hoare Rounding

/-- The code of an exception. -/
abbrev Code := String

/-- `MAX_EDGES`. -/
def MAX_EDGES : ℕ := 16

/-- `OPPOSITE`. -/
def opposite : Edge → Edge
  | .top => .bottom
  | .bottom => .top
  | .left => .right
  | .right => .left

/-- The keys of `OPPOSITE`, in their order. -/
def sides : List Edge := [.top, .bottom, .left, .right]

/-! ### One desktop -/

/-- The edges of a desktop, one of which is its `edge`. -/
structure Chosen where
  before : List EdgeConfig
  edge : EdgeConfig
  after : List EdgeConfig
deriving DecidableEq, Repr

/-- All edges, the chosen one in its place. -/
def Chosen.edges (c : Chosen) : List EdgeConfig := c.before ++ c.edge :: c.after

/-- `next(edge for edge in edges if edge['id'] == identifier)`, in its place. -/
def choose (edges : List EdgeConfig) (identifier : String) : Option Chosen :=
  match edges.dropWhile fun edge => edge.id ≠ identifier with
  | [] => none
  | edge :: after => some {
      before := edges.takeWhile fun edge => edge.id ≠ identifier
      edge := edge
      after := after }

/-- A desktop of a draft. -/
structure Node extends Chosen where
  outputs : Outputs
  revision : String
  inhabited : outputs ≠ []

/-- `selected`: the output of the edge, or the first one. -/
def Node.selected (node : Node) : LogicalOutput :=
  (node.outputs.lookup node.edge.output).getD (node.outputs.head node.inhabited).2

/-- `overlaps`, of the edges of a desktop. -/
def overlaps (edges : List EdgeConfig) (candidate : EdgeConfig) (ignoreId : Option String) : Bool :=
  edges.any fun edge => decide (some edge.id ≠ ignoreId ∧ candidate.overlaps edge)

/-- The checks of `validation_error`, of one edge. -/
def checkEdge (node : Node) (edge : EdgeConfig) : Result Unit := do
  let output ← orError "output_unavailable" (node.outputs.lookup edge.output)
  let b := edge.boundary
  ensure (0 ≤ b.start ∧ b.start < b.end ∧ b.end ≤ 1) "layout_invalid"
  ensure (¬ (b.end - b.start) * output.length b.edge < 1) "layout_invalid"
  ensure (overlaps node.edges edge (some edge.id) = false) "layout_overlap"

/-- The spans of the edges on one side of an output, sorted as pairs. -/
def Node.spans (node : Node) (output : String) (side : Edge) : List (ℚ × ℚ) :=
  (((node.edges.filter fun edge => edge.output = output ∧ edge.boundary.edge = side).map
    fun edge => toLex (edge.boundary.start, edge.boundary.end)).insertionSort (· ≤ ·)).map ofLex

/-- `free_ranges`. -/
def Node.freeRanges (node : Node) (output : String) (side : Edge) : List (ℚ × ℚ) :=
  Gaps.gaps 1 0 (node.spans output side)

/-- `max(ranges, key=lambda span: span[1] - span[0])`. -/
def widest (ranges : List (ℚ × ℚ)) : Option (ℚ × ℚ) := ranges.argmax fun span => span.2 - span.1

/-! ### The draft -/

/-- `LayoutDraft`. -/
structure LayoutDraft where
  own : Node
  peer : Node
  selectedId : String
  freeOrigin : Option (ℚ × ℚ)
  peerScale : ℚ
  repaired : Bool

/-- What an edit does: it changes the draft, or raises an exception. -/
abbrev DraftM := EStateM Code LayoutDraft

/-- A part of the code that ends in `StopIteration` when there is no next one. -/
def next {α : Type} : Option α → DraftM α
  | some a => pure a
  | none => throw "StopIteration"

/-- The scale that `reset_scale` sets. -/
def scaleOf (own peer : Node) : ℚ :=
  let x := own.edge.boundary
  let y := peer.edge.boundary
  let scale := own.selected.length x.edge * max (1 / 1000000) (x.end - x.start) /
    (peer.selected.length y.edge * max (1 / 1000000) (y.end - y.start))
  max (3 / 20) (min 6 scale)

/-- `reset_scale`. -/
def LayoutDraft.resetScale (d : LayoutDraft) : LayoutDraft :=
  { d with peerScale := scaleOf d.own d.peer }

/-- The drawing goes by the connection again, not by where it was dragged. -/
def LayoutDraft.released (d : LayoutDraft) : LayoutDraft := { d with freeOrigin := none }

/-- `select`, after these have become the edges of the two nodes. -/
def selectIn (own peer : List EdgeConfig) (identifier : String) : DraftM Unit := do
  modify fun d => { d with selectedId := identifier }
  let own ← next (choose own identifier)
  modify fun d => { d with own := { d.own with toChosen := own } }
  let peer ← next (choose peer identifier)
  modify fun d => { d with peer := { d.peer with toChosen := peer } }
  modify fun d => d.released.resetScale

/-- `select`. -/
def select (identifier : String) : DraftM Unit := do
  let d ← get
  selectIn d.own.edges d.peer.edges identifier

/-- The loop that gives a desktop the connections it lacks; `other` are the edges of the other
one. -/
def repair (outputs : Outputs) (other : List EdgeConfig) (edges : List EdgeConfig) :
    List String → Option (List EdgeConfig)
  | [] => some edges
  | identifier :: ids =>
      if edges.any fun edge => edge.id = identifier then repair outputs other edges ids
      else do
        let counterpart ← other.find? fun edge => edge.id = identifier
        let output ← outputs.head?
        repair outputs other (edges ++ [{
          id := identifier
          output := output.1
          boundary := { edge := opposite counterpart.boundary.edge, start := 0, «end» := 1 } }]) ids

/-- A desktop has an edge of the connection on an output that is there. -/
def isAvailable (outputs : Outputs) (edges : List EdgeConfig) (identifier : String) : Bool :=
  edges.any fun edge => edge.id = identifier ∧ outputs.containsKey edge.output

/-- `LayoutDraft.__init__`, of desktops as their devices send them. -/
def LayoutDraft.new (own peer : Desktop) : Option LayoutDraft := do
  let ids := ((own.edges ++ peer.edges).map EdgeConfig.id).eraseDups
  let ownEdges ← repair own.outputs peer.edges own.edges ids
  let peerEdges ← repair peer.outputs ownEdges peer.edges ids
  let first ← ids.head?
  let identifier := (ids.find? fun identifier =>
    isAvailable own.outputs ownEdges identifier ∧
    isAvailable peer.outputs peerEdges identifier).getD first
  let ownChosen ← choose ownEdges identifier
  let peerChosen ← choose peerEdges identifier
  if h : own.outputs ≠ [] ∧ peer.outputs ≠ [] then
    let ownNode : Node := ⟨ownChosen, own.outputs, own.revision, h.1⟩
    let peerNode : Node := ⟨peerChosen, peer.outputs, peer.revision, h.2⟩
    return {
      own := ownNode
      peer := peerNode
      selectedId := identifier
      freeOrigin := none
      peerScale := scaleOf ownNode peerNode
      repaired := ownEdges.length ≠ own.edges.length ∨ peerEdges.length ≠ peer.edges.length }
  else none

namespace LayoutDraft

/-- `connection_ids`. -/
def connectionIds (d : LayoutDraft) : List String := d.own.edges.map EdgeConfig.id

/-- `request`: what is sent to be saved. -/
def request (d : LayoutDraft) : LayoutRequest where
  localEdges := d.own.edges
  peerEdges := d.peer.edges
  localRevision := d.own.revision
  peerRevision := d.peer.revision

/-- The checks of `validation_error`, which names the first that fails. -/
def check (d : LayoutDraft) : Result Unit := do
  ensure (1 ≤ d.own.edges.length ∧ d.own.edges.length ≤ MAX_EDGES) "layout_count_invalid"
  forEach (checkEdge d.own) d.own.edges
  forEach (checkEdge d.peer) d.peer.edges

/-- `validation_error`. -/
def validationError (d : LayoutDraft) : Option Error :=
  match d.check with
  | .ok () => none
  | .error e => some e

end LayoutDraft

/-! ### The drawing -/

/-- Whose screen a rectangle is. -/
inductive Role where
  | own
  | peer
deriving DecidableEq, Repr

/-- A screen as it is drawn. -/
structure Rectangle where
  role : Role
  name : String
  selected : Bool
  x : ℚ
  y : ℚ
  width : ℚ
  height : ℚ
deriving DecidableEq, Repr

namespace LayoutDraft

/-- `origin`: where the peer's selected screen is drawn. -/
def origin (d : LayoutDraft) : ℚ × ℚ :=
  match d.freeOrigin with
  | some origin => origin
  | none =>
      let a := d.own.selected
      let b := d.peer.selected
      let x := d.own.edge.boundary
      let y := d.peer.edge.boundary
      let bw : ℚ := b.width * d.peerScale
      let bh : ℚ := b.height * d.peerScale
      let gap : ℚ := min a.width a.height * (1 / 10)
      if x.edge.horizontal then
        let peerX := if y.edge.horizontal then bw * y.start else if y.edge = .left then 0 else bw
        let tangent := a.width * x.start - peerX
        (tangent, if x.edge = .top then -bh - gap else a.height + gap)
      else
        let peerY := if y.edge.horizontal then (if y.edge = .top then 0 else bh) else bh * y.start
        let tangent := a.height * x.start - peerY
        (if x.edge = .left then -bw - gap else a.width + gap, tangent)

/-- The rectangles of one role. -/
def rectanglesOf (role : Role) (node : Node) (factor : ℚ) (origin : ℚ × ℚ) : List Rectangle :=
  node.outputs.map fun p => {
    role := role
    name := p.1
    selected := p.1 = node.edge.output
    x := origin.1 + ((p.2.x : ℚ) - node.selected.x) * factor
    y := origin.2 + ((p.2.y : ℚ) - node.selected.y) * factor
    width := p.2.width * factor
    height := p.2.height * factor }

/-- `rectangles`: the screens of both desktops. -/
def rectangles (d : LayoutDraft) : List Rectangle :=
  rectanglesOf .own d.own 1 (0, 0) ++ rectanglesOf .peer d.peer d.peerScale d.origin

end LayoutDraft

/-- The edge of one side changed in its place. -/
def LayoutDraft.setEdge (d : LayoutDraft) (f : EdgeConfig → EdgeConfig) : Role → LayoutDraft
  | .own => { d with own := { d.own with edge := f d.own.edge } }
  | .peer => { d with peer := { d.peer with edge := f d.peer.edge } }

/-- `round(x, 6)`. -/
def round6 (x : ℚ) : ℚ := decimals 6 x

/-- The spans of the selected connection once the selected output of the peer has been put there. -/
def LayoutDraft.dropped (d : LayoutDraft) (x y : ℚ) : Boundary × Boundary :=
  let a := d.own.selected
  let b := d.peer.selected
  let bw : ℚ := b.width * d.peerScale
  let bh : ℚ := b.height * d.peerScale
  let cx := (x + bw / 2 - a.width / 2) / a.width
  let cy := (y + bh / 2 - a.height / 2) / a.height
  let edge : Edge :=
    if |cx| > |cy| then (if cx ≥ 0 then .right else .left) else if cy ≥ 0 then .bottom else .top
  let extent : ℚ := a.length edge
  let otherExtent := if edge.horizontal then bw else bh
  let minimum := min extent otherExtent * (2 / 25)
  let tangent :=
    max (-otherExtent + minimum) (min (extent - minimum) (if edge.horizontal then x else y))
  let start := max 0 tangent
  let «end» := min extent (tangent + otherExtent)
  ({ edge := edge, start := round6 (start / extent), «end» := round6 («end» / extent) },
    { edge := opposite edge
      start := round6 ((start - tangent) / otherExtent)
      «end» := round6 ((«end» - tangent) / otherExtent) })

/-- `finish_drag`: both connections lie where the screens were dropped. -/
def finishDrag (x y : ℚ) : DraftM Unit := modify fun d =>
  let spans := d.dropped x y
  ((d.setEdge (fun e => { e with boundary := spans.1 }) .own).setEdge
    (fun e => { e with boundary := spans.2 }) .peer).released

/-! ### A further connection -/

/-- The place of a rectangle along its sides of one direction. -/
def Rectangle.at (r : Rectangle) (side : Edge) : ℚ := if side.horizontal then r.x else r.y

/-- The length of a rectangle along a side. -/
def Rectangle.extent (r : Rectangle) (side : Edge) : ℚ :=
  if side.horizontal then r.width else r.height

/-- `gaps[side]`: from the side of `a` to `b`. -/
def gapAt (a b : Rectangle) : Edge → ℚ
  | .top => a.y - b.y - b.height
  | .bottom => b.y - a.y - a.height
  | .left => a.x - b.x - b.width
  | .right => b.x - a.x - a.width

/-- Where the part that `a` and `b` have in common along the side begins. -/
def commonStart (a b : Rectangle) (side : Edge) : ℚ := max (a.at side) (b.at side)

/-- Where that part ends. -/
def commonEnd (a b : Rectangle) (side : Edge) : ℚ :=
  min (a.at side + a.extent side) (b.at side + b.extent side)

/-- The edge that the common part is on one of the two rectangles. -/
def stretch (identifier : String) (a b : Rectangle) (side : Edge) (r : Rectangle) (edge : Edge) :
    EdgeConfig where
  id := identifier
  output := r.name
  boundary := {
    edge := edge
    start := round6 ((commonStart a b side - r.at side) / r.extent side)
    «end» := round6 ((commonEnd a b side - r.at side) / r.extent side) }

namespace LayoutDraft

/-- The candidate of two rectangles and a side of the first. -/
def candidate (d : LayoutDraft) (identifier : String) (a b : Rectangle) (side : Edge) :
    Option (ℚ × EdgeConfig × EdgeConfig) :=
  if gapAt a b side < 0 ∨ commonEnd a b side ≤ commonStart a b side then none
  else
    let own := stretch identifier a b side a side
    let peer := stretch identifier a b side b (opposite side)
    if overlaps d.own.edges own none ∨ overlaps d.peer.edges peer none then none
    else some (gapAt a b side, own, peer)

/-- The pairs of screens that face each other, each with its gap and the connection between them. -/
def candidates (d : LayoutDraft) (identifier : String) : List (ℚ × EdgeConfig × EdgeConfig) :=
  (d.rectangles.filter fun r => r.role = .own).flatMap fun a =>
    (d.rectangles.filter fun r => r.role = .peer).flatMap fun b =>
      sides.filterMap (d.candidate identifier a b)

/-- The choice of a side and two outputs, where both have room. -/
def choice (d : LayoutDraft) (identifier : String) (side : Edge) (a b : String) :
    Option (EdgeConfig × EdgeConfig) := do
  let left ← widest (d.own.freeRanges a side)
  let right ← widest (d.peer.freeRanges b (opposite side))
  return ({ id := identifier, output := a,
            boundary := { edge := side, start := left.1, «end» := left.2 } },
    { id := identifier, output := b,
      boundary := { edge := opposite side, start := right.1, «end» := right.2 } })

/-- The connections on free parts of any two outputs, side by side. -/
def choices (d : LayoutDraft) (identifier : String) : List (EdgeConfig × EdgeConfig) :=
  sides.flatMap fun side => d.own.outputs.flatMap fun a =>
    d.peer.outputs.filterMap fun b => d.choice identifier side a.1 b.1

/-- The pair of edges that is added, if there is room. -/
def offer (d : LayoutDraft) (identifier : String) : Option (EdgeConfig × EdgeConfig) :=
  match (d.candidates identifier).argmin Prod.fst with
  | some candidate => some candidate.2
  | none => (d.choices identifier).head?

end LayoutDraft

/-- `add_connection`; the identifier is the one the program draws. -/
def addConnection (identifier : String) : DraftM String := do
  let d ← get
  if MAX_EDGES ≤ d.own.edges.length then throw "layout_count_invalid"
  else
    match d.offer identifier with
    | none => throw "layout_no_space"
    | some pair =>
        selectIn (d.own.edges ++ [pair.1]) (d.peer.edges ++ [pair.2]) identifier
        return identifier

/-- The first index of the id, of `list.index`. -/
def indexOf (identifier : String) (ids : List String) : DraftM ℕ :=
  match ids.idxOf? identifier with
  | some index => pure index
  | none => throw "ValueError"

/-- `remove_connection`: the neighbour of the connection that goes is selected. -/
def removeConnection : DraftM Unit := do
  let d ← get
  if d.own.edges.length ≤ 1 then throw "layout_count_invalid"
  else
    let index ← indexOf d.selectedId d.connectionIds
    let own := d.own.edges.filter fun edge => edge.id ≠ d.selectedId
    let peer := d.peer.edges.filter fun edge => edge.id ≠ d.selectedId
    let identifier ← next ((own.map EdgeConfig.id)[min index (own.length - 1)]?)
    selectIn own peer identifier

/-! ### The other edits -/

/-- `direction_changed`. -/
def changeDirection (role : Role) (edge : Edge) : DraftM Unit := modify fun d =>
  (d.setEdge (fun e =>
    { e with boundary := { e.boundary with edge := edge } }) role).released.resetScale

/-- `output_changed`. -/
def changeOutput (role : Role) (output : String) : DraftM Unit := modify fun d =>
  (d.setEdge (fun e => { e with output := output }) role).resetScale

/-- `range_changed`, of the start. -/
def changeStart (role : Role) (value : ℚ) : DraftM Unit := modify fun d =>
  d.setEdge (fun e => { e with boundary := { e.boundary with start := value } }) role

/-- `range_changed`, of the end. -/
def changeEnd (role : Role) (value : ℚ) : DraftM Unit := modify fun d =>
  d.setEdge (fun e => { e with boundary := { e.boundary with «end» := value } }) role

/-- `motion`: the peer is dragged. -/
def drag (origin : ℚ × ℚ) : DraftM Unit := modify fun d => { d with freeOrigin := some origin }

/-- What can be done to a draft. -/
inductive Op where
  | select (identifier : String)
  | addConnection (identifier : String)
  | removeConnection
  | drag (origin : ℚ × ℚ)
  | finishDrag (x y : ℚ)
  | changeDirection (role : Role) (edge : Edge)
  | changeOutput (role : Role) (output : String)
  | changeStart (role : Role) (value : ℚ)
  | changeEnd (role : Role) (value : ℚ)

/-- What an edit does to a draft. -/
def Op.run : Op → DraftM Unit
  | .select identifier => Canvas.select identifier
  | .addConnection identifier => do
      let _ ← Canvas.addConnection identifier
  | .removeConnection => Canvas.removeConnection
  | .drag origin => Canvas.drag origin
  | .finishDrag x y => Canvas.finishDrag x y
  | .changeDirection role edge => Canvas.changeDirection role edge
  | .changeOutput role output => Canvas.changeOutput role output
  | .changeStart role value => Canvas.changeStart role value
  | .changeEnd role value => Canvas.changeEnd role value

end NiriBridge.Canvas
