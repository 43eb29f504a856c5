import NiriBridge.Model.Geometry

/-!
# Model — Config

The configuration of one device: `bridge::Config` and its parts, and the checks a set of edges has
to pass.  Lengths are in bytes of UTF-8, as in the source.
-/

namespace NiriBridge

/-- `PathBuf`: the components of a path. -/
structure Path where
  absolute : Bool
  components : List String
deriving DecidableEq, Repr, Inhabited

/-- `Path::join`. -/
def Path.join (parent file : Path) : Path :=
  if file.absolute then file
  else { absolute := parent.absolute, components := parent.components ++ file.components }

/-- `Path::parent`. -/
def Path.parent (p : Path) : Option Path :=
  if p.components = [] then none else some { p with components := p.components.dropLast }

/-- `Path::starts_with`. -/
def Path.startsWith (p base : Path) : Bool :=
  p.absolute == base.absolute && base.components.isPrefixOf p.components

/-- `Connection`: a device listens, or connects to the other one. -/
inductive Connection where
  | listen (address : String)
  | connect (address : String)
deriving DecidableEq, Repr

/-- `EdgeConfig`: the part of the boundary of an output that leads to the peer. -/
structure EdgeConfig where
  id : String
  output : String
  boundary : Boundary
deriving DecidableEq, Repr

/-- `pairing::SavedPeer`. -/
structure SavedPeer where
  fingerprint : String
  name : String
  certificate : Path
  connection : Connection
  edges : List EdgeConfig
deriving DecidableEq, Repr

/-- `Config`: the configuration of a device as it is read. -/
structure Config where
  certificate : Path
  privateKey : Path
  peerCertificate : Path
  peerName : String
  pairedDevices : List SavedPeer
  connection : Connection
  edges : List EdgeConfig
  activityDevices : List Path
  nativeTouchpads : Bool
  sourcePath : Option Path
deriving DecidableEq, Repr

/-- `MAX_EDGES`. -/
def MAX_EDGES : ℕ := 16

/-- `valid_edge_id`. -/
def validEdgeId (id : String) : Bool :=
  id ≠ "" && id.utf8ByteSize ≤ 64 && id.toList.all fun c => c.isAlphanum || c == '-' || c == '_'

/-- `char::is_control`. -/
def isControl (c : Char) : Bool := c.toNat < 32 || (127 ≤ c.toNat && c.toNat < 160)

/-- Two connections claim a common part of one screen edge. -/
def EdgeConfig.overlaps (edge previous : EdgeConfig) : Prop :=
  edge.output = previous.output ∧ edge.boundary.edge = previous.boundary.edge ∧
    edge.boundary.start < previous.boundary.end ∧ previous.boundary.start < edge.boundary.end

instance (edge previous : EdgeConfig) : Decidable (edge.overlaps previous) :=
  inferInstanceAs (Decidable (_ ∧ _ ∧ _ ∧ _))

/-- The checks of one edge, given the edges before it. -/
def validateEdge (previous : List EdgeConfig) (edge : EdgeConfig) : Result Unit := do
  ensure (validEdgeId edge.id ∧ edge.id ∉ previous.map EdgeConfig.id) "layout_ids_invalid"
  ensure (edge.output ≠ "" ∧ edge.output.utf8ByteSize ≤ 128 ∧ ¬ edge.output.toList.any isControl)
    "layout_invalid"
  context "layout_invalid" edge.boundary.validate
  forEach (fun p => ensure (¬ edge.overlaps p) "layout_overlap") previous

/-- The loop of `validate_edges`; `previous` are the edges it has passed. -/
def validateEdgesFrom (previous : List EdgeConfig) : List EdgeConfig → Result Unit
  | [] => .ok ()
  | edge :: edges => do
      validateEdge previous edge
      validateEdgesFrom (previous ++ [edge]) edges

/-- `validate_edges`: how many there are, and each edge against those before it. -/
def validateEdges (edges : List EdgeConfig) : Result Unit := do
  ensure (edges ≠ [] ∧ edges.length ≤ MAX_EDGES) "layout_count_invalid"
  validateEdgesFrom [] edges

end NiriBridge
