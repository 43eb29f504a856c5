import NiriBridge.Model.Config
import NiriBridge.Support.Document

/-!
# Model — Toml

The edges in a configuration document: how `bridge::Config` reads them (`deserialize_edges`), and
how `manager::write_edges` writes them.  The document is the tree of `toml_edit`; reading and
rendering its text is not part of the model.  A structure is read from a map or, its fields in
order, from a sequence, as by `serde`.
-/

namespace NiriBridge.Toml

open Document

/-! ### Reading -/

/-- The name of a side. -/
def edgeName : String → Option Edge
  | "top" => some .top
  | "bottom" => some .bottom
  | "left" => some .left
  | "right" => some .right
  | _ => none

/-- A side, read from an item. -/
def asEdge (item : Item) : Option Edge := item.asString.bind edgeName

/-- An `f64`, which an integer is read as too. -/
def asNumber : Item → Option ℚ
  | .scalar (.float q) _ => some q
  | .scalar (.integer n) _ => some n
  | _ => none

/-- `#[serde(deny_unknown_fields)]`. -/
def only (known : List String) (entries : Entries Item) : Bool :=
  (names entries).all fun name => name ∈ known

/-- `Boundary`. -/
def boundaryOf (item : Item) : Option Boundary :=
  match item.fields, item.elements with
  | some entries, _ =>
      if only ["edge", "start", "end"] entries then do
        let edge ← (lookup "edge" entries).bind asEdge
        let start ← (lookup "start" entries).bind asNumber
        let «end» ← (lookup "end" entries).bind asNumber
        return { edge := edge, start := start, «end» := «end» }
      else none
  | none, some [edge, start, «end»] => do
      let edge ← asEdge edge
      let start ← asNumber start
      let «end» ← asNumber «end»
      return { edge := edge, start := start, «end» := «end» }
  | none, _ => none

/-- The id of an edge that is written without one. -/
def defaultEdgeId : String := "default"

/-- `EdgeConfig`. -/
def edgeOf (item : Item) : Option EdgeConfig :=
  match item.fields, item.elements with
  | some entries, _ =>
      if only ["id", "output", "boundary"] entries then do
        let id ← match lookup "id" entries with
          | some id => id.asString
          | none => some defaultEdgeId
        let output ← (lookup "output" entries).bind Item.asString
        let boundary ← (lookup "boundary" entries).bind boundaryOf
        return { id := id, output := output, boundary := boundary }
      else none
  | none, some [id, output, boundary] => do
      let id ← id.asString
      let output ← output.asString
      let boundary ← boundaryOf boundary
      return { id := id, output := output, boundary := boundary }
  | none, _ => none

/-- `deserialize_edges`: one edge, or else many. -/
def edgesOf (item : Item) : Option (List EdgeConfig) :=
  match edgeOf item with
  | some edge => some [edge]
  | none => item.elements.bind (List.mapM edgeOf)

/-- The field `edges`, which has the alias `edge`: one of the two. -/
def configEdges (doc : Table) : Option (List EdgeConfig) :=
  match lookup "edge" doc.entries, lookup "edges" doc.entries with
  | some item, none => edgesOf item
  | none, some item => edgesOf item
  | _, _ => none

/-! ### Writing -/

/-- `replace`, with a value in the place of an item. -/
def replace (value : Scalar) (item : Option Item) : Item :=
  .scalar value ((item.bind Item.valueDecor).getD {})

/-- `item[name]`, to be written; what is no table of either kind has no such place, and the code
panics. -/
def setIn (name : String) (value : Scalar) : Option Item → Option Item
  | none => some (.inlineTable (update name (replace value) []) {})
  | some (.inlineTable entries decor) =>
      some (.inlineTable (update name (replace value) entries) decor)
  | some (.table t) => some (.table { t with entries := update name (replace value) t.entries })
  | some _ => none

/-- `Edge::as_str`. -/
def edgeText : Edge → String
  | .top => "top"
  | .bottom => "bottom"
  | .left => "left"
  | .right => "right"

/-- The fields of a boundary, written over an old one. -/
def setBoundary (b : Boundary) (item : Option Item) : Option Item := do
  let item ← setIn "edge" (.string (edgeText b.edge)) item
  let item ← setIn "start" (.float b.start) (some item)
  setIn "end" (.float b.end) (some item)

/-- The table of an edge, written over an old one. -/
def writeTable (edge : EdgeConfig) (t : Table) : Option Table := do
  let entries := update "id" (replace (.string edge.id)) t.entries
  let entries := update "output" (replace (.string edge.output)) entries
  let boundary ← setBoundary edge.boundary (lookup "boundary" entries)
  return { t with entries := update "boundary" (fun _ => boundary) entries }

/-- `BTreeMap<String, Table>`. -/
abbrev Previous := List (String × Table)

/-- Inserts a table under its id. -/
def insert (previous : Previous) (id : String) (t : Table) : Previous :=
  (id, t) :: previous.filter fun p => p.1 ≠ id

/-- The id of a table. -/
def tableId (t : Table) : Option String := (lookup "id" t.entries).bind Item.asString

/-- The old tables by their ids. -/
def previousOf (doc : Table) : Previous :=
  let legacy : Previous := match lookup "edge" doc.entries with
    | some (.table t) => insert [] ((tableId t).getD "default") t
    | _ => []
  match lookup "edges" doc.entries with
  | some (.arrayOfTables tables) => tables.foldl (fun previous t =>
      match tableId t with
      | some id => insert previous id t
      | none => previous) legacy
  | _ => legacy

/-- The loop of `write_edges`; each edge takes the table it had before. -/
def writeTables (previous : Previous) : List EdgeConfig → Option (List Table)
  | [] => some []
  | edge :: edges => do
      let t ← writeTable edge (clearPositions ((previous.lookup edge.id).getD {}))
      let tables ← writeTables (previous.filter fun p => p.1 ≠ edge.id) edges
      return t :: tables

/-- `write_edges`; `none` is for a panic. -/
def writeEdges (doc : Table) (edges : List EdgeConfig) : Option Table := do
  let tables ← writeTables (previousOf doc) edges
  return { doc with
    entries := update "edges" (fun _ => .arrayOfTables tables) (remove "edge" doc.entries) }

end NiriBridge.Toml
