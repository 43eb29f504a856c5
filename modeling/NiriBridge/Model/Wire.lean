import NiriBridge.Model.Protocol
import NiriBridge.Support.Fragments
import NiriBridge.Support.Json

/-!
# Model — Wire

`write_frame` and `read_frame` of `protocol.rs`, and the JSON that the derived `Serialize` of each
type writes.  What `serde_json` does beyond that is `Serde`: the text of an `f64`, and reading a
message back.

The integers of the model are unbounded.  `Typed` says that a value is one the source's types can
hold.
-/

namespace NiriBridge

open Json Fragments

/-! ### The values of the types -/

/-- A finite `f64`. -/
def IsF64 (q : ℚ) : Prop :=
  ∃ n e : ℤ, |n| < 2 ^ 53 ∧ -1074 ≤ e ∧ e ≤ 971 ∧ q = n * 2 ^ e

/-- Both ends of the span are of type `f64`. -/
def Boundary.Typed (b : Boundary) : Prop := IsF64 b.start ∧ IsF64 b.end

/-- The integers are of their 32 bits, and the scale is an `f64`. -/
def LogicalOutput.Typed (o : LogicalOutput) : Prop :=
  (-2 ^ 31 ≤ o.x ∧ o.x < 2 ^ 31) ∧ (-2 ^ 31 ≤ o.y ∧ o.y < 2 ^ 31) ∧ o.width < 2 ^ 32 ∧
  o.height < 2 ^ 32 ∧
    IsF64 o.scale

/-- Every part of the desktop is of its type. -/
def Desktop.Typed (d : Desktop) : Prop :=
  (∀ e ∈ d.edges, e.boundary.Typed) ∧ ∀ p ∈ d.outputs, p.2.Typed

/-- Every part of the message is of its type. -/
def LayoutMessage.Typed : LayoutMessage → Prop
  | prepare _ edges _ => ∀ e ∈ edges, e.boundary.Typed
  | _ => True

/-- Every part of the event is of its type. -/
def InputEvent.Typed : InputEvent → Prop
  | motion dx dy => IsF64 dx ∧ IsF64 dy
  | absolute x y width height => x < 2 ^ 32 ∧ y < 2 ^ 32 ∧ width < 2 ^ 32 ∧ height < 2 ^ 32
  | scroll _ amount _ => IsF64 amount
  | _ => True

/-- Every part of the message is of its type. -/
def Message.Typed : Message → Prop
  | desktop info => info.Typed
  | layout message => message.Typed
  | .begin session entry => session < 2 ^ 64 ∧ IsF64 entry.fraction
  | input session sequence event => session < 2 ^ 64 ∧ sequence < 2 ^ 64 ∧ event.Typed
  | .end session exit => session < 2 ^ 64 ∧ ∀ p ∈ exit, IsF64 p.fraction
  | ping nonce | pong nonce => nonce < 2 ^ 64
  | _ => True

/-! ### Their JSON -/

/-- The names of the sides. -/
def Edge.serialize : Edge → Text
  | top => string "top"
  | bottom => string "bottom"
  | left => string "left"
  | right => string "right"

/-- The names of the transforms. -/
def Transform.serialize : Transform → Text
  | normal => string "Normal"
  | rotate90 => string "90"
  | rotate180 => string "180"
  | rotate270 => string "270"
  | flipped => string "Flipped"
  | flipped90 => string "Flipped90"
  | flipped180 => string "Flipped180"
  | flipped270 => string "Flipped270"

/-- The names of the axes. -/
def Axis.serialize : Axis → Text
  | horizontal => string "horizontal"
  | vertical => string "vertical"

/-- The names of the sources. -/
def ScrollSource.serialize : ScrollSource → Text
  | wheel => string "wheel"
  | finger => string "finger"
  | continuous => string "continuous"

namespace Touchpad

/-- The names of the kinds. -/
def Kind.serialize : Kind → Text
  | key => string "key"
  | absolute => string "absolute"

/-- An event of a touchpad. -/
def Event.serialize (e : Event) : Text :=
  object [("kind", e.kind.serialize), ("code", nat e.code), ("value", int e.value)]

/-- The axis of a touchpad. -/
def AxisInfo.serialize (a : AxisInfo) : Text :=
  object [("code", nat a.code), ("minimum", int a.minimum), ("maximum", int a.maximum),
    ("fuzz", int a.fuzz), ("flat", int a.flat), ("resolution", int a.resolution)]

/-- The descriptor of a touchpad. -/
def Descriptor.serialize (d : Descriptor) : Text :=
  object [("keys", array (d.keys.map nat)), ("properties", array (d.properties.map nat)),
    ("axes", array (d.axes.map AxisInfo.serialize))]

end Touchpad

section Floats
variable (float : ℚ → Text)

/-- The span of a side. -/
def Boundary.serialize (b : Boundary) : Text :=
  object [("edge", b.edge.serialize), ("start", float b.start), ("end", float b.end)]

/-- A connection. -/
def EdgeConfig.serialize (e : EdgeConfig) : Text :=
  object [("id", string e.id), ("output", string e.output),
    ("boundary", e.boundary.serialize float)]

/-- An output. -/
def LogicalOutput.serialize (o : LogicalOutput) : Text :=
  object [("x", int o.x), ("y", int o.y), ("width", nat o.width), ("height", nat o.height),
    ("scale", float o.scale), ("transform", o.transform.serialize)]

/-- What a device tells of its desktop. -/
def Desktop.serialize (d : Desktop) : Text :=
  object [("edges", array (d.edges.map (EdgeConfig.serialize float))),
    ("revision", string d.revision),
    ("outputs", object (d.outputs.map fun p => (p.1, p.2.serialize float)))]

/-- A message about a layout, under its action. -/
def LayoutMessage.serialize : LayoutMessage → Text
  | prepare id edges revision =>
      object [("action", string "prepare"), ("id", string id),
        ("edges", array (edges.map (EdgeConfig.serialize float))), ("revision", string revision)]
  | prepared id ok error =>
      object [("action", string "prepared"), ("id", string id), ("ok", bool ok),
        ("error", optional string error)]
  | commit id => object [("action", string "commit"), ("id", string id)]
  | result id ok revision error =>
      object [("action", string "result"), ("id", string id), ("ok", bool ok),
        ("revision", optional string revision), ("error", optional string error)]
  | abort id => object [("action", string "abort"), ("id", string id)]

/-- An input, under its type. -/
def InputEvent.serialize : InputEvent → Text
  | touchpad device timeUs events =>
      object [("type", string "touchpad"), ("device", nat device), ("time_us", nat timeUs),
        ("events", array (events.map Touchpad.Event.serialize))]
  | key code pressed =>
      object [("type", string "key"), ("code", nat code), ("pressed", bool pressed)]
  | button code pressed =>
      object [("type", string "button"), ("code", nat code), ("pressed", bool pressed)]
  | motion dx dy => object [("type", string "motion"), ("dx", float dx), ("dy", float dy)]
  | absolute x y width height =>
      object [("type", string "absolute"), ("x", nat x), ("y", nat y), ("width", nat width),
        ("height", nat height)]
  | scroll axis amount source =>
      object [("type", string "scroll"), ("axis", axis.serialize), ("amount", float amount),
        ("source", source.serialize)]
  | scrollStop axis source =>
      object [("type", string "scroll_stop"), ("axis", axis.serialize),
        ("source", source.serialize)]

/-- A place on a connection. -/
def EdgePosition.serialize (p : EdgePosition) : Text :=
  object [("edge_id", string p.edgeId), ("fraction", float p.fraction)]

/-- A message, under its type. -/
def Message.serialize : Message → Text
  | desktop info => object [("type", string "desktop"), ("info", info.serialize float)]
  | layout message => object [("type", string "layout"), ("message", message.serialize float)]
  | touchpads devices =>
      object [("type", string "touchpads"),
        ("devices", array (devices.map Touchpad.Descriptor.serialize))]
  | hello version => object [("type", string "hello"), ("version", nat version)]
  | .begin session entry =>
      object [("type", string "begin"), ("session", nat session), ("entry", entry.serialize float)]
  | input session sequence event =>
      object [("type", string "input"), ("session", nat session), ("sequence", nat sequence),
        ("event", event.serialize float)]
  -- an exit that is absent is skipped
  | .end session none => object [("type", string "end"), ("session", nat session)]
  | .end session (some exit) =>
      object [("type", string "end"), ("session", nat session), ("exit", exit.serialize float)]
  | ping nonce => object [("type", string "ping"), ("nonce", nat nonce)]
  | pong nonce => object [("type", string "pong"), ("nonce", nat nonce)]
  | lockState locked => object [("type", string "lock_state"), ("locked", bool locked)]

end Floats

/-! ### Frames -/

/-- The text of an `f64`, and `serde_json::from_slice`. -/
structure Serde where
  float : ℚ → Text
  fromSlice : Bytes → Option Message

/-- `MAX_FRAME_BYTES`. -/
def MAX_FRAME_BYTES : ℕ := 64 * 1024

/-- `serde_json::to_vec`. -/
def Serde.toVec (S : Serde) (message : Message) : Bytes := utf8 (message.serialize S.float)

/-- A frame is written behind what has been written already. -/
def writeFrame (S : Serde) (writer : Bytes) (message : Message) : Result Bytes := do
  message.validate
  let bytes := S.toVec message
  ensure (bytes.length ≤ MAX_FRAME_BYTES) "Protocol frame too large"
  return writer ++ (beBytes 4 bytes.length ++ bytes)

/-- What `read_u32` says at the end of the stream. -/
def unexpectedEndOfFile : String := "unexpected end of file"

/-- What `read_exact` says there. -/
def earlyEof : String := "early eof"

/-- A frame is read from a stream that comes in parts. -/
def readFrame (S : Serde) (reader : List Bytes) : Result (Message × List Bytes) := do
  let (head, reader) ← orError unexpectedEndOfFile (readExact 4 reader)
  let length := beValue head
  ensure (0 < length ∧ length ≤ MAX_FRAME_BYTES) "Invalid protocol frame length"
  let (bytes, reader) ← orError earlyEof (readExact length reader)
  let message ← orError "Invalid protocol frame" (S.fromSlice bytes)
  message.validate
  return (message, reader)

end NiriBridge
