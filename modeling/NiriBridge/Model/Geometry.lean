import NiriBridge.Model.Error
import Mathlib.Algebra.Order.Floor.Defs
import Mathlib.Data.Rat.Floor
import Mathlib.Algebra.Order.Ring.Rat

/-!
# Model — Geometry

`geometry.rs`: screen edges, the configured span of an edge, and where a pointer is placed.  A
finite `f64` is a rational and the arithmetic is exact; the values that the source tests with
`is_finite` are finite by their type.
-/

namespace NiriBridge

/-- `Rect`: a part of the plane with its sides along the axes. -/
structure Rect where
  x : ℚ
  y : ℚ
  width : ℚ
  height : ℚ
deriving DecidableEq, Repr

/-- `Rect::validate`. -/
def Rect.validate (rect : Rect) : Result Unit :=
  ensure (1 ≤ rect.width ∧ 1 ≤ rect.height)
    "Screen dimensions must be at least one logical pixel"

/-- `Edge`: a side of a screen. -/
inductive Edge where
  | top
  | bottom
  | left
  | right
deriving DecidableEq, Repr

/-- `Boundary`: the span of a side, in fractions of it. -/
structure Boundary where
  edge : Edge
  start : ℚ
  «end» : ℚ
deriving DecidableEq, Repr

namespace Boundary

/-- `Boundary::validate`. -/
def validate (b : Boundary) : Result Unit :=
  ensure (0 ≤ b.start ∧ b.end ≤ 1 ∧ b.start < b.end)
    "Boundary span must satisfy 0 <= start < end <= 1"

/-- `f64::clamp`. -/
def clamp (v lo hi : ℚ) : ℚ := if v < lo then lo else if hi < v then hi else v

/-- Where a pointer that entered at `fraction` of the span is placed, `inset` inside the screen. -/
def pointAt (b : Boundary) (rect : Rect) (fraction inset : ℚ) : Result (ℚ × ℚ) := do
  b.validate
  rect.validate
  ensure (0 ≤ fraction ∧ fraction ≤ 1) "Boundary fraction must be between zero and one"
  ensure (0 < inset) "Entry inset must be finite and positive"
  let t := b.start + fraction * (b.end - b.start)
  let ix := min inset (rect.width / 2)
  let iy := min inset (rect.height / 2)
  let tangentX := clamp (rect.x + t * rect.width) (rect.x + 1 / 2) (rect.x + rect.width - 1 / 2)
  let tangentY := clamp (rect.y + t * rect.height) (rect.y + 1 / 2) (rect.y + rect.height - 1 / 2)
  return match b.edge with
    | .top => (tangentX, rect.y + iy)
    | .bottom => (tangentX, rect.y + rect.height - iy)
    | .left => (rect.x + ix, tangentY)
    | .right => (rect.x + rect.width - ix, tangentY)

end Boundary

end NiriBridge
