import NiriBridge.Edges.Strips
import NiriBridge.Model.Coordinator

/-!
# Edges — Landing

Where `placement` puts the pointer.  Along the entered edge it is the pixel of `t · length`
(`floor_clamp`), across it four pixels inside.  So a pointer that goes out and comes back with the
same fraction moves by less than two pixels, and one that lands is clear of the strips of its own
side and of the opposite one; a strip of a neighbouring side covers it near a corner (`Corner`).
-/

namespace NiriBridge

open Capture

/-! ### Along the edge -/

/-- The place of a fraction along the edge. -/
def Boundary.place (b : Boundary) (length : ℕ) (fraction : ℚ) : ℚ :=
  (b.start + fraction * (b.end - b.start)) * length

/-- A place on a span is not before its side. -/
theorem Boundary.place_nonneg {b : Boundary} (hvalid : b.validate = .ok ()) (length : ℕ)
    {fraction : ℚ} (hf : 0 ≤ fraction) : 0 ≤ b.place length fraction := by
  obtain ⟨hstart, -, hlt⟩ := Boundary.validate_eq_ok hvalid
  exact mul_nonneg (add_nonneg hstart (mul_nonneg hf (sub_nonneg.mpr hlt.le))) (Nat.cast_nonneg _)

/-- A place on a span is not beyond its side. -/
theorem Boundary.place_le {b : Boundary} (hvalid : b.validate = .ok ()) (length : ℕ) {fraction : ℚ}
    (hf : fraction ≤ 1) : b.place length fraction ≤ length := by
  obtain ⟨-, hend, hlt⟩ := Boundary.validate_eq_ok hvalid
  have hshare : fraction * (b.end - b.start) ≤ b.end - b.start :=
    mul_le_of_le_one_left (sub_nonneg.mpr hlt.le) hf
  exact mul_le_of_le_one_left (Nat.cast_nonneg _) (by linarith)

/-- Before the end of a span a place is inside its side. -/
theorem Boundary.place_lt {b : Boundary} (hvalid : b.validate = .ok ()) {length : ℕ}
    (hpos : 1 ≤ length) {fraction : ℚ} (hf : fraction < 1) : b.place length fraction < length := by
  obtain ⟨-, hend, hlt⟩ := Boundary.validate_eq_ok hvalid
  have hlength : (0 : ℚ) < length := by exact_mod_cast hpos
  have hshare : fraction * (b.end - b.start) < b.end - b.start :=
    mul_lt_of_lt_one_left (sub_pos.mpr hlt) hf
  exact mul_lt_of_lt_one_left hlength (by linarith)

/-- Keeping half a pixel from both ends changes the pixel only at the very end. -/
theorem floor_clamp {v : ℚ} {length : ℕ} (h : 0 ≤ v) (hpos : 1 ≤ length) :
    ⌊Boundary.clamp v (1 / 2) (length - 1 / 2)⌋ = if v < length then ⌊v⌋ else (length : ℤ) - 1 := by
  have hone : (1 : ℚ) ≤ length := by exact_mod_cast hpos
  rw [Boundary.clamp]
  split_ifs with hlow hlt hhigh hlt hlt
  · rw [Int.floor_eq_zero_iff.mpr ⟨by norm_num, by norm_num⟩,
      Int.floor_eq_zero_iff.mpr ⟨h, by linarith⟩]
  · exact absurd (by linarith) hlt
  · have hlast : ∀ w : ℚ, length - 1 / 2 ≤ w → w < length → ⌊w⌋ = (length : ℤ) - 1 := by
      intro w hw hw'
      rw [Int.floor_eq_iff]
      push_cast
      exact ⟨by linarith, by linarith⟩
    rw [hlast _ le_rfl (by linarith), hlast v hhigh.le hlt]
  · rw [Int.floor_eq_iff]
    push_cast
    exact ⟨by linarith, by linarith⟩
  · rfl
  · exact absurd (by linarith) hlt

/-- What is clamped half a pixel inside is on a pixel of the side. -/
theorem floor_clamp_lt {v : ℚ} {length : ℕ} (h : 0 ≤ v) (hpos : 1 ≤ length) :
    0 ≤ ⌊Boundary.clamp v (1 / 2) (length - 1 / 2)⌋ ∧
      ⌊Boundary.clamp v (1 / 2) (length - 1 / 2)⌋ < length := by
  rw [floor_clamp h hpos]
  split_ifs with hlt
  · exact ⟨Int.floor_nonneg.mpr h, Int.floor_lt.mpr (by exact_mod_cast hlt)⟩
  · exact ⟨by omega, by omega⟩

/-! ### Across the edge -/

/-- The extent of an output away from the edge. -/
def LogicalOutput.breadth (output : LogicalOutput) : Edge → ℕ
  | .top | .bottom => output.height
  | .left | .right => output.width

/-- The one of two values that lies across an edge. -/
def Edge.across {α : Type} (edge : Edge) (x y : α) : α := if edge.horizontal then y else x

/-- The sides at which the coordinates end. -/
def Edge.far : Edge → Bool
  | .top | .left => false
  | .bottom | .right => true

/-- How far inside a pointer is placed, as a coordinate. -/
def Edge.inset (edge : Edge) (breadth : ℕ) : ℚ :=
  if edge.far then breadth - min 4 ((breadth : ℚ) / 2) else min 4 ((breadth : ℚ) / 2)

/-- The inset of an edge is on a pixel of the screen. -/
theorem Edge.floor_inset_lt (edge : Edge) {breadth : ℕ} (hpos : 1 ≤ breadth) :
    0 ≤ ⌊edge.inset breadth⌋ ∧ ⌊edge.inset breadth⌋ < breadth := by
  have hone : (1 : ℚ) ≤ breadth := by exact_mod_cast hpos
  have hmin : 0 < min 4 ((breadth : ℚ) / 2) := lt_min (by norm_num) (by linarith)
  have hhalf : min 4 ((breadth : ℚ) / 2) ≤ breadth / 2 := min_le_right ..
  rw [Int.floor_nonneg, Int.floor_lt, Edge.inset]
  push_cast
  split_ifs
  · exact ⟨by linarith, by linarith⟩
  · exact ⟨hmin.le, by linarith⟩

/-- From eight pixels on it is the fourth pixel. -/
theorem Edge.floor_inset (edge : Edge) {breadth : ℕ} (h : 8 ≤ breadth) :
    ⌊edge.inset breadth⌋ = if edge.far then (breadth : ℤ) - 4 else 4 := by
  have hmin : min 4 ((breadth : ℚ) / 2) = 4 := by
    refine min_eq_left ?_
    have : (8 : ℚ) ≤ breadth := by exact_mod_cast h
    linarith
  rw [Edge.inset, hmin]
  split_ifs
  · have hcast : (breadth : ℚ) - 4 = ((breadth : ℤ) - 4 : ℤ) := by push_cast; ring
    rw [hcast, Int.floor_intCast]
  · exact Int.floor_ofNat 4

/-! ### The pixel -/

/-- The pixel at which a pointer lands. -/
structure Lands (output : LogicalOutput) (b : Boundary) (fraction : ℚ) (x y : ℕ) : Prop where
  along : ((b.edge.along x y : ℕ) : ℤ) =
    ⌊Boundary.clamp (b.place (output.length b.edge) fraction) (1 / 2)
      (output.length b.edge - 1 / 2)⌋
  across : ((b.edge.across x y : ℕ) : ℤ) = ⌊b.edge.inset (output.breadth b.edge)⌋

/-- A pointer lands on a pixel of the output. -/
theorem Lands.lt {output : LogicalOutput} {b : Boundary} {fraction : ℚ} {x y : ℕ}
    (h : Lands output b fraction x y) (hw : 1 ≤ output.width) (hh : 1 ≤ output.height)
    (hvalid : b.validate = .ok ()) (h0 : 0 ≤ fraction) : x < output.width ∧ y < output.height := by
  have hlength : 1 ≤ output.length b.edge := by
    cases b.edge <;> assumption
  have hbreadth : 1 ≤ output.breadth b.edge := by
    cases b.edge <;> assumption
  have halong := (floor_clamp_lt (Boundary.place_nonneg hvalid (output.length b.edge) h0) hlength).2
  have hacross := (b.edge.floor_inset_lt hbreadth).2
  rw [← h.along, Int.ofNat_lt] at halong
  rw [← h.across, Int.ofNat_lt] at hacross
  cases hedge : b.edge
  all_goals
    rw [hedge] at halong hacross
    first | exact ⟨halong, hacross⟩ | exact ⟨hacross, halong⟩

/-- `point_at` on an output, with the checks passed. -/
theorem pointAt_eq {b : Boundary} {output : LogicalOutput} {fraction : ℚ} (hw : 1 ≤ output.width)
    (hh : 1 ≤ output.height) (hvalid : b.validate = .ok ()) (h0 : 0 ≤ fraction)
    (h1 : fraction ≤ 1) :
    ∃ p : ℚ × ℚ, b.pointAt ⟨0, 0, output.width, output.height⟩ fraction 4 = .ok p ∧
      b.edge.along p.1 p.2 = Boundary.clamp (b.place (output.length b.edge) fraction) (1 / 2)
        (output.length b.edge - 1 / 2) ∧
      b.edge.across p.1 p.2 = b.edge.inset (output.breadth b.edge) := by
  have hrect : (Rect.mk 0 0 output.width output.height).validate = .ok () :=
    ensure_eq_ok.mpr ⟨Nat.one_le_cast.mpr hw, Nat.one_le_cast.mpr hh⟩
  have hfraction : ensure (0 ≤ fraction ∧ fraction ≤ 1)
      "Boundary fraction must be between zero and one" = .ok () := ensure_eq_ok.mpr ⟨h0, h1⟩
  have hinset : ensure ((0 : ℚ) < 4) "Entry inset must be finite and positive" = .ok () :=
    ensure_eq_ok.mpr (by norm_num)
  refine ⟨_, by rw [Boundary.pointAt, hvalid, hrect, hfraction, hinset]; rfl, ?_⟩
  cases hedge : b.edge
  all_goals
    simp [Edge.along, Edge.across, Edge.horizontal, Edge.inset, Edge.far, Boundary.place,
      LogicalOutput.length, LogicalOutput.breadth]

/-- `placement` on an output that has a pixel. -/
theorem placement_lands {table : OutputTable} {edge : EdgeConfig} {output : LogicalOutput}
    {fraction : ℚ} (hlookup : table.lookup edge.output = some (some output)) (hw : 1 ≤ output.width)
    (hh : 1 ≤ output.height) (hvalid : edge.boundary.validate = .ok ()) (h0 : 0 ≤ fraction)
    (h1 : fraction ≤ 1) :
    ∃ x y,
    Coordinator.placement table edge fraction = .ok (.absolute x y output.width output.height) ∧
      Lands output edge.boundary fraction x y := by
  obtain ⟨⟨px, py⟩, hpoint, halong, hacross⟩ := pointAt_eq hw hh hvalid h0 h1
  have hlength : 1 ≤ output.length edge.boundary.edge := by
    cases edge.boundary.edge <;> assumption
  have hbreadth : 1 ≤ output.breadth edge.boundary.edge := by
    cases edge.boundary.edge <;> assumption
  have hat := floor_clamp_lt
    (Boundary.place_nonneg hvalid (output.length edge.boundary.edge) h0) hlength
  have hin := edge.boundary.edge.floor_inset_lt hbreadth
  rw [← halong] at hat
  rw [← hacross] at hin
  refine ⟨⌊px⌋.toNat, ⌊py⌋.toNat, ?_, ?_, ?_⟩
  · rw [Coordinator.placement, hlookup]
    simp only [orError]
    change (edge.boundary.pointAt ⟨0, 0, output.width, output.height⟩ fraction 4 >>= fun p =>
      _) = _
    rw [hpoint]
    rfl
  · rw [← halong, ← Int.toNat_of_nonneg hat.1]
    cases edge.boundary.edge <;> rfl
  · rw [← hacross, ← Int.toNat_of_nonneg hin.1]
    cases edge.boundary.edge <;> rfl

/-! ### Out and back -/

/-- A fraction reported by a strip brings the pointer back to within two pixels. -/
theorem Lands.returns {output : LogicalOutput} {b : Boundary} {p : ℚ} {x y : ℕ}
    (hvalid : b.validate = .ok ()) (hextent : 1 ≤ extent b (output.length b.edge)) (h0 : 0 ≤ p)
    (hp : p < extent b (output.length b.edge))
    (h : Lands output b (p / extent b (output.length b.edge)) x y) :
    |((b.edge.along x y : ℕ) : ℚ) - (offset b (output.length b.edge) + p)| < 2 := by
  generalize hlength : output.length b.edge = length at hextent hp h ⊢
  have hspan := cast_extent hvalid length
  have hspan' : ((extent b length : ℕ) : ℚ) = (⌊(b.end - b.start) * length⌋ : ℚ) := by
    exact_mod_cast congrArg (fun n : ℤ => (n : ℚ)) hspan
  have hpos : (0 : ℚ) < extent b length := by exact_mod_cast hextent
  have hratio : 0 ≤ p / extent b length ∧ p / extent b length < 1 :=
    ⟨div_nonneg h0 hpos.le, (div_lt_one hpos).mpr hp⟩
  have hsize : 1 ≤ length := by
    by_contra hzero
    obtain rfl : length = 0 := Nat.lt_one_iff.mp (not_le.mp hzero)
    simp [extent] at hextent
  have hplace : b.place length (p / extent b length) =
      b.start * length + p / ⌊(b.end - b.start) * length⌋ * ((b.end - b.start) * length) := by
    rw [Boundary.place, hspan']
    ring
  obtain ⟨hlow, hhigh⟩ :=
    Spans.share_offset (a := b.start * length) (hspan ▸ by exact_mod_cast hextent)
    h0 (hspan' ▸ hp)
  rw [← hplace] at hlow hhigh
  have halong : ((b.edge.along x y : ℕ) : ℤ) = ⌊b.place length (p / extent b length)⌋ := by
    rw [h.along, hlength, floor_clamp (Boundary.place_nonneg hvalid length hratio.1) hsize,
      if_pos (Boundary.place_lt hvalid hsize hratio.2)]
  have hcast : ((b.edge.along x y : ℕ) : ℚ) = (⌊b.place length (p / extent b length)⌋ : ℚ) := by
    exact_mod_cast congrArg (fun n : ℤ => (n : ℚ)) halong
  have hfloor := Int.floor_le (b.place length (p / extent b length))
  have hfloor' := Int.lt_floor_add_one (b.place length (p / extent b length))
  rw [hcast, abs_lt, offset]
  exact ⟨by linarith, by linarith⟩

/-- **Placement and return.**  `placement` yields a valid absolute event, and a pointer that left
through the strip of an edge at coordinate `p` returns to within two pixels of `offset + p`. -/
theorem placement_returns {table : OutputTable} {edge : EdgeConfig} {output : LogicalOutput}
    (hlookup : table.lookup edge.output = some (some output)) (hw : 1 ≤ output.width)
    (hh : 1 ≤ output.height) (hvalid : edge.boundary.validate = .ok ()) :
    (∀ fraction, 0 ≤ fraction → fraction ≤ 1 → ∃ x y,
      Coordinator.placement table edge fraction = .ok (.absolute x y output.width output.height) ∧
        x < output.width ∧ y < output.height ∧
        (InputEvent.absolute x y output.width output.height).validate = .ok ()) ∧
    ∀ (registry : List String) (s : Strip), strip table registry edge.options = .ok s →
      ∀ surfaceX surfaceY : ℚ, 0 ≤ s.edge.along surfaceX surfaceY →
        s.edge.along surfaceX surfaceY < s.extent → ∃ x y,
          Coordinator.placement table edge (enterFraction s surfaceX surfaceY) =
              .ok (.absolute x y output.width output.height) ∧
            |((edge.boundary.edge.along x y : ℕ) : ℚ) -
              (offset edge.boundary (output.length edge.boundary.edge) +
                s.edge.along surfaceX surfaceY)| < 2 := by
  constructor
  · intro fraction h0 h1
    obtain ⟨x, y, hplace, hlands⟩ := placement_lands hlookup hw hh hvalid h0 h1
    have hbounds := hlands.lt hw hh hvalid h0
    refine ⟨x, y, hplace, hbounds.1, hbounds.2, ensure_eq_ok.mpr ⟨?_, ?_, hbounds⟩⟩
    · exact hw
    · exact hh
  · intro registry s hs surfaceX surfaceY h0 hp
    obtain ⟨output', hlookup', hextent, rfl⟩ := strip_eq_ok hs
    obtain rfl : output' = output := Option.some.inj (Option.some.inj (hlookup'.symm.trans hlookup))
    have hpos : (0 : ℚ) < extent edge.boundary (output'.length edge.boundary.edge) := by
      exact_mod_cast hextent
    obtain ⟨x, y, hplace, hlands⟩ := placement_lands hlookup hw hh hvalid (div_nonneg h0 hpos.le)
      ((div_lt_one hpos).mpr hp).le
    exact ⟨x, y, hplace, hlands.returns hvalid hextent h0 hp⟩

/-! ### Clear of the strips -/

/-- The pixel line a pointer lands on, counted across the entered edge. -/
def Edge.row (edge : Edge) (breadth : ℕ) : ℤ := if edge.far then (breadth : ℤ) - 4 else 4

/-- The pointer lands within two pixels of a neighbouring side, where that side's strip reaches as
far as the line of pixels it lands on. -/
def Corner (output : LogicalOutput) (entered other : Boundary) (fraction : ℚ) : Prop :=
  entered.edge.horizontal ≠ other.edge.horizontal ∧
    (if other.edge.far then
      (output.length entered.edge : ℚ) - 2 ≤ entered.place (output.length entered.edge) fraction
    else entered.place (output.length entered.edge) fraction < 2) ∧
    Spans.Pixel (other.start * output.length other.edge) (other.end * output.length other.edge)
      (entered.edge.row (output.breadth entered.edge))

/-- Near the ends of the edge the pixel is near them as well. -/
theorem floor_clamp_near {v : ℚ} {length : ℕ} (h : 0 ≤ v) (hle : v ≤ length) (hsize : 8 ≤ length) :
    (⌊Boundary.clamp v (1 / 2) (length - 1 / 2)⌋ < 2 ↔ v < 2) ∧
      ((length : ℤ) - 2 ≤ ⌊Boundary.clamp v (1 / 2) (length - 1 / 2)⌋ ↔ (length : ℚ) - 2 ≤ v) := by
  have hlarge : (8 : ℚ) ≤ length := by exact_mod_cast hsize
  rw [floor_clamp h (by omega)]
  split_ifs with hlt
  · rw [Int.floor_lt, Int.le_floor]
    push_cast
    exact ⟨Iff.rfl, Iff.rfl⟩
  · have hend : v = length := le_antisymm hle (not_lt.mp hlt)
    constructor
    · constructor
      · intro hcon
        omega
      · intro hcon
        linarith
    · exact ⟨fun _ => by linarith, fun _ => by omega⟩

/-- The rim is two pixels deep, at the far side or at the near one. -/
theorem rim_iff {edge : Edge} {output : LogicalOutput} {x y : ℤ} :
    Rim edge output x y ↔ if edge.far then
        (output.breadth edge : ℤ) - 2 ≤ edge.across x y ∧ edge.across x y < output.breadth edge
      else 0 ≤ edge.across x y ∧ edge.across x y < 2 := by
  cases edge <;> rfl

/-- Two edges in the same direction. -/
theorem Edge.parallel {entered other : Edge} (h : entered.horizontal = other.horizontal)
    (output : LogicalOutput) (x y : ℤ) :
    other.across x y = entered.across x y ∧ output.breadth other = output.breadth entered := by
  cases entered <;> cases other <;> first | exact ⟨rfl, rfl⟩ | cases h

/-- Two edges that meet. -/
theorem Edge.crossing {entered other : Edge} (h : entered.horizontal ≠ other.horizontal)
    (output : LogicalOutput) (x y : ℤ) :
    other.across x y = entered.along x y ∧ other.along x y = entered.across x y ∧
      output.breadth other = output.length entered := by
  cases entered <;> cases other <;> first | exact ⟨rfl, rfl, rfl⟩ | exact absurd rfl h

theorem Edge.along_cast (edge : Edge) (x y : ℕ) :
    edge.along (x : ℤ) y = ((edge.along x y : ℕ) : ℤ) := by
  cases edge <;> rfl

theorem Edge.across_cast (edge : Edge) (x y : ℕ) :
    edge.across (x : ℤ) y = ((edge.across x y : ℕ) : ℤ) := by
  cases edge <;> rfl

/-- On an output of at least eight by eight pixels the pointer lands on a strip exactly at a
corner. -/
theorem Lands.region_iff {output : LogicalOutput} {edge other : EdgeConfig} {fraction : ℚ} {x y : ℕ}
    (h : Lands output edge.boundary fraction x y) (hw : 8 ≤ output.width) (hh : 8 ≤ output.height)
    (hvalid : edge.boundary.validate = .ok ()) (hother : other.boundary.validate = .ok ())
    (h0 : 0 ≤ fraction) (h1 : fraction ≤ 1) :
    (stripOf other output).surface.region output x y ↔
      Corner output edge.boundary other.boundary fraction := by
  have hlength : 8 ≤ output.length edge.boundary.edge := by
    cases edge.boundary.edge <;> assumption
  have hbreadth : 8 ≤ output.breadth edge.boundary.edge := by
    cases edge.boundary.edge <;> assumption
  have hacross : edge.boundary.edge.across (x : ℤ) y =
      edge.boundary.edge.row (output.breadth edge.boundary.edge) := by
    rw [Edge.across_cast, h.across, Edge.floor_inset _ hbreadth, Edge.row]
  have hnonneg := Boundary.place_nonneg hvalid (output.length edge.boundary.edge) h0
  have hat := floor_clamp_lt hnonneg (le_trans (by norm_num) hlength)
  have hnear := floor_clamp_near hnonneg (Boundary.place_le hvalid _ h1) hlength
  rw [← h.along, ← Edge.along_cast] at hat hnear
  rw [Capture.region_iff hother, rim_iff, Corner]
  by_cases hdir : edge.boundary.edge.horizontal = other.boundary.edge.horizontal
  · -- four pixels inside is off the rim of both sides
    obtain ⟨hsame, hbreadth'⟩ := Edge.parallel hdir output (x : ℤ) y
    rw [hsame, hbreadth', hacross, Edge.row]
    refine ⟨fun hregion => ?_, fun hcorner => absurd hdir hcorner.1⟩
    split_ifs at hregion
    · omega
    · omega
    · omega
    · omega
  · -- next to the side the pointer may be within four pixels of its end
    obtain ⟨hcross, hcross', hbreadth'⟩ := Edge.crossing hdir output (x : ℤ) y
    rw [hcross, hcross', hbreadth', hacross]
    split_ifs with hfar
    · rw [hnear.2]
      exact ⟨fun ⟨hpixel, hrim, _⟩ =>
        ⟨hdir, hrim, hpixel⟩, fun ⟨_, hrim, hpixel⟩ => ⟨hpixel, hrim, hat.2⟩⟩
    · rw [hnear.1]
      exact ⟨fun ⟨hpixel, _, hrim⟩ =>
        ⟨hdir, hrim, hpixel⟩, fun ⟨_, hrim, hpixel⟩ => ⟨hpixel, hat.1, hrim⟩⟩

/-- A property of all strips is one of the strips of all edges. -/
theorem forall_strips_iff {table : OutputTable} {edges : List EdgeConfig} {l : List Strip}
    (h : List.Forall₂ (Built table) edges l) (P : Strip → Prop) :
    (∀ s ∈ l, P s) ↔ ∀ e ∈ edges, ∀ output, table.lookup e.output = some (some output) →
      P (stripOf e output) := by
  induction h with
  | nil => simp
  | cons hbuilt _ ih =>
      rw [List.forall_mem_cons, List.forall_mem_cons, ih]
      refine and_congr_left fun _ => ?_
      obtain ⟨output, hlookup, -, rfl⟩ := hbuilt
      refine ⟨fun hP output' hlookup' => ?_, fun hP => hP output hlookup⟩
      obtain rfl : output = output' :=
        Option.some.inj (Option.some.inj (hlookup.symm.trans hlookup'))
      exact hP

/-- **A pointer lands clear of every strip of its output exactly when it does not land at a corner**
that another connection's strip reaches. -/
theorem landing_clear_iff {table : OutputTable} {registry : List String} {edges : List EdgeConfig}
    {l : List Strip} (hvalid : validateEdges edges = .ok ())
    (hstrips : strips table registry (edges.map EdgeConfig.options) = .ok l) {edge : EdgeConfig}
    (hedge : edge ∈ edges) {output : LogicalOutput}
    (hlookup : table.lookup edge.output = some (some output)) (hw : 8 ≤ output.width)
    (hh : 8 ≤ output.height) {fraction : ℚ} (h0 : 0 ≤ fraction) (h1 : fraction ≤ 1) :
    (∃ x y, Coordinator.placement table edge fraction =
        .ok (.absolute x y output.width output.height) ∧
      ∀ s ∈ l, s.output = edge.output → ¬ s.surface.region output x y) ↔
    ∀ other ∈ edges, other.output = edge.output →
      ¬ Corner output edge.boundary other.boundary fraction := by
  have hedges : ∀ e ∈ edges, e.boundary.validate = .ok () :=
    fun e he => valid_of_validateEdges hvalid he
  obtain ⟨x, y, hplace, hlands⟩ := placement_lands hlookup (le_trans (by norm_num) hw)
    (le_trans (by norm_num) hh) (hedges edge hedge) h0 h1
  have hclear : (∀ s ∈ l, s.output = edge.output → ¬ s.surface.region output x y) ↔
      ∀ other ∈ edges, other.output = edge.output →
        ¬ Corner output edge.boundary other.boundary fraction := by
    rw [forall_strips_iff (strips_built hstrips)]
    refine forall_congr' fun other => forall_congr' fun hother => ?_
    have hcorner := hlands.region_iff hw hh (hedges edge hedge) (hedges other hother) h0 h1
    constructor
    · intro h houtput
      rw [← hcorner]
      exact h output (houtput ▸ hlookup) houtput
    · intro h output' hlookup' houtput
      have houtput : other.output = edge.output := houtput
      obtain rfl : output' = output := by
        rw [houtput, hlookup] at hlookup'
        exact (Option.some.inj (Option.some.inj hlookup')).symm
      rw [hcorner]
      exact h houtput
  rw [← hclear]
  refine ⟨fun ⟨x', y', hplace', h⟩ => ?_, fun h => ⟨x, y, hplace, h⟩⟩
  have hsame := hplace'.symm.trans hplace
  simp only [Except.ok.injEq, InputEvent.absolute.injEq] at hsame
  obtain ⟨rfl, rfl, -, -⟩ := hsame
  exact h

section Sample

/-- Two connections at the upper left corner of a screen. -/
def cornerOutput : LogicalOutput := ⟨0, 0, 1920, 1080, 1, .normal⟩

/-- The outputs of a device with one screen. -/
def cornerOutputs : OutputTable := [("HDMI-A-1", some cornerOutput)]

/-- The whole upper side of the screen. -/
def upperEdge : EdgeConfig := ⟨"upper", "HDMI-A-1", ⟨.top, 0, 1⟩⟩

/-- The whole left side of the screen. -/
def leftEdge : EdgeConfig := ⟨"left", "HDMI-A-1", ⟨.left, 0, 1⟩⟩

theorem upperEdge_output : cornerOutputs.lookup upperEdge.output = some (some cornerOutput) := rfl

theorem cornerEdges_valid : validateEdges [upperEdge, leftEdge] = .ok () := by decide

/-- The strips of the corner, alone and together, and where pointers land there. -/
theorem cornerEdges_evaluate :
    (strips cornerOutputs ["HDMI-A-1"] ([upperEdge, leftEdge].map EdgeConfig.options) =
        .ok [stripOf upperEdge cornerOutput, stripOf leftEdge cornerOutput] ∧
      strip cornerOutputs ["HDMI-A-1"] upperEdge.options = .ok (stripOf upperEdge cornerOutput)) ∧
    (Coordinator.placement cornerOutputs upperEdge 0 = .ok (.absolute 0 4 1920 1080) ∧
      (stripOf leftEdge cornerOutput).surface.region cornerOutput 0 4) ∧
    ¬ upperEdge.boundary.place (cornerOutput.length .top) (1 / 2) < 2 ∧
    (0 : ℚ) ≤ (stripOf upperEdge cornerOutput).edge.along 700 1 ∧
      (stripOf upperEdge cornerOutput).edge.along (700 : ℚ) 1 <
      (stripOf upperEdge cornerOutput).extent := by
  decide +kernel

/-- A pointer that enters in the middle is clear of both strips. -/
theorem landing_clear_middle :
    ∃ x y, Coordinator.placement cornerOutputs upperEdge (1 / 2) = .ok (.absolute x y 1920 1080) ∧
      ∀ s ∈ [stripOf upperEdge cornerOutput, stripOf leftEdge cornerOutput],
        s.output = "HDMI-A-1" → ¬ s.surface.region cornerOutput x y := by
  have hclear : ∀ other ∈ [upperEdge, leftEdge], other.output = "HDMI-A-1" →
      ¬ Corner cornerOutput upperEdge.boundary other.boundary (1 / 2) := by
    intro other hother _ hcorner
    rcases List.mem_pair.mp hother with rfl | rfl
    · exact hcorner.1 rfl
    · exact cornerEdges_evaluate.2.2.1 hcorner.2.1
  have hedge : upperEdge ∈ [upperEdge, leftEdge] := List.mem_cons_self
  exact (landing_clear_iff cornerEdges_valid cornerEdges_evaluate.1.1 hedge upperEdge_output
    (by decide)
    (by decide) (by norm_num) (by norm_num)).mpr hclear

/-- A pointer that enters at the very left lands on the strip of the left side. -/
theorem landing_on_strip :
    validateEdges [upperEdge, leftEdge] = .ok () ∧
      Coordinator.placement cornerOutputs upperEdge 0 = .ok (.absolute 0 4 1920 1080) ∧
      strips cornerOutputs ["HDMI-A-1"] ([upperEdge, leftEdge].map EdgeConfig.options) =
        .ok [stripOf upperEdge cornerOutput, stripOf leftEdge cornerOutput] ∧
      (stripOf leftEdge cornerOutput).surface.region cornerOutput 0 4 :=
  ⟨cornerEdges_valid, cornerEdges_evaluate.2.1.1, cornerEdges_evaluate.1.1,
    cornerEdges_evaluate.2.1.2⟩

/-- Where a pointer returns that has left through the upper side. -/
theorem upperEdge_returns :
    ∃ x y, Coordinator.placement cornerOutputs upperEdge
        (enterFraction (stripOf upperEdge cornerOutput) 700 1) = .ok (.absolute x y 1920 1080) ∧
      |((upperEdge.boundary.edge.along x y : ℕ) : ℚ) -
        (offset upperEdge.boundary (cornerOutput.length upperEdge.boundary.edge) + 700)| < 2 := by
  have hvalid : upperEdge.boundary.validate = .ok () := by decide
  obtain ⟨⟨-, hstrip⟩, -, -, hfirst, hlast⟩ := cornerEdges_evaluate
  exact (placement_returns upperEdge_output (by decide) (by decide) hvalid).2 _ _ hstrip 700
    1 hfirst hlast

end Sample

end NiriBridge
