import NiriBridge.Model.Strips
import NiriBridge.Model.Manager
import NiriBridge.Support.Spans

/-!
# Edges — Strips

The strips of a capture worker as pixels.  A strip covers the pixels of its span (`Spans.Pixel`), so
the strips of one side of an output lie within it and, when the spans do not overlap, apart.  What
`prepare_edges` asks of a span is what the worker asks of its strip.
-/

namespace NiriBridge

open Hoare

/-! ### Valid edges -/

/-- An edge that passes for itself. -/
def EdgeConfig.Sound (edge : EdgeConfig) : Prop :=
  validEdgeId edge.id = true ∧
    (edge.output ≠ "" ∧ edge.output.utf8ByteSize ≤ 128 ∧ ¬ edge.output.toList.any isControl) ∧
      edge.boundary.validate = .ok ()

/-- What a check of one edge asks for. -/
theorem validateEdge_iff {previous : List EdgeConfig} {edge : EdgeConfig} {u : Unit} :
    validateEdge previous edge = .ok u ↔
      edge.Sound ∧ ∀ p ∈ previous, p.id ≠ edge.id ∧ ¬ edge.overlaps p := by
  simp only [validateEdge, EdgeConfig.Sound, check_bind_eq_ok, ensure_eq_ok, context_eq_ok,
    forEach_eq_ok, List.mem_map, not_exists, not_and]
  constructor
  · rintro ⟨⟨hvalid, hid⟩, hname, hboundary, hfree⟩
    exact ⟨⟨hvalid, hname, hboundary⟩, fun p hp => ⟨hid p hp, hfree p hp⟩⟩
  · rintro ⟨⟨hvalid, hname, hboundary⟩, hall⟩
    exact ⟨⟨hvalid, fun p hp => (hall p hp).1⟩, hname, hboundary, fun p hp => (hall p hp).2⟩

/-- What the loop of `validate_edges` asks for. -/
theorem validateEdgesFrom_iff {previous edges : List EdgeConfig} {u : Unit} :
    validateEdgesFrom previous edges = .ok u ↔
      (∀ e ∈ edges, e.Sound ∧ ∀ p ∈ previous, p.id ≠ e.id ∧ ¬ e.overlaps p) ∧
        edges.Pairwise fun p e => p.id ≠ e.id ∧ ¬ e.overlaps p := by
  induction edges generalizing previous with
  | nil => exact ⟨fun _ => ⟨by simp, .nil⟩, fun _ => rfl⟩
  | cons edge edges ih =>
      rw [validateEdgesFrom, check_bind_eq_ok, validateEdge_iff, ih, List.forall_mem_cons,
        List.pairwise_cons]
      constructor
      · rintro ⟨hedge, hall, hpairs⟩
        refine ⟨⟨hedge, fun e he => ⟨(hall e he).1, fun p hp => ?_⟩⟩, fun e he => ?_, hpairs⟩
        · exact (hall e he).2 p (List.mem_append_left _ hp)
        · exact (hall e he).2 edge (List.mem_append_right _ (List.mem_singleton_self edge))
      · rintro ⟨⟨hedge, hall⟩, hfirst, hpairs⟩
        refine ⟨hedge, fun e he => ⟨(hall e he).1, fun p hp => ?_⟩, hpairs⟩
        rcases List.mem_append.mp hp with hp | hp
        · exact (hall e he).2 p hp
        · exact List.mem_singleton.mp hp ▸ hfirst e he

/-- What `validate_edges` asks for. -/
theorem validateEdges_iff {edges : List EdgeConfig} {u : Unit} :
    validateEdges edges = .ok u ↔
      (edges ≠ [] ∧ edges.length ≤ MAX_EDGES) ∧ (∀ e ∈ edges, e.Sound) ∧
        edges.Pairwise fun p e => p.id ≠ e.id ∧ ¬ e.overlaps p := by
  simp [validateEdges, validateEdgesFrom_iff]

/-- The ids of accepted edges are distinct. -/
theorem nodup_of_validateEdges {edges : List EdgeConfig} {u : Unit}
    (h : validateEdges edges = .ok u) :
    (edges.map EdgeConfig.id).Nodup :=
  List.pairwise_map.mpr ((validateEdges_iff.mp h).2.2.imp And.left)

/-- Accepted edges are valid and do not overlap. -/
theorem validateEdgesFrom_eq_ok {previous edges : List EdgeConfig} {u : Unit}
    (h : validateEdgesFrom previous edges = .ok u) :
    (∀ e ∈ edges, e.boundary.validate = .ok () ∧ e.output ≠ "" ∧ ∀ p ∈ previous, ¬ e.overlaps p) ∧
      edges.Pairwise fun p e => ¬ e.overlaps p := by
  obtain ⟨hall, hpairs⟩ := validateEdgesFrom_iff.mp h
  refine ⟨fun e he => ?_, hpairs.imp And.right⟩
  obtain ⟨⟨-, hname, hboundary⟩, hfree⟩ := hall e he
  exact ⟨hboundary, hname.1, fun p hp => (hfree p hp).2⟩

theorem Boundary.validate_eq_ok {b : Boundary} {u : Unit} (h : b.validate = .ok u) :
    0 ≤ b.start ∧ b.end ≤ 1 ∧ b.start < b.end := ensure_eq_ok.mp h

/-- An accepted edge has a valid boundary. -/
theorem valid_of_validateEdges {edges : List EdgeConfig} {u : Unit}
    (h : validateEdges edges = .ok u) {edge : EdgeConfig} (he : edge ∈ edges) :
    edge.boundary.validate = .ok () := by
  obtain ⟨_, -, h⟩ := bind_eq_ok.mp h
  exact ((validateEdgesFrom_eq_ok h).1 edge he).1

/-- Connections that share a side of an output have spans one after the other. -/
theorem spans_of_validateEdges {edges : List EdgeConfig} {u : Unit}
    (h : validateEdges edges = .ok u) :
    edges.Pairwise fun p e => p.output = e.output → p.boundary.edge = e.boundary.edge →
      p.boundary.end ≤ e.boundary.start ∨ e.boundary.end ≤ p.boundary.start := by
  obtain ⟨_, -, h⟩ := bind_eq_ok.mp h
  refine (validateEdgesFrom_eq_ok h).2.imp fun {p e} hne houtput hedge => ?_
  by_contra hcon
  obtain ⟨hpe, hep⟩ := not_or.mp hcon
  exact hne ⟨houtput.symm, hedge.symm, not_le.mp hpe, not_le.mp hep⟩

namespace Capture

/-! ### One strip -/

/-- The strip of an edge on its output. -/
def stripOf (edge : EdgeConfig) (output : LogicalOutput) : Strip :=
  let length := output.length edge.boundary.edge
  { output := edge.output
    edge := edge.boundary.edge
    surface :=
      surface edge.boundary.edge (offset edge.boundary length) (extent edge.boundary length)
    extent := extent edge.boundary length }

/-- The worker has made the strip from the edge. -/
def Built (table : OutputTable) (edge : EdgeConfig) (strip : Strip) : Prop :=
  ∃ output, table.lookup edge.output = some (some output) ∧
    1 ≤ extent edge.boundary (output.length edge.boundary.edge) ∧ strip = stripOf edge output

/-- A strip is built on the output of its edge, and is at least one pixel long. -/
theorem strip_eq_ok {table : OutputTable} {registry : List String} {edge : EdgeConfig} {s : Strip}
    (h : strip table registry edge.options = .ok s) : Built table edge s := by
  obtain ⟨found, hfound, h⟩ := bind_eq_ok.mp h
  obtain ⟨output, houtput, h⟩ := bind_eq_ok.mp h
  obtain ⟨_, -, h⟩ := bind_eq_ok.mp h
  obtain ⟨_, hextent, h⟩ := bind_eq_ok.mp h
  have hlookup : table.lookup edge.output = some (some output) :=
    (orError_eq_ok.mp hfound).trans (congrArg some (orError_eq_ok.mp houtput))
  exact ⟨output, hlookup, ensure_eq_ok.mp hextent, (Except.ok.inj h).symm⟩

/-- The strips are built edge by edge. -/
theorem stripsFrom_built {table : OutputTable} {registry : List String} {edges : List EdgeConfig}
    {l : List Strip} (h : stripsFrom table registry (edges.map EdgeConfig.options) = .ok l) :
    List.Forall₂ (Built table) edges l := by
  induction edges generalizing l with
  | nil =>
      obtain rfl := Except.ok.inj h
      exact .nil
  | cons edge edges ih =>
      obtain ⟨first, hfirst, h⟩ := bind_eq_ok.mp h
      obtain ⟨rest, hrest, h⟩ := bind_eq_ok.mp h
      obtain rfl := Except.ok.inj h
      exact .cons (strip_eq_ok hfirst) (ih hrest)

/-- The strips of a capture are built edge by edge. -/
theorem strips_built {table : OutputTable} {registry : List String} {edges : List EdgeConfig}
    {l : List Strip} (h : strips table registry (edges.map EdgeConfig.options) = .ok l) :
    List.Forall₂ (Built table) edges l := by
  obtain ⟨_, -, h⟩ := bind_eq_ok.mp h
  obtain ⟨_, -, h⟩ := bind_eq_ok.mp h
  exact stripsFrom_built h

/-- The length of a strip is that of its span, rounded down. -/
theorem cast_extent {b : Boundary} (hvalid : b.validate = .ok ()) (length : ℕ) :
    (extent b length : ℤ) = ⌊(b.end - b.start) * length⌋ := by
  obtain ⟨-, -, hlt⟩ := Boundary.validate_eq_ok hvalid
  rw [extent, Int.toNat_of_nonneg]
  exact Int.floor_nonneg.mpr (mul_nonneg (sub_nonneg.mpr hlt.le) (Nat.cast_nonneg _))

/-- The pixel lies on the outermost two lines of pixels along the side. -/
def Rim (edge : Edge) (output : LogicalOutput) (x y : ℤ) : Prop :=
  match edge with
  | .top => 0 ≤ y ∧ y < 2
  | .bottom => output.height - 2 ≤ y ∧ y < output.height
  | .left => 0 ≤ x ∧ x < 2
  | .right => output.width - 2 ≤ x ∧ x < output.width

/-- A strip covers the pixels of its span on the rim. -/
theorem region_iff {edge : EdgeConfig} {output : LogicalOutput} {x y : ℤ}
    (hvalid : edge.boundary.validate = .ok ()) :
    (stripOf edge output).surface.region output x y ↔
      Spans.Pixel (edge.boundary.start * output.length edge.boundary.edge)
        (edge.boundary.end * output.length edge.boundary.edge) (edge.boundary.edge.along x y) ∧
      Rim edge.boundary.edge output x y := by
  have hcount := cast_extent hvalid (output.length edge.boundary.edge)
  rw [Spans.Pixel, ← sub_mul, ← hcount, Surface.region]
  cases hedge : edge.boundary.edge
  · simp [stripOf, surface, anchor, Edge.along, Edge.horizontal, offset, Rim, hedge]
  · simp [stripOf, surface, anchor, Edge.along, Edge.horizontal, offset, Rim, hedge]
  · simp [stripOf, surface, anchor, Edge.along, Edge.horizontal, offset, Rim, hedge, and_comm]
  · simp [stripOf, surface, anchor, Edge.along, Edge.horizontal, offset, Rim, hedge, and_comm]

/-- The pixels of a span lie on the output. -/
theorem along_of_pixel {b : Boundary} {length : ℕ} {i : ℤ} (hvalid : b.validate = .ok ())
    (h : Spans.Pixel (b.start * length) (b.end * length) i) : 0 ≤ i ∧ i < length := by
  obtain ⟨hstart, hend, -⟩ := Boundary.validate_eq_ok hvalid
  have hpos : (0 : ℚ) ≤ length := Nat.cast_nonneg _
  refine ⟨(Int.floor_nonneg.mpr (mul_nonneg hstart hpos)).trans h.1, h.lt_floor.trans_le ?_⟩
  have hle : b.end * length ≤ length := mul_le_of_le_one_left hpos hend
  simpa using Int.floor_le_floor hle

/-! ### All strips -/

/-- The strip has a pixel, and covers only places along the side of its output. -/
def Inside (table : OutputTable) (edge : EdgeConfig) (strip : Strip) : Prop :=
  ∃ output, table.lookup edge.output = some (some output) ∧ strip.output = edge.output ∧
    strip.edge = edge.boundary.edge ∧ 1 ≤ strip.extent ∧
    ∀ x y, strip.surface.region output x y →
      0 ≤ strip.edge.along x y ∧ strip.edge.along x y < output.length strip.edge

/-- Strips on the same side of an output have no pixel in common. -/
def Apart (table : OutputTable) (p q : Strip) : Prop :=
  p.output = q.output → p.edge = q.edge → ∀ output, table.lookup p.output = some (some output) →
    ∀ x y, p.surface.region output x y → ¬ q.surface.region output x y

/-- A strip lies inside its span. -/
theorem Built.inside {table : OutputTable} {edge : EdgeConfig} {strip : Strip}
    (hvalid : edge.boundary.validate = .ok ()) (h : Built table edge strip) :
    Inside table edge strip := by
  obtain ⟨output, hlookup, hextent, rfl⟩ := h
  exact ⟨output, hlookup, rfl, rfl, hextent, fun x y hregion =>
    along_of_pixel hvalid ((region_iff hvalid).mp hregion).1⟩

/-- The strips of spans that do not overlap have no pixel in common. -/
theorem Built.apart {table : OutputTable} {p e : EdgeConfig} {strip strip' : Strip}
    (hp : p.boundary.validate = .ok ()) (he : e.boundary.validate = .ok ())
    (hspans : p.output = e.output → p.boundary.edge = e.boundary.edge →
      p.boundary.end ≤ e.boundary.start ∨ e.boundary.end ≤ p.boundary.start)
    (h : Built table p strip) (h' : Built table e strip') : Apart table strip strip' := by
  obtain ⟨output₁, hlookup₁, -, rfl⟩ := h
  obtain ⟨output₂, hlookup₂, -, rfl⟩ := h'
  intro houtput hedge output hlookup x y hx hy
  change p.output = e.output at houtput
  change p.boundary.edge = e.boundary.edge at hedge
  change table.lookup p.output = some (some output) at hlookup
  obtain rfl : output₁ = output := Option.some.inj (Option.some.inj (hlookup₁.symm.trans hlookup))
  obtain rfl : output₂ = output₁ :=
    Option.some.inj (Option.some.inj (hlookup₂.symm.trans (houtput ▸ hlookup)))
  have hpos : (0 : ℚ) ≤ output₂.length p.boundary.edge := Nat.cast_nonneg _
  have hfirst := ((region_iff hp).mp hx).1
  have hsecond := ((region_iff he).mp hy).1
  rw [← hedge] at hsecond
  refine Spans.pixels_disjoint ?_ hfirst hsecond
  exact (hspans houtput hedge).imp (fun h => mul_le_mul_of_nonneg_right h hpos)
    fun h => mul_le_mul_of_nonneg_right h hpos

theorem forall₂_inside {table : OutputTable} {edges : List EdgeConfig} {l : List Strip}
    (hvalid : ∀ e ∈ edges, e.boundary.validate = .ok ()) (h : List.Forall₂ (Built table) edges l) :
    List.Forall₂ (Inside table) edges l := by
  induction h with
  | nil => exact .nil
  | cons hbuilt _ ih =>
      obtain ⟨hfirst, hrest⟩ := List.forall_mem_cons.mp hvalid
      exact .cons (hbuilt.inside hfirst) (ih hrest)

/-- Pairs of edges become pairs of strips. -/
theorem pairwise_apart {table : OutputTable} {edges : List EdgeConfig} {l : List Strip}
    (hvalid : ∀ e ∈ edges, e.boundary.validate = .ok ())
    (hspans : edges.Pairwise fun p e => p.output = e.output → p.boundary.edge = e.boundary.edge →
      p.boundary.end ≤ e.boundary.start ∨ e.boundary.end ≤ p.boundary.start)
    (h : List.Forall₂ (Built table) edges l) : l.Pairwise (Apart table) := by
  induction h with
  | nil => exact .nil
  | @cons edge strip edges l hbuilt hrest ih =>
      obtain ⟨hfirst, hspans⟩ := List.pairwise_cons.mp hspans
      refine .cons (fun strip' hmem => ?_)
        (ih (fun e he => hvalid e (List.mem_cons_of_mem _ he)) hspans)
      obtain ⟨e, he, hbuilt'⟩ : ∃ e ∈ edges, Built table e strip' := by
        obtain ⟨i, hi, rfl⟩ := List.getElem_of_mem hmem
        have hi' : i < edges.length := hrest.length_eq ▸ hi
        exact ⟨edges[i], List.getElem_mem hi', hrest.get hi' hi⟩
      exact Built.apart (hvalid edge List.mem_cons_self) (hvalid e (List.mem_cons_of_mem _ he))
        (hfirst e he) hbuilt hbuilt'

/-! ### Narrow spans -/

/-- `ensure!(extent >= 1, …)` of the worker. -/
def tooNarrow : Error := ["Capture span is narrower than one logical pixel"]

/-- A strip is refused as too narrow only when its span has no pixel. -/
theorem strip_tooNarrow {table : OutputTable} {registry : List String} {edge : EdgeConfig}
    (h : strip table registry edge.options = .error tooNarrow) :
    ∃ output, table.lookup edge.output = some (some output) ∧
      extent edge.boundary (output.length edge.boundary.edge) = 0 := by
  rcases bind_eq_error.mp h with h | ⟨found, hfound, h⟩
  · have hlookup : table.lookup edge.output = none := by
      cases hfound : table.lookup edge.output with
      | none => rfl
      | some output => simp [EdgeConfig.options, hfound, orError] at h
    simp [EdgeConfig.options, hlookup, orError, tooNarrow] at h
  rcases bind_eq_error.mp h with h | ⟨output, houtput, h⟩
  · cases found with
    | none => simp [orError, tooNarrow] at h
    | some output => simp [orError] at h
  have hlookup : table.lookup edge.output = some (some output) :=
    (orError_eq_ok.mp hfound).trans (congrArg some (orError_eq_ok.mp houtput))
  rcases bind_eq_error.mp h with h | ⟨_, -, h⟩
  · exact absurd (ensure_eq_error.mp h).2 (by decide)
  rcases bind_eq_error.mp h with h | ⟨_, -, h⟩
  · exact ⟨output, hlookup, Nat.lt_one_iff.mp (not_le.mp (ensure_eq_error.mp h).1)⟩
  · cases h

/-- Options that are refused are not refused for their length. -/
theorem options_validate_ne {options : Options} : options.validate ≠ .error tooNarrow := by
  intro h
  rcases bind_eq_error.mp h with h | ⟨_, -, h⟩
  · exact absurd (ensure_eq_error.mp h).2 (by decide)
  rcases bind_eq_error.mp h with h | ⟨_, -, h⟩
  · exact absurd (ensure_eq_error.mp h).2 (by decide)
  · exact absurd (ensure_eq_error.mp h).2 (by decide)

/-- Strips that cannot be built fail at one of the edges. -/
theorem stripsFrom_eq_error {table : OutputTable} {registry : List String} {edges : List EdgeConfig}
    {e : Error} (h : stripsFrom table registry (edges.map EdgeConfig.options) = .error e) :
    ∃ edge ∈ edges, strip table registry edge.options = .error e := by
  induction edges with
  | nil => cases h
  | cons edge edges ih =>
      rcases bind_eq_error.mp h with h | ⟨_, -, h⟩
      · exact ⟨edge, List.mem_cons_self, h⟩
      rcases bind_eq_error.mp h with h | ⟨_, -, h⟩
      · obtain ⟨edge', hmem, h⟩ := ih h
        exact ⟨edge', List.mem_cons_of_mem _ hmem, h⟩
      · cases h

/-- If a strip is too narrow, the span of an edge has no whole pixel. -/
theorem strips_tooNarrow {table : OutputTable} {registry : List String} {edges : List EdgeConfig}
    (h : strips table registry (edges.map EdgeConfig.options) = .error tooNarrow) :
    ∃ edge ∈ edges, ∃ output, table.lookup edge.output = some (some output) ∧
      extent edge.boundary (output.length edge.boundary.edge) = 0 := by
  rcases bind_eq_error.mp h with h | ⟨_, -, h⟩
  · exact absurd (ensure_eq_error.mp h).2 (by decide)
  rcases bind_eq_error.mp h with h | ⟨_, -, h⟩
  · obtain ⟨options, -, h⟩ := forEach_eq_error h
    exact absurd h options_validate_ne
  · obtain ⟨edge, hmem, h⟩ := stripsFrom_eq_error h
    exact ⟨edge, hmem, strip_tooNarrow h⟩

/-- The settings see the outputs as the worker does. -/
theorem lookup_logical {table : OutputTable} {name : String} {output : LogicalOutput}
    (h : table.lookup name = some (some output)) : table.logical.lookup name = some output := by
  induction table with
  | nil => cases h
  | cons entry table ih =>
      obtain ⟨key, value⟩ := entry
      by_cases hkey : name = key
      · subst hkey
        obtain rfl : value = some output := by simpa using h
        simp [OutputTable.logical]
      · have hne : (name == key) = false := by simpa using hkey
        have hrest : (OutputTable.logical table).lookup name = some output :=
          ih (by simpa [List.lookup_cons, hne] using h)
        cases value with
        | none => simpa [OutputTable.logical] using hrest
        | some value =>
            simp only [OutputTable.logical, List.filterMap_cons, Option.map_some,
              List.lookup_cons, hne]
            exact hrest

/-- What `prepare_edges` asks of an edge. -/
theorem checkExtent_eq_ok {outputs : Outputs} {edge : EdgeConfig} {u : Unit}
    (h : Manager.checkExtent outputs edge = .ok u) :
    ∃ output, outputs.lookup edge.output = some output ∧
      1 ≤ extent edge.boundary (output.length edge.boundary.edge) := by
  obtain ⟨output, hlookup, h⟩ := bind_eq_ok.mp h
  refine ⟨output, orError_eq_ok.mp hlookup, ?_⟩
  have hspan :
      1 ≤ (edge.boundary.end - edge.boundary.start) * output.length edge.boundary.edge := by
    have hchecked := ensure_eq_ok.mp h
    cases hedge : edge.boundary.edge <;> simpa [hedge, LogicalOutput.length] using hchecked
  rw [extent, Int.le_toNat (Int.floor_nonneg.mpr (zero_le_one.trans hspan))]
  exact Int.le_floor.mpr (by exact_mod_cast hspan)

/-- A layout that has been prepared has passed the check of every extent. -/
theorem prepareEdges_checks {T D : Type} {F : Format T D} {path : Path} {outputs : Outputs}
    {faults : Faults T} {expected : String} {edges : List EdgeConfig} {files files' : Files T}
    {p : Prepared T}
    (h : Manager.prepareEdges F path (.ok outputs) faults expected edges files = .ok p files') :
    ∀ edge ∈ edges, Manager.checkExtent outputs edge = .ok () := by
  have hchecks : wp (Manager.prepareEdges F path (.ok outputs) faults expected edges) files
      (fun _ _ => ∀ edge ∈ edges, Manager.checkExtent outputs edge = .ok ()) (fun _ _ => True) := by
    rw [Manager.prepareEdges, wp_bind, check, wp_lift]
    refine ⟨fun _ _ => ?_, fun _ _ => trivial⟩
    rw [wp_bind, check, wp_lift]
    refine ⟨fun outputs' houtputs => ?_, fun _ _ => trivial⟩
    obtain rfl := Except.ok.inj houtputs
    rw [wp_bind, check, wp_lift]
    refine ⟨fun _ hall => ?_, fun _ _ => trivial⟩
    exact wp_mono (wp_true _ _) (fun _ _ _ => forEach_eq_ok.mp hall) fun _ _ _ => trivial
  rw [wp, h] at hchecks
  exact hchecks

/-- **The strips of valid edges**: each lies along its side of its output and has a pixel, those of
one side have no pixel in common, and a layout that `prepare_edges` has accepted for the same
outputs is never refused as too narrow. -/
theorem strip_geometry (table : OutputTable) (registry : List String) {edges : List EdgeConfig}
    (hvalid : validateEdges edges = .ok ()) :
    (∀ l, strips table registry (edges.map EdgeConfig.options) = .ok l →
      List.Forall₂ (Inside table) edges l ∧ l.Pairwise (Apart table)) ∧
    ∀ {T D : Type} (F : Format T D) (path : Path) (faults : Faults T) (expected : String)
      (files files' : Files T) (p : Prepared T),
      Manager.prepareEdges F path (.ok table.logical) faults expected edges files = .ok p files' →
        (∀ edge ∈ edges, ∃ output, table.logical.lookup edge.output = some output ∧
          1 ≤ extent edge.boundary (output.length edge.boundary.edge)) ∧
        strips table registry (edges.map EdgeConfig.options) ≠ .error tooNarrow := by
  have hedges : ∀ e ∈ edges, e.boundary.validate = .ok () :=
    fun e he => valid_of_validateEdges hvalid he
  refine ⟨fun l hl => ?_, fun F path faults expected files files' p hp => ?_⟩
  · have hbuilt := strips_built hl
    refine ⟨?_, pairwise_apart hedges (spans_of_validateEdges hvalid) hbuilt⟩
    exact forall₂_inside hedges hbuilt
  · have hall : ∀ edge ∈ edges, ∃ output, table.logical.lookup edge.output = some output ∧
        1 ≤ extent edge.boundary (output.length edge.boundary.edge) :=
      fun edge he => checkExtent_eq_ok (prepareEdges_checks hp edge he)
    refine ⟨hall, fun hnarrow => ?_⟩
    obtain ⟨edge, he, output, hlookup, hzero⟩ := strips_tooNarrow hnarrow
    obtain ⟨output', hlookup', hone⟩ := hall edge he
    obtain rfl : output = output' := Option.some.inj ((lookup_logical hlookup).symm.trans hlookup')
    exact absurd hone (by rw [hzero]; exact Nat.not_succ_le_zero 0)

section Sample

/-- A laptop whose upper side is shared by two connections. -/
def sampleOutputs : OutputTable := [("eDP-1", some ⟨0, 0, 1489, 2648, 29 / 20, .rotate90⟩)]

/-- Two connections that share a side. -/
def sampleEdges : List EdgeConfig :=
  [⟨"left", "eDP-1", ⟨.top, 0, 1 / 3⟩⟩, ⟨"right", "eDP-1", ⟨.top, 1 / 3, 1⟩⟩]

theorem strip_geometry_sample :
    List.Forall₂ (Inside sampleOutputs) sampleEdges (sampleEdges.map fun edge =>
        stripOf edge ⟨0, 0, 1489, 2648, 29 / 20, .rotate90⟩) ∧
      (sampleEdges.map fun edge => stripOf edge ⟨0, 0, 1489, 2648, 29 / 20, .rotate90⟩).Pairwise
        (Apart sampleOutputs) := by
  have hevaluate : validateEdges sampleEdges = .ok () ∧
      strips sampleOutputs ["eDP-1"] (sampleEdges.map EdgeConfig.options) =
        .ok (sampleEdges.map fun edge => stripOf edge ⟨0, 0, 1489, 2648, 29 / 20, .rotate90⟩) := by
    decide +kernel
  exact (strip_geometry sampleOutputs ["eDP-1"] hevaluate.1).1 _ hevaluate.2

end Sample

end Capture

end NiriBridge
