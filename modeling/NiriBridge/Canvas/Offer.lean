import NiriBridge.Canvas.Agreement
import NiriBridge.Support.Search

/-!
# Canvas — Offer

The connection that `add_connection` offers: the common part of the nearest two screens that face
each other and are free there, or else the widest free ranges of the first two sides that have some.

* `offer_fits`: it lies within both sides and overlaps no other connection.
* `validationError_added`: so the draft passes its checks exactly when both spans are a pixel wide.
* `offer_wide_iff`: which is a question of the drawing (`Roomy`).
* `connection_saved_iff`: what is offered can be saved exactly then, and is gone again when it is
  removed.
-/

namespace NiriBridge.Canvas

open Hoare Rounding Search

/-- The span of the edge is a pixel of its output at least. -/
def Wide (outputs : Outputs) (edge : EdgeConfig) : Prop :=
  ∃ output, outputs.lookup edge.output = some output ∧
    1 ≤ (edge.boundary.end - edge.boundary.start) * output.length edge.boundary.edge

/-- Two rectangles and a side of the first. -/
structure Spot where
  own : Rectangle
  peer : Rectangle
  side : Edge

/-- A side of an output and the opposite one of an output of the peer. -/
structure Sides where
  side : Edge
  own : String
  peer : String

namespace LayoutDraft

variable (d : LayoutDraft)

/-- In the order of the loops of `add_connection`. -/
def spots : List Spot :=
  (d.rectangles.filter fun r => r.role = .own).flatMap fun a =>
    (d.rectangles.filter fun r => r.role = .peer).flatMap fun b =>
      sides.map fun side => ⟨a, b, side⟩

/-- The sides of any two outputs, in the order in which they are tried. -/
def allSides : List Sides :=
  sides.flatMap fun side =>
    d.own.outputs.flatMap fun a => d.peer.outputs.map fun b => ⟨side, a.1, b.1⟩

end LayoutDraft

namespace Spot

/-- The gap between the two screens. -/
def gap (s : Spot) : ℚ := gapAt s.own s.peer s.side

/-- The own half of the connection along their common part. -/
def ownEdge (s : Spot) (identifier : String) : EdgeConfig :=
  stretch identifier s.own s.peer s.side s.own s.side

/-- The peer's half of it. -/
def peerEdge (s : Spot) (identifier : String) : EdgeConfig :=
  stretch identifier s.own s.peer s.side s.peer (opposite s.side)

/-- The screens face each other across the side, and no connection is where they do. -/
structure Free (s : Spot) (d : LayoutDraft) (identifier : String) : Prop where
  gap : 0 ≤ s.gap
  common : commonStart s.own s.peer s.side < commonEnd s.own s.peer s.side
  own : overlaps d.own.edges (s.ownEdge identifier) none = false
  peer : overlaps d.peer.edges (s.peerEdge identifier) none = false

end Spot

/-- The edge on a range of a side. -/
def edgeOn (identifier output : String) (side : Edge) (range : ℚ × ℚ) : EdgeConfig where
  id := identifier
  output := output
  boundary := { edge := side, start := range.1, «end» := range.2 }

namespace Sides

/-- The own half of a connection on a free range. -/
def ownEdge (s : Sides) (identifier : String) : ℚ × ℚ → EdgeConfig := edgeOn identifier s.own s.side

/-- The peer's half of it. -/
def peerEdge (s : Sides) (identifier : String) : ℚ × ℚ → EdgeConfig :=
  edgeOn identifier s.peer (opposite s.side)

/-- Some of both sides is free. -/
def Open (s : Sides) (d : LayoutDraft) : Prop :=
  d.own.freeRanges s.own s.side ≠ [] ∧ d.peer.freeRanges s.peer (opposite s.side) ≠ []

end Sides

/-- Where the draft, as it is drawn, has room for a connection of a pixel. -/
structure Roomy (d : LayoutDraft) (identifier : String) : Prop where
  /-- Between the nearest two screens that face each other and are free, the first of several. -/
  facing : ∀ s, Least (fun s => s.Free d identifier) Spot.gap d.spots s →
    Wide d.own.outputs (s.ownEdge identifier) ∧ Wide d.peer.outputs (s.peerEdge identifier)
  /-- Or else in the widest free ranges of the first two sides that have some. -/
  apart : (∀ s ∈ d.spots, ¬ s.Free d identifier) → ∀ s, First (fun s => s.Open d) d.allSides s →
    ∀ left ∈ widest (d.own.freeRanges s.own s.side),
      ∀ right ∈ widest (d.peer.freeRanges s.peer (opposite s.side)),
        Wide d.own.outputs (s.ownEdge identifier left) ∧
        Wide d.peer.outputs (s.peerEdge identifier right)

/-! ### The offer -/

/-- The candidates are those of the spots, in their order. -/
theorem candidates_eq (d : LayoutDraft) (identifier : String) :
    d.candidates identifier = d.spots.filterMap fun s =>
      d.candidate identifier s.own s.peer s.side := by
  simp only [LayoutDraft.candidates, LayoutDraft.spots, List.filterMap_flatMap, List.filterMap_map]
  rfl

/-- A candidate is a free spot with its two edges. -/
theorem candidate_eq_some {d : LayoutDraft} {identifier : String} {s : Spot}
    {c : ℚ × EdgeConfig × EdgeConfig} :
    d.candidate identifier s.own s.peer s.side = some c ↔
      s.Free d identifier ∧ c = (s.gap, s.ownEdge identifier, s.peerEdge identifier) := by
  unfold LayoutDraft.candidate
  dsimp only
  split_ifs with hfacing hover
  · refine ⟨by simp, fun ⟨hfree, _⟩ => ?_⟩
    exact absurd hfacing (not_or.mpr ⟨not_lt.mpr hfree.gap, not_le.mpr hfree.common⟩)
  · refine ⟨by simp, fun ⟨hfree, _⟩ => ?_⟩
    have hnot := not_or.mpr ⟨ne_true_of_eq_false hfree.own, ne_true_of_eq_false hfree.peer⟩
    exact absurd hover hnot
  · obtain ⟨hgap, hcommon⟩ := not_or.mp hfacing
    obtain ⟨hown, hpeer⟩ := not_or.mp hover
    rw [Option.some.injEq, eq_comm]
    have hfree : s.Free d identifier :=
      ⟨not_lt.mp hgap, not_le.mp hcommon, eq_false_of_ne_true hown, eq_false_of_ne_true hpeer⟩
    exact ⟨fun h => ⟨hfree, h⟩, fun h => h.2⟩

/-- Which spots have a candidate, and the gap by which candidates are compared. -/
theorem valued (d : LayoutDraft) (identifier : String) :
    Valued (fun s : Spot => d.candidate identifier s.own s.peer s.side) Prod.fst
      (fun s => s.Free d identifier) Spot.gap where
  isSome s := by
    constructor
    · intro h
      rw [candidate_eq_some.mpr ⟨h, rfl⟩]
      rfl
    · intro h
      obtain ⟨c, hc⟩ := Option.isSome_iff_exists.mp h
      exact (candidate_eq_some.mp hc).1
  key h := by rw [(candidate_eq_some.mp h).2]

/-- The choices are those of the sides, in their order. -/
theorem choices_eq (d : LayoutDraft) (identifier : String) :
    d.choices identifier = d.allSides.filterMap fun s =>
      d.choice identifier s.side s.own s.peer := by
  simp only [LayoutDraft.choices, LayoutDraft.allSides, List.filterMap_flatMap, List.filterMap_map]
  rfl

/-- A choice is on the widest free range of each of the two sides. -/
theorem choice_eq_some {d : LayoutDraft} {identifier : String} {s : Sides}
    {pair : EdgeConfig × EdgeConfig} :
    d.choice identifier s.side s.own s.peer = some pair ↔
      ∃ left ∈ widest (d.own.freeRanges s.own s.side),
        ∃ right ∈ widest (d.peer.freeRanges s.peer (opposite s.side)),
          pair = (s.ownEdge identifier left, s.peerEdge identifier right) := by
  simp only [LayoutDraft.choice, Option.bind_eq_bind, Option.bind_eq_some_iff, Option.pure_def,
    Option.some.injEq, eq_comm (b := pair), Option.mem_def]
  rfl

/-- Two sides have a choice exactly when both have a free range. -/
theorem choice_isSome (d : LayoutDraft) (identifier : String) (s : Sides) :
    s.Open d ↔ (d.choice identifier s.side s.own s.peer).isSome := by
  have hwidest : ∀ ranges : List (ℚ × ℚ), ranges ≠ [] ↔ (widest ranges).isSome := by
    intro ranges
    rw [Option.isSome_iff_ne_none, ne_eq, ne_eq, widest, List.argmax_eq_none]
  rw [Sides.Open, hwidest, hwidest, LayoutDraft.choice]
  cases widest (d.own.freeRanges s.own s.side) with
  | none => simp
  | some left =>
      cases widest (d.peer.freeRanges s.peer (opposite s.side)) with
      | none => simp
      | some right => simp

/-- What is offered. -/
theorem offer_eq_some {d : LayoutDraft} {identifier : String} {pair : EdgeConfig × EdgeConfig} :
    d.offer identifier = some pair ↔
      (∃ s, Least (fun s => s.Free d identifier) Spot.gap d.spots s ∧
        pair = (s.ownEdge identifier, s.peerEdge identifier)) ∨
      (∀ s ∈ d.spots, ¬ s.Free d identifier) ∧ ∃ s, First (fun s => s.Open d) d.allSides s ∧
        ∃ left ∈ widest (d.own.freeRanges s.own s.side),
          ∃ right ∈ widest (d.peer.freeRanges s.peer (opposite s.side)),
            pair = (s.ownEdge identifier left, s.peerEdge identifier right) := by
  -- the candidates are the free spots, each with its gap
  have hleast : ∀ c, (d.candidates identifier).argmin Prod.fst = some c ↔
      ∃ s, c = (s.gap, s.ownEdge identifier, s.peerEdge identifier) ∧
        Least (fun s => s.Free d identifier) Spot.gap d.spots s := by
    intro c
    rw [candidates_eq, argmin_filterMap_eq_some (valued d identifier)]
    exact exists_congr fun s =>
      and_congr_left fun hs => candidate_eq_some.trans (and_iff_right hs.1)
  rw [LayoutDraft.offer]
  -- where there is none the widest free ranges are taken
  cases hmin : (d.candidates identifier).argmin Prod.fst with
  | some c =>
      obtain ⟨s, rfl, hs⟩ := (hleast c).mp hmin
      have hmem : s ∈ d.spots := by
        obtain ⟨-, before, after, hsplit, -⟩ := hs
        exact hsplit ▸ List.mem_append_right _ (List.mem_cons_self ..)
      constructor
      · rintro ⟨rfl⟩
        exact .inl ⟨s, hs, rfl⟩
      · rintro (⟨s', hs', rfl⟩ | ⟨hnone, -⟩)
        · rw [hs.unique hs']
        · exact absurd hs.1 (hnone s hmem)
  | none =>
      have hnone : ∀ s ∈ d.spots, ¬ s.Free d identifier := by
        intro s hs hfree
        have hmem :
            (s.gap, s.ownEdge identifier, s.peerEdge identifier) ∈ d.candidates identifier := by
          rw [candidates_eq]
          exact List.mem_filterMap.mpr ⟨s, hs, candidate_eq_some.mpr ⟨hfree, rfl⟩⟩
        rw [List.argmin_eq_none.mp hmin] at hmem
        cases hmem
      dsimp only
      rw [choices_eq, head?_filterMap_eq_some (choice_isSome d identifier)]
      constructor
      · rintro ⟨s, hchoice, hs⟩
        obtain ⟨left, hleft, right, hright, rfl⟩ := choice_eq_some.mp hchoice
        exact .inr ⟨hnone, s, hs, left, hleft, right, hright, rfl⟩
      · rintro (⟨s, hs, -⟩ | ⟨-, s, hs, left, hleft, right, hright, rfl⟩)
        · obtain ⟨hfree, before, after, hsplit, -⟩ := hs
          exact absurd hfree (hnone s (hsplit ▸ List.mem_append_right _ (List.mem_cons_self ..)))
        · exact ⟨s, choice_eq_some.mpr ⟨left, hleft, right, hright, rfl⟩, hs⟩

/-- What is offered is wide enough on both desktops exactly when there is room. -/
theorem offer_wide_iff {d : LayoutDraft} {identifier : String} :
    (∀ pair ∈ d.offer identifier, Wide d.own.outputs pair.1 ∧ Wide d.peer.outputs pair.2) ↔
      Roomy d identifier := by
  constructor
  · intro h
    constructor
    · intro s hs
      exact h _ (offer_eq_some.mpr (.inl ⟨s, hs, rfl⟩))
    · intro hnone s hs left hleft right hright
      exact h _ (offer_eq_some.mpr (.inr ⟨hnone, s, hs, left, hleft, right, hright, rfl⟩))
  · rintro ⟨hfacing, hapart⟩ pair hpair
    rcases offer_eq_some.mp hpair with ⟨s, hs, rfl⟩ |
      ⟨hnone, s, hs, left, hleft, right, hright, rfl⟩
    · exact hfacing s hs
    · exact hapart hnone s hs left hleft right hright

/-! ### It fits -/

/-- The span is one of a side, and free. -/
structure Fits (node : Node) (edge : EdgeConfig) : Prop where
  start : 0 ≤ edge.boundary.start
  «end» : edge.boundary.end ≤ 1
  free : overlaps node.edges edge none = false

/-- Rounding does not make a fraction negative. -/
theorem round6_nonneg {x : ℚ} (h : 0 ≤ x) : 0 ≤ round6 x := by
  have hzero : ((0 : ℤ) : ℚ) ≤ x := by exact_mod_cast h
  have hle := le_decimals 6 hzero
  rw [round6]
  exact_mod_cast hle

/-- Rounding does not make a fraction greater than one. -/
theorem round6_le_one {x : ℚ} (h : x ≤ 1) : round6 x ≤ 1 := by
  have hone : x ≤ ((1 : ℤ) : ℚ) := by exact_mod_cast h
  have hle := decimals_le 6 hone
  rw [round6]
  exact_mod_cast hle

/-- The part that two rectangles have in common is on either of them. -/
theorem stretch_fits {node : Node} {identifier : String} {a b r : Rectangle} {side edge : Edge}
    (hr : r = a ∨ r = b) (hextent : 0 ≤ r.extent side)
    (hfree : overlaps node.edges (stretch identifier a b side r edge) none = false) :
    Fits node (stretch identifier a b side r edge) where
  start := by
    have hle : r.at side ≤ commonStart a b side := by
      rcases hr with rfl | rfl
      · exact le_max_left ..
      · exact le_max_right ..
    exact round6_nonneg (div_nonneg (sub_nonneg.mpr hle) hextent)
  «end» := by
    have hle : commonEnd a b side ≤ r.at side + r.extent side := by
      rcases hr with rfl | rfl
      · exact min_le_left ..
      · exact min_le_right ..
    exact round6_le_one (div_le_one_of_le₀ (by linarith) hextent)
  free := hfree

/-- The rectangles of a role have no negative length. -/
theorem extent_nonneg {role : Role} {node : Node} {factor : ℚ} {origin : ℚ × ℚ}
    (hfactor : 0 ≤ factor) {r : Rectangle}
    (hr : r ∈ LayoutDraft.rectanglesOf role node factor origin) (side : Edge) :
    0 ≤ r.extent side := by
  obtain ⟨p, -, rfl⟩ := List.mem_map.mp hr
  unfold Rectangle.extent
  dsimp only
  split_ifs
  · positivity
  · positivity

/-- The two screens of a spot have no negative length. -/
theorem extent_of_spot {d : LayoutDraft} (hscale : 0 ≤ d.peerScale) {s : Spot} (hs : s ∈ d.spots) :
    0 ≤ s.own.extent s.side ∧ 0 ≤ s.peer.extent s.side := by
  simp only [LayoutDraft.spots, List.mem_flatMap, List.mem_filter, List.mem_map] at hs
  obtain ⟨a, ⟨ha, -⟩, b, ⟨hb, -⟩, side, -, rfl⟩ := hs
  have hall : ∀ r ∈ d.rectangles, 0 ≤ r.extent side := by
    intro r hr
    rcases List.mem_append.mp hr with hr | hr
    · exact extent_nonneg zero_le_one hr side
    · exact extent_nonneg hscale hr side
  exact ⟨hall a ha, hall b hb⟩

/-- The spans of a side are those of the edges there. -/
theorem mem_spans {node : Node} {output : String} {side : Edge} {span : ℚ × ℚ} :
    span ∈ node.spans output side ↔
    ∃ edge ∈ node.edges, (edge.output = output ∧ edge.boundary.edge = side) ∧
      (edge.boundary.start, edge.boundary.end) = span := by
  simp only [Node.spans, List.mem_map, List.mem_insertionSort, List.mem_filter, decide_eq_true_eq]
  constructor
  · rintro ⟨_, ⟨edge, ⟨hedge, hside⟩, rfl⟩, rfl⟩
    exact ⟨edge, hedge, hside, rfl⟩
  · rintro ⟨edge, hedge, hside, rfl⟩
    exact ⟨_, ⟨edge, ⟨hedge, hside⟩, rfl⟩, rfl⟩

/-- The spans of a side are in order. -/
theorem spans_sorted (node : Node) (output : String) (side : Edge) :
    (node.spans output side).Pairwise fun s t => s.1 ≤ t.1 := by
  rw [Node.spans, List.pairwise_map]
  refine (List.pairwise_insertionSort (· ≤ ·) _).imp fun {s t} hle => ?_
  rcases Prod.Lex.le_iff.mp hle with hlt | ⟨heq, -⟩
  · exact hlt.le
  · exact heq.le

/-- A free range overlaps no connection. -/
theorem freeRange_fits {node : Node} (hvalid : ∀ edge ∈ node.edges, edge.boundary.validate = .ok ())
    {identifier output : String} {side : Edge} {range : ℚ × ℚ}
    (hrange : range ∈ node.freeRanges output side) :
    Fits node (edgeOn identifier output side range) := by
  have hlimit : ∀ span ∈ node.spans output side, span.1 ≤ 1 := by
    intro span hspan
    obtain ⟨edge, hedge, -, rfl⟩ := mem_spans.mp hspan
    obtain ⟨-, hend, hlt⟩ := Boundary.validate_eq_ok (hvalid edge hedge)
    exact hlt.le.trans hend
  obtain ⟨hstart, -, hend, hall⟩ := Gaps.gaps_spec (spans_sorted node output side) hlimit hrange
  refine ⟨hstart, hend, overlaps_eq_false.mpr fun edge hedge _ hoverlap => ?_⟩
  have hspan := mem_spans.mpr ⟨edge, hedge, ⟨hoverlap.1.symm, hoverlap.2.1.symm⟩, rfl⟩
  rcases hall _ hspan with hle | hle
  · exact absurd hoverlap.2.2.1 (not_lt.mpr hle)
  · exact absurd hoverlap.2.2.2 (not_lt.mpr hle)

/-- What is offered meets no other connection of its side, and stays on the side. -/
theorem offer_fits {d : LayoutDraft} (hscale : 0 ≤ d.peerScale)
    (hvalid : ∀ edge ∈ d.own.edges, edge.boundary.validate = .ok ())
    (hvalid' : ∀ edge ∈ d.peer.edges, edge.boundary.validate = .ok ()) {identifier : String}
    {pair : EdgeConfig × EdgeConfig} (h : d.offer identifier = some pair) :
    Fits d.own pair.1 ∧ Fits d.peer pair.2 := by
  rcases offer_eq_some.mp h with ⟨s, ⟨hfree, before, after, hsplit, -⟩, rfl⟩ |
    ⟨-, s, -, left, hleft, right, hright, rfl⟩
  · have hs : s ∈ d.spots := hsplit ▸ List.mem_append_right _ (List.mem_cons_self ..)
    obtain ⟨hown, hpeer⟩ := extent_of_spot hscale hs
    exact ⟨stretch_fits (.inl rfl) hown hfree.own, stretch_fits (.inr rfl) hpeer hfree.peer⟩
  · exact ⟨freeRange_fits hvalid (List.argmax_mem hleft),
      freeRange_fits hvalid' (List.argmax_mem hright)⟩

/-! ### The checks of what is added -/

/-- The device accepts the extent of an edge exactly when it is wide. -/
theorem checkExtent_iff_wide {outputs : Outputs} {edge : EdgeConfig} :
    Manager.checkExtent outputs edge = .ok () ↔ Wide outputs edge := by
  simp only [Manager.checkExtent, bind_eq_ok, orError_eq_ok, ensure_eq_ok]
  refine exists_congr fun output => and_congr_right fun _ => ?_
  cases edge.boundary.edge <;> exact Iff.rfl

/-- A wide edge within its side has a valid boundary. -/
theorem Wide.validate {outputs : Outputs} {edge : EdgeConfig} (h : Wide outputs edge)
    (hstart : 0 ≤ edge.boundary.start) (hend : edge.boundary.end ≤ 1) :
    edge.boundary.validate = .ok () := by
  obtain ⟨output, -, hpixel⟩ := h
  refine ensure_eq_ok.mpr ⟨hstart, hend, ?_⟩
  by_contra hle
  have hnonpos := mul_nonpos_of_nonpos_of_nonneg (sub_nonpos.mpr (not_lt.mp hle))
    (Nat.cast_nonneg (α := ℚ) (output.length edge.boundary.edge))
  exact absurd (hpixel.trans hnonpos) (by norm_num)

/-- A side with one edge more passes when that edge is a pixel wide. -/
theorem checks_append {node node' : Node} {edge : EdgeConfig}
    (hedges : node'.edges = node.edges ++ [edge]) (houtputs : node'.outputs = node.outputs)
    (hchecks : forEach (checkEdge node) node.edges = .ok ()) (hfits : Fits node edge)
    (hfresh : edge.id ∉ node.ids) :
    forEach (checkEdge node') node'.edges = .ok () ↔ Wide node.outputs edge := by
  rw [forEach_eq_ok] at hchecks ⊢
  simp only [checkEdge_eq_ok, hedges, houtputs, checkExtent_iff_wide] at hchecks ⊢
  constructor
  · intro hall
    exact (hall edge (by simp)).1
  · intro hwide other hother
    rcases List.mem_append.mp hother with hold | hnew
    · obtain ⟨hwide', hvalid, hfree⟩ := hchecks other hold
      refine ⟨hwide', hvalid, overlaps_eq_false.mpr fun e he hne => ?_⟩
      rcases List.mem_append.mp he with he | he
      · exact overlaps_eq_false.mp hfree e he hne
      · obtain rfl := List.mem_singleton.mp he
        have hnot := overlaps_eq_false.mp hfits.free other hold (by simp)
        exact fun hoverlap => hnot (overlaps_comm hoverlap)
    · obtain rfl := List.mem_singleton.mp hnew
      refine ⟨hwide, hwide.validate hfits.start hfits.end, overlaps_eq_false.mpr fun e he hne => ?_⟩
      rcases List.mem_append.mp he with he | he
      · exact overlaps_eq_false.mp hfits.free e he (by simp)
      · exact absurd (congrArg (fun e => some (EdgeConfig.id e)) (List.mem_singleton.mp he)) hne

/-- The draft with a connection more passes when that is a pixel wide on both sides. -/
theorem validationError_added {d d' : LayoutDraft} (hpaired : Paired d.own.ids d.peer.ids)
    (hvalid : d.validationError = none) (hcount : d.own.edges.length < MAX_EDGES)
    {identifier : String} (hfresh : identifier ∉ d.own.ids) {pair : EdgeConfig × EdgeConfig}
    (hids : pair.1.id = identifier ∧ pair.2.id = identifier)
    (hfits : Fits d.own pair.1 ∧ Fits d.peer pair.2)
    (h : Selected (d.own.edges ++ [pair.1]) (d.peer.edges ++ [pair.2]) identifier d d') :
    d'.validationError = none ↔ Wide d.own.outputs pair.1 ∧ Wide d.peer.outputs pair.2 := by
  obtain ⟨-, hchecks, hchecks'⟩ := validationError_eq_none.mp hvalid
  have hfresh' : identifier ∉ d.peer.ids := fun hmem => hfresh ((hpaired.same _).mpr hmem)
  have hlength : 1 ≤ d'.own.edges.length ∧ d'.own.edges.length ≤ MAX_EDGES := by
    rw [h.own, List.length_append, List.length_singleton]
    omega
  rw [validationError_eq_none, and_iff_right hlength,
    checks_append h.own h.outputs.1 hchecks hfits.1 (hids.1 ▸ hfresh),
    checks_append h.peer h.outputs.2 hchecks' hfits.2 (hids.2 ▸ hfresh')]

/-! ### What can be saved -/

/-- A connection is added so that it can be saved and removed again, or nothing is. -/
def Saved (d : LayoutDraft) (identifier : String) : Prop :=
  match addConnection identifier d with
  | .error _ d' => d'.own.edges = d.own.edges ∧ d'.peer.edges = d.peer.edges
  | .ok result d' => result = identifier ∧
      (∃ own peer : EdgeConfig, own.id = identifier ∧ peer.id = identifier ∧
        d'.own.edges = d.own.edges ++ [own] ∧ d'.peer.edges = d.peer.edges ++ [peer]) ∧
      d'.validationError = none ∧
      match removeConnection d' with
      | .error _ _ => False
      | .ok _ d'' => d''.request = d.request

/-- An edge that is added and taken out again leaves the others. -/
theorem filter_added {edges : List EdgeConfig} {edge : EdgeConfig}
    (h : edge.id ∉ edges.map EdgeConfig.id) :
    (edges ++ [edge]).filter (fun e => e.id ≠ edge.id) = edges := by
  have hkeep : edges.filter (fun e => e.id ≠ edge.id) = edges := by
    refine List.filter_eq_self.mpr fun e he => ?_
    have hne : e.id ≠ edge.id := fun heq => h (heq ▸ List.mem_map_of_mem he)
    simpa using hne
  rw [List.filter_append, hkeep]
  simp

/-- What was added is gone when it is removed. -/
theorem remove_added {d d' : LayoutDraft} (hpaired : Paired d'.own.ids d'.peer.ids)
    (hne : d.own.edges ≠ []) {identifier : String}
    (hfresh : identifier ∉ d.own.ids ∧ identifier ∉ d.peer.ids)
    {pair : EdgeConfig × EdgeConfig} (hids : pair.1.id = identifier ∧ pair.2.id = identifier)
    (h : Selected (d.own.edges ++ [pair.1]) (d.peer.edges ++ [pair.2]) identifier d d') :
    ∃ d'', removeConnection d' = .ok () d'' ∧ d''.request = d.request := by
  have hremove := wp_removeConnection hpaired
  cases hresult : removeConnection d' with
  | error e d'' =>
      rcases (wp_of_error hremove hresult).2 with hcount | hmissing
      · rw [h.own, List.length_append, List.length_singleton] at hcount
        have hpos := List.length_pos_iff.mpr hne
        omega
      · refine absurd ?_ hmissing
        rw [h.id, Chosen.ids, h.own, List.map_append, ← hids.1]
        simp
  | ok u d'' =>
      obtain ⟨selected, hs⟩ := wp_of_ok hremove hresult
      refine ⟨d'', rfl, ?_⟩
      have hown : d''.own.edges = d.own.edges := by
        rw [hs.own, h.own, h.id, ← hids.1]
        exact filter_added (hids.1 ▸ hfresh.1)
      have hpeer : d''.peer.edges = d.peer.edges := by
        rw [hs.peer, h.peer, h.id, ← hids.2]
        exact filter_added (hids.2 ▸ hfresh.2)
      rw [LayoutDraft.request, LayoutDraft.request, hown, hpeer, hs.revisions.1, hs.revisions.2,
        h.revisions.1, h.revisions.2]

/-- The connection that is offered to a draft without errors can be saved if and only if the draft
has room for it where it is looked for, or there are as many as there may be. -/
theorem connection_saved_iff {own peer : Desktop} (hown : own.validate = .ok ())
    (hpeer : peer.validate = .ok ()) {d : LayoutDraft} (h : Reachable own peer d)
    (hvalid : d.validationError = none) {identifier : String}
    (hid : IsUuid identifier ∧ identifier ∉ d.connectionIds) :
    Saved d identifier ↔ MAX_EDGES ≤ d.own.edges.length ∨ Roomy d identifier := by
  have hdraws := h.draws (check_bind_eq_ok.mp hown).1 (check_bind_eq_ok.mp hpeer).1
  obtain ⟨hcount, hchecks, hchecks'⟩ := validationError_eq_none.mp hvalid
  have hadd := wp_addConnection (d := d) identifier
  unfold Saved
  cases hresult : addConnection identifier d with
  | error e d' =>
      obtain ⟨rfl, hfull | hnone⟩ := wp_of_error hadd hresult
      · exact ⟨fun _ => .inl hfull, fun _ => ⟨rfl, rfl⟩⟩
      · refine ⟨fun _ => .inr (offer_wide_iff.mp ?_), fun _ => ⟨rfl, rfl⟩⟩
        rw [hnone]
        exact nofun
  | ok result d' =>
      obtain ⟨rfl, hlt, pair, hoffer, hs⟩ := wp_of_ok hadd hresult
      have hids := offer_ids hoffer
      have hvalidated : ∀ {node : Node}, forEach (checkEdge node) node.edges = .ok () →
          ∀ edge ∈ node.edges, edge.boundary.validate = .ok () := fun hall edge hedge =>
        (checkEdge_eq_ok.mp (forEach_eq_ok.mp hall edge hedge)).2.1
      have hscale : 0 ≤ d.peerScale := le_trans (by norm_num) hdraws.scale
      have hfits := offer_fits hscale (hvalidated hchecks) (hvalidated hchecks') hoffer
      -- the draft was valid, so only the new edges can be wrong
      have hvalid' := validationError_added hdraws.paired hvalid hlt hid.2 hids hfits hs
      have hfresh' : result ∉ d.peer.ids := fun hmem => hid.2 ((hdraws.paired.same _).mpr hmem)
      have hdraws' := wp_of_ok (addConnection_draws hdraws hid) hresult
      obtain ⟨d'', hremove, hrequest⟩ :=
        remove_added hdraws'.paired (List.length_pos_iff.mp hcount.1) ⟨hid.2, hfresh'⟩ hids hs
      rw [← offer_wide_iff, hoffer]
      simp only [Option.mem_def, Option.some.injEq, forall_eq', hremove]
      constructor
      · rintro ⟨-, -, hsaved, -⟩
        exact .inr (hvalid'.mp hsaved)
      · rintro (hfull | hwide)
        · exact absurd hfull (not_le.mpr hlt)
        · exact ⟨trivial, ⟨pair.1, pair.2, hids.1, hids.2, hs.own, hs.peer⟩,
            hvalid'.mpr hwide, hrequest⟩

section Sample

/-- The errors of the draft of two desktops, before and after a connection is added to it. -/
def errorsOf (own peer : Desktop) : Option (Option Error × Option Error) :=
  (LayoutDraft.new own peer).map fun d => (d.validationError,
    match addConnection someUuid d with
    | .ok _ d' => d'.validationError
    | .error _ d' => d'.validationError)

/-- A desktop of one screen and one connection. -/
def desktopOf (name : String) (edge : Edge) (start «end» : ℚ) : Desktop where
  edges :=
    [{ id := "default", output := name,
       boundary := { edge := edge, start := start, «end» := «end» } }]
  revision := ""
  outputs := [(name, screen 0 0 1920 1080)]

/-- All but a ten thousandth of the own side is taken. -/
def narrowOwn : Desktop := desktopOf "eDP-1" .top 0 (9999 / 10000)

/-- A desktop that has half a side left. -/
def narrowPeer : Desktop := desktopOf "DP-1" .bottom 0 (1 / 2)

theorem narrow_evaluate : errorsOf narrowOwn narrowPeer = some (none, some ["layout_invalid"]) ∧
    narrowOwn.validate = .ok () ∧ narrowPeer.validate = .ok () := by
  decide +kernel

theorem ids_narrow :
    (LayoutDraft.new narrowOwn narrowPeer).map LayoutDraft.connectionIds = some ["default"] :=
  rfl

/-- The draft has no error, and the connection that is added to it cannot be saved. -/
theorem narrow_unsaved :
    ∃ d, LayoutDraft.new narrowOwn narrowPeer = some d ∧ d.validationError = none ∧
    ¬ Saved d someUuid := by
  obtain ⟨d, hd, herrors⟩ := Option.map_eq_some_iff.mp narrow_evaluate.1
  obtain ⟨hvalid, hadded⟩ := Prod.mk.inj herrors
  refine ⟨d, hd, hvalid, fun hsaved => ?_⟩
  unfold Saved at hsaved
  cases hresult : addConnection someUuid d with
  | error e d' =>
      simp only [hresult] at hadded
      rw [(wp_of_error (wp_addConnection someUuid) hresult).1, hvalid] at hadded
      cases hadded
  | ok result d' =>
      simp only [hresult] at hadded hsaved
      cases hsaved.2.2.1.symm.trans hadded

theorem connection_saved_iff_narrow : ∃ d, LayoutDraft.new narrowOwn narrowPeer = some d ∧
    (Saved d someUuid ↔ MAX_EDGES ≤ d.own.edges.length ∨ Roomy d someUuid) := by
  obtain ⟨d, hd, herrors⟩ := Option.map_eq_some_iff.mp narrow_evaluate.1
  have hids := ids_narrow
  rw [hd] at hids
  have hfresh : someUuid ∉ d.connectionIds := by
    rw [Option.some.inj hids]
    decide
  exact ⟨d, hd,
    connection_saved_iff narrow_evaluate.2.1 narrow_evaluate.2.2 (.new hd) (Prod.mk.inj herrors).1
    ⟨someUuid_isUuid, hfresh⟩⟩

end Sample

end NiriBridge.Canvas
