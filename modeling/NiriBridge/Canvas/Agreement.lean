import NiriBridge.Edges.Strips
import NiriBridge.Model.Draft
import NiriBridge.Support.Json
import NiriBridge.Support.Words
import Mathlib.Data.List.TakeWhile

/-!
# Canvas — Agreement

The layout is checked twice, by the draft before it is saved and by the devices that save it.

* `Reachable.draws`: no edit makes two connections of one id, or an id that one side alone has.
* `checkEdges_iff`: for distinct ids, the draft's check of all pairs of edges is the devices' check
  of each edge against those before it.
* `validators_agree`: a draft that any edits lead to passes the one check exactly when it passes the
  other.
-/

namespace NiriBridge.Canvas

open Hoare

/-! ### Choosing an edge -/

/-- The ids of the edges. -/
def Chosen.ids (c : Chosen) : List String := c.edges.map EdgeConfig.id

/-- What is chosen is the edge with the identifier, in its place. -/
theorem choose_spec {edges : List EdgeConfig} {identifier : String} {c : Chosen}
    (h : choose edges identifier = some c) : c.edges = edges ∧ c.edge.id = identifier := by
  unfold choose at h
  split at h
  · cases h
  · rename_i edge after hdrop
    cases h
    refine ⟨?_, ?_⟩
    · exact (congrArg _ hdrop.symm).trans List.takeWhile_append_dropWhile
    · have hne : (edges.dropWhile fun e => decide (e.id ≠ identifier)) ≠ [] := by
        rw [hdrop]
        exact List.cons_ne_nil _ _
      have hhead := List.head_dropWhile_not (fun e : EdgeConfig => decide (e.id ≠ identifier)) hne
      simp only [hdrop, List.head_cons, decide_eq_false_iff_not, not_not] at hhead
      exact hhead

/-- An edge whose identifier is there can be chosen. -/
theorem exists_choose {edges : List EdgeConfig} {identifier : String}
    (h : identifier ∈ edges.map EdgeConfig.id) : ∃ c, choose edges identifier = some c := by
  unfold choose
  split
  · rename_i hdrop
    obtain ⟨edge, hedge, rfl⟩ := List.mem_map.mp h
    have hall := List.dropWhile_eq_nil_iff.mp hdrop edge hedge
    simp at hall
  · exact ⟨_, rfl⟩

theorem choose_eq_none {edges : List EdgeConfig} {identifier : String}
    (h : identifier ∉ edges.map EdgeConfig.id) : choose edges identifier = none := by
  cases hc : choose edges identifier with
  | none => rfl
  | some c =>
      obtain ⟨rfl, rfl⟩ := choose_spec hc
      exact absurd (List.mem_map_of_mem (by simp [Chosen.edges])) h

/-! ### What an edit leaves -/

/-- Each id once on a side, and the same ids on both. -/
structure Paired (own peer : List String) : Prop where
  nodup : own.Nodup
  nodup' : peer.Nodup
  same : ∀ identifier, identifier ∈ own ↔ identifier ∈ peer
  valid : ∀ identifier ∈ own, validEdgeId identifier = true

/-- The text of `uuid.uuid4().hex`. -/
structure IsUuid (identifier : String) : Prop where
  length : identifier.length = 32
  digits : ∀ c ∈ identifier.toList, c.isDigit = true ∨ 'a' ≤ c ∧ c ≤ 'f'

/-- A fresh identifier may be added on both sides. -/
theorem Paired.append {own peer : List String} (h : Paired own peer) {identifier : String}
    (hvalid : validEdgeId identifier = true) (hfresh : identifier ∉ own) :
    Paired (own ++ [identifier]) (peer ++ [identifier]) where
  nodup := List.concat_eq_append ▸ h.nodup.concat hfresh
  nodup' := List.concat_eq_append ▸ h.nodup'.concat fun hmem => hfresh ((h.same _).mpr hmem)
  same other := by simp only [List.mem_append, h.same]
  valid other hmem := by
    rcases List.mem_append.mp hmem with hmem | hmem
    · exact h.valid other hmem
    · exact List.mem_singleton.mp hmem ▸ hvalid

/-- The same identifiers may be left out on both sides. -/
theorem Paired.filter {own peer : List String} (h : Paired own peer) (p : String → Bool) :
    Paired (own.filter p) (peer.filter p) where
  nodup := h.nodup.filter p
  nodup' := h.nodup'.filter p
  same other := by simp only [List.mem_filter, h.same]
  valid other hmem := h.valid other (List.mem_of_mem_filter hmem)

/-- The identifiers that `uuid4` draws are valid ids. -/
theorem IsUuid.validEdgeId {identifier : String} (h : IsUuid identifier) :
    validEdgeId identifier = true := by
  have hchar : ∀ c ∈ identifier.toList, c.utf8Size = 1 ∧ c.isAlphanum = true := by
    intro c hc
    rcases h.digits c hc with hdigit | hletter
    · exact ⟨Json.utf8Size_of_isDigit hdigit, by simp [Char.isAlphanum, hdigit]⟩
    · have hcode : 97 ≤ c.val.toNat ∧ c.val.toNat ≤ 102 := hletter
      refine ⟨Char.utf8Size_eq_one_iff.mpr ?_, ?_⟩
      · rw [UInt32.le_iff_toNat_le]
        exact hcode.2.trans (by decide)
      · exact Words.isAlphanum_iff.mpr (.inl (.inr ⟨hcode.1, hcode.2.trans (by decide)⟩))
  have hsize : identifier.utf8ByteSize = 32 := by
    rw [← Json.size_toList, Json.size, List.map_congr_left fun c hc => (hchar c hc).1]
    rw [List.map_const', List.sum_replicate, String.length_toList, h.length]
    rfl
  have hne : identifier ≠ "" := by
    rintro rfl
    cases h.length
  simp only [NiriBridge.validEdgeId, hsize, Bool.and_eq_true, decide_eq_true_eq, List.all_eq_true]
  refine ⟨⟨by simpa using hne, by omega⟩, fun c hc => ?_⟩
  simp [(hchar c hc).2]

/-- A draft of the connections of two desktops. -/
structure Draws (own peer : Desktop) (d : LayoutDraft) : Prop where
  paired : Paired d.own.ids d.peer.ids
  outputs : d.own.outputs = own.outputs ∧ d.peer.outputs = peer.outputs
  scale : 3 / 20 ≤ d.peerScale

theorem scaleOf_bound (own peer : Node) : 3 / 20 ≤ scaleOf own peer := le_max_left ..

/-- `select` when both sides have the id. -/
structure Selected (ownEdges peerEdges : List EdgeConfig) (identifier : String)
    (d d' : LayoutDraft) : Prop where
  own : d'.own.edges = ownEdges
  peer : d'.peer.edges = peerEdges
  id : d'.selectedId = identifier
  outputs : d'.own.outputs = d.own.outputs ∧ d'.peer.outputs = d.peer.outputs
  revisions : d'.own.revision = d.own.revision ∧ d'.peer.revision = d.peer.revision
  scale : d'.peerScale = scaleOf d'.own d'.peer

/-- An identifier that both desktops have is selected without an exception. -/
theorem wp_selectIn {own peer : List EdgeConfig} {identifier : String} (d : LayoutDraft)
    (hown : identifier ∈ own.map EdgeConfig.id) (hpeer : identifier ∈ peer.map EdgeConfig.id) :
    wp (selectIn own peer identifier) d (fun _ d' => Selected own peer identifier d d')
      fun _ _ => False := by
  obtain ⟨c, hc⟩ := exists_choose hown
  obtain ⟨c', hc'⟩ := exists_choose hpeer
  simp only [selectIn, wp_bind, wp_modify, hc, hc', next, wp_pure]
  exact {
    own := (choose_spec hc).1
    peer := (choose_spec hc').1
    id := rfl
    outputs := ⟨rfl, rfl⟩
    revisions := ⟨rfl, rfl⟩
    scale := rfl }

/-- A draft that selects another connection still draws the two desktops. -/
theorem Draws.selected {own peer : Desktop} {d d' : LayoutDraft} (h : Draws own peer d)
    {ownEdges peerEdges : List EdgeConfig} {identifier : String}
    (hs : Selected ownEdges peerEdges identifier d d')
    (hp : Paired (ownEdges.map EdgeConfig.id) (peerEdges.map EdgeConfig.id)) :
    Draws own peer d' where
  paired := by
    rw [Chosen.ids, Chosen.ids, hs.own, hs.peer]
    exact hp
  outputs := ⟨hs.outputs.1.trans h.outputs.1, hs.outputs.2.trans h.outputs.2⟩
  scale := hs.scale ▸ scaleOf_bound _ _

/-- An id that is asked for is a new one. -/
def Op.Fresh (d : LayoutDraft) : Op → Prop
  | .addConnection identifier => IsUuid identifier ∧ identifier ∉ d.connectionIds
  | _ => True

/-- `select` keeps a draft of the two desktops. -/
theorem select_draws {own peer : Desktop} {d : LayoutDraft} (h : Draws own peer d)
    (identifier : String) :
    wp (select identifier) d (fun _ d' => Draws own peer d') fun _ d' => Draws own peer d' := by
  rw [select, wp_bind, wp_get]
  by_cases hid : identifier ∈ d.own.ids
  · refine wp_mono (wp_selectIn d hid ((h.paired.same _).mp hid))
      (fun _ d' hs => ?_) fun _ _ => False.elim
    exact h.selected hs h.paired
  · have hc := choose_eq_none hid
    simp only [selectIn, wp_bind, wp_modify, hc, next, wp_throw]
    exact ⟨h.paired, h.outputs, h.scale⟩

/-- Both halves of a candidate have the identifier. -/
theorem candidate_ids {d : LayoutDraft} {identifier : String} {a b : Rectangle} {side : Edge}
    {candidate : ℚ × EdgeConfig × EdgeConfig}
    (h : d.candidate identifier a b side = some candidate) :
    candidate.2.1.id = identifier ∧ candidate.2.2.id = identifier := by
  unfold LayoutDraft.candidate at h
  dsimp only at h
  split_ifs at h
  cases h
  exact ⟨rfl, rfl⟩

/-- Both halves of a choice have the identifier. -/
theorem choice_ids {d : LayoutDraft} {identifier a b : String} {side : Edge}
    {pair : EdgeConfig × EdgeConfig} (h : d.choice identifier side a b = some pair) :
    pair.1.id = identifier ∧ pair.2.id = identifier := by
  obtain ⟨left, -, h⟩ := Option.bind_eq_some_iff.mp h
  obtain ⟨right, -, h⟩ := Option.bind_eq_some_iff.mp h
  cases h
  exact ⟨rfl, rfl⟩

/-- Both edges that are added have the id. -/
theorem offer_ids {d : LayoutDraft} {identifier : String} {pair : EdgeConfig × EdgeConfig}
    (h : d.offer identifier = some pair) : pair.1.id = identifier ∧ pair.2.id = identifier := by
  unfold LayoutDraft.offer at h
  split at h
  · rename_i candidate hmin
    cases h
    have hmem := List.argmin_mem hmin
    simp only [LayoutDraft.candidates, List.mem_flatMap, List.mem_filterMap] at hmem
    obtain ⟨a, -, b, -, side, -, hcandidate⟩ := hmem
    exact candidate_ids hcandidate
  · have hmem := List.mem_of_head? h
    simp only [LayoutDraft.choices, List.mem_flatMap, List.mem_filterMap] at hmem
    obtain ⟨side, -, a, -, b, -, hchoice⟩ := hmem
    exact choice_ids hchoice

/-- What adding a connection does. -/
theorem wp_addConnection {d : LayoutDraft} (identifier : String) :
    wp (addConnection identifier) d
      (fun result d' => result = identifier ∧ d.own.edges.length < MAX_EDGES ∧
        ∃ pair, d.offer identifier = some pair ∧
          Selected (d.own.edges ++ [pair.1]) (d.peer.edges ++ [pair.2]) identifier d d')
      (fun _ d' => d' = d ∧ (MAX_EDGES ≤ d.own.edges.length ∨ d.offer identifier = none)) := by
  rw [addConnection, wp_bind, wp_get, wp_ite]
  refine ⟨fun hfull => wp_throw.mpr ⟨rfl, .inl hfull⟩, fun hcount => ?_⟩
  cases hoffer : d.offer identifier with
  | none => exact wp_throw.mpr ⟨rfl, .inr rfl⟩
  | some pair =>
      obtain ⟨hown, hpeer⟩ := offer_ids hoffer
      simp only [wp_bind]
      refine wp_mono (wp_selectIn d (by simp [hown]) (by simp [hpeer])) (fun _ d' hs => ?_)
        fun _ _ => False.elim
      exact ⟨rfl, not_le.mp hcount, pair, rfl, hs⟩

/-- `add_connection` keeps a draft of the two desktops. -/
theorem addConnection_draws {own peer : Desktop} {d : LayoutDraft} (h : Draws own peer d)
    {identifier : String} (hid : IsUuid identifier ∧ identifier ∉ d.connectionIds) :
    wp (addConnection identifier) d (fun _ d' => Draws own peer d')
      fun _ d' => Draws own peer d' := by
  refine wp_mono (wp_addConnection identifier)
    (fun _ d' hadd => ?_) fun _ d' hraised => hraised.1 ▸ h
  obtain ⟨-, -, pair, hoffer, hs⟩ := hadd
  obtain ⟨hown, hpeer⟩ := offer_ids hoffer
  refine h.selected hs ?_
  rw [List.map_append, List.map_append, List.map_singleton, List.map_singleton, hown, hpeer]
  exact h.paired.append hid.1.validEdgeId hid.2

/-- The ids that are left when one is taken out. -/
theorem ids_filter (c : Chosen) (identifier : String) :
    (c.edges.filter fun edge => edge.id ≠ identifier).map EdgeConfig.id =
      c.ids.filter fun other => other ≠ identifier := by
  rw [Chosen.ids, List.filter_map]
  rfl

/-- What removing the selected connection does. -/
theorem wp_removeConnection {d : LayoutDraft} (h : Paired d.own.ids d.peer.ids) :
    wp removeConnection d
      (fun _ d' => ∃ identifier, Selected (d.own.edges.filter fun edge => edge.id ≠ d.selectedId)
        (d.peer.edges.filter fun edge => edge.id ≠ d.selectedId) identifier d d')
      (fun _ d' => d' = d ∧ (d.own.edges.length ≤ 1 ∨ d.selectedId ∉ d.own.ids)) := by
  rw [removeConnection, wp_bind, wp_get, wp_ite]
  refine ⟨fun hone => wp_throw.mpr ⟨rfl, .inl hone⟩, fun hcount => ?_⟩
  rw [wp_bind, indexOf]
  cases hindex : d.connectionIds.idxOf? d.selectedId with
  | none => exact ⟨rfl, .inr (List.idxOf?_eq_none_iff.mp hindex)⟩
  | some index =>
      simp only [wp_pure, wp_bind, ids_filter]
      have hlength : (d.own.edges.filter fun edge => edge.id ≠ d.selectedId).length =
          (d.own.ids.filter fun other => other ≠ d.selectedId).length := by
        rw [← ids_filter, List.length_map]
      have hpos : 0 < (d.own.ids.filter fun other => other ≠ d.selectedId).length := by
        refine List.length_pos_iff.mpr fun hnil => hcount ?_
        have hall : ∀ other ∈ d.own.ids, other = d.selectedId := by simpa using hnil
        have hone := List.nodup_replicate.mp (List.eq_replicate_of_mem hall ▸ h.nodup)
        simpa [Chosen.ids] using hone
      rw [hlength, List.getElem?_eq_getElem (by omega)]
      have hmem := List.getElem_mem (l := d.own.ids.filter fun other => other ≠ d.selectedId)
        (n := min index ((d.own.ids.filter fun other => other ≠ d.selectedId).length - 1))
        (by omega)
      have hmem' := ((h.filter fun other => other ≠ d.selectedId).same _).mp hmem
      rw [next, wp_pure]
      refine wp_mono (wp_selectIn d ?_ ?_) (fun _ d' hs => ⟨_, hs⟩) fun _ _ => False.elim
      · rw [ids_filter]
        exact hmem
      · rw [ids_filter]
        exact hmem'

/-- `remove_connection` keeps a draft of the two desktops. -/
theorem removeConnection_draws {own peer : Desktop} {d : LayoutDraft} (h : Draws own peer d) :
    wp removeConnection d (fun _ d' => Draws own peer d') fun _ d' => Draws own peer d' := by
  refine wp_mono (wp_removeConnection h.paired)
    (fun _ d' hremove => ?_) fun _ d' hraised => hraised.1 ▸ h
  obtain ⟨identifier, hs⟩ := hremove
  refine h.selected hs ?_
  rw [ids_filter, ids_filter]
  exact h.paired.filter _

/-- An edge that keeps its id. -/
theorem ids_with_edge (c : Chosen) {edge : EdgeConfig} (h : edge.id = c.edge.id) :
    ({ c with edge := edge } : Chosen).ids = c.ids := by
  simp [Chosen.ids, Chosen.edges, h]

/-- An edit of the selected edge that leaves its id alone keeps a draft of the two desktops. -/
theorem setEdge_draws {own peer : Desktop} {d : LayoutDraft} (h : Draws own peer d) (role : Role)
    {f : EdgeConfig → EdgeConfig} (hf : ∀ e, (f e).id = e.id) :
    Draws own peer (d.setEdge f role) := by
  cases role with
  | own => exact ⟨(ids_with_edge d.own.toChosen (hf _)).symm ▸ h.paired, h.outputs, h.scale⟩
  | peer => exact ⟨(ids_with_edge d.peer.toChosen (hf _)).symm ▸ h.paired, h.outputs, h.scale⟩

/-- Whatever is done to a draft, the ids stay paired. -/
theorem run_draws {own peer : Desktop} {d : LayoutDraft} (h : Draws own peer d) {op : Op}
    (hop : op.Fresh d) :
    wp op.run d (fun _ d' => Draws own peer d') fun _ d' => Draws own peer d' := by
  have hscale : ∀ {d' : LayoutDraft}, Draws own peer d' → Draws own peer d'.resetScale := fun h' =>
    ⟨h'.paired, h'.outputs, scaleOf_bound _ _⟩
  have hreleased : ∀ {d' : LayoutDraft}, Draws own peer d' → Draws own peer d'.released := fun h' =>
    ⟨h'.paired, h'.outputs, h'.scale⟩
  cases op with
  | select identifier => exact select_draws h identifier
  | addConnection identifier =>
      rw [Op.run, wp_bind]
      exact addConnection_draws h hop
  | removeConnection => exact removeConnection_draws h
  | drag origin => exact ⟨h.paired, h.outputs, h.scale⟩
  | finishDrag x y =>
      refine hreleased (setEdge_draws (setEdge_draws h .own ?_) .peer ?_)
      · exact fun _ => rfl
      · exact fun _ => rfl
  | changeDirection role edge =>
      refine hscale (hreleased (setEdge_draws h role ?_))
      exact fun _ => rfl
  | changeOutput role output => exact hscale (setEdge_draws h role fun _ => rfl)
  | changeStart role value => exact setEdge_draws h role fun _ => rfl
  | changeEnd role value => exact setEdge_draws h role fun _ => rfl

/-! ### The construction -/

/-- A repaired side has each id once, its own and those it lacked. -/
theorem repair_spec {outputs : Outputs} {other edges edges' : List EdgeConfig} {ids : List String}
    (h : repair outputs other edges ids = some edges') (hnodup : (edges.map EdgeConfig.id).Nodup) :
    (edges'.map EdgeConfig.id).Nodup ∧
      ∀ identifier, identifier ∈ edges'.map EdgeConfig.id ↔
        identifier ∈ edges.map EdgeConfig.id ∨ identifier ∈ ids := by
  induction ids generalizing edges with
  | nil =>
      cases h
      simp [hnodup]
  | cons first ids ih =>
      rw [repair] at h
      split_ifs at h with hany
      · have hmem : first ∈ edges.map EdgeConfig.id := by simpa using hany
        obtain ⟨hnodup', hids⟩ := ih h hnodup
        refine ⟨hnodup', fun identifier => (hids identifier).trans ?_⟩
        rw [List.mem_cons]
        constructor
        · exact fun hid => hid.imp_right Or.inr
        · rintro (hid | rfl | hid)
          · exact .inl hid
          · exact .inl hmem
          · exact .inr hid
      · have hfresh : first ∉ edges.map EdgeConfig.id := by simpa using hany
        obtain ⟨counterpart, -, h⟩ := Option.bind_eq_some_iff.mp h
        obtain ⟨output, -, h⟩ := Option.bind_eq_some_iff.mp h
        have hnew := ih h (by
          rw [List.map_append, List.map_singleton, ← List.concat_eq_append]
          exact hnodup.concat hfresh)
        refine ⟨hnew.1, fun identifier => (hnew.2 identifier).trans ?_⟩
        simp only [List.map_append, List.map_singleton, List.mem_append, List.mem_cons,
          List.not_mem_nil, false_or, or_assoc]

/-- A new draft draws its two desktops, once it is repaired. -/
theorem new_draws {own peer : Desktop} (hown : validateEdges own.edges = .ok ())
    (hpeer : validateEdges peer.edges = .ok ()) {d : LayoutDraft}
    (h : LayoutDraft.new own peer = some d) :
    Draws own peer d := by
  obtain ⟨ownEdges, hr, h⟩ := Option.bind_eq_some_iff.mp h
  obtain ⟨peerEdges, hr', h⟩ := Option.bind_eq_some_iff.mp h
  obtain ⟨first, -, h⟩ := Option.bind_eq_some_iff.mp h
  obtain ⟨c, hc, h⟩ := Option.bind_eq_some_iff.mp h
  obtain ⟨c', hc', h⟩ := Option.bind_eq_some_iff.mp h
  split_ifs at h
  cases h
  obtain ⟨hnodup, hids⟩ := repair_spec hr (nodup_of_validateEdges hown)
  obtain ⟨hnodup', hids'⟩ := repair_spec hr' (nodup_of_validateEdges hpeer)
  -- the repaired edges have the identifiers of either side, each once
  have hall : ∀ identifier, identifier ∈ ((own.edges ++ peer.edges).map EdgeConfig.id).eraseDups ↔
      identifier ∈ own.edges.map EdgeConfig.id ∨ identifier ∈ peer.edges.map EdgeConfig.id := by
    intro identifier
    rw [List.mem_eraseDups, List.map_append, List.mem_append]
  have hvalid : ∀ {edges : List EdgeConfig}, validateEdges edges = .ok () →
      ∀ identifier ∈ edges.map EdgeConfig.id, validEdgeId identifier = true := by
    intro edges hedges identifier hid
    obtain ⟨edge, hedge, rfl⟩ := List.mem_map.mp hid
    exact ((validateEdges_iff.mp hedges).2.1 edge hedge).1
  refine ⟨?_, ⟨rfl, rfl⟩, scaleOf_bound _ _⟩
  show Paired (c.edges.map EdgeConfig.id) (c'.edges.map EdgeConfig.id)
  rw [(choose_spec hc).1, (choose_spec hc').1]
  exact {
    nodup := hnodup
    nodup' := hnodup'
    same := fun identifier => by
      rw [hids, hids', hall]
      tauto
    valid := fun identifier hid => by
      rcases (hids identifier).mp hid with hid | hid
      · exact hvalid hown identifier hid
      · exact ((hall identifier).mp hid).elim (hvalid hown identifier) (hvalid hpeer identifier) }

/-! ### Runs -/

/-- The draft that an edit leaves, whether it raises or not. -/
def Op.after (op : Op) (d : LayoutDraft) : LayoutDraft :=
  match op.run d with
  | .ok _ d' => d'
  | .error _ d' => d'

/-- A draft that edits lead to from the two desktops. -/
inductive Reachable (own peer : Desktop) : LayoutDraft → Prop where
  | new {d : LayoutDraft} (h : LayoutDraft.new own peer = some d) : Reachable own peer d
  | edit {d : LayoutDraft} (h : Reachable own peer d) (op : Op) (hop : op.Fresh d) :
      Reachable own peer (op.after d)

/-- Every draft that is reached draws the two desktops. -/
theorem Reachable.draws {own peer : Desktop} (hown : validateEdges own.edges = .ok ())
    (hpeer : validateEdges peer.edges = .ok ()) {d : LayoutDraft} (h : Reachable own peer d) :
    Draws own peer d := by
  induction h with
  | new h => exact new_draws hown hpeer h
  | @edit d h op hop ih =>
      have hrun := run_draws ih hop
      cases hresult : op.run d with
      | ok a d' =>
          have hd' := wp_of_ok hrun hresult
          simpa only [Op.after, hresult] using hd'
      | error e d' =>
          have hd' := wp_of_error hrun hresult
          simpa only [Op.after, hresult] using hd'

/-! ### The two checks -/

theorem overlaps_comm {edge other : EdgeConfig} (h : edge.overlaps other) : other.overlaps edge :=
  ⟨h.1.symm, h.2.1.symm, h.2.2.2, h.2.2.1⟩

/-- An edge overlaps none of the others. -/
theorem overlaps_eq_false {edges : List EdgeConfig} {candidate : EdgeConfig}
    {ignoreId : Option String} :
    overlaps edges candidate ignoreId = false ↔
      ∀ edge ∈ edges, some edge.id ≠ ignoreId → ¬ candidate.overlaps edge := by
  simp [overlaps]

/-- Edges of different ids are compared in either order. -/
theorem pairwise_iff {edges : List EdgeConfig} (h : (edges.map EdgeConfig.id).Nodup) :
    (edges.Pairwise fun p e => p.id ≠ e.id ∧ ¬ e.overlaps p) ↔
      ∀ edge ∈ edges, overlaps edges edge (some edge.id) = false := by
  have hids : edges.Pairwise fun p e => p.id ≠ e.id := List.pairwise_map.mp h
  have hsymm : Std.Symm fun p e : EdgeConfig => p.id ≠ e.id ∧ ¬ e.overlaps p :=
    ⟨fun p e hpe => ⟨hpe.1.symm, fun hov => hpe.2 (overlaps_comm hov)⟩⟩
  simp only [overlaps_eq_false]
  constructor
  · intro hpairs edge hedge other hother hne
    refine (hpairs.forall hother hedge fun heq => hne (heq ▸ rfl)).2
  · intro hall
    exact hids.imp_of_mem fun hp he hne =>
      ⟨hne, hall _ he _ hp fun heq => hne (Option.some.inj heq)⟩

/-- The names of the outputs, as a device may announce them. -/
def Named (outputs : Outputs) : Prop :=
  ∀ p ∈ outputs, p.1 ≠ "" ∧ p.1.utf8ByteSize ≤ 128 ∧ ¬ p.1.toList.any isControl

theorem cast_length (output : LogicalOutput) (edge : Edge) : (output.length edge : ℚ) =
    match edge with
    | .top | .bottom => (output.width : ℚ)
    | .left | .right => output.height := by
  cases edge <;> rfl

/-- What a check of one edge asks for. -/
theorem checkEdge_eq_ok {node : Node} {edge : EdgeConfig} {u : Unit} :
    checkEdge node edge = .ok u ↔
      Manager.checkExtent node.outputs edge = .ok () ∧ edge.boundary.validate = .ok () ∧
        overlaps node.edges edge (some edge.id) = false := by
  rw [checkEdge, Manager.checkExtent, bind_eq_ok, bind_eq_ok]
  simp only [Boundary.validate, check_bind_eq_ok, ensure_eq_ok, orError_eq_ok, not_lt, cast_length]
  constructor
  · rintro ⟨output, hlookup, ⟨hstart, hlt, hend⟩, hpixel, hfree⟩
    exact ⟨⟨output, hlookup, hpixel⟩, ⟨hstart, hend, hlt⟩, hfree⟩
  · rintro ⟨⟨output, hlookup, hpixel⟩, ⟨hstart, hend, hlt⟩, hfree⟩
    exact ⟨output, hlookup, ⟨hstart, hlt, hend⟩, hpixel, hfree⟩

/-- An output that is found is among the outputs. -/
theorem mem_of_lookup {outputs : Outputs} {name : String} {output : LogicalOutput}
    (h : outputs.lookup name = some output) : (name, output) ∈ outputs := by
  obtain ⟨before, after, rfl, -⟩ := List.lookup_eq_some_iff.mp h
  exact List.mem_append_right _ (List.mem_cons_self ..)

/-- The checks of one side are those of the device. -/
theorem checkEdges_iff {node : Node} (hnodup : node.ids.Nodup)
    (hvalid : ∀ identifier ∈ node.ids, validEdgeId identifier = true) (hnamed : Named node.outputs)
    (hcount : 1 ≤ node.edges.length ∧ node.edges.length ≤ Canvas.MAX_EDGES) :
    forEach (checkEdge node) node.edges = .ok () ↔
      validateEdges node.edges = .ok () ∧
        forEach (Manager.checkExtent node.outputs) node.edges = .ok () := by
  have hlength : node.edges ≠ [] ∧ node.edges.length ≤ NiriBridge.MAX_EDGES :=
    ⟨List.length_pos_iff.mp hcount.1, hcount.2⟩
  simp only [forEach_eq_ok, validateEdges_iff, checkEdge_eq_ok, pairwise_iff hnodup]
  constructor
  · intro hall
    refine ⟨⟨hlength, fun edge hedge => ⟨?_, ?_, (hall edge hedge).2.1⟩, fun edge hedge => ?_⟩,
      fun edge hedge => (hall edge hedge).1⟩
    · exact hvalid _ (List.mem_map_of_mem hedge)
    · obtain ⟨output, hlookup, -⟩ := bind_eq_ok.mp (hall edge hedge).1
      exact hnamed _ (mem_of_lookup (orError_eq_ok.mp hlookup))
    · exact (hall edge hedge).2.2
  · rintro ⟨⟨-, hsound, hpairs⟩, hextent⟩ edge hedge
    exact ⟨hextent edge hedge, (hsound edge hedge).2.2, hpairs edge hedge⟩

/-- A draft without errors has a right number of connections, and each passes its check on both
sides. -/
theorem validationError_eq_none {d : LayoutDraft} :
    d.validationError = none ↔ (1 ≤ d.own.edges.length ∧ d.own.edges.length ≤ MAX_EDGES) ∧
      forEach (checkEdge d.own) d.own.edges = .ok () ∧
      forEach (checkEdge d.peer) d.peer.edges = .ok () := by
  have hcheck : d.check = .ok () ↔ (1 ≤ d.own.edges.length ∧ d.own.edges.length ≤ MAX_EDGES) ∧
      forEach (checkEdge d.own) d.own.edges = .ok () ∧
      forEach (checkEdge d.peer) d.peer.edges = .ok () := by
    rw [LayoutDraft.check, check_bind_eq_ok, ensure_eq_ok, check_bind_eq_ok]
  rw [← hcheck, LayoutDraft.validationError]
  cases d.check with
  | ok u => exact ⟨fun _ => rfl, fun _ => rfl⟩
  | error e => exact ⟨by simp, by simp⟩

/-! ### Agreement -/

theorem Paired.length_eq {own peer : List String} (h : Paired own peer) :
    own.length = peer.length :=
  ((List.perm_ext_iff_of_nodup h.nodup h.nodup').mpr h.same).length_eq

/-- A draft of two desktops that their devices have sent passes its own check exactly when it passes
those of the devices that are to save it. -/
theorem validators_agree {own peer : Desktop} (hown : own.validate = .ok ())
    (hpeer : peer.validate = .ok ())
    (hnames : ∀ p ∈ own.outputs, p.1 ≠ "" ∧ ¬ p.1.toList.any isControl)
    (hnames' : ∀ p ∈ peer.outputs, p.1 ≠ "" ∧ ¬ p.1.toList.any isControl) {d : LayoutDraft}
    (h : Reachable own peer d) :
    (d.validationError = none ↔
      validateEdges d.own.edges = .ok () ∧ validateEdges d.peer.edges = .ok () ∧
        (∀ identifier, identifier ∈ d.own.ids ↔ identifier ∈ d.peer.ids) ∧
        forEach (Manager.checkExtent own.outputs) d.own.edges = .ok () ∧
        forEach (Manager.checkExtent peer.outputs) d.peer.edges = .ok ()) ∧
      d.own.ids.Nodup ∧ d.peer.ids.Nodup ∧
      ∀ identifier, identifier ∈ d.own.ids ↔ identifier ∈ d.peer.ids := by
  -- what the two desktops were accepted with
  have hdesktop : ∀ {desktop : Desktop}, desktop.validate = .ok () →
      (∀ p ∈ desktop.outputs, p.1 ≠ "" ∧ ¬ p.1.toList.any isControl) →
        validateEdges desktop.edges = .ok () ∧ Named desktop.outputs := by
    intro desktop hvalid hname
    obtain ⟨hedges, hrest⟩ := check_bind_eq_ok.mp hvalid
    obtain ⟨-, houtputs⟩ := check_bind_eq_ok.mp hrest
    refine ⟨hedges, fun p hp => ⟨(hname p hp).1, ?_, (hname p hp).2⟩⟩
    exact (ensure_eq_ok.mp (forEach_eq_ok.mp houtputs p hp)).1
  obtain ⟨hedges, hnamed⟩ := hdesktop hown hnames
  obtain ⟨hedges', hnamed'⟩ := hdesktop hpeer hnames'
  obtain ⟨hpaired, ⟨houtputs, houtputs'⟩, -⟩ := h.draws hedges hedges'
  rw [← houtputs] at hnamed ⊢
  rw [← houtputs'] at hnamed' ⊢
  have hvalid' : ∀ identifier ∈ d.peer.ids, validEdgeId identifier = true := fun identifier hid =>
    hpaired.valid identifier ((hpaired.same identifier).mpr hid)
  have hlength : d.own.edges.length = d.peer.edges.length := by
    simpa [Chosen.ids] using hpaired.length_eq
  refine ⟨?_, hpaired.nodup, hpaired.nodup', hpaired.same⟩
  -- both validators check the same list, edge by edge
  rw [validationError_eq_none]
  constructor
  · rintro ⟨hcount, hchecks, hchecks'⟩
    obtain ⟨hedges, hextents⟩ :=
      (checkEdges_iff hpaired.nodup hpaired.valid hnamed hcount).mp hchecks
    obtain ⟨hedges', hextents'⟩ :=
      (checkEdges_iff hpaired.nodup' hvalid' hnamed' (hlength ▸ hcount)).mp hchecks'
    exact ⟨hedges, hedges', hpaired.same, hextents, hextents'⟩
  · rintro ⟨hedges, hedges', -, hextents, hextents'⟩
    have hcount : 1 ≤ d.own.edges.length ∧ d.own.edges.length ≤ Canvas.MAX_EDGES := by
      obtain ⟨⟨hne, hmax⟩, -⟩ := validateEdges_iff.mp hedges
      exact ⟨List.length_pos_iff.mpr hne, hmax⟩
    refine ⟨hcount, ?_, ?_⟩
    · exact (checkEdges_iff hpaired.nodup hpaired.valid hnamed hcount).mpr ⟨hedges, hextents⟩
    · exact (checkEdges_iff hpaired.nodup' hvalid' hnamed' (hlength ▸ hcount)).mpr
        ⟨hedges', hextents'⟩

section Sample

/-- An output that is not scaled. -/
def screen (x y : ℤ) (width height : ℕ) : LogicalOutput where
  x := x
  y := y
  width := width
  height := height
  scale := 1
  transform := .normal

/-- A connection along a whole side. -/
def fullEdge (identifier name : String) (edge : Edge) : EdgeConfig where
  id := identifier
  output := name
  boundary := { edge := edge, start := 0, «end» := 1 }

/-- Two desktops of one screen, each with a connection that the other one lacks. -/
def sampleOwn : Desktop where
  edges := [fullEdge "default" "eDP-1" .top, fullEdge "desk" "eDP-1" .left]
  revision := ""
  outputs := [("eDP-1", screen 0 0 1920 1080)]

/-- A desktop of one screen with two connections. -/
def samplePeer : Desktop where
  edges := [fullEdge "default" "DP-1" .bottom, fullEdge "shelf" "DP-1" .left]
  revision := ""
  outputs := [("DP-1", screen 0 0 2560 1440)]

/-- An identifier as `uuid4` draws them. -/
def someUuid : String := "0123456789abcdef0123456789abcdef"

theorem someUuid_isUuid : IsUuid someUuid where
  length := rfl
  digits := List.all_iff_forall_prop.mp (by decide)

/-- Half of the first connection is given up, and another one added. -/
def sampleEdits : List Op := [.changeEnd .own (1 / 2), .addConnection someUuid]

/-- The lacking connections are added, one is made shorter, and a fourth one is added. -/
theorem validators_agree_edits : ∃ d d', LayoutDraft.new sampleOwn samplePeer = some d ∧
    d.repaired = true ∧ d' = sampleEdits.foldl (fun d op => op.after d) d ∧
    d'.own.ids = ["default", "desk", "shelf", someUuid] ∧ d'.peer.ids.Nodup ∧
    validateEdges d'.own.edges = .ok () ∧ validateEdges d'.peer.edges = .ok () ∧
    forEach (Manager.checkExtent sampleOwn.outputs) d'.own.edges = .ok () ∧
    forEach (Manager.checkExtent samplePeer.outputs) d'.peer.edges = .ok () := by
  have hfacts : (LayoutDraft.new sampleOwn samplePeer).map (fun d =>
      let d' := sampleEdits.foldl (fun d op => op.after d) d
      (d.repaired, ((Op.changeEnd .own (1 / 2)).after d).own.ids, d'.own.ids, d'.validationError)) =
        some (true, ["default", "desk", "shelf"],
          ["default", "desk", "shelf", someUuid], none) := by
    decide +kernel
  obtain ⟨d, hd, hvalues⟩ := Option.map_eq_some_iff.mp hfacts
  simp only [Prod.mk.injEq] at hvalues
  obtain ⟨hrepaired, hids, hids', herror⟩ := hvalues
  have hreached :
      Reachable sampleOwn samplePeer (sampleEdits.foldl (fun d op => op.after d) d) := by
    refine .edit (.edit (.new hd) (.changeEnd .own (1 / 2)) trivial) (.addConnection someUuid) ?_
    refine ⟨someUuid_isUuid, fun hmem => ?_⟩
    have hmem' : someUuid ∈ ((Op.changeEnd .own (1 / 2)).after d).own.ids := hmem
    rw [hids] at hmem'
    exact absurd hmem' (by decide)
  obtain ⟨hagree, -, hnodup, -⟩ := validators_agree rfl rfl (by decide) (by decide) hreached
  obtain ⟨hvalid, hvalid', -, hextents, hextents'⟩ := hagree.mp herror
  exact ⟨d, _, hd, hrepaired, rfl, hids', hnodup, hvalid, hvalid', hextents, hextents'⟩

end Sample

end NiriBridge.Canvas
