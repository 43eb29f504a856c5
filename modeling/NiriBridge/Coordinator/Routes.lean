import NiriBridge.Coordinator.Placing
import NiriBridge.Coordinator.Waiting
import NiriBridge.Edges.Strips

/-!
# Coordinator — Routes

An edge has a place in the configuration, a place among the edges a capture was started with, and an
id, and only the id is known to the peer.  Two desktops that know each other agree on the ids that
both can use (`mem_activeIds_symm`), and a position that names such an id is one of this device
(`returnEdge_of_active`).

* `Says.position`: a position that is written names the edge that the pointer has crossed.
* `pass_begin_shows`, `pass_end_shows`: where the pointer appears when a session is entered or
  returns.
-/

namespace NiriBridge

open Hoare

namespace Coordinator

variable {A B T D : Type} {F : Format T D} {env : Env T} {s s' : Coordinator A B T}

/-! ### The ids both devices can use -/

/-- The ids of the active edges. -/
def activeIds (own : Desktop) (peer : Option Desktop) : List String :=
  (activeEdges own peer).filterMap fun index => own.edges[index]?.map EdgeConfig.id

/-- The desktop has an edge with this id, on an output it shows. -/
def Offers (d : Desktop) (id : String) : Prop :=
  ∃ e ∈ d.edges, e.id = id ∧ d.outputs.containsKey e.output = true

/-- An edge is active if its output is there and the peer offers it. -/
theorem mem_activeEdges {own peer : Desktop} {index : ℕ} :
    index ∈ activeEdges own (some peer) ↔
    ∃ e, own.edges[index]? = some e ∧ isAvailable own peer e = true := by
  simp only [activeEdges, List.mem_map, List.mem_filter, List.mem_zipIdx_iff_getElem?]
  constructor
  · rintro ⟨⟨e, i⟩, ⟨he, ha⟩, rfl⟩
    exact ⟨e, he, ha⟩
  · rintro ⟨e, he, ha⟩
    exact ⟨(e, index), ⟨he, ha⟩, rfl⟩

theorem isAvailable_iff {own peer : Desktop} {e : EdgeConfig} :
    isAvailable own peer e = true ↔ own.outputs.containsKey e.output = true ∧ Offers peer e.id := by
  simp only [isAvailable, Offers, Bool.and_eq_true, List.any_eq_true, beq_iff_eq]

/-- The ids of the active edges, in the order of the configuration. -/
theorem activeIds_eq (own peer : Desktop) :
    activeIds own (some peer) = (own.edges.filter fun e =>
      isAvailable own peer e).map EdgeConfig.id := by
  have hindex : ∀ p ∈ own.edges.zipIdx.filter fun p => isAvailable own peer p.1,
      (own.edges[p.2]?.map EdgeConfig.id) = some p.1.id := by
    intro p hp
    rw [List.mem_zipIdx_iff_getElem?.mp (List.mem_of_mem_filter hp)]
    rfl
  have hfst : (own.edges.zipIdx.filter fun p => isAvailable own peer p.1).map Prod.fst =
      own.edges.filter fun e => isAvailable own peer e := by
    have hfilter :=
      List.filter_map (f := Prod.fst) (p := fun e => isAvailable own peer e) (l := own.edges.zipIdx)
    rw [List.zipIdx_map_fst] at hfilter
    exact hfilter.symm
  rw [activeIds, activeEdges, List.filterMap_map, ← hfst, List.map_map]
  rw [List.filterMap_congr (g := fun p => some p.1.id) hindex, List.filterMap_eq_map']
  rfl

/-- An id is active when both devices offer it. -/
theorem mem_activeIds {own peer : Desktop} {id : String} :
    id ∈ activeIds own (some peer) ↔ Offers own id ∧ Offers peer id := by
  simp only [activeIds_eq, List.mem_map, List.mem_filter, isAvailable_iff]
  constructor
  · rintro ⟨e, ⟨he, hout, hpeer⟩, rfl⟩
    exact ⟨⟨e, he, rfl, hout⟩, hpeer⟩
  · rintro ⟨⟨e, he, rfl, hout⟩, hpeer⟩
    exact ⟨e, ⟨he, hout, hpeer⟩, rfl⟩

/-- **The ids are the same from both sides.** -/
theorem mem_activeIds_symm {own peer : Desktop} {id : String} :
    id ∈ activeIds own (some peer) ↔ id ∈ activeIds peer (some own) := by
  rw [mem_activeIds, mem_activeIds, and_comm]

/-- Distinct edges have distinct active ids. -/
theorem nodup_activeIds {own : Desktop} (peer : Option Desktop)
    (h : (own.edges.map EdgeConfig.id).Nodup) :
    (activeIds own peer).Nodup := by
  cases peer with
  | none => exact List.nodup_nil
  | some peer =>
      rw [activeIds_eq]
      exact h.sublist (List.filter_sublist.map _)

/-- The two sides have the same active edges. -/
theorem activeIds_perm {own peer : Desktop} (hown : (own.edges.map EdgeConfig.id).Nodup)
    (hpeer : (peer.edges.map EdgeConfig.id).Nodup) :
    (activeIds own (some peer)).Perm (activeIds peer (some own)) :=
  (List.perm_ext_iff_of_nodup (nodup_activeIds _ hown) (nodup_activeIds _ hpeer)).mpr fun _ =>
    mem_activeIds_symm

/-! ### Positions of the peer -/

/-- The edge to enter on is one of the configuration. -/
theorem mem_of_entryEdge {id : String} {edge : EdgeConfig} (h : s.entryEdge id = some edge) :
    edge ∈ s.config.edges ∧ edge.id = id := by
  obtain ⟨⟨e, index⟩, hfind, rfl⟩ := Option.map_eq_some_iff.mp h
  have hid := List.find?_some hfind
  have hget := List.mem_zipIdx_iff_getElem?.mp (List.mem_of_find?_eq_some hfind)
  exact ⟨List.mem_of_getElem? hget, beq_iff_eq.mp (Bool.and_eq_true_iff.mp hid).1⟩

/-- The edge to return to is the one the exit names. -/
theorem mem_of_returnEdge {edge : ℕ} {fraction : ℚ} {exit : EdgePosition} {r : EdgeConfig × ℚ}
    (h : s.returnEdge edge fraction (some exit) = .ok r) :
    r.1 ∈ s.config.edges ∧ r.1.id = exit.edgeId ∧ r.2 = exit.fraction := by
  simp only [returnEdge, bind_eq_ok, orError_eq_ok] at h
  obtain ⟨⟨e, index⟩, hfind, -, -, hr⟩ := h
  cases hr
  have hget := List.mem_zipIdx_iff_getElem?.mp (List.mem_of_find?_eq_some hfind)
  have hid := List.find?_some hfind
  exact ⟨List.mem_of_getElem? hget, beq_iff_eq.mp hid, rfl⟩

/-- The ids of different edges differ, so the first edge with an active id is the active one. -/
theorem returnEdge_of_active {exit : EdgePosition} (edge : ℕ) (fraction : ℚ)
    (hedges : s.desktop.edges = s.config.edges) (hnodup : (s.config.edges.map EdgeConfig.id).Nodup)
    (havailable : s.availableEdges = activeEdges s.desktop s.peerDesktop)
    (hid : exit.edgeId ∈ activeIds s.desktop s.peerDesktop) :
    ∃ e, s.returnEdge edge fraction (some exit) = .ok (e, exit.fraction) := by
  obtain ⟨index, hindex, hlookup⟩ := List.mem_filterMap.mp hid
  rw [hedges] at hlookup
  obtain ⟨e, he, hidEq⟩ := Option.map_eq_some_iff.mp hlookup
  cases hfind : s.config.edges.zipIdx.find? fun p => p.1.id == exit.edgeId with
  | none =>
      have hnone := List.find?_eq_none.mp hfind (e, index) (List.mem_zipIdx_iff_getElem?.mpr he)
      exact absurd (beq_iff_eq.mpr hidEq) hnone
  | some p =>
      obtain ⟨e', index'⟩ := p
      have he' := List.mem_zipIdx_iff_getElem?.mp (List.mem_of_find?_eq_some hfind)
      have hfound := List.find?_some hfind
      have hid' : e'.id = exit.edgeId := beq_iff_eq.mp hfound
      have hsame :
          (s.config.edges.map EdgeConfig.id)[index']? =
          (s.config.edges.map EdgeConfig.id)[index]? := by
        rw [List.getElem?_map, List.getElem?_map, he', he, Option.map_some,
          Option.map_some, hid', hidEq]
      have hlt : index' < (s.config.edges.map EdgeConfig.id).length := by
        rw [List.length_map]
        exact (List.getElem?_eq_some_iff.mp he').1
      obtain rfl : index' = index := (List.getElem?_inj hlt hnodup).mp hsame
      have hmem : index' ∈ s.availableEdges := havailable ▸ hindex
      refine ⟨e', ?_⟩
      simp only [returnEdge, hfind]
      simp [orError, ensure, hmem, bind, Except.bind, pure, Except.pure]

/-! ### Positions of this device -/

/-- The position that a message names. -/
def position : Message → Option EdgePosition
  | .begin _ entry => some entry
  | .end _ exit => exit
  | _ => none

/-- The worker of the current capture reports that the pointer has crossed the edge with this place
in the configuration, and it is one of the available edges. -/
def Crosses (s : Coordinator A B T) (event : Event) (edge : ℕ) (fraction : ℚ) : Prop :=
  ∃ index,
  event = .capture (some ⟨s.generation, .started index fraction⟩) ∧ s.capture.isSome = true ∧
    s.captureEdges[index]? = some edge ∧ edge ∈ s.availableEdges

/-- **What is written names the edge that was crossed.** -/
theorem Says.position {event : Event} {frame : Option Frame} {w : List Frame} {f : Frame}
    {p : EdgePosition} (h : Says s event frame w) (hf : f ∈ w) (hp : position f.message = some p) :
    ∃ edge, frame = none ∧ s.Crosses event edge p.fraction ∧ p.edgeId = (edgeAt s.config edge).id ∧
      (∀ n, f.message = .end n (some p) → s.role = .receiving n) := by
  cases h with
  | nothing => exact absurd hf List.not_mem_nil
  | outputs outputs =>
      obtain rfl := List.mem_singleton.mp hf
      cases hp
  | crossed hcapture h =>
      cases h with
      | nothing => exact absurd hf List.not_mem_nil
      | starts hrole hedge havailable =>
          obtain rfl := List.mem_singleton.mp hf
          cases hp
          exact ⟨_, rfl, ⟨_, rfl, hcapture, hedge, havailable⟩, rfl, fun n hn => by cases hn⟩
      | returns hrole hedge havailable =>
          obtain rfl := List.mem_singleton.mp hf
          cases hp
          refine ⟨_, rfl, ⟨_, rfl, hcapture, hedge, havailable⟩, rfl, fun n hn => ?_⟩
          cases hn
          exact hrole

/-- An edge that is crossed is active. -/
theorem Crosses.active {event : Event} {edge : ℕ} {fraction : ℚ} (h : s.Crosses event edge fraction)
    (hedges : s.desktop.edges = s.config.edges)
    (havailable : s.availableEdges = activeEdges s.desktop s.peerDesktop) :
    (edgeAt s.config edge).id ∈ activeIds s.desktop s.peerDesktop := by
  obtain ⟨index, -, -, -, hmem⟩ := h
  rw [havailable] at hmem
  refine List.mem_filterMap.mpr ⟨edge, hmem, ?_⟩
  cases hpeer : s.peerDesktop with
  | none =>
      rw [hpeer] at hmem
      exact absurd hmem List.not_mem_nil
  | some peer =>
      rw [hpeer] at hmem
      obtain ⟨e, he, -⟩ := mem_activeEdges.mp hmem
      rw [hedges] at he
      rw [hedges, he, edgeAt, List.getD_eq_getElem?_getD, he]
      rfl

/-! ### The pointer appears -/

variable [InputSink B]

/-- The pointer is put on the edge: the receiver goes from `r` to `r'` by the placement. -/
def Shows (env : Env T) (edge : EdgeConfig) (fraction : ℚ) (r r' : Receiver B) : Prop :=
  ∃ outputs event, env.outputs = .ok outputs ∧ placement outputs edge fraction = .ok event ∧
    Receiver.positionOn edge.output event r = .ok () r'

/-- A placement changes the receiver alone. -/
theorem place_shows (edge : EdgeConfig) (fraction : ℚ) (s : Coordinator A B T) :
    wp (place env edge fraction) s
      (fun _ s' =>
        Shows env edge fraction s.receiver s'.receiver ∧ s' = { s with receiver := s'.receiver })
      (fun _ _ => True) := by
  rw [place, wp_bind, wp_external]
  refine ⟨fun outputs houtputs => ?_, fun _ _ => trivial⟩
  rw [wp_bind, wp_own]
  refine ⟨fun event hevent => ?_, fun _ _ => trivial⟩
  rw [wp_onReceiver]
  refine wp_mono (wp_self _ _) (fun _ r hr => ?_) fun _ _ _ => trivial
  exact ⟨⟨outputs, event, houtputs, hevent, hr⟩, rfl⟩

variable [ActivitySource A]

/-- What follows the giving up at the head of the loop leaves the receiver alone. -/
theorem head_receiver (s : Coordinator A B T) :
    wp (head env) s
      (fun _ s' =>
        (∀ n, s'.role = .receiving n → s'.receiver = s.receiver ∧ s.role = .receiving n) ∧
      (s.role = .local → s.capture = none → s'.receiver = s.receiver)) (fun _ _ => True) := by
  rw [head, wp_bind, wp_modify, wp_bind]
  refine wp_mono (leaveOutdated_spec (c := False) False.elim)
    (fun _ s₁ h₁ => ?_) fun _ _ _ => trivial
  obtain ⟨-, hkept, hleft⟩ := h₁
  have hrest : Steady True (do
      let s ← get
      let events ← onActivity (ActivitySource.routeTouchpads s.role.isSending)
      sendInputs env events
      armCapture env : CoordinatorM A B T Unit) :=
    steady_get fun _ => steady_bind (steady_onActivity _) fun events =>
      steady_bind (steady_sendInputs events) fun _ => steady_armCapture
  refine wp_mono (hrest s₁) (fun _ s₂ h₂ => ⟨fun n hn => ?_, fun hrole hcapture => ?_⟩) fun _ _ _ =>
    trivial
  · have hreceiver : s₂.receiver = s₁.receiver := congrArg Prod.fst h₂
    have hrole : s₁.role = .receiving n := by
      rw [receiving_iff] at hn ⊢
      exact (congrArg Prod.snd h₂).symm.trans hn
    cases hout : s.refreshed.outdated with
    | true => exact absurd ((hleft hout).1.symm.trans hrole) (by simp)
    | false =>
        rw [hkept hout] at hreceiver hrole
        exact ⟨hreceiver, hrole⟩
  · have hreceiver : s₂.receiver = s₁.receiver := congrArg Prod.fst h₂
    have hout : s.refreshed.outdated = false := by
      simp [outdated, Coordinator.refreshed, hrole, hcapture, Role.session]
    rw [hkept hout] at hreceiver
    exact hreceiver

/-- A session is entered where its beginning says. -/
theorem peerBegin_shows (session : ℕ) (entry : EdgePosition) (s : Coordinator A B T) :
    wp (peerBegin env session entry) s (fun _ s' => s'.role = .receiving session →
      ∃ edge ∈ s.config.edges,
      edge.id = entry.edgeId ∧ ∃ r, Receiver.begin session s.receiver = .ok true r ∧
        Shows env edge entry.fraction r s'.receiver) (fun _ _ => True) := by
  rw [peerBegin, wp_bind, wp_get, wp_bind]
  -- whether it may enter is decided first, with a reading of the devices at most
  have hask : wp (if (s.entryEdge entry.edgeId).isSome then mayEnter else pure false) s
      (fun accepted s' =>
        ∃ activity, s' = { s with activity := activity } ∧ (accepted = true → s.role = .local))
      (fun _ _ => True) := by
    rw [wp_ite]
    refine ⟨fun _ => ?_, fun _ => ⟨s.activity, rfl, fun h => absurd h (by simp)⟩⟩
    rw [mayEnter, wp_bind, wp_get, wp_ite]
    refine ⟨fun hmay => ?_, fun _ => ⟨s.activity, rfl, fun h => absurd h (by simp)⟩⟩
    rw [wp_bind]
    refine wp_mono sample_activity (fun _ s₁ h₁ => ?_) fun _ _ _ => trivial
    obtain ⟨activity, rfl⟩ := h₁
    exact ⟨activity, rfl, fun _ => hmay.1⟩
  refine wp_mono hask (fun accepted s₁ h₁ => ?_) fun _ _ _ => trivial
  obtain ⟨activity, rfl, hlocal⟩ := h₁
  -- a refusal does not make the role a receiving one
  have hrefused : ∀ s₁ : Coordinator A B T, s₁.role ≠ .receiving session →
      wp (sendFrame env ⟨.end session none, false⟩) s₁
        (fun _ s' =>
          s'.role = .receiving session → ∃ edge ∈ s.config.edges, edge.id = entry.edgeId ∧
          ∃ r,
          Receiver.begin session s.receiver = .ok true r ∧
          Shows env edge entry.fraction r s'.receiver)
        (fun _ _ => True) := fun s₁ hne =>
    wp_mono (sendFrame_spec env _ s₁)
      (fun _ s' hs' hrole => by rw [hs'] at hrole; exact absurd hrole hne)
      fun _ _ _ => trivial
  cases accepted with
  | false =>
      cases s.entryEdge entry.edgeId <;> cases s.role <;>
        first | exact hrefused _ (by simp) | trivial
  | true =>
      have hlocal := hlocal rfl
      cases hedge : s.entryEdge entry.edgeId with
      | none =>
          rw [hlocal]
          exact hrefused _ (by simp)
      | some edge =>
          rw [wp_bind, wp_onReceiver]
          refine wp_mono (wp_self _ _) (fun started r hr => ?_) fun _ _ _ => trivial
          rw [wp_bind, wp_own]
          refine ⟨fun _ hstarted => ?_, fun _ _ => trivial⟩
          obtain rfl : started = true := ensure_eq_ok.mp hstarted
          rw [wp_bind]
          refine wp_mono (place_shows edge entry.fraction _)
            (fun _ s₂ h₂ => ?_) fun _ _ _ => trivial
          obtain ⟨hmem, hid⟩ := mem_of_entryEdge hedge
          exact fun _ => ⟨edge, hmem, hid, r, hr, h₂.1⟩

/-- A pass that enters a session puts the pointer on the edge its beginning names. -/
theorem pass_begin_shows (event : Event) (session : ℕ) (entry : EdgePosition) (own : Bool)
    (s : Coordinator A B T) :
    wp (pass F env event (some ⟨.begin session entry, own⟩)) s
      (fun _ s' => s'.role = .receiving session →
      ∃ edge ∈ s.config.edges,
      edge.id = entry.edgeId ∧ ∃ r, Receiver.begin session s.receiver = .ok true r ∧
        Shows env edge entry.fraction r s'.receiver) (fun _ _ => True) := by
  rw [pass, wp_bind]
  refine wp_mono (peerBegin_shows session entry s) (fun _ s₁ h₁ => ?_) fun _ _ _ => trivial
  refine wp_mono (head_receiver s₁) (fun _ s₂ h₂ hrole => ?_) fun _ _ _ => trivial
  obtain ⟨hreceiver, hrole₁⟩ := h₂.1 session hrole
  rw [hreceiver]
  exact h₁ hrole₁

/-- A pass in which the pointer returns puts it on the edge that the end names. -/
theorem pass_end_shows {session sequence index : ℕ} {fraction : ℚ} (event : Event)
    (exit : EdgePosition) (own : Bool) (hrole : s.role = .sending session sequence index fraction)
    (hready : s.localReady = true) :
    wp (pass F env event (some ⟨.end session (some exit), own⟩)) s (fun _ s' =>
      ∃ edge ∈ s.config.edges,
      edge.id = exit.edgeId ∧ ∃ r, Receiver.end session s.receiver = .ok () r ∧
        Shows env edge exit.fraction r s'.receiver) (fun _ _ => True) := by
  rw [pass, wp_bind, peerMessage, peerEnd, wp_bind, wp_get, hrole, wp_ite]
  refine ⟨fun _ => ?_, fun hne => absurd rfl hne⟩
  rw [wp_bind, wp_onReceiver]
  refine wp_mono (wp_self _ _) (fun _ r hr => ?_) fun _ _ _ => trivial
  rw [wp_bind]
  refine wp_mono (stopCapture_spec env _) (fun _ s₁ hs₁ => ?_) fun _ _ _ => trivial
  refine wp_ite.mpr ⟨fun _ => ?_, fun hne => absurd hready hne⟩
  rw [wp_bind, wp_own]
  refine ⟨fun target htarget => ?_, fun _ _ => trivial⟩
  obtain ⟨hmem, hid, hfraction⟩ := mem_of_returnEdge htarget
  obtain ⟨edge, at'⟩ := target
  rw [wp_bind]
  refine wp_mono (place_shows edge at' s₁) (fun _ s₂ h₂ => ?_) fun _ _ _ => trivial
  rw [setRole, rearm, wp_bind, wp_modify, wp_modify]
  refine wp_mono (head_receiver _) (fun _ s₃ h₃ => ?_) fun _ _ _ => trivial
  have hcapture : s₂.capture = none := by
    rw [h₂.2, hs₁]
  rw [h₃.2 rfl hcapture]
  obtain rfl : at' = exit.fraction := hfraction
  refine ⟨edge, hmem, hid, r, hr, ?_⟩
  have hs₁' : s₁.receiver = r := by rw [hs₁]
  exact hs₁' ▸ h₂.1

end Coordinator

end NiriBridge
