import NiriBridge.Capture.Story
import NiriBridge.Support.Run

/-!
# Capture — Stream

The story of a capture over every sequence of events.  Each handler keeps the invariant, and a
handler that panics does not occur.

* `stream_order`: every sequence of events.
* `worker_stream`: the worker itself.
-/

namespace NiriBridge.Capture

open Transcript

namespace State

variable {g : ℕ} {s s' s'' : State} {env : Surroundings}

/-! ### What a step does -/

/-- The selected strip stays selected, and a capture that has finished has. -/
structure Continues (s s' : State) : Prop where
  selected : ∀ edge, s.selected = some edge → s'.selected = some edge
  finished : s.finished = true → s'.finished = true ∧ s'.stream = s.stream ∧
    s'.counts.stopReason = s.counts.stopReason

instance : IsPreorder State Continues where
  refl _ := ⟨fun _ => id, fun h => ⟨h, rfl, rfl⟩⟩
  trans _ _ _ h h' := by
    refine ⟨fun edge he => h'.selected edge (h.selected edge he), fun hf => ?_⟩
    obtain ⟨hf₁, hs₁, hr₁⟩ := h.finished hf
    obtain ⟨hf₂, hs₂, hr₂⟩ := h'.finished hf₁
    exact ⟨hf₂, hs₂.trans hs₁, hr₂.trans hr₁⟩

/-- A step that requests no capture. -/
structure Fine (g : ℕ) (s s' : State) : Prop where
  selected : s'.selected = s.selected
  continues : Continues s s'
  inv : Inv g s'

theorem Onward.continues (h : Onward s s') : Continues s s' :=
  ⟨fun _ he => h.selected.trans he, h.finished⟩

/-- Fine steps may follow each other. -/
theorem Fine.trans (h : Fine g s s') (h' : Fine g s' s'') : Fine g s s'' :=
  ⟨h'.selected.trans h.selected, trans_of Continues h.continues h'.continues, h'.inv⟩

theorem fine_rfl (h : Inv g s) : Fine g s s := ⟨rfl, refl_of Continues s, h⟩

/-- A capture may end at any time. -/
theorem fine_finish (h : Inv g s) (reason : String) : Fine g s (s.finish reason) :=
  ⟨rfl, (onward_finish s reason).continues, h.finish reason⟩

/-- What the story is not made of. -/
theorem fine_aside (h : Inv g s) {counts : Counts} (outputs : SortedMap String ℕ)
    (pointer keyboard : Bool) (strips : List Laid) (scrollSource : ScrollSource)
    (hfocus : counts.keyboardFocusObserved = true → s.selected.isSome = true)
    (hreason : counts.stopReason = s.counts.stopReason) :
    Fine g s { s with
      counts := counts
      outputs := outputs
      pointer := pointer
      keyboard := keyboard
      strips := strips
      scrollSource := scrollSource } :=
  ⟨rfl, ⟨fun _ => id, fun hf => ⟨hf, rfl, hreason⟩⟩,
    ⟨h.tells.requested, hfocus, h.tells.waiting, h.tells.started, h.tells.alternates⟩, h.keys⟩

/-- Only counters have changed. -/
theorem fine_counts (h : Inv g s) {counts : Counts}
    (hfocus : counts.keyboardFocusObserved = s.counts.keyboardFocusObserved)
    (hreason : counts.stopReason = s.counts.stopReason) : Fine g s { s with counts := counts } :=
  fine_aside h s.outputs s.pointer s.keyboard s.strips s.scrollSource
    (fun hf => h.tells.focus (hfocus ▸ hf)) hreason

/-- An input selects no strip, and the worker goes on with its story. -/
theorem continues_input (env : Surroundings) (event : InputEvent) (s : State) :
    (s.input env event).selected = s.selected ∧ Continues s (s.input env event) := by
  have hfinish :
      ∀ reason, (s.finish reason).selected = s.selected ∧ Continues s (s.finish reason) :=
    fun reason => ⟨rfl, (onward_finish s reason).continues⟩
  have haccept : (s.accept event).selected = s.selected ∧ Continues s (s.accept event) := by
    rw [accept]
    split_ifs with hf
    · exact ⟨rfl, refl_of Continues s⟩
    · exact ⟨rfl, fun _ => id, fun h => absurd h hf⟩
  rw [input]
  cases event.validate with
  | error e => exact hfinish _
  | ok u =>
      dsimp only
      split_ifs
      · have ho := onward_publish env (.input event) (s.accept event)
        exact ⟨ho.selected.trans haccept.1, trans_of Continues haccept.2 ho.continues⟩
      · exact ⟨haccept.1, haccept.2.selected, haccept.2.finished⟩
      · exact hfinish _

/-- An input that is not a key requests no capture. -/
theorem fine_input (h : Inv g s) (env : Surroundings) {event : InputEvent}
    (hkey : keyLog [event] = []) :
    Fine g s (s.input env event) := by
  obtain ⟨hselected, hcontinues⟩ := continues_input env event s
  exact ⟨hselected, hcontinues, h.input env hkey⟩

/-- A key that changes what is held requests no capture. -/
theorem fine_key (h : Inv g s) (env : Surroundings) {code : ℕ} {pressed : Bool}
    (hchanged : ¬ (code ∈ s.pressedKeys ↔ pressed = true)) {keys : SortedSet ℕ}
    (hkeys : ∀ c, c ∈ keys ↔ if c = code then pressed = true else c ∈ s.pressedKeys) :
    Fine g s ({ s with pressedKeys := keys }.input env (.key code pressed)) := by
  obtain ⟨hselected, hcontinues⟩ :=
    continues_input env (.key code pressed) { s with pressedKeys := keys }
  exact ⟨hselected, ⟨hcontinues.selected, hcontinues.finished⟩, h.key env hchanged hkeys⟩

/-- **The expectation holds**: a capture that is granted has a selected edge. -/
theorem fine_reportReady (h : Inv g s) (env : Surroundings) :
    ∃ s', s.reportReady env = some s' ∧ Fine g s s' := by
  rw [reportReady]
  split_ifs with hready
  · rw [Bool.and_eq_true, Bool.not_eq_true', granted, Bool.and_eq_true, Bool.and_eq_true] at hready
    obtain ⟨hr, ⟨-, hfocus⟩, -⟩ := hready
    obtain ⟨edge, hedge⟩ := Option.isSome_iff_exists.mp (h.tells.focus hfocus)
    have hreports := reports_report env edge s
    refine ⟨s.report env edge, by rw [hedge]; rfl, hreports.selected,
      ⟨fun e he => ?_, hreports.finished⟩, h.report env hr hedge⟩
    exact hreports.selected.trans he
  · exact ⟨s, rfl, fine_rfl h⟩

/-! ### Handlers -/

/-- An event of an output requests no capture. -/
theorem fine_outputEvent (h : Inv g s) (proxy : ℕ) (event : OutputEvent) :
    Fine g s (s.outputEvent proxy event) := by
  cases event with
  | geometry | scale | mode =>
      rw [outputEvent]
      split_ifs
      · exact fine_finish h _
      · exact fine_rfl h
  | name name => exact fine_aside h _ s.pointer s.keyboard s.strips s.scrollSource h.tells.focus rfl
  | other => exact fine_rfl h

/-- An event of the seat requests no capture. -/
theorem fine_seatEvent (h : Inv g s) (event : SeatEvent) : Fine g s (s.seatEvent event) := by
  unfold seatEvent
  split
  · next pointer keyboard =>
      have hseat := fine_aside h s.outputs (s.pointer || pointer) (s.keyboard || keyboard) s.strips
        s.scrollSource h.tells.focus rfl
      dsimp only
      split_ifs
      · exact hseat.trans (fine_finish hseat.inv _)
      · exact hseat
  · exact fine_rfl h

/-- An event of a layer surface requests no capture. -/
theorem fine_layerEvent (h : Inv g s) (env : Surroundings) (proxy : ℕ) (event : LayerEvent) :
    Fine g s (s.layerEvent env proxy event) := by
  cases event with
  | configure width height =>
      rw [layerEvent]
      split
      · exact fine_finish h _
      · split_ifs
        · exact fine_rfl h
        · exact fine_finish h _
  | closed => exact fine_finish h _

/-- A relative motion requests no capture. -/
theorem fine_relativeEvent (h : Inv g s) (env : Surroundings) (event : RelativeEvent) :
    Fine g s (s.relativeEvent env event) := by
  obtain ⟨dx, dy⟩ := event
  rw [relativeEvent]
  split_ifs
  · have hcounted : Fine g s { s with
        counts := { s.counts with relativeMotionEvents := s.counts.relativeMotionEvents + 1 } } :=
      fine_counts h rfl rfl
    exact hcounted.trans (fine_input hcounted.inv env rfl)
  · exact fine_rfl h

/-- A key that is held when the keyboard enters requests no capture. -/
theorem fine_enterKey (h : Inv g s) (env : Surroundings)
    (key : ℕ) : Fine g s (s.enterKey env key) := by
  rw [enterKey]
  split_ifs with hkey
  · refine fine_key h env ?_ fun c => ?_
    · simpa using hkey.2
    · rw [SortedSet.mem_insert]
      by_cases hc : c = key <;> simp [hc]
  · exact fine_rfl h

theorem fine_enterKeys (h : Inv g s) (env : Surroundings) (keys : List ℕ) :
    Fine g s (keys.foldl (enterKey env) s) := by
  induction keys generalizing s with
  | nil => exact fine_rfl h
  | cons key keys ih =>
      have hfirst := fine_enterKey h env key
      exact hfirst.trans (ih hfirst.inv)

/-- The keyboard enters without a panic. -/
theorem fine_keyboardEnter (h : Inv g s) (env : Surroundings) (keys : List UInt8)
    (hselected : s.selected.isSome = true) :
    ∃ s', s.keyboardEnter env keys = some s' ∧ Fine g s s' := by
  have hfocus : Fine g s { s with counts := { s.counts with keyboardFocusObserved := true } } :=
    fine_aside h s.outputs s.pointer s.keyboard s.strips s.scrollSource (fun _ => hselected) rfl
  rw [keyboardEnter]
  split
  next codes whole hkeys =>
    split_ifs
    · have hall := hfocus.trans (fine_enterKeys hfocus.inv env codes)
      obtain ⟨s', hs', hfine⟩ := fine_reportReady hall.inv env
      exact ⟨s', hs', hall.trans hfine⟩
    · exact ⟨_, rfl, hfocus.trans (fine_finish hfocus.inv _)⟩

/-- A key that was so before leaves what is held as it is. -/
theorem held_of_unchanged {keys : SortedSet ℕ} {code : ℕ} {pressed : Bool}
    (h : code ∈ keys ↔ pressed = true) :
    (if pressed then keys.insert code else keys.erase code) = keys := by
  refine SortedSet.ext fun c => ?_
  cases pressed with
  | true =>
      rw [if_pos rfl, SortedSet.mem_insert]
      exact or_iff_right_of_imp fun hc => hc ▸ h.mpr rfl
  | false =>
      rw [if_neg Bool.false_ne_true, SortedSet.mem_erase]
      refine and_iff_right_of_imp fun hc hcode => ?_
      exact absurd (h.mp (hcode ▸ hc)) Bool.false_ne_true

/-- The keys that are held after a transition. -/
theorem mem_held_of_changed (keys : SortedSet ℕ) (code : ℕ) (pressed : Bool) (c : ℕ) :
    c ∈ (if pressed then keys.insert code else keys.erase code) ↔
      if c = code then pressed = true else c ∈ keys := by
  cases pressed <;> by_cases hc : c = code <;> simp [hc]

/-- A transition of a key requests no capture, also one that changes nothing. -/
theorem fine_changeKey (h : Inv g s) (env : Surroundings) (code : ℕ) (pressed : Bool) :
    Fine g s (s.changeKey env code pressed) := by
  have hchanged :
    (if pressed then decide (code ∉ s.pressedKeys) else decide (code ∈ s.pressedKeys)) = true ↔
      ¬ (code ∈ s.pressedKeys ↔ pressed = true) := by
    cases pressed <;> simp
  have hmem := mem_held_of_changed s.pressedKeys code pressed
  have hsame : (code ∈ s.pressedKeys ↔ pressed = true) → _ := held_of_unchanged
  unfold changeKey
  dsimp only
  generalize (if pressed then s.pressedKeys.insert code else s.pressedKeys.erase code) = keys
    at hmem hsame ⊢
  generalize (if pressed then decide (code ∉ s.pressedKeys)
    else decide (code ∈ s.pressedKeys)) = changed at hchanged ⊢
  split_ifs with hescape hc
  · refine ⟨rfl, ⟨fun _ => id, (onward_finish _ _).finished⟩, ⟨Tells.finish ?_ _, by rintro ⟨⟩⟩⟩
    exact ⟨h.tells.requested, h.tells.focus, h.tells.waiting, h.tells.started, h.tells.alternates⟩
  · exact fine_key h env (hchanged.mp hc) hmem
  · have hunchanged := not_not.mp (mt hchanged.mpr hc)
    rw [hsame hunchanged]
    exact fine_rfl h

/-- A key event requests no capture. -/
theorem fine_keyEvent (h : Inv g s) (env : Surroundings) (code : ℕ) (pressed : Option Bool) :
    Fine g s (s.key env code pressed) := by
  have hcounted : Fine g s { s with
      counts := { s.counts with keyboardEvents := s.counts.keyboardEvents + 1 } } :=
        fine_counts h rfl rfl
  rw [key]
  split_ifs
  · exact hcounted.trans (fine_changeKey hcounted.inv env code _)
  · exact hcounted.trans (fine_finish hcounted.inv _)

/-- The handler of the keyboard does not panic. -/
theorem fine_keyboardEvent (h : Inv g s) (env : Surroundings) (event : KeyboardEvent) :
    ∃ s', s.keyboardEvent env event = some s' ∧ Fine g s s' := by
  cases event with
  | enter surface keys =>
      rw [keyboardEvent]
      split_ifs with hsurface
      · refine fine_keyboardEnter h env keys ?_
        by_contra hnone
        rw [Bool.not_eq_true, Option.isSome_eq_false_iff, Option.isNone_iff_eq_none] at hnone
        rw [selectedSurface, hnone] at hsurface
        cases hsurface
      · exact ⟨s, rfl, fine_rfl h⟩
  | leave =>
      refine ⟨_, rfl, ?_⟩
      split_ifs
      · exact fine_finish h _
      · exact fine_rfl h
  | key code pressed =>
      refine ⟨_, rfl, ?_⟩
      split_ifs
      · exact fine_keyEvent h env code pressed
      · exact fine_rfl h
  | other => exact ⟨s, rfl, fine_rfl h⟩

/-- The handler of the locked pointer does not panic. -/
theorem fine_lockedPointerEvent (h : Inv g s) (env : Surroundings) (event : LockedPointerEvent) :
    ∃ s', s.lockedPointerEvent env event = some s' ∧ Fine g s s' := by
  cases event with
  | locked =>
      have hlocked : Fine g s { s with counts := { s.counts with pointerLockObserved := true } } :=
        fine_counts h rfl rfl
      obtain ⟨s', hs', hfine⟩ := fine_reportReady hlocked.inv env
      exact ⟨s', hs', hlocked.trans hfine⟩
  | unlocked => exact ⟨_, rfl, fine_finish h _⟩

/-- The handler of the inhibitor does not panic. -/
theorem fine_inhibitorEvent (h : Inv g s) (env : Surroundings) (event : InhibitorEvent) :
    ∃ s', s.inhibitorEvent env event = some s' ∧ Fine g s s' := by
  cases event with
  | active =>
      have hactive :
          Fine g s { s with counts := { s.counts with shortcutsInhibitedObserved := true } } :=
        fine_counts h rfl rfl
      obtain ⟨s', hs', hfine⟩ := fine_reportReady hactive.inv env
      exact ⟨s', hs', hactive.trans hfine⟩
  | inactive =>
      refine ⟨_, rfl, ?_⟩
      split_ifs
      · exact fine_finish h _
      · exact fine_rfl h

/-! ### The pointer -/

/-- The pointer enters a strip that is armed. -/
def Crosses (s : State) (event : PointerEvent) (edge : ℕ) : Prop :=
  ∃ surface x y laid, event = .enter surface x y ∧ s.entered surface = some edge ∧
    s.strips[edge]? = some laid ∧ laid.armed = true

/-- A step that requests a capture when the pointer has crossed the edge, and then only. -/
structure Steps (g : ℕ) (s s' : State) (event : PointerEvent) : Prop where
  selected : s'.selected = s.selected ∨ s.selected = none ∧
    ∃ edge, s'.selected = some edge ∧ s.Crosses event edge
  continues : Continues s s'
  inv : Inv g s'

/-- A fine step selects no strip. -/
theorem Fine.steps (h : Fine g s s') (event : PointerEvent) : Steps g s s' event :=
  ⟨.inl h.selected, h.continues, h.inv⟩

/-- Before a request no strip is selected and readiness has not been reported. -/
theorem Inv.unselected (h : Inv g s) (hrequested : s.requested = false) :
    s.selected = none ∧ s.readyReported = false := by
  have hselected : s.selected = none := by
    have hisSome := h.tells.requested
    rw [hrequested] at hisSome
    exact Option.isNone_iff_eq_none.mp (Option.isSome_eq_false_iff.mp hisSome.symm)
  refine ⟨hselected, ?_⟩
  by_contra hr
  obtain ⟨edge, -, -, hedge, -⟩ := h.tells.started (eq_true_of_ne_false hr)
  cases hselected.symm.trans hedge

/-- Before a capture is requested its fraction and its strip are free. -/
theorem Inv.request (h : Inv g s) (hrequested : s.requested = false) (fraction : ℚ)
    (selected : Option ℕ) :
    Inv g
      { s with startFraction := fraction, selected := selected, requested := selected.isSome } := by
  obtain ⟨hselected, hr⟩ := h.unselected hrequested
  refine ⟨⟨rfl, fun hf => ?_, h.tells.waiting, fun hr' => ?_, h.tells.alternates⟩, h.keys⟩
  · have hsome := h.tells.focus hf
    rw [hselected] at hsome
    cases hsome
  · exact absurd (hr.symm.trans hr') (by simp)

/-- A request is heard once, before the capture has finished. -/
theorem requestCapture_spec (h : Inv g s) (env : Surroundings) (edge : ℕ) (fraction : ℚ) :
    Continues s (s.requestCapture env edge fraction) ∧ Inv g (s.requestCapture env edge fraction) ∧
      ((s.requestCapture env edge fraction).selected = s.selected ∨
        s.selected = none ∧ (s.requestCapture env edge fraction).selected = some edge) := by
  have hfine : ∀ {s'}, Fine g s s' → Continues s s' ∧ Inv g s' ∧
      (s'.selected = s.selected ∨ s.selected = none ∧ s'.selected = some edge) :=
    fun hf => ⟨hf.continues, hf.inv, .inl hf.selected⟩
  unfold requestCapture
  split_ifs with hdone hcancelled
  · exact hfine (fine_rfl h)
  · exact hfine (fine_finish h _)
  · rw [Bool.or_eq_true, not_or, Bool.not_eq_true, Bool.not_eq_true] at hdone
    obtain ⟨hselected, -⟩ := h.unselected hdone.1
    have hcontinues : ∀ s' : State, Continues s s' := fun s' =>
      ⟨fun e he =>
        absurd (hselected.symm.trans he) (by simp),
        fun hf => absurd (hdone.2.symm.trans hf) (by simp)⟩
    dsimp only
    split_ifs with hstrip
    · exact ⟨hcontinues _, h.request hdone.1 _ (some edge), .inr ⟨hselected, rfl⟩⟩
    · have hnone : { s with startFraction := max 0 (min 1 fraction) } =
          { s with
            startFraction := max 0 (min 1 fraction), selected := none, requested :=
              (none : Option ℕ).isSome } := by
        rw [← hselected, ← h.tells.requested]
      refine ⟨hcontinues _, ?_, .inl rfl⟩
      rw [hnone]
      exact h.request hdone.1 _ none

/-- What is known of the strips may change. -/
theorem fine_strips (h : Inv g s) (strips : List Laid) : Fine g s { s with strips := strips } :=
  fine_aside h s.outputs s.pointer s.keyboard strips s.scrollSource h.tells.focus rfl

/-- A pointer that enters selects a strip at most, and then the one it crosses. -/
theorem steps_pointerEnter (h : Inv g s) (env : Surroundings) (surface : ℕ) (x y : ℚ) :
    Steps g s (s.pointerEnter env surface x y) (.enter surface x y) := by
  rw [pointerEnter]
  cases hentered : s.entered surface with
  | none => exact (fine_rfl h).steps _
  | some index =>
      dsimp only
      have hinside :=
        fine_strips h (s.strips.modify index fun strip => { strip with pointerInside := true })
      cases hlaid : s.strips[index]? with
      | none =>
          rw [List.getElem?_modify_eq, hlaid]
          exact hinside.steps _
      | some laid =>
          rw [List.getElem?_modify_eq, hlaid]
          dsimp only [Option.map_eq_map, Option.map_some]
          split_ifs with harmed
          · obtain ⟨hcontinues, hinv, hselected⟩ := requestCapture_spec hinside.inv env index
              (enterFraction laid.strip x y)
            refine ⟨?_, trans_of Continues hinside.continues hcontinues, hinv⟩
            refine hselected.imp id fun hnew => ⟨hnew.1, index, hnew.2, ?_⟩
            exact ⟨surface, x, y, laid, rfl, hentered, hlaid, harmed⟩
          · exact hinside.steps _

/-- The handler of the pointer selects a strip at most, and then the one it crosses. -/
theorem steps_pointerEvent (h : Inv g s) (env : Surroundings) (event : PointerEvent) :
    Steps g s (s.pointerEvent env event) event := by
  cases event with
  | enter surface x y => exact steps_pointerEnter h env surface x y
  | leave surface =>
      rw [pointerEvent, pointerLeave]
      cases s.entered surface with
      | none => exact (fine_rfl h).steps _
      | some index => exact (fine_strips h _).steps _
  | button button pressed =>
      cases pressed with
      | none => exact (fine_rfl h).steps _
      | some pressed =>
          -- the counters are no part of the stream
          have hcounted : Fine g s { s with
              counts := { s.counts with buttonEvents := s.counts.buttonEvents + 1 } } :=
            fine_counts h rfl rfl
          rw [pointerEvent]
          split_ifs
          · exact (hcounted.trans (fine_input hcounted.inv env rfl)).steps _
          · exact hcounted.steps _
          · exact (fine_rfl h).steps _
  | axisSource source =>
      cases source with
      | none => exact (fine_rfl h).steps _
      | some source =>
          exact (fine_aside h s.outputs s.pointer s.keyboard s.strips _ h.tells.focus rfl).steps _
  | axis axis value =>
      cases axis with
      | none => exact (fine_rfl h).steps _
      | some axis =>
          have hcounted : Fine g s { s with
              counts := { s.counts with scrollEvents := s.counts.scrollEvents + 1 } } :=
            fine_counts h rfl rfl
          rw [pointerEvent]
          split_ifs
          · exact (hcounted.trans (fine_input hcounted.inv env rfl)).steps _
          · exact (fine_rfl h).steps _
  | axisStop axis =>
      cases axis with
      | none => exact (fine_rfl h).steps _
      | some axis =>
          rw [pointerEvent]
          split_ifs
          · exact (fine_input h env rfl).steps _
          · exact (fine_rfl h).steps _
  | other => exact (fine_rfl h).steps _

/-- **No handler panics**; only the pointer requests a capture. -/
theorem dispatch_spec (h : Inv g s) (env : Surroundings) (event : Dispatched) :
    ∃ s', s.dispatch env event = some s' ∧ Continues s s' ∧ Inv g s' ∧
      (s'.selected = s.selected ∨ s.selected = none ∧ ∃ edge pointerEvent,
        event = .pointer pointerEvent ∧ s'.selected = some edge ∧ s.Crosses pointerEvent edge) := by
  have hfine : ∀ {s'}, Fine g s s' → Continues s s' ∧ Inv g s' ∧
      (s'.selected = s.selected ∨ s.selected = none ∧ ∃ edge pointerEvent,
        event = .pointer pointerEvent ∧ s'.selected = some edge ∧ s.Crosses pointerEvent edge) :=
    fun hf => ⟨hf.continues, hf.inv, .inl hf.selected⟩
  cases event with
  | output proxy event => exact ⟨_, rfl, hfine (fine_outputEvent h proxy event)⟩
  | seat event => exact ⟨_, rfl, hfine (fine_seatEvent h event)⟩
  | layer proxy event => exact ⟨_, rfl, hfine (fine_layerEvent h env proxy event)⟩
  | pointer event =>
      have hsteps := steps_pointerEvent h env event
      refine ⟨_, rfl, hsteps.continues, hsteps.inv, hsteps.selected.imp id ?_⟩
      rintro ⟨hnone, edge, hedge, hcrosses⟩
      exact ⟨hnone, edge, event, rfl, hedge, hcrosses⟩
  | relative event => exact ⟨_, rfl, hfine (fine_relativeEvent h env event)⟩
  | keyboard event =>
      obtain ⟨s', hs', hf⟩ := fine_keyboardEvent h env event
      exact ⟨s', hs', hfine hf⟩
  | locked event =>
      obtain ⟨s', hs', hf⟩ := fine_lockedPointerEvent h env event
      exact ⟨s', hs', hfine hf⟩
  | inhibitor event =>
      obtain ⟨s', hs', hf⟩ := fine_inhibitorEvent h env event
      exact ⟨s', hs', hfine hf⟩

/-! ### Runs -/

/-- What a worker does: it dispatches an event, lays the strips, arms them, gives up for a reason of
its own, or cleans up. -/
inductive Label where
  | dispatch (event : Dispatched)
  | lay (strips : List Strip) (proxies : ℕ → ℕ × ℕ)
  | arm
  | finish (reason : String)
  | cleanup

/-- What a label does; `none` is for a panic. -/
def perform (env : Surroundings) (s : State) : Label → Option State
  | .dispatch event => s.dispatch env event
  | .lay strips proxies => some (s.lay strips proxies)
  | .arm => some (s.arm env)
  | .finish reason => some (s.finish reason)
  | .cleanup => some s.cleanup

/-- A step of a worker that has not panicked. -/
def next (s : Option State) (l : Label × Surroundings) : Option State :=
  s.bind fun s => s.perform l.2 l.1

/-- The strips may be armed. -/
theorem fine_arm (h : Inv g s) (env : Surroundings) : Fine g s (s.arm env) := by
  have hstrips :=
    fine_strips h (s.strips.map fun strip : Laid => { strip with armed := !strip.pointerInside })
  have ho := onward_publish env .armed
    { s with
      strips := s.strips.map fun strip : Laid => { strip with armed := !strip.pointerInside } }
  exact hstrips.trans ⟨ho.selected, ho.continues, hstrips.inv.publish_armed env⟩

/-- What a worker does never panics, keeps the invariant, and selects a strip only when the pointer
crosses it. -/
theorem perform_spec (h : Inv g s) (env : Surroundings) (l : Label) :
    ∃ s', s.perform env l = some s' ∧ Continues s s' ∧ Inv g s' ∧
      (s'.selected = s.selected ∨ s.selected = none ∧ ∃ edge event, l = .dispatch (.pointer event) ∧
        s'.selected = some edge ∧ s.Crosses event edge) := by
  have hfine : ∀ {s'}, Fine g s s' → Continues s s' ∧ Inv g s' ∧
      (s'.selected = s.selected ∨ s.selected = none ∧ ∃ edge event, l = .dispatch (.pointer event) ∧
        s'.selected = some edge ∧ s.Crosses event edge) :=
    fun hf => ⟨hf.continues, hf.inv, .inl hf.selected⟩
  cases l with
  | dispatch event =>
      obtain ⟨s', hs', hcontinues, hinv, hselected⟩ := dispatch_spec h env event
      refine ⟨s', hs', hcontinues, hinv, hselected.imp id ?_⟩
      rintro ⟨hnone, edge, event, rfl, hedge, hcrosses⟩
      exact ⟨hnone, edge, event, rfl, hedge, hcrosses⟩
  | lay strips proxies => exact ⟨_, rfl, hfine (fine_strips h _)⟩
  | arm => exact ⟨_, rfl, hfine (fine_arm h env)⟩
  | finish reason => exact ⟨_, rfl, hfine (fine_finish h reason)⟩
  | cleanup => exact ⟨_, rfl, hfine (fine_strips h [])⟩

/-- A worker never panics, whatever it does. -/
theorem run_spec (h : Inv g s) (ls : List (Label × Surroundings)) :
    ∃ s', Run.run next (some s) ls = some s' ∧ Continues s s' ∧ Inv g s' := by
  induction ls generalizing s with
  | nil => exact ⟨s, rfl, refl_of Continues s, h⟩
  | cons l ls ih =>
      obtain ⟨s₁, hs₁, hcontinues₁, h₁, -⟩ := perform_spec h l.2 l.1
      obtain ⟨s₂, hs₂, hcontinues₂, h₂⟩ := ih h₁
      have hnext : next (some s) l = some s₁ := hs₁
      refine ⟨s₂, ?_, trans_of Continues hcontinues₁ hcontinues₂, h₂⟩
      rw [Run.run_cons, hnext, hs₂]

/-! ### The messages -/

/-- The inputs among the messages. -/
def sentInputs (s : State) : List InputEvent := inputs (s.sent.map StreamEvent.event)

/-- The inputs that were sent are a beginning of those of the text. -/
theorem Says.inputs (h : Says g s text) : Writes s.sentInputs s.finished (inputs text) := by
  have hmap : (text.map (StreamEvent.mk g)).map StreamEvent.event = text := by
    rw [List.map_map]
    exact List.map_id text
  have hevents := h.sent.filterMap (some ∘ StreamEvent.event)
  simp only [List.filterMap_eq_map, hmap] at hevents
  exact hevents.filterMap _

/-- The inputs that are sent are the first of those accepted; of a capture that is ready they are
all, unless it has finished. -/
theorem Inv.sentInputs (h : Inv g s) : s.sentInputs <+: s.accepted ∧
    (s.readyReported = true → s.finished = false → s.sentInputs = s.accepted) := by
  by_cases hr : s.readyReported = true
  · obtain ⟨edge, armed, live, -, harmed, -, haccepted, hsaid⟩ := h.tells.started hr
    have hinputs := hsaid.inputs
    rw [inputs_append, inputs_of_armed harmed, inputs_script, List.nil_append, haccepted] at hinputs
    exact ⟨hinputs.is_prefix, fun _ => hinputs.whole⟩
  · obtain ⟨⟨armed, harmed, hsaid⟩, -⟩ := h.tells.waiting (eq_false_of_ne_true hr)
    have hinputs := hsaid.inputs.is_prefix
    rw [inputs_of_armed harmed, List.prefix_nil] at hinputs
    exact ⟨hinputs ▸ List.nil_prefix, fun hr' => absurd hr' hr⟩

/-- What the messages tell of each key. -/
theorem Inv.alternates_sent (h : Inv g s) (code : ℕ) :
    Presses.Alternates false (Presses.of code (keyLog s.sentInputs)) := by
  obtain ⟨rest, hrest⟩ := h.sentInputs.1
  have hall := h.tells.alternates code
  rw [← hrest, keyLog_append, Presses.of_append, Presses.alternates_append] at hall
  exact hall.1

/-- The end of a worker says that the capture has finished, or nothing. -/
theorem sent_conclude (h : Inv g s) (full : ℕ → Bool) : (s.conclude full).sent = s.sent ∨
    (s.conclude full).sent = s.sent ++ [⟨g, .finished s.counts.stopReason⟩] := by
  have hstream : ∃ sent, s.stream = some ⟨g, sent⟩ := by
    by_cases hr : s.readyReported = true
    · obtain ⟨-, -, -, -, -, -, -, sent, hs, -⟩ := h.tells.started hr
      exact ⟨sent, hs⟩
    · obtain ⟨⟨-, -, sent, hs, -⟩, -⟩ := h.tells.waiting (eq_false_of_ne_true hr)
      exact ⟨sent, hs⟩
  obtain ⟨sent, hs⟩ := hstream
  rw [conclude, trySend, hs]
  dsimp only
  split_ifs
  · exact .inl rfl
  · refine .inr ?_
    rw [Option.getD_some, State.sent, State.sent, hs]
    rfl

/-- **The order of the stream.**  Whatever happens, no handler panics.  Before it is ready the
worker tells nothing but that its strips are armed; then it tells the story of the one strip for
which the capture was requested, with every input it has accepted, and breaks off only when the
capture finishes, after which it tells nothing but that. -/
theorem stream_order (g : ℕ) (ls : List (Label × Surroundings)) :
    ∃ s, Run.run next (some (new (some ⟨g, []⟩))) ls = some s ∧
      (s.readyReported = false → (∀ m ∈ s.sent, m = ⟨g, .armed⟩) ∧
        (s.finished = false → s.pendingInputs = s.accepted)) ∧
      (s.readyReported = true →
        ∃ edge armed live, s.selected = some edge ∧ (∀ e ∈ armed, e = .armed) ∧
        (∀ e ∈ live, e = .armed ∨ ∃ event, e = .input event) ∧
        s.buffered ++ inputs live = s.accepted ∧ Writes s.sent s.finished
          ((armed ++ script edge s.startFraction s.buffered live).map (StreamEvent.mk g))) ∧
      (∀ code, Presses.Alternates false (Presses.of code (keyLog s.sentInputs))) ∧
      (∀ ms, ∃ s', Run.run next (some s) ms = some s' ∧ Continues s s') ∧
      (∀ l s' edge, next (some s) l = some s' → s.selected = none → s'.selected = some edge →
        ∃ event, l.1 = .dispatch (.pointer event) ∧ s.Crosses event edge) ∧
      ∀ full, (s.conclude full).sent = s.sent ∨
        (s.conclude full).sent = s.sent ++ [⟨g, .finished s.counts.stopReason⟩] := by
  obtain ⟨s, hs, -, h⟩ := run_spec (inv_new g) ls
  refine ⟨s, hs, fun hr => ?_, fun hr => ?_, h.alternates_sent, fun ms => ?_, ?_, sent_conclude h⟩
  · obtain ⟨⟨armed, harmed, hsaid⟩, hpending⟩ := h.tells.waiting hr
    refine ⟨fun m hm => ?_, hpending⟩
    obtain ⟨e, he, rfl⟩ := List.mem_map.mp (hsaid.sent.is_prefix.subset hm)
    rw [harmed e he]
  · obtain ⟨edge, armed, live, hedge, harmed, hlive, haccepted, hsaid⟩ := h.tells.started hr
    exact ⟨edge, armed, live, hedge, harmed, hlive, haccepted, hsaid.sent⟩
  · obtain ⟨s', hs', hcontinues, -⟩ := run_spec h ms
    exact ⟨s', hs', hcontinues⟩
  · intro l s' edge hnext hnone hedge
    obtain ⟨s₁, hs₁, -, -, hselected⟩ := perform_spec h l.2 l.1
    obtain rfl : s₁ = s' := Option.some.inj (hs₁.symm.trans hnext)
    rcases hselected with hsame | ⟨-, edge', event, hevent, hedge', hcrosses⟩
    · cases (hsame.trans hnone).symm.trans hedge
    · obtain rfl : edge' = edge := Option.some.inj (hedge'.symm.trans hedge)
      exact ⟨event, hevent, hcrosses⟩

/-! ### The worker -/

/-- A run leads from one state to the other. -/
def Reaches (s s' : State) : Prop := ∃ ls, Run.run next (some s) ls = some s'

theorem reaches_rfl : Reaches s s := ⟨[], rfl⟩

/-- What is reached may go on. -/
theorem Reaches.trans (h : Reaches s s') (h' : Reaches s' s'') : Reaches s s'' := by
  obtain ⟨ls, hls⟩ := h
  obtain ⟨ms, hms⟩ := h'
  exact ⟨ls ++ ms, by rw [Run.run_append, hls, hms]⟩

theorem reaches_perform {l : Label} (h : s.perform env l = some s') : Reaches s s' :=
  ⟨[(l, env)], h⟩

/-- What is reached keeps the invariant. -/
theorem Reaches.spec (h : Reaches s s') (hs : Inv g s) : Continues s s' ∧ Inv g s' := by
  obtain ⟨ls, hls⟩ := h
  obtain ⟨s₁, hs₁, hcontinues, h₁⟩ := run_spec hs ls
  obtain rfl : s₁ = s' := Option.some.inj (hs₁.symm.trans hls)
  exact ⟨hcontinues, h₁⟩

/-- A round of events is a sequence of labels. -/
theorem dispatchAll_spec (h : Inv g s) (events : List (Dispatched × Surroundings)) :
    ∃ s', s.dispatchAll events = some s' ∧ Reaches s s' := by
  induction events generalizing s with
  | nil => exact ⟨s, rfl, reaches_rfl⟩
  | cons event events ih =>
      obtain ⟨s₁, hs₁, -, h₁, -⟩ := dispatch_spec h event.2 event.1
      obtain ⟨s₂, hs₂, hreaches⟩ := ih h₁
      have hfirst : s.perform event.2 (.dispatch event.1) = some s₁ := hs₁
      refine ⟨s₂, ?_, (reaches_perform hfirst).trans hreaches⟩
      rw [dispatchAll, hs₁]
      exact hs₂

/-- The loop is a sequence of labels, however it ends. -/
theorem loop_spec (h : Inv g s) (env : Surroundings) (failure : Error) (rounds : List Round) :
    ∃ outcome s', s.loop failure rounds = some (outcome, s') ∧ Reaches s s' := by
  induction rounds generalizing s with
  | nil => exact ⟨_, s, rfl, reaches_rfl⟩
  | cons round rounds ih =>
      rw [loop]
      split_ifs
      · exact ⟨_, s, rfl, reaches_rfl⟩
      · have hcancelled : s.perform env (.finish "cancelled") = some (s.finish "cancelled") := rfl
        exact ⟨_, _, rfl, reaches_perform hcancelled⟩
      · obtain ⟨s₁, hs₁, hreaches₁⟩ := dispatchAll_spec h round.events
        obtain ⟨outcome, s₂, hs₂, hreaches₂⟩ := ih (hreaches₁.spec h).2
        refine ⟨outcome, s₂, ?_, hreaches₁.trans hreaches₂⟩
        rw [hs₁]
        exact hs₂

/-- After its loop a worker has finished, for the reason it had or for this one. -/
theorem finish_spec (s : State) (env : Surroundings) (reason : String) :
    ∃ s', (if s.finished then s else s.finish reason) = s' ∧ Reaches s s' ∧ s'.finished = true := by
  by_cases hf : s.finished = true
  · exact ⟨s, if_pos hf, reaches_rfl, hf⟩
  · have hfinish : s.perform env (.finish reason) = some (s.finish reason) := rfl
    exact ⟨_, if_neg hf, reaches_perform hfinish, rfl⟩

/-- **The worker**, if it gets as far as its loop, ends with a capture that has finished, and says
so. -/
theorem worker_stream (j : Journal) (options : List Options) (g : ℕ) :
    ∃ outcome s, workerStream j options g = some (outcome, s) ∧
      ∃ s₀, Reaches (new (some ⟨g, []⟩)) s₀ ∧
        (s = s₀ ∨ s₀.finished = true ∧ ∃ full, s = s₀.conclude full) := by
  have hnew := inv_new g
  obtain ⟨s₁, hs₁, hreaches₁⟩ := dispatchAll_spec hnew j.first
  have h₁ := (hreaches₁.spec hnew).2
  rw [workerStream, hs₁]
  dsimp only [Option.bind_eq_bind, Option.bind_some]
  cases s₁.setup j options with
  | error e => exact ⟨_, s₁, rfl, s₁, hreaches₁, .inl rfl⟩
  | ok strips =>
      have hlaid : s₁.perform j.arming (.lay strips j.proxies) = some (s₁.lay strips j.proxies) :=
        rfl
      have hreaches₂ := hreaches₁.trans (reaches_perform hlaid)
      obtain ⟨s₃, hs₃, hreaches₃⟩ := dispatchAll_spec (hreaches₂.spec hnew).2 j.second
      have harmed : s₃.perform j.arming .arm = some (s₃.arm j.arming) := rfl
      have hreaches₄ := (hreaches₂.trans hreaches₃).trans (reaches_perform harmed)
      obtain ⟨outcome, s₅, hs₅, hreaches₅⟩ :=
        loop_spec (hreaches₄.spec hnew).2 j.arming j.failure j.rounds
      obtain ⟨s₆, hs₆, hreaches₆, hfinished⟩ := finish_spec s₅ j.arming
        (if outcome.isOk then "timeout" else "connection_error")
      have hclean : s₆.perform j.arming .cleanup = some s₆.cleanup := rfl
      have hreaches₇ := ((hreaches₄.trans hreaches₅).trans hreaches₆).trans (reaches_perform hclean)
      obtain ⟨s₈, hs₈, hreaches₈⟩ := dispatchAll_spec (hreaches₇.spec hnew).2 j.last
      have hdone := (hreaches₈.spec (hreaches₇.spec hnew).2).1.finished hfinished
      refine ⟨outcome.map fun _ =>
        (s₈.conclude j.concluding.full).counts, s₈.conclude j.concluding.full, ?_,
        s₈, hreaches₇.trans hreaches₈, .inr ⟨hdone.1, _, rfl⟩⟩
      simp only [hs₃, hs₅, hs₆, hs₈, Option.bind_some]
      rfl

end State

end NiriBridge.Capture
