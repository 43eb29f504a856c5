import NiriBridge.Model.Capture
import NiriBridge.Support.Presses
import NiriBridge.Support.Transcript

/-!
# Capture — Story

What a capture worker tells the bridge.  `script` is the whole story of a capture: it has started at
an edge, then the inputs that were buffered, it is ready, and then whatever follows; the channel has
taken a beginning of it, and all of it until the capture has finished (`Says`).

`Inv` is the invariant of the worker's state.  Everything that writes to the channel keeps it: the
end of the capture, an input, and readiness.
-/

namespace NiriBridge.Capture

open Transcript

/-- The inputs among messages. -/
def inputs (events : List CaptureEvent) : List InputEvent :=
  events.filterMap fun event => match event with
    | .input event => some event
    | _ => none

/-- What inputs say of keys. -/
def keyLog (events : List InputEvent) : List (ℕ × Bool) :=
  events.filterMap fun event => match event with
    | .key code pressed => some (code, pressed)
    | _ => none

/-- The story of a capture. -/
def script (edge : ℕ) (fraction : ℚ) (buffered : List InputEvent) (live : List CaptureEvent) :
    List CaptureEvent :=
  .started edge fraction :: (buffered.map .input ++ .ready :: live)

theorem inputs_append (l l' : List CaptureEvent) : inputs (l ++ l') = inputs l ++ inputs l' :=
  List.filterMap_append ..

theorem keyLog_append (l l' : List InputEvent) : keyLog (l ++ l') = keyLog l ++ keyLog l' :=
  List.filterMap_append ..

/-- The live events of a story may go on. -/
theorem script_append (edge : ℕ) (fraction : ℚ) (buffered : List InputEvent)
    (live events : List CaptureEvent) :
    script edge fraction buffered live ++ events =
    script edge fraction buffered (live ++ events) := by
  simp [script]

/-- Arming strips carries no input. -/
theorem inputs_of_armed {armed : List CaptureEvent} (h : ∀ e ∈ armed, e = .armed) :
    inputs armed = [] := by
  rw [inputs, List.filterMap_eq_nil_iff]
  intro e he
  rw [h e he]

theorem inputs_map (buffered : List InputEvent) : inputs (buffered.map .input) = buffered := by
  induction buffered with
  | nil => rfl
  | cons event buffered ih => exact congrArg (event :: ·) ih

/-- The inputs of a story are those that were buffered, and those that came live. -/
theorem inputs_script (edge : ℕ) (fraction : ℚ) (buffered : List InputEvent)
    (live : List CaptureEvent) :
    inputs (script edge fraction buffered live) = buffered ++ inputs live := by
  have hready : inputs (.ready :: live) = inputs live := rfl
  have hstarted : inputs (script edge fraction buffered live) =
      inputs (buffered.map .input ++ .ready :: live) := rfl
  rw [hstarted, inputs_append, inputs_map, hready]

namespace State

variable {g : ℕ} {s s' : State} {text : List CaptureEvent} {event : InputEvent}

/-! ### The channel -/

/-- The channel has taken the text, or a beginning of it if the capture has finished. -/
def Says (g : ℕ) (s : State) (text : List CaptureEvent) : Prop :=
  ∃ sent, s.stream = some ⟨g, sent⟩ ∧ Writes sent s.finished (text.map (StreamEvent.mk g))

/-- The end of a capture is the end of what the channel takes. -/
theorem Says.finish (h : Says g s text) (reason : String) : Says g (s.finish reason) text := by
  obtain ⟨sent, hs, hw⟩ := h
  exact ⟨sent, hs, hw.stop⟩

/-- An event that is published is the next word of the text. -/
theorem Says.publish (h : Says g s text) (env : Surroundings) (e : CaptureEvent) :
    Says g (s.publish env e) (text ++ [e]) := by
  obtain ⟨sent, hs, hw⟩ := h
  rw [State.publish]
  split_ifs with hf
  · refine ⟨sent, hs, ?_⟩
    rw [hf, List.map_append]
    exact hw.cut _
  · rw [trySend, hs]
    dsimp only
    split_ifs with hfull
    · refine ⟨sent, hs, ?_⟩
      rw [List.map_append]
      exact hw.cut _
    · refine ⟨sent ++ [⟨g, e⟩], rfl, ?_⟩
      rw [Bool.not_eq_true] at hf
      rw [hf] at hw
      change Writes _ s.finished _
      rw [hf, List.map_append]
      exact hw.push _

/-- Events that are published are the next words of the text. -/
theorem Says.publishAll (h : Says g s text) (env : Surroundings) (events : List CaptureEvent) :
    Says g (s.publishAll env events) (text ++ events) := by
  induction events generalizing s text with
  | nil => simpa [State.publishAll] using h
  | cons e events ih =>
      have hrest := ih (h.publish env e)
      rw [List.append_assoc] at hrest
      exact hrest

/-- The channel has taken a beginning of the text. -/
theorem Says.sent (h : Says g s text) : Writes s.sent s.finished (text.map (StreamEvent.mk g)) := by
  obtain ⟨sent, hs, hw⟩ := h
  rwa [State.sent, hs]

/-- A capture that has finished says whatever would have come. -/
theorem Says.append (h : Says g s text) (hf : s.finished = true) (events : List CaptureEvent) :
    Says g s (text ++ events) := by
  obtain ⟨sent, hs, hw⟩ := h
  refine ⟨sent, hs, ?_⟩
  rw [hf, List.map_append]
  exact hw.cut _

/-! ### What the channel does not change -/

/-- Only the channel and the end of the capture have changed. -/
structure Onward (s s' : State) : Prop where
  finished : s.finished = true → s'.finished = true ∧ s'.stream = s.stream ∧
    s'.counts.stopReason = s.counts.stopReason
  focus : s'.counts.keyboardFocusObserved = s.counts.keyboardFocusObserved
  requested : s'.requested = s.requested
  selected : s'.selected = s.selected
  readyReported : s'.readyReported = s.readyReported
  startFraction : s'.startFraction = s.startFraction
  pendingInputs : s'.pendingInputs = s.pendingInputs
  pressedKeys : s'.pressedKeys = s.pressedKeys
  accepted : s'.accepted = s.accepted
  buffered : s'.buffered = s.buffered

instance : IsPreorder State Onward where
  refl _ := ⟨fun h => ⟨h, rfl, rfl⟩, rfl, rfl, rfl, rfl, rfl, rfl, rfl, rfl, rfl⟩
  trans _ _ _ h h' := ⟨fun hf => ⟨(h'.finished (h.finished hf).1).1,
      (h'.finished (h.finished hf).1).2.1.trans (h.finished hf).2.1,
      (h'.finished (h.finished hf).1).2.2.trans (h.finished hf).2.2⟩,
    h'.focus.trans h.focus, h'.requested.trans h.requested, h'.selected.trans h.selected,
    h'.readyReported.trans h.readyReported, h'.startFraction.trans h.startFraction,
    h'.pendingInputs.trans h.pendingInputs, h'.pressedKeys.trans h.pressedKeys,
    h'.accepted.trans h.accepted, h'.buffered.trans h.buffered⟩

/-- The end of a capture leaves the rest alone. -/
theorem onward_finish (s : State) (reason : String) : Onward s (s.finish reason) := by
  refine ⟨fun hf => ⟨rfl, rfl, ?_⟩, ?_, rfl, rfl, rfl, rfl, rfl, rfl, rfl, rfl⟩
  · rw [finish, if_pos hf]
  · rw [finish]
    split_ifs <;> rfl

/-- An event that is published leaves the rest alone. -/
theorem onward_publish (env : Surroundings) (e : CaptureEvent) (s : State) :
    Onward s (s.publish env e) := by
  rw [publish]
  split_ifs with hf
  · exact refl_of Onward s
  · rw [trySend]
    cases s.stream with
    | none => exact refl_of Onward s
    | some stream =>
        dsimp only
        split_ifs
        · exact onward_finish s _
        · exact ⟨fun h => absurd h hf, rfl, rfl, rfl, rfl, rfl, rfl, rfl, rfl, rfl⟩

theorem onward_publishAll (env : Surroundings) (events : List CaptureEvent) (s : State) :
    Onward s (s.publishAll env events) := by
  induction events generalizing s with
  | nil => exact refl_of Onward s
  | cons e events ih => exact trans_of Onward (onward_publish env e s) (ih (s.publish env e))

/-! ### The invariant -/

/-- Before it is ready a worker says nothing of the capture, and its buffer is all that it has
accepted; then it tells the story, of the strip for which the capture was requested, with all that
it has accepted. -/
structure Tells (g : ℕ) (s : State) : Prop where
  requested : s.requested = s.selected.isSome
  focus : s.counts.keyboardFocusObserved = true → s.selected.isSome = true
  waiting : s.readyReported = false → (∃ armed, (∀ e ∈ armed, e = .armed) ∧ Says g s armed) ∧
    (s.finished = false → s.pendingInputs = s.accepted)
  started : s.readyReported = true → ∃ edge armed live, s.selected = some edge ∧
    (∀ e ∈ armed, e = .armed) ∧ (∀ e ∈ live, e = .armed ∨ ∃ event, e = .input event) ∧
    s.buffered ++ inputs live = s.accepted ∧
    Says g s (armed ++ script edge s.startFraction s.buffered live)
  alternates : ∀ code, Presses.Alternates false (Presses.of code (keyLog s.accepted))

/-- What is accepted tells of the keys in `held`. -/
def Keyed (s : State) (held : ℕ → Prop) : Prop :=
  s.finished = false → Presses.Tells (keyLog s.accepted) held

/-- **The invariant.** -/
structure Inv (g : ℕ) (s : State) : Prop where
  tells : Tells g s
  keys : s.Keyed (· ∈ s.pressedKeys)

/-- A worker begins with the invariant. -/
theorem inv_new (g : ℕ) : Inv g (new (some ⟨g, []⟩)) where
  tells :=
    ⟨rfl, by intros; contradiction,
      fun _ => ⟨⟨[], by intros; contradiction, [], rfl, writes_rfl⟩, fun _ => rfl⟩,
      by intros; contradiction, fun _ => trivial⟩
  keys _ := Presses.tells_nil.congr fun code => iff_of_false (SortedSet.not_mem_empty code) id

/-- A capture that ends breaks its story off. -/
theorem Tells.finish (h : Tells g s) (reason : String) : Tells g (s.finish reason) where
  requested := h.requested
  focus hf := h.focus ((onward_finish s reason).focus ▸ hf)
  waiting hr := by
    obtain ⟨⟨armed, harmed, hsaid⟩, -⟩ := h.waiting hr
    exact ⟨⟨armed, harmed, hsaid.finish reason⟩, by rintro ⟨⟩⟩
  started hr := by
    obtain ⟨edge, armed, live, hedge, harmed, hlive, haccepted, hsaid⟩ := h.started hr
    exact ⟨edge, armed, live, hedge, harmed, hlive, haccepted, hsaid.finish reason⟩
  alternates := h.alternates

/-- The end of a capture keeps the invariant. -/
theorem Inv.finish (h : Inv g s) (reason : String) : Inv g (s.finish reason) :=
  ⟨h.tells.finish reason, by rintro ⟨⟩⟩

theorem Onward.running (h : Onward s s') (hf : s'.finished = false) : s.finished = false := by
  by_contra hs
  exact absurd (hf.symm.trans (h.finished (eq_true_of_ne_false hs)).1) (by simp)

/-- A message that is not part of the story is said wherever the story is. -/
theorem Inv.publish_armed (h : Inv g s) (env : Surroundings) : Inv g (s.publish env .armed) := by
  have ho := onward_publish env .armed s
  refine ⟨⟨?_, fun hf => ?_, fun hr => ?_, fun hr => ?_, ?_⟩, fun hf => ?_⟩
  · rw [ho.requested, ho.selected]
    exact h.tells.requested
  · rw [ho.selected]
    exact h.tells.focus (ho.focus ▸ hf)
  · obtain ⟨⟨armed, harmed, hsaid⟩, hpending⟩ := h.tells.waiting (ho.readyReported ▸ hr)
    refine ⟨⟨armed ++ [.armed], ?_, hsaid.publish env .armed⟩, fun hf => ?_⟩
    · simpa [or_imp, forall_and] using harmed
    · rw [ho.pendingInputs, ho.accepted]
      exact hpending (ho.running hf)
  · obtain ⟨edge, armed, live, hedge, harmed, hlive, haccepted, hsaid⟩ :=
      h.tells.started (ho.readyReported ▸ hr)
    refine ⟨edge, armed, live ++ [.armed], ho.selected.trans hedge, harmed, ?_, ?_, ?_⟩
    · simpa [or_imp, forall_and] using hlive
    · rw [ho.buffered, ho.accepted, inputs_append, ← haccepted]
      exact congrArg _ (List.append_nil _)
    · rw [ho.startFraction, ho.buffered, ← script_append, ← List.append_assoc]
      exact hsaid.publish env .armed
  · rw [ho.accepted]
    exact h.tells.alternates
  · rw [ho.accepted, ho.pressedKeys]
    exact h.keys (ho.running hf)

/-! ### Inputs -/

theorem accept_of_finished (hf : s.finished = true) : s.accept event = s := if_pos hf

theorem accept_of_running (hf : ¬ s.finished = true) :
    s.accept event = { s with accepted := s.accepted ++ [event] } := if_neg hf

/-- A message of an input that has been accepted. -/
theorem Tells.live (h : Tells g s) (hr : s.readyReported = true)
    (halternates : ∀ code,
      Presses.Alternates false (Presses.of code (keyLog (s.accepted ++ [event])))) :
    Tells g ({ s with accepted := s.accepted ++ [event] }.publish env (.input event)) := by
  obtain ⟨edge, armed, live, hedge, harmed, hlive, haccepted, hsaid⟩ := h.started hr
  have ho := onward_publish env (.input event) { s with accepted := s.accepted ++ [event] }
  have hsaid' : Says g { s with accepted := s.accepted ++ [event] }
    (armed ++ script edge s.startFraction s.buffered live) := hsaid
  refine ⟨?_, fun hfocus => ?_, fun hr' => ?_, fun _ => ?_, ?_⟩
  · rw [ho.requested, ho.selected]
    exact h.requested
  · rw [ho.selected]
    exact h.focus (ho.focus ▸ hfocus)
  · exact absurd (hr.symm.trans (ho.readyReported.symm.trans hr')) (by simp)
  · refine ⟨edge, armed, live ++ [.input event], ho.selected.trans hedge, harmed, ?_, ?_, ?_⟩
    · simpa [or_imp, forall_and] using hlive
    · rw [ho.buffered, ho.accepted, inputs_append, ← List.append_assoc]
      exact congrArg (· ++ [event]) haccepted
    · rw [ho.startFraction, ho.buffered, ← script_append, ← List.append_assoc]
      exact hsaid'.publish env (.input event)
  · rw [ho.accepted]
    exact halternates

/-- **An input**, which tells of the keys in `held` with all that was accepted before. -/
theorem Tells.input {held : ℕ → Prop} (h : Tells g s) (env : Surroundings) (event : InputEvent)
    (hkeys : s.finished = false → Presses.Tells (keyLog (s.accepted ++ [event])) held) :
    Tells g (s.input env event) ∧ (s.input env event).Keyed held := by
  have hdone : ∀ reason, Tells g (s.finish reason) ∧ (s.finish reason).Keyed held :=
    fun reason => ⟨h.finish reason, by rintro ⟨⟩⟩
  rw [State.input]
  cases event.validate with
  | error e => exact hdone _
  | ok u =>
      dsimp only
      by_cases hf : s.finished = true
      · -- nothing is accepted any more
        have hkeyed : s.Keyed held := fun hf' => absurd (hf.symm.trans hf') (by simp)
        rw [accept_of_finished hf, publish, if_pos hf]
        split_ifs
        · exact ⟨h, hkeyed⟩
        · refine ⟨⟨h.requested, h.focus, fun hr => ⟨(h.waiting hr).1, fun hf' => ?_⟩, h.started,
            h.alternates⟩, hkeyed⟩
          exact absurd (hf.symm.trans hf') (by simp)
        · exact hdone _
      · have htells := hkeys (eq_false_of_ne_true hf)
        rw [accept_of_running hf]
        split_ifs with hr
        · refine ⟨h.live hr htells.alternates, fun _ => ?_⟩
          rw [(onward_publish env (.input event) _).accepted]
          exact htells
        · -- it waits, and there is room
          have hr := eq_false_of_ne_true hr
          refine ⟨⟨h.requested, h.focus, fun _ => ⟨(h.waiting hr).1, fun _ => ?_⟩, fun hr' => ?_,
            htells.alternates⟩, fun _ => htells⟩
          · exact congrArg (· ++ [event]) ((h.waiting hr).2 (eq_false_of_ne_true hf))
          · exact absurd (hr.symm.trans hr') (by simp)
        · exact hdone _

/-- The keys that are held are not the business of `input`. -/
theorem pressedKeys_input (env : Surroundings) (event : InputEvent) (s : State) :
    (s.input env event).pressedKeys = s.pressedKeys := by
  have haccept : (s.accept event).pressedKeys = s.pressedKeys := by
    rw [accept]
    split_ifs <;> rfl
  rw [input]
  cases event.validate with
  | error e => rfl
  | ok u =>
      dsimp only
      split_ifs
      · exact (onward_publish env _ _).pressedKeys.trans haccept
      · exact haccept
      · rfl

/-- An input that is not a key. -/
theorem Inv.input (h : Inv g s) (env : Surroundings) (hkey : keyLog [event] = []) :
    Inv g (s.input env event) := by
  obtain ⟨htells, hkeyed⟩ := h.tells.input env event fun hf => by
    rw [keyLog_append, hkey, List.append_nil]
    exact h.keys hf
  exact ⟨htells, (pressedKeys_input env event s).symm ▸ hkeyed⟩

/-- A key that goes up or down. -/
theorem Inv.key (h : Inv g s) (env : Surroundings) {code : ℕ} {pressed : Bool}
    (hchanged : ¬ (code ∈ s.pressedKeys ↔ pressed = true)) {keys : SortedSet ℕ}
    (hkeys : ∀ c, c ∈ keys ↔ if c = code then pressed = true else c ∈ s.pressedKeys) :
    Inv g ({ s with pressedKeys := keys }.input env (.key code pressed)) := by
  have hbase : Tells g { s with pressedKeys := keys } :=
    ⟨h.tells.requested, h.tells.focus, h.tells.waiting, h.tells.started, h.tells.alternates⟩
  obtain ⟨htells, hkeyed⟩ := hbase.input env (.key code pressed) fun hf => by
    rw [keyLog_append]
    exact (h.keys hf).push hchanged hkeys
  exact ⟨htells, (pressedKeys_input env _ { s with pressedKeys := keys }).symm ▸ hkeyed⟩

/-! ### Readiness -/

/-- What becoming ready does to everything but the channel. -/
structure Reports (s s' : State) : Prop where
  finished : s.finished = true → s'.finished = true ∧ s'.stream = s.stream ∧
    s'.counts.stopReason = s.counts.stopReason
  focus : s'.counts.keyboardFocusObserved = s.counts.keyboardFocusObserved
  requested : s'.requested = s.requested
  selected : s'.selected = s.selected
  readyReported : s'.readyReported = true
  startFraction : s'.startFraction = s.startFraction
  pressedKeys : s'.pressedKeys = s.pressedKeys
  accepted : s'.accepted = s.accepted
  buffered : s'.buffered = s.accepted

/-- What changes when readiness is reported. -/
theorem reports_report (env : Surroundings) (edge : ℕ) (s : State) :
    Reports s (s.report env edge) := by
  have h₁ := onward_publish env (.started edge s.startFraction)
    { s with readyReported := true, buffered := s.accepted }
  unfold report
  dsimp only
  generalize publish env (.started edge s.startFraction)
    { s with readyReported := true, buffered := s.accepted } = s₁ at h₁
  have h₂ : Onward { s₁ with pendingInputs := [] } _ :=
    trans_of Onward
      (onward_publishAll env (s₁.pendingInputs.map .input) { s₁ with pendingInputs := [] })
      (onward_publish env .ready _)
  refine ⟨fun hf => ?_, h₂.focus.trans h₁.focus, h₂.requested.trans h₁.requested,
    h₂.selected.trans h₁.selected, h₂.readyReported.trans h₁.readyReported,
    h₂.startFraction.trans h₁.startFraction, h₂.pressedKeys.trans h₁.pressedKeys,
    h₂.accepted.trans h₁.accepted, h₂.buffered.trans h₁.buffered⟩
  obtain ⟨hf₁, hs₁, hr₁⟩ := h₁.finished hf
  obtain ⟨hf₂, hs₂, hr₂⟩ := h₂.finished hf₁
  exact ⟨hf₂, hs₂.trans hs₁, hr₂.trans hr₁⟩

/-- The story up to the point where the capture is ready. -/
theorem Says.report (h : Says g s text) (env : Surroundings) (edge : ℕ) :
    Says g (s.report env edge) (text ++ script edge s.startFraction s.pendingInputs []) := by
  have hready : Says g { s with readyReported := true, buffered := s.accepted } text := h
  have hstarted := hready.publish env (.started edge s.startFraction)
  have hpending : (State.publish env (.started edge s.startFraction)
      { s with readyReported := true, buffered := s.accepted }).pendingInputs = s.pendingInputs :=
    (onward_publish env _ _).pendingInputs
  unfold State.report
  dsimp only
  generalize State.publish env (.started edge s.startFraction)
    { s with readyReported := true, buffered := s.accepted } = s₁ at hstarted hpending
  have hemptied :
      Says g { s₁ with pendingInputs := [] } (text ++ [.started edge s.startFraction]) := hstarted
  have hall := (hemptied.publishAll env (s₁.pendingInputs.map .input)).publish env .ready
  rw [hpending] at hall ⊢
  simpa [script] using hall

/-- The text depends on the channel and on the end of the capture only. -/
theorem Says.congr (h : Says g s text) (hf : s'.finished = s.finished) (hs : s'.stream = s.stream) :
    Says g s' text := by
  obtain ⟨sent, hsent, hw⟩ := h
  exact ⟨sent, hs.trans hsent, hf ▸ hw⟩

/-- The report of readiness keeps the invariant. -/
theorem Inv.report (h : Inv g s) (env : Surroundings) (hr : s.readyReported = false) {edge : ℕ}
    (hedge : s.selected = some edge) : Inv g (s.report env edge) := by
  have hreports := reports_report env edge s
  obtain ⟨⟨armed, harmed, hsaid⟩, hpending⟩ := h.tells.waiting hr
  have hrunning : (s.report env edge).finished = false → s.finished = false := by
    intro hf
    by_contra hs
    exact absurd (hf.symm.trans (hreports.finished (eq_true_of_ne_false hs)).1) (by simp)
  have hstory :
      Says g (s.report env edge) (armed ++ script edge s.startFraction s.accepted []) := by
    by_cases hf : s.finished = true
    · obtain ⟨hf', hs', -⟩ := hreports.finished hf
      exact (hsaid.congr (hf'.trans hf.symm) hs').append hf' _
    · rw [← hpending (eq_false_of_ne_true hf)]
      exact hsaid.report env edge
  refine ⟨⟨?_, fun hfocus => ?_, fun hr' => ?_, fun _ => ?_, ?_⟩, fun hf => ?_⟩
  · rw [hreports.requested, hreports.selected]
    exact h.tells.requested
  · rw [hreports.selected]
    exact h.tells.focus (hreports.focus ▸ hfocus)
  · exact absurd (hreports.readyReported.symm.trans hr') (by simp)
  · refine ⟨edge, armed, [], hreports.selected.trans hedge, harmed, by simp, ?_, ?_⟩
    · rw [hreports.buffered, hreports.accepted]
      exact List.append_nil _
    · rw [hreports.startFraction, hreports.buffered]
      exact hstory
  · rw [hreports.accepted]
    exact h.tells.alternates
  · rw [hreports.accepted, hreports.pressedKeys]
    exact h.keys (hrunning hf)

end State

end NiriBridge.Capture
