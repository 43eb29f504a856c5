import NiriBridge.Receiver.Calls
import NiriBridge.Support.Run

/-!
# Receiver — Held

No stuck key or button.  A backend may fail in any pattern; what `SinkLaw` asks is that a successful
`emit` takes effect, that a failing one has had its effect or none, and that no other call presses
anything.  Everything down at the backend is then held by the receiver or waiting to be released
(`held_call`), along every sequence of calls (`no_stuck_input`).
-/

namespace NiriBridge.Receiver

open Hoare

/-- What is down after an event, from what was down before. -/
def applied (event : InputEvent) (down : ℕ → Prop) (code : ℕ) : Prop :=
  match event.heldTransition with
  | some (pressed, true) => code = pressed ∨ down code
  | some (released, false) => code ≠ released ∧ down code
  | none => down code

/-- What the receiver relies on. -/
structure SinkLaw (B : Type) [InputSink B] where
  /-- The key or button is down. -/
  down : B → ℕ → Prop
  /-- Something is down on a native touchpad. -/
  touched : B → Prop
  emit_ok : ∀ {event b b'}, InputSink.emit event b = (.ok (), b') →
    ∀ c, down b' c ↔ applied event (down b) c
  emit_error : ∀ {event b b' e}, InputSink.emit event b = (.error e, b') →
    (∀ c, down b' c ↔ down b c) ∨ ∀ c, down b' c ↔ applied event (down b) c
  poll : ∀ {b : B} {c}, down (InputSink.poll b).2 c → down b c
  selectOutput : ∀ {output} {b : B} {c}, down (InputSink.selectOutput output b).2 c → down b c
  configureTouchpads : ∀ {devices} {b : B} {c},
    down (InputSink.configureTouchpads devices b).2 c → down b c
  resetTouchpads : ∀ {b : B} {c}, down (InputSink.resetTouchpads b).2 c → down b c
  reset_ok : ∀ {b b' : B}, InputSink.resetTouchpads b = (.ok (), b') → ¬ touched b'

variable {B : Type} [InputSink B] (law : SinkLaw B)

/-- Everything down is in `held` or pending. -/
def Covered (held : ℕ → Prop) (r : Receiver B) : Prop :=
  ∀ c, law.down r.sink c → held c ∨ c ∈ r.pendingReleases

variable {law}

/-- A call that presses nothing. -/
theorem covered_call {f : B → Result Unit × B} {held : ℕ → Prop} {r : Receiver B}
    (hf : ∀ {b c}, law.down (f b).2 c → law.down b c) (h : Covered law held r) :
    wp (call f) r (fun _ => Covered law held) (fun _ => Covered law held) := by
  have hnext : ∀ b x, f r.sink = (x, b) → Covered law held { r with sink := b } := by
    intro b x hb c hc
    exact h c (hf (by rw [hb]; exact hc))
  exact wp_call (fun b hb => hnext b _ hb) fun e b hb => hnext b _ hb

/-- What is released need not be covered. -/
theorem covered_releaseCodes (codes : List ℕ) (first : Option Error) {held : ℕ → Prop}
    {r : Receiver B} (h : Covered law held r) :
    wp (releaseCodes codes first) r (fun _ => Covered law held) (fun _ => Covered law held) := by
  induction codes generalizing first r with
  | nil => exact h
  | cons code codes ih =>
      rw [releaseCodes, wp_bind, wp_attempt]
      refine wp_call (fun b hb => ?_) fun e b hb => ih _ fun c hc => ?_
      · rw [wp_bind, wp_modify]
        refine ih _ fun c hc => ?_
        obtain ⟨hne, hdown⟩ : c ≠ code ∧ law.down r.sink c := by
          simpa [applied] using (law.emit_ok hb c).mp hc
        exact (h c hdown).imp_right fun hp => SortedSet.mem_erase.mpr ⟨hne, hp⟩
      · rcases law.emit_error hb with he | he
        · exact h c ((he c).mp hc)
        · have happlied := (he c).mp hc
          simp only [applied, InputEvent.heldTransition_release] at happlied
          exact h c happlied.2

/-- What `release` is given is pending from then on. -/
theorem covered_release {codes : List ℕ} {held : ℕ → Prop} {r : Receiver B}
    (h : Covered law (fun c => held c ∨ c ∈ codes) r) :
    wp (release codes) r (fun _ => Covered law held) (fun _ => Covered law held) := by
  rw [release, wp_bind, wp_modify, wp_bind, wp_get, wp_bind]
  refine wp_mono (covered_releaseCodes _ _ fun c hc => ?_) (fun res r' h' => ?_) fun _ _ => id
  · rw [SortedSet.mem_extend, ← or_assoc]
    exact h c hc
  · cases res <;> exact h'

/-- After the cleanup its codes need not be covered. -/
theorem covered_releaseWithTouchpads {codes : List ℕ} {held : ℕ → Prop} {r : Receiver B}
    (h : Covered law (fun c => held c ∨ c ∈ codes) r) :
    wp (releaseWithTouchpads codes) r (fun _ => Covered law held) (fun _ => Covered law held) := by
  have hpads : ∀ (keys : Result Unit) (r' : Receiver B), Covered law held r' →
      wp (do let pads ← attempt (call InputSink.resetTouchpads); check keys; check pads) r'
        (fun _ => Covered law held) (fun _ => Covered law held) := by
    intro keys r' h'
    rw [wp_bind, wp_attempt]
    refine wp_mono (covered_call law.resetTouchpads h')
      (fun _ r'' h'' => ?_) fun _ r'' h'' => ?_ <;>
      simp only [wp_bind, wp_check] <;>
        exact ⟨fun _ _ => ⟨fun _ _ => h'', fun _ _ => h''⟩, fun _ _ => h''⟩
  rw [releaseWithTouchpads, wp_bind, wp_attempt]
  exact wp_mono (covered_release h) (fun _ r' => hpads _ r') fun _ r' => hpads _ r'

/-! ### The calls -/

/-- Everything down is held or pending. -/
abbrev HeldCovers (law : SinkLaw B) (r : Receiver B) : Prop :=
  Covered law (· ∈ r.state.held.keys) r

/-- The receiver holds `codes` no longer: from here on they are pending. -/
theorem held_release {codes : List ℕ} {r : Receiver B}
    (h : Covered law (fun c => c ∈ r.state.held.keys ∨ c ∈ codes) r) :
    wp (release codes) r (fun _ => HeldCovers law) (fun _ => HeldCovers law) := by
  refine wp_mono (wp_and (release_spec codes r) (covered_release h))
    (fun _ r' h' => ?_) fun _ r' h' => ?_
  · rw [HeldCovers, h'.1.1.state]
    exact h'.2
  · rw [HeldCovers, h'.1.1.state]
    exact h'.2

theorem held_releaseWithTouchpads {codes : List ℕ} {r : Receiver B}
    (h : Covered law (fun c => c ∈ r.state.held.keys ∨ c ∈ codes) r) :
    wp (releaseWithTouchpads codes) r (fun _ => HeldCovers law) (fun _ => HeldCovers law) := by
  refine wp_mono (wp_and (releaseWithTouchpads_spec codes r) (covered_releaseWithTouchpads h))
    (fun _ r' h' => ?_) fun _ r' h' => ?_
  · rw [HeldCovers, h'.1.1.state]
    exact h'.2
  · rw [HeldCovers, h'.1.1.state]
    exact h'.2

/-- After a stop everything that is down is covered. -/
theorem held_stop (reason : StopReason) {r : Receiver B} (h : HeldCovers law r) :
    wp (stop reason) r (fun _ => HeldCovers law) (fun _ => HeldCovers law) := by
  rw [stop, wp_bind, wp_get, wp_bind, wp_set]
  exact held_releaseWithTouchpads fun c hc => (h c hc).imp_left .inr

/-- A lock change keeps what is held or hands it over. -/
theorem held_lockChanged {effects : StopEffects} {state : ControlState} {r : Receiver B}
    (h : HeldCovers law r)
    (hstate : ∀ c ∈ r.state.held.keys, c ∈ state.held.keys ∨ c ∈ effects.releaseCodes) :
    wp (lockChanged effects state) r (fun _ => HeldCovers law) (fun _ => HeldCovers law) := by
  rw [lockChanged, wp_bind, wp_get, wp_ite]
  refine ⟨fun _ => ?_, fun _ => ?_⟩ <;> rw [wp_bind, wp_set]
  · exact held_releaseWithTouchpads fun c hc => (h c hc).imp_left (hstate c)
  · exact held_release fun c hc => (h c hc).imp_left (hstate c)

/-- So it is after a change of the own lock. -/
theorem held_localLock (locked : Bool) {r : Receiver B} (h : HeldCovers law r) :
    wp (localLock locked) r (fun _ => HeldCovers law) (fun _ => HeldCovers law) := by
  have hchange : ∀ c ∈ r.state.held.keys, c ∈ (r.state.localLockChanged locked).2.held.keys ∨
      c ∈ (r.state.localLockChanged locked).1.releaseCodes := by
    intro c hc
    unfold ControlState.localLockChanged
    split_ifs
    · exact .inl hc
    · exact .inr hc
  rw [localLock, wp_bind, wp_get]
  exact held_lockChanged h hchange

/-- So it is after a change of the peer's lock. -/
theorem held_peerLock (locked : Bool) {r : Receiver B} (h : HeldCovers law r) :
    wp (peerLock locked) r (fun _ => HeldCovers law) (fun _ => HeldCovers law) := by
  have hchange : ∀ c ∈ r.state.held.keys, c ∈ (r.state.peerLockChanged locked).2.held.keys ∨
      c ∈ (r.state.peerLockChanged locked).1.releaseCodes := by
    intro c hc
    unfold ControlState.peerLockChanged
    split_ifs
    · exact .inl hc
    · exact .inr hc
  rw [peerLock, wp_bind, wp_get]
  exact held_lockChanged h hchange

/-- So it is after physical activity. -/
theorem held_physicalActivity {r : Receiver B} (h : HeldCovers law r) :
    wp physicalActivity r (fun _ => HeldCovers law) (fun _ => HeldCovers law) := by
  rw [physicalActivity, wp_bind, wp_get]
  by_cases hmode : r.state.mode = .receiving
  · have hact : r.state.receiverPhysicalActivity = some (r.state.stop .localTakeover) :=
      if_pos hmode
    simp only [hact]
    rw [wp_bind, wp_set]
    exact held_releaseWithTouchpads fun c hc => (h c hc).imp_left .inr
  · have hact : r.state.receiverPhysicalActivity = none := if_neg hmode
    simp only [hact]
    exact h

/-- So it is after a begin. -/
theorem held_begin (session : ℕ) {r : Receiver B} (hinv : Inv r) (h : HeldCovers law r) :
    wp («begin» session) r (fun _ => HeldCovers law) (fun _ => HeldCovers law) := by
  refine wp_mono (begin_spec session hinv) (fun _ r' hr => ?_) fun _ r' hr => hr.1 ▸ h
  obtain ⟨⟨hsink, hheld, hpending⟩, -⟩ := hr.2.2.2.1
  rw [HeldCovers, Covered, hsink, hheld, hpending]
  exact h

/-- What is held once a press is remembered. -/
theorem mem_remember {event : InputEvent} {s : ControlState} (hmode : s.mode = .receiving) {c : ℕ} :
    c ∈ (remember event s).held.keys ↔ event.heldTransition = some (c, true) ∨ c ∈ s.held.keys := by
  unfold remember
  split
  · rename_i code hcode
    rw [hcode, ControlState.press, if_pos (.inr hmode), HeldInputs.press, SortedSet.mem_insert]
    simp [eq_comm]
  · rename_i hcode
    exact ⟨.inr, fun h => h.resolve_left fun he => hcode c he⟩

/-- What the receiver holds after an event is what the event makes of what it held. -/
theorem mem_forget_remember {event : InputEvent} {s : ControlState} (hmode : s.mode = .receiving)
    {c : ℕ} : c ∈ (forget event (remember event s)).held.keys ↔
    applied event (· ∈ s.held.keys) c := by
  unfold applied forget
  rcases hcode : event.heldTransition with _ | ⟨code, _ | _⟩
  · simp [mem_remember hmode, hcode]
  · simp [mem_remember hmode, hcode, ControlState.release, HeldInputs.release]
  · simp [mem_remember hmode, hcode, eq_comm]

theorem mem_remember_of_applied {event : InputEvent} {s : ControlState}
    (hmode : s.mode = .receiving) {c : ℕ} (h : applied event (· ∈ s.held.keys) c) :
    c ∈ (remember event s).held.keys := by
  rw [mem_remember hmode]
  rcases hcode : event.heldTransition with _ | ⟨code, _ | _⟩ <;> simp only [applied, hcode] at h
  · exact .inr h
  · exact .inr h.2
  · exact h.imp_left fun hc => by rw [hc]

theorem applied_or {event : InputEvent} {P p : ℕ → Prop} {c : ℕ}
    (h : applied event (fun c => P c ∨ p c) c) : applied event P c ∨ p c := by
  rcases hcode : event.heldTransition with _ | ⟨code, _ | _⟩ <;> simp only [applied, hcode] at h ⊢
  · exact h
  · exact h.2.imp_left fun hp => ⟨h.1, hp⟩
  · exact or_assoc.mpr h

theorem applied_mono {event : InputEvent} {P P' : ℕ → Prop} (h : ∀ c, P c → P' c) {c : ℕ}
    (hc : applied event P c) : applied event P' c := by
  rcases hcode : event.heldTransition with _ | ⟨code, _ | _⟩ <;> simp only [applied, hcode] at hc ⊢
  · exact h c hc
  · exact ⟨hc.1, h c hc.2⟩
  · exact hc.imp_right (h c)

/-- After an input everything that is down is covered. -/
theorem held_input (session sequence : ℕ) (event : InputEvent) {r : Receiver B}
    (h : HeldCovers law r) :
    wp (input session sequence event) r (fun _ => HeldCovers law) (fun _ => HeldCovers law) := by
  rw [input, wp_bind, wp_get, wp_ite]
  refine ⟨fun _ => h, fun heq => ?_⟩
  have hmode : r.state.mode = .receiving := by
    simpa using (not_or.mp heq).2
  rw [wp_ite]
  refine ⟨fun _ => ?_, fun _ => ?_⟩
  · rw [wp_bind]
    exact held_stop _ h
  cases event.validate with
  | error e =>
      simp only [wp_bind]
      exact held_stop _ h
  | ok =>
      simp only [wp_ite, wp_bind]
      refine ⟨fun _ => held_stop _ h, fun _ => ?_⟩
      rw [wp_set, wp_attempt]
      -- whatever was down or is now being pressed is held while the event is emitted
      refine wp_call (fun b hb => ?_) fun e b hb => ?_
      · rw [wp_bind, wp_modify]
        intro c hc
        have hdown := applied_mono h ((law.emit_ok hb c).mp hc)
        exact (applied_or hdown).imp_left (mem_forget_remember hmode).mpr
      · rw [wp_bind, wp_attempt]
        refine wp_mono (held_stop _ fun c hc => ?_) (fun _ _ => id) fun _ _ => id
        rcases law.emit_error hb with he | he
        · exact (h c ((he c).mp hc)).imp_left fun hm => (mem_remember hmode).mpr (.inr hm)
        · exact (applied_or (applied_mono h ((he c).mp hc))).imp_left
            (mem_remember_of_applied hmode)

/-- A call after which less is down keeps it covered. -/
theorem held_shrinks {f : B → Result Unit × B} {r : Receiver B}
    (hf : ∀ {b c}, law.down (f b).2 c → law.down b c) (h : HeldCovers law r) :
    wp (call f) r (fun _ => HeldCovers law) (fun _ => HeldCovers law) :=
  wp_call (fun b hb c hc => h c (hf (by rw [hb]; exact hc)))
    fun e b hb c hc => h c (hf (by rw [hb]; exact hc))

theorem held_emit_absolute {event : InputEvent} (ha : isAbsolute event = true) {r : Receiver B}
    (h : HeldCovers law r) :
    wp (call (InputSink.emit event)) r (fun _ => HeldCovers law) (fun _ => HeldCovers law) := by
  have hnone : event.heldTransition = none := by
    cases event <;> first | rfl | cases ha
  refine wp_call (fun b hb => ?_) fun e b hb => ?_ <;> intro c hc
  · have hdown := (law.emit_ok hb c).mp hc
    rw [applied, hnone] at hdown
    exact h c hdown
  · rcases law.emit_error hb with he | he
    · exact h c ((he c).mp hc)
    · have hdown := (he c).mp hc
      rw [applied, hnone] at hdown
      exact h c hdown

/-! ### Every sequence of calls -/

/-- The calls of a receiver, with any arguments. -/
inductive Call where
  | «begin» (session : ℕ)
  | input (session sequence : ℕ) (event : InputEvent)
  | «end» (session : ℕ)
  | stop (reason : StopReason)
  | localLock (locked : Bool)
  | peerLock (locked : Bool)
  | physicalActivity
  | position (event : InputEvent)
  | positionOn (output : String) (event : InputEvent)
  | poll
  | configureTouchpads (devices : List Touchpad.Descriptor)

/-- What a call does to a receiver. -/
def Call.run : Call → ReceiverM B Unit
  | .begin session => discard (Receiver.begin session)
  | .input session sequence event => discard (Receiver.input session sequence event)
  | .end session => Receiver.end session
  | .stop reason => Receiver.stop reason
  | .localLock locked => Receiver.localLock locked
  | .peerLock locked => Receiver.peerLock locked
  | .physicalActivity => Receiver.physicalActivity
  | .position event => Receiver.position event
  | .positionOn output event => Receiver.positionOn output event
  | .poll => Receiver.poll
  | .configureTouchpads devices => Receiver.configureTouchpads devices

/-- The receiver after a call, whichever way it ends. -/
def next (r : Receiver B) (call : Call) : Receiver B :=
  match call.run r with
  | .ok _ r' => r'
  | .error _ r' => r'

/-- Every call keeps everything that is down covered. -/
theorem held_call (call : Call) {r : Receiver B} (hinv : Inv r) (h : HeldCovers law r) :
    wp call.run r (fun _ => HeldCovers law) (fun _ => HeldCovers law) := by
  cases call with
  | «begin» session => exact wp_map.mpr (held_begin session hinv h)
  | input session sequence event => exact wp_map.mpr (held_input session sequence event h)
  | «end» session =>
      rw [Call.run, Receiver.end, wp_bind, wp_get, wp_ite]
      exact ⟨fun _ => held_stop _ h, fun _ => h⟩
  | stop reason => exact held_stop reason h
  | localLock locked => exact held_localLock locked h
  | peerLock locked => exact held_peerLock locked h
  | physicalActivity => exact held_physicalActivity h
  | position event =>
      rw [Call.run, Receiver.position, wp_bind, wp_check]
      refine ⟨fun _ ha => ?_, fun _ _ => h⟩
      rw [wp_bind, wp_check]
      exact ⟨fun _ _ => held_emit_absolute (ensure_eq_ok.mp ha) h, fun _ _ => h⟩
  | positionOn output event =>
      rw [Call.run, Receiver.positionOn, wp_bind, wp_get, wp_bind, wp_check]
      refine ⟨fun _ _ => ?_, fun _ _ => h⟩
      rw [wp_bind, wp_check]
      refine ⟨fun _ ha => ?_, fun _ _ => h⟩
      rw [wp_bind, wp_check]
      refine ⟨fun _ _ => ?_, fun _ _ => h⟩
      rw [wp_bind]
      exact wp_mono (held_shrinks law.selectOutput h)
        (fun _ _ => held_emit_absolute (ensure_eq_ok.mp ha)) fun _ _ => id
  | poll => exact held_shrinks law.poll h
  | configureTouchpads devices =>
      rw [Call.run, Receiver.configureTouchpads, wp_bind, wp_get, wp_bind, wp_check]
      exact ⟨fun _ _ => held_shrinks law.configureTouchpads h, fun _ _ => h⟩

/-- Every call keeps the invariant. -/
theorem inv_call (call : Call) {r : Receiver B} (h : Inv r) :
    wp call.run r (fun _ => Inv) (fun _ => Inv) := by
  -- each call by its own specification
  cases call with
  | «begin» session =>
      exact wp_map.mpr (wp_mono (begin_spec session h) (fun _ _ h' => h'.1) fun _ _ h' => h'.1 ▸ h)
  | input session sequence event =>
      refine wp_map.mpr (wp_mono (input_spec session sequence event h) (fun taken r' h' => ?_)
        fun _ _ h' => h'.inv)
      cases taken with
      | true => exact Passed.inv h'
      | false => exact h'.1 ▸ h
  | «end» session =>
      refine wp_mono (end_spec session r) (fun _ r' h' => ?_) fun _ _ h' => h'.2.1.inv
      split_ifs at h'
      · exact h'.inv
      · exact h' ▸ h
  | stop reason => exact wp_mono (stop_idle reason r) (fun _ _ h' => h'.inv) fun _ _ h' => h'.1.inv
  | localLock locked =>
      exact wp_mono (localLock_spec locked h) (fun _ _ h' => h'.inv) fun _ _ h' => h'.1.inv
  | peerLock locked =>
      exact wp_mono (peerLock_spec locked h) (fun _ _ h' => h'.inv) fun _ _ h' => h'.1.inv
  | physicalActivity =>
      exact wp_mono (physicalActivity_spec h) (fun _ _ h' => h'.inv) fun _ _ h' => h'.1.inv
  | position event =>
      exact wp_mono (position_spec event r) (fun _ _ h' => h.of_framed h'.framed)
        fun _ _ h' => h.of_framed h'.1.framed
  | positionOn output event =>
      exact wp_mono (positionOn_spec output event r) (fun _ _ h' => h.of_framed h'.framed)
        fun _ _ h' => h.of_framed h'.1.framed
  | poll =>
      exact wp_mono (poll_spec r) (fun _ _ h' => h.of_framed h'.framed)
        fun _ _ h' => h.of_framed h'.1.framed
  | configureTouchpads devices =>
      exact wp_mono (configureTouchpads_spec devices r) (fun _ _ h' => h.of_framed h'.framed)
        fun _ _ h' => h.of_framed h'.1.framed

/-- A call keeps what it keeps whichever way it ends. -/
theorem next_of_wp {I : Receiver B → Prop} {call : Call} {r : Receiver B}
    (h : wp call.run r (fun _ => I) (fun _ => I)) : I (next r call) := by
  unfold next
  cases hrun : call.run r with
  | ok _ r' => exact wp_of_ok h hrun
  | error _ r' => exact wp_of_error h hrun

/-- The invariant holds after any calls. -/
theorem inv_run (sink : B) (calls : List Call) : Inv (Run.run next (new sink) calls) :=
  Run.run_invariant_of_step (fun _ call h => next_of_wp (inv_call call h)) (inv_new sink)

/-- After any calls everything that is down is covered. -/
theorem held_run {sink : B} (hsink : ∀ c, ¬ law.down sink c) (calls : List Call) :
    HeldCovers law (Run.run next (new sink) calls) := by
  refine (Run.run_invariant_of_step (I := fun r => Inv r ∧ HeldCovers law r) (fun r call h => ?_)
    ⟨inv_new sink, fun c hc => absurd hc (hsink c)⟩).2
  exact ⟨next_of_wp (inv_call call h.1), next_of_wp (held_call call h.1 h.2)⟩

/-- A backend that fails as its script says, with or without an effect. -/
structure Scripted where
  down : SortedSet ℕ
  /-- For each `emit` to come: whether it succeeds, and whether a failing one takes effect. -/
  script : List (Bool × Bool)

namespace Scripted

/-- What is down once an event has been emitted. -/
def apply (event : InputEvent) (down : SortedSet ℕ) : SortedSet ℕ :=
  match event.heldTransition with
  | some (code, true) => down.insert code
  | some (code, false) => down.erase code
  | none => down

/-- The next answer of the script; an event that fails may still take effect. -/
def emit (event : InputEvent) (b : Scripted) : Result Unit × Scripted :=
  match b.script with
  | (false, effect) :: script =>
      (.error ["write failed"], ⟨if effect then apply event b.down else b.down, script⟩)
  | _ => (.ok (), ⟨apply event b.down, b.script.tail⟩)

instance : InputSink Scripted where
  poll b := (.ok (), b)
  emit := emit
  selectOutput _ b := (.ok (), b)
  configureTouchpads _ b := (.ok (), b)
  resetTouchpads b := (.ok (), b)

theorem mem_apply {event : InputEvent} {down : SortedSet ℕ} {c : ℕ} :
    c ∈ apply event down ↔ applied event (· ∈ down) c := by
  unfold apply applied
  rcases event.heldTransition with _ | ⟨code, _ | _⟩ <;> simp

/-- This backend is honest about what is down. -/
def sinkLaw : SinkLaw Scripted where
  down b c := c ∈ b.down
  touched _ := False
  emit_ok {event b b'} h c := by
    change emit event b = _ at h
    unfold emit at h
    split at h <;> cases h
    exact mem_apply
  emit_error {event b b' e} h := by
    change emit event b = _ at h
    unfold emit at h
    split at h <;> cases h
    rename_i effect script _
    cases effect
    · exact .inl fun c => Iff.rfl
    · exact .inr fun c => mem_apply
  poll h := h
  selectOutput h := h
  configureTouchpads h := h
  resetTouchpads h := h
  reset_ok _ h := h

/-- A press that fails after it took effect, and whose release fails as well. -/
def failing : Scripted := ⟨∅, [(false, true), (false, false)]⟩

end Scripted

end NiriBridge.Receiver
