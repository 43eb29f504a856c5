import Mathlib.Data.List.Induction
import NiriBridge.Receiver.Held

/-!
# Receiver — Gate

What reaches the backend.  `Tapped B` is a backend that also keeps a list of what it has been asked
to emit, so "reaches the backend" is a statement about that list, whatever the backend answers.

* `emitted_next`: a call asks for the input it passes on, or one placement, and otherwise for
  releases.
* `session_run`: a session is active exactly while its `begin` is the last that was granted and
  nothing has ended it since.
* `injection_gated`: input is passed on exactly then, in order, and never across a lock.
-/

namespace NiriBridge.Receiver

open Hoare

/-- A backend with the list of events it has been asked to emit. -/
structure Tapped (B : Type) where
  sink : B
  emitted : List InputEvent

namespace Tapped

variable {B : Type}

/-- A call of the backend that emits nothing. -/
def through (f : B → Result Unit × B) (b : Tapped B) : Result Unit × Tapped B :=
  ((f b.sink).1, { b with sink := (f b.sink).2 })

instance [InputSink B] : InputSink (Tapped B) where
  poll := through InputSink.poll
  emit event b := ((InputSink.emit event b.sink).1,
    ⟨(InputSink.emit event b.sink).2, b.emitted ++ [event]⟩)
  selectOutput output := through (InputSink.selectOutput output)
  configureTouchpads devices := through (InputSink.configureTouchpads devices)
  resetTouchpads := through InputSink.resetTouchpads

end Tapped

variable {B : Type} [InputSink B]

/-! ### What a call asks the backend to emit -/

/-- The backend has been asked to emit `events`. -/
def Emits (events : List InputEvent) (r r' : Receiver (Tapped B)) : Prop :=
  r'.sink.emitted = r.sink.emitted ++ events

omit [InputSink B] in
theorem Emits.trans {r r' r'' : Receiver (Tapped B)} {events events' : List InputEvent}
    (h : Emits events r r') (h' : Emits events' r' r'') : Emits (events ++ events') r r'' := by
  rw [Emits, h', h, List.append_assoc]

omit [InputSink B] in
/-- Other calls of the backend emit nothing. -/
theorem emits_call {f : B → Result Unit × B} (r : Receiver (Tapped B)) :
    wp (call (Tapped.through f)) r (fun _ => Emits [] r) (fun _ => Emits [] r) := by
  refine wp_call (fun b hb => ?_) fun e b hb => ?_ <;>
    exact (congrArg Tapped.emitted (Prod.mk.inj hb).2).symm.trans (List.append_nil _).symm

theorem emitted_of_emit {event : InputEvent} {b b' : Tapped B} {x : Result Unit}
    (h : InputSink.emit event b = (x, b')) : b'.emitted = b.emitted ++ [event] :=
  (congrArg Tapped.emitted (Prod.mk.inj h).2).symm

theorem emits_emit (event : InputEvent) (r : Receiver (Tapped B)) :
    wp (call (InputSink.emit event)) r (fun _ => Emits [event] r) (fun _ => Emits [event] r) :=
  wp_call (fun _ hb => emitted_of_emit hb) fun _ _ hb => emitted_of_emit hb

/-- Every code is tried, whatever happens to those before it. -/
theorem emits_releaseCodes (codes : List ℕ) (first : Option Error) (r : Receiver (Tapped B)) :
    wp (releaseCodes codes first) r (fun _ => Emits (codes.map .release) r) (fun _ _ => False) := by
  induction codes generalizing first r with
  | nil => exact (List.append_nil _).symm
  | cons code codes ih =>
      have hnext : ∀ first' r' r'', Emits [.release code] r r' → r''.sink = r'.sink →
          wp (releaseCodes codes first') r'' (fun _ => Emits ((code :: codes).map .release) r)
            (fun _ _ => False) := by
        intro first' r' r'' h' hsink
        refine wp_mono (ih first' r'') (fun _ r₁ h₁ => ?_) fun _ _ => id
        have h'' : Emits [.release code] r r'' := by rw [Emits, hsink, h']
        exact h''.trans h₁
      rw [releaseCodes, wp_bind, wp_attempt]
      refine wp_mono (emits_emit (.release code) r) (fun _ r' h' => ?_) fun e r' h' => ?_
      · rw [wp_bind, wp_modify]
        exact hnext first r' _ h' rfl
      · exact hnext _ r' r' h' rfl

/-- What `release` asks for. -/
def releaseEvents (r : Receiver B) (codes : List ℕ) : List InputEvent :=
  (r.pendingReleases.extend codes).toList.map .release

/-- The release of codes emits their releases. -/
theorem emits_release (codes : List ℕ) (r : Receiver (Tapped B)) :
    wp (release codes) r (fun _ => Emits (releaseEvents r codes) r)
      (fun _ => Emits (releaseEvents r codes) r) := by
  rw [release, wp_bind, wp_modify, wp_bind, wp_get, wp_bind]
  refine wp_mono (emits_releaseCodes _ _ _) (fun res r' h' => ?_) fun _ _ => False.elim
  cases res <;> exact h'

/-- So does the cleanup after a session. -/
theorem emits_releaseWithTouchpads (codes : List ℕ) (r : Receiver (Tapped B)) :
    wp (releaseWithTouchpads codes) r (fun _ => Emits (releaseEvents r codes) r)
      (fun _ => Emits (releaseEvents r codes) r) := by
  have hpads : ∀ (keys : Result Unit) r', Emits (releaseEvents r codes) r r' →
      wp (do let pads ← attempt (call InputSink.resetTouchpads); check keys; check pads) r'
        (fun _ => Emits (releaseEvents r codes) r) (fun _ => Emits (releaseEvents r codes) r) := by
    intro keys r' h'
    rw [wp_bind, wp_attempt]
    refine wp_mono (emits_call r') (fun _ r'' h'' => ?_) fun _ r'' h'' => ?_ <;>
    · have h : Emits (releaseEvents r codes) r r'' :=
        List.append_nil (releaseEvents r codes) ▸ h'.trans h''
      simp only [wp_bind, wp_check]
      exact ⟨fun _ _ => ⟨fun _ _ => h, fun _ _ => h⟩, fun _ _ => h⟩
  rw [releaseWithTouchpads, wp_bind, wp_attempt]
  exact wp_mono (emits_release codes r) (fun _ r' => hpads _ r') fun _ r' => hpads _ r'

/-- A stop emits the releases of what is held. -/
theorem emits_stop (reason : StopReason) (r : Receiver (Tapped B)) :
    wp (stop reason) r (fun _ => Emits (releaseEvents r r.state.held.keys.toList) r)
      (fun _ => Emits (releaseEvents r r.state.held.keys.toList) r) := by
  rw [stop, wp_bind, wp_get, wp_bind, wp_set]
  exact emits_releaseWithTouchpads _ _

/-- What a call has made of the input passed on and of the backend: `handed` is the input it passes
on, `placed` a placement of the pointer it was asked for, and the rest are releases. -/
def Reached (handed : List (ℕ × ℕ × InputEvent)) (placed : List InputEvent)
    (r r' : Receiver (Tapped B)) : Prop :=
  r'.passed = r.passed ++ handed ∧
    ∃ codes : List ℕ, Emits (handed.map (·.2.2) ++ placed ++ codes.map .release) r r'

omit [InputSink B] in
theorem reached_of_emits (codes : List ℕ) {r r' : Receiver (Tapped B)} (hp : r'.passed = r.passed)
    (h : Emits (codes.map .release) r r') : Reached [] [] r r' :=
  ⟨hp.trans (List.append_nil _).symm, codes, h⟩

/-- A stop passes no input on. -/
theorem reached_stop (reason : StopReason) (r : Receiver (Tapped B)) :
    wp (stop reason) r (fun _ => Reached [] [] r) (fun _ => Reached [] [] r) :=
  wp_mono (wp_and (stop_spec reason r) (emits_stop reason r))
    (fun _ _ h => reached_of_emits _ h.1.1.passed h.2) fun _ _ h =>
      reached_of_emits _ h.1.1.passed h.2

/-- Nor does a change of a lock. -/
theorem reached_lockChanged (effects : StopEffects) (state : ControlState)
    (r : Receiver (Tapped B)) :
    wp (lockChanged effects state) r (fun _ => Reached [] [] r) (fun _ => Reached [] [] r) := by
  have hemits : wp (lockChanged effects state) r
      (fun _ => Emits (releaseEvents r effects.releaseCodes) r)
      (fun _ => Emits (releaseEvents r effects.releaseCodes) r) := by
    rw [lockChanged, wp_bind, wp_get, wp_ite]
    refine ⟨fun _ => ?_, fun _ => ?_⟩ <;> rw [wp_bind, wp_set]
    · exact emits_releaseWithTouchpads _ _
    · exact emits_release _ _
  exact wp_mono (wp_and (lockChanged_spec effects state r) hemits)
    (fun _ _ h => reached_of_emits _ h.1.1.passed h.2) fun _ _ h =>
      reached_of_emits _ h.1.1.passed h.2

/-- The receiver passes the event on. -/
def Accepts (r : Receiver B) (session sequence : ℕ) (event : InputEvent) : Prop :=
  r.session = some session ∧ sequence = r.expectedSequence ∧ event.validate = .ok () ∧
    sequence + 1 < 2 ^ 64

/-- An input reaches the backend, or nothing does. -/
theorem reached_input (session sequence : ℕ) (event : InputEvent) {r : Receiver (Tapped B)}
    (h : Inv r) :
    let Q := fun r' => Reached [(session, sequence, event)] [] r r' ∧
        Accepts r session sequence event ∨
      Reached [] [] r r' ∧ ¬ Accepts r session sequence event
    wp (input session sequence event) r (fun _ => Q) (fun _ => Q) := by
  intro Q
  have hstop : ¬ Accepts r session sequence event →
      wp (stop .disconnected) r (fun _ => Q) (fun _ => Q) := fun hno =>
    wp_mono (reached_stop .disconnected r) (fun _ _ h' => .inr ⟨h', hno⟩) fun _ _ h' =>
      .inr ⟨h', hno⟩
  rw [input, wp_bind, wp_get, wp_ite]
  -- another session, or none: the input is dropped
  refine ⟨fun hne => ?_, fun heq => ?_⟩
  · refine .inr ⟨reached_of_emits [] rfl (List.append_nil _).symm, fun hacc => ?_⟩
    exact hne.elim (absurd hacc.1) (absurd (h.receiving_iff.mpr (by simp [hacc.1])))
  obtain ⟨hs, -⟩ : r.session = some session ∧ r.state.mode = .receiving := by
    simpa only [not_or, not_not] using heq
  rw [wp_ite]
  -- the checks in the order of the source; each that fails stops the session
  refine ⟨fun hseq => ?_, fun hseq => ?_⟩
  · rw [wp_bind]
    exact hstop fun hacc => hseq hacc.2.1
  have hseq := not_not.mp hseq
  cases hv : event.validate with
  | error e =>
      simp only [wp_bind]
      exact hstop fun hacc => absurd (hv.symm.trans hacc.2.2.1) (by simp)
  | ok =>
      simp only [wp_ite, wp_bind]
      refine ⟨fun hlarge => hstop fun hacc => ?_, fun hsmall => ?_⟩
      · have := hacc.2.2.2
        omega
      have hacc : Accepts r session sequence event := ⟨hs, hseq, hv, by omega⟩
      rw [wp_set, wp_attempt]
      -- from here on the input has been accepted, also if the backend fails
      refine wp_call (fun b hb => ?_) fun e b hb => ?_
      · rw [wp_bind, wp_modify]
        exact .inl ⟨⟨rfl, [], emitted_of_emit hb⟩, hacc⟩
      · rw [wp_bind, wp_attempt]
        have hreached : ∀ r₁ r' : Receiver (Tapped B), r₁.sink = b →
            r₁.passed = r.passed ++ [(session, sequence, event)] → Reached [] [] r₁ r' → Q r' := by
          intro r₁ r' hsink hpassed ⟨hpassed', codes, h'⟩
          refine .inl ⟨⟨by rw [hpassed', hpassed, List.append_nil], codes, ?_⟩, hacc⟩
          have hemit : Emits [event] r r₁ := by rw [Emits, hsink, emitted_of_emit hb]
          exact hemit.trans h'
        exact wp_mono (reached_stop _ _) (fun _ r' => hreached _ r' rfl rfl)
          fun _ r' => hreached _ r' rfl rfl

/-- The input a call passes on. -/
def HandedBy (r : Receiver B) (handed : List (ℕ × ℕ × InputEvent)) : Call → Prop
  | .input session sequence event =>
      handed = [(session, sequence, event)] ∧ Accepts r session sequence event ∨
        handed = [] ∧ ¬ Accepts r session sequence event
  | _ => handed = []

/-- The pointer is placed where a call asks for it. -/
def PlacedBy (placed : List InputEvent) : Call → Prop
  | .position event | .positionOn _ event =>
      placed = [] ∨ placed = [event] ∧ isAbsolute event = true
  | _ => placed = []

/-- What a call asks the backend to emit. -/
def ReachedBy (call : Call) (r r' : Receiver (Tapped B)) : Prop :=
  ∃ handed placed, HandedBy r handed call ∧ PlacedBy placed call ∧ Reached handed placed r r'

/-- Only a placement reaches the backend. -/
theorem reached_position (event : InputEvent) (r : Receiver (Tapped B)) :
    let Q := fun r' => ∃ placed, (placed = [] ∨ placed = [event] ∧ isAbsolute event = true) ∧
      Reached [] placed r r'
    wp (position event) r (fun _ => Q) (fun _ => Q) := by
  intro Q
  have hnone : Q r := ⟨[], .inl rfl, reached_of_emits [] rfl (List.append_nil _).symm⟩
  rw [position, wp_bind, wp_check]
  refine ⟨fun _ ha => ?_, fun _ _ => hnone⟩
  rw [wp_bind, wp_check]
  have ha := ensure_eq_ok.mp ha
  refine ⟨fun _ _ => ?_, fun _ _ => hnone⟩
  refine wp_call (fun b hb => ?_) fun e b hb => ?_ <;>
    exact ⟨[event], .inr ⟨rfl, ha⟩, (List.append_nil _).symm, [], emitted_of_emit hb⟩

/-- Only a placement reaches the backend. -/
theorem reached_positionOn (output : String) (event : InputEvent) (r : Receiver (Tapped B)) :
    let Q := fun r' => ∃ placed, (placed = [] ∨ placed = [event] ∧ isAbsolute event = true) ∧
      Reached [] placed r r'
    wp (positionOn output event) r (fun _ => Q) (fun _ => Q) := by
  intro Q
  have hnone : ∀ r', r'.passed = r.passed → Emits [] r r' → Q r' := fun r' hp h =>
    ⟨[], .inl rfl, reached_of_emits [] hp h⟩
  have hr : Q r := hnone r rfl (List.append_nil _).symm
  rw [positionOn, wp_bind, wp_get, wp_bind, wp_check]
  refine ⟨fun _ _ => ?_, fun _ _ => hr⟩
  rw [wp_bind, wp_check]
  refine ⟨fun _ ha => ?_, fun _ _ => hr⟩
  have ha := ensure_eq_ok.mp ha
  rw [wp_bind, wp_check]
  refine ⟨fun _ _ => ?_, fun _ _ => hr⟩
  rw [wp_bind]
  have hselect : ∀ b x, InputSink.selectOutput output r.sink = (x, b) →
      b.emitted = r.sink.emitted := fun b x hb => (congrArg Tapped.emitted (Prod.mk.inj hb).2).symm
  refine wp_call (fun b hb => ?_) fun e b hb => ?_
  · refine wp_call (fun b' hb' => ?_) fun e b' hb' => ?_ <;>
    · refine ⟨[event], .inr ⟨rfl, ha⟩, (List.append_nil _).symm, [], ?_⟩
      exact (emitted_of_emit hb').trans (congrArg (· ++ [event]) (hselect b _ hb))
  · exact hnone _ rfl ((hselect b _ hb).trans (List.append_nil _).symm)

/-- What a call lets through to the backend. -/
theorem reached_call (call : Call) {r : Receiver (Tapped B)} (h : Inv r) :
    wp call.run r (fun _ => ReachedBy call r) (fun _ => ReachedBy call r) := by
  have hquiet : ∀ {r'}, HandedBy r [] call → PlacedBy [] call → Reached [] [] r r' →
      ReachedBy call r r' := fun h₁ h₂ h₃ => ⟨[], [], h₁, h₂, h₃⟩
  have hnothing : ∀ {r'}, HandedBy r [] call → PlacedBy [] call → r' = r → ReachedBy call r r' := by
    rintro r' h₁ h₂ rfl
    exact hquiet h₁ h₂ (reached_of_emits [] rfl (List.append_nil _).symm)
  cases call with
  | «begin» session =>
      -- a session begins without a word to the backend
      refine wp_map.mpr (wp_mono (begin_spec session h) (fun started r' h' => ?_)
        fun _ _ h' => hnothing rfl rfl h'.1)
      obtain ⟨⟨hsink, -, -⟩, -⟩ := h'.2.2.2.1
      exact hquiet rfl rfl (reached_of_emits [] h'.2.2.1
        (by rw [Emits, hsink]; exact (List.append_nil _).symm))
  | input session sequence event =>
      -- an input passes where it is accepted, and nowhere else
      have hreached : ∀ r', (Reached [(session, sequence, event)] [] r r' ∧
          Accepts r session sequence event ∨ Reached [] [] r r' ∧
          ¬ Accepts r session sequence event) → ReachedBy (.input session sequence event) r r' := by
        rintro r' (⟨h', hacc⟩ | ⟨h', hacc⟩)
        · exact ⟨_, [], .inl ⟨rfl, hacc⟩, rfl, h'⟩
        · exact ⟨[], [], .inr ⟨rfl, hacc⟩, rfl, h'⟩
      exact wp_map.mpr (wp_mono (reached_input session sequence event h) (fun _ r' => hreached r')
        fun _ r' => hreached r')
  | «end» session =>
      rw [Call.run, Receiver.end, wp_bind, wp_get, wp_ite]
      exact ⟨fun _ =>
        wp_mono (reached_stop _ r) (fun _ _ => hquiet rfl rfl) fun _ _ => hquiet rfl rfl,
        fun _ => hnothing rfl rfl rfl⟩
  | stop reason =>
      exact wp_mono (reached_stop reason r) (fun _ _ => hquiet rfl rfl) fun _ _ => hquiet rfl rfl
  | localLock locked =>
      rw [Call.run, Receiver.localLock, wp_bind, wp_get]
      exact wp_mono (reached_lockChanged _ _ r) (fun _ _ => hquiet rfl rfl)
        fun _ _ => hquiet rfl rfl
  | peerLock locked =>
      rw [Call.run, Receiver.peerLock, wp_bind, wp_get]
      exact wp_mono (reached_lockChanged _ _ r) (fun _ _ => hquiet rfl rfl)
        fun _ _ => hquiet rfl rfl
  | physicalActivity =>
      rw [Call.run, Receiver.physicalActivity, wp_bind, wp_get]
      cases r.state.receiverPhysicalActivity with
      | none => exact hnothing rfl rfl rfl
      | some change =>
          rw [wp_bind, wp_set]
          exact wp_mono (wp_and (releaseWithTouchpads_spec _ _) (emits_releaseWithTouchpads _ _))
            (fun _ _ h' => hquiet rfl rfl (reached_of_emits _ h'.1.1.passed h'.2))
            fun _ _ h' => hquiet rfl rfl (reached_of_emits _ h'.1.1.passed h'.2)
  | position event =>
      -- the pointer is placed only while no session is active
      have hplaced : ∀ r', (∃ placed, PlacedBy placed (.position event) ∧ Reached [] placed r r') →
          ReachedBy (.position event) r r' := by
        rintro r' ⟨placed, hp, h'⟩
        exact ⟨[], placed, rfl, hp, h'⟩
      exact wp_mono (reached_position event r) (fun _ => hplaced) fun _ => hplaced
  | positionOn output event =>
      have hplaced : ∀ r', (∃ placed, PlacedBy placed (.positionOn output event) ∧
          Reached [] placed r r') → ReachedBy (.positionOn output event) r r' := by
        rintro r' ⟨placed, hp, h'⟩
        exact ⟨[], placed, rfl, hp, h'⟩
      exact wp_mono (reached_positionOn output event r) (fun _ => hplaced) fun _ => hplaced
  | poll =>
      exact wp_mono (wp_and (poll_spec r) (emits_call r))
        (fun _ _ h' => hquiet rfl rfl (reached_of_emits [] h'.1.framed.passed h'.2))
        fun _ _ h' => hquiet rfl rfl (reached_of_emits [] h'.1.1.framed.passed h'.2)
  | configureTouchpads devices =>
      rw [Call.run, Receiver.configureTouchpads, wp_bind, wp_get, wp_bind, wp_check]
      refine ⟨fun _ _ => ?_, fun _ _ => hnothing rfl rfl rfl⟩
      refine wp_call (fun b hb => ?_) fun e b hb => ?_ <;>
        exact hquiet rfl rfl (reached_of_emits [] rfl
          ((congrArg Tapped.emitted (Prod.mk.inj hb).2).symm.trans (List.append_nil _).symm))

/-- What a call lets through to the backend, in every state. -/
theorem emitted_next (call : Call) {r : Receiver (Tapped B)} (h : Inv r) :
    ReachedBy call r (next r call) := next_of_wp (reached_call call h)

/-! ### Sessions -/

/-- `begin` for the session succeeds. -/
def Granted (session : ℕ) (r : Receiver B) : Prop := ∃ r', «begin» session r = .ok true r'

/-- The call ends no session `session`: it is no end of that session, no stop, takeover or lock, and
no input that fails. -/
def Undisturbed (session : ℕ) (r : Receiver B) : Call → Prop
  | .end s => s ≠ session
  | .stop _ | .physicalActivity => False
  | .localLock locked | .peerLock locked => locked = false
  | .input s sequence event => ∀ e r', Receiver.input s sequence event r ≠ .error e r'
  | _ => True

/-- The sequence number and the event of an input for the session. -/
def inputOf (session : ℕ) : Call → Option (ℕ × InputEvent)
  | .input s sequence event => if s = session then some (sequence, event) else none
  | _ => none

/-- The inputs of a session among the calls. -/
def inputsOf (session : ℕ) (calls : List Call) : List (ℕ × InputEvent) :=
  calls.filterMap (inputOf session)

/-- What a call does to the session, the number expected next, and the input passed on. -/
inductive Step (r r' : Receiver B) (call : Call) : Prop where
  | began {session : ℕ} (hcall : call = .begin session) (granted : Granted session r)
      (unlocked : locks r = (false, false)) (active : r'.session = some session)
      (expectedSequence : r'.expectedSequence = 0) (passed : r'.passed = r.passed)
  | took {session sequence : ℕ} {event : InputEvent} (hcall : call = .input session sequence event)
      (accepts : Accepts r session sequence event) (undisturbed : Undisturbed session r call)
      (continues : r'.session = r.session) (expectedSequence : r'.expectedSequence =
        r.expectedSequence + 1)
      (passed : r'.passed = r.passed ++ [(session, sequence, event)])
  | kept (continues : r'.session = r.session) (expectedSequence : r'.expectedSequence =
      r.expectedSequence)
      (passed : r'.passed = r.passed) (refused : ∀ session,
        call = .begin session → ¬ Granted session r)
      (undisturbed : ∀ session, r.session = some session →
        Undisturbed session r call ∧ inputOf session call = none)
  | ended (idle : r'.session = none) (hcall : ∀ session, call ≠ .begin session)
      (disturbed : ∀ session, r.session = some session → ¬ Undisturbed session r call)

theorem Framed.step {r r' : Receiver B} {call : Call} (h : Framed r r')
    (hb : ∀ session, call ≠ .begin session)
    (hu : ∀ session, r.session = some session →
      Undisturbed session r call ∧ inputOf session call = none) : Step r r' call :=
  .kept h.session h.expectedSequence h.passed (fun s he => absurd he (hb s)) hu

/-- A lock notification that says nothing new keeps the session; any other ends it. -/
theorem Relocked.step {r r' : Receiver B} {call : Call} {unchanged : Bool} {newLocks : Bool × Bool}
    (h : Relocked unchanged newLocks r r') (hb : ∀ session, call ≠ .begin session)
    (hu : unchanged = true → ∀ session, r.session = some session →
      Undisturbed session r call ∧ inputOf session call = none)
    (hd : unchanged = false → ∀ session, r.session = some session → ¬ Undisturbed session r call) :
    Step r r' call := by
  cases unchanged with
  | true =>
      exact .kept h.session h.expectedSequence h.passed (fun s he => absurd he (hb s)) (hu rfl)
  | false => exact .ended h.session hb (hd rfl)

omit [InputSink B] in
/-- A session is granted to a receiver that has none. -/
theorem Granted.idle {session : ℕ} {r : Receiver B} (h : Inv r) (hg : Granted session r) :
    r.session = none := by
  obtain ⟨r', hrun⟩ := hg
  have hwp : wp («begin» session) r (fun started _ => started = true → r.session = none)
      (fun _ _ => True) := by
    rw [«begin», wp_bind, wp_check]
    refine ⟨fun _ _ => ?_, fun _ _ => trivial⟩
    rw [wp_bind, wp_get, wp_bind, wp_check]
    refine ⟨fun _ _ => ?_, fun _ _ => trivial⟩
    -- `start` refuses any mode but local, and an active session means receiving
    have hstart : (r.state.start .receiving).1 = true → r.session = none := by
      intro hstart
      by_contra hs
      have hmode : r.state.mode = .receiving :=
        h.receiving_iff.mpr (Option.isSome_iff_ne_none.mpr hs)
      simp [ControlState.start, hmode] at hstart
    rcases hst : r.state.start .receiving with ⟨started, state⟩
    rw [hst] at hstart
    simp only [wp_ite]
    exact ⟨fun hs _ => hstart hs, fun _ => by simp⟩
  exact wp_of_ok hwp hrun rfl

/-- What `input` takes, it was to take. -/
theorem input_accepts (session sequence : ℕ) (event : InputEvent) {r : Receiver B} :
    wp (input session sequence event) r
      (fun taken _ => taken = true → Accepts r session sequence event) (fun _ _ => True) := by
  have hthrow : ∀ (reason : StopReason) (e : Error) (r' : Receiver B),
    wp (do stop reason; throw e) r'
      (fun taken _ => taken = true → Accepts r session sequence event) (fun _ _ => True) :=
    fun reason e r' => wp_bind_of_forall (fun _ _ => trivial) fun _ _ => trivial
  rw [input, wp_bind, wp_get, wp_ite]
  refine ⟨fun _ => by simp, fun heq => ?_⟩
  obtain ⟨hs, -⟩ : r.session = some session ∧ r.state.mode = .receiving := by
    simpa only [not_or, not_not] using heq
  rw [wp_ite]
  refine ⟨fun _ => hthrow _ _ r, fun hseq => ?_⟩
  have hseq := not_not.mp hseq
  cases hv : event.validate with
  | error e => exact hthrow _ _ r
  | ok =>
      simp only [wp_ite]
      refine ⟨fun _ => hthrow _ _ r, fun hsmall => ?_⟩
      rw [wp_bind, wp_set, wp_bind, wp_attempt]
      refine wp_call (fun b _ => ?_) fun e b _ => ?_
      · rw [wp_bind, wp_modify]
        exact fun _ => ⟨hs, hseq, hv, by omega⟩
      · exact wp_bind_of_forall (fun _ _ => trivial) fun _ _ => trivial

/-- A begin is a step. -/
theorem step_begin (session : ℕ) {r : Receiver B} (h : Inv r) :
    wp (Call.run (.begin session)) r (fun _ r' => Step r r' (.begin session))
      (fun _ r' => Step r r' (.begin session)) := by
  have hkept : ¬ Granted session r → Step r r (.begin session) := fun hg =>
    .kept rfl rfl rfl (fun s he => Call.begin.inj he ▸ hg) fun _ _ => ⟨trivial, rfl⟩
  refine wp_map.mpr (wp_mono (wp_and (begin_spec session h) (wp_self _ r))
    (fun started r' h' => ?_) fun e r' h' => ?_)
  · obtain ⟨⟨hinv, hlocks, hpassed, -, hstarted⟩, hrun⟩ := h'
    cases started with
    | true =>
        obtain ⟨hs, hseq⟩ := hstarted
        obtain ⟨hlocal, hpeer⟩ := hinv.unlocked (by simp [hs])
        exact .began rfl ⟨r', hrun⟩ (by rw [← hlocks, locks, hlocal, hpeer]) hs hseq hpassed
    | false =>
        obtain ⟨rfl, -⟩ := hstarted
        exact hkept fun h => h.elim fun _ hg => absurd (hrun.symm.trans hg) (by simp)
  · obtain ⟨⟨rfl, -⟩, hrun⟩ := h'
    exact hkept fun h => h.elim fun _ hg => absurd (hrun.symm.trans hg) (by simp)

/-- An input is a step. -/
theorem step_input (session sequence : ℕ) (event : InputEvent) {r : Receiver B} (h : Inv r) :
    wp (Call.run (.input session sequence event)) r
      (fun _ r' => Step r r' (.input session sequence event))
      (fun _ r' => Step r r' (.input session sequence event)) := by
  refine wp_map.mpr (wp_mono (wp_and (input_spec session sequence event h) (wp_self _ r))
    (fun taken r' h' => ?_) fun e r' h' => ?_)
  · obtain ⟨htaken, hrun⟩ := h'
    have hu : ∀ s, Undisturbed s r (.input session sequence event) :=
      fun s e r'' he => absurd (hrun.symm.trans he) (by simp)
    cases taken with
    | true =>
        have hp : Passed session sequence event r r' := htaken
        exact .took rfl (wp_of_ok (input_accepts session sequence event) hrun rfl) (hu session)
          (hp.stays.trans hp.active.symm) hp.expectedSequence hp.passed
    | false =>
        obtain ⟨rfl, hs⟩ := htaken
        exact .kept rfl rfl rfl (by simp) fun s hs' =>
          ⟨hu s, if_neg fun he : session = s => hs (he ▸ hs')⟩
  · exact .ended h'.1.ends (by simp) fun s _ hu => hu e r' h'.2

/-- **What a call does to the session.** -/
theorem step_next (call : Call) {r : Receiver B} (h : Inv r) : Step r (next r call) call := by
  suffices hwp : wp call.run r (fun _ r' => Step r r' call) (fun _ r' => Step r r' call) from
    next_of_wp hwp
  cases call with
  | «begin» session => exact step_begin session h
  | input session sequence event => exact step_input session sequence event h
  | «end» session =>
      refine wp_mono (end_spec session r) (fun _ r' h' => ?_) fun _ r' h' => ?_
      · split_ifs at h' with hs
        · exact .ended h'.session (by simp) fun s hs' hne =>
            hne (Option.some.inj (hs.symm.trans hs'))
        · subst h'
          exact .kept rfl rfl rfl (by simp) fun s hs' => ⟨fun he => hs (he ▸ hs'), rfl⟩
      · exact .ended h'.2.1.session (by simp) fun s hs' hne =>
          hne (Option.some.inj (h'.1.symm.trans hs'))
  | stop reason =>
      exact wp_mono (stop_idle reason r) (fun _ r' h' => .ended h'.session (by simp) fun _ _ => id)
        fun _ r' h' => .ended h'.1.session (by simp) fun _ _ => id
  | localLock locked =>
      -- the lock that changes ends the session; one that stays unlocked does not
      have hstep :
        ∀ r', Relocked (r.state.localLocked == locked) (locked, r.state.peerLocked) r r' →
          Step r r' (.localLock locked) := by
        intro r' h'
        refine h'.step (by simp) (fun heq s hs => ⟨?_, rfl⟩) fun hne s hs hu => ?_
        · exact (beq_iff_eq.mp heq).symm.trans (h.unlocked (by simp [hs])).1
        · exact beq_eq_false_iff_ne.mp hne ((h.unlocked (by simp [hs])).1.trans hu.symm)
      exact wp_mono (localLock_spec locked h) (fun _ => hstep) fun _ r' h' => hstep r' h'.1
  | peerLock locked =>
      have hstep :
        ∀ r', Relocked (r.state.peerLocked == locked) (r.state.localLocked, locked) r r' →
          Step r r' (.peerLock locked) := by
        intro r' h'
        refine h'.step (by simp) (fun heq s hs => ⟨?_, rfl⟩) fun hne s hs hu => ?_
        · exact (beq_iff_eq.mp heq).symm.trans (h.unlocked (by simp [hs])).2
        · exact beq_eq_false_iff_ne.mp hne ((h.unlocked (by simp [hs])).2.trans hu.symm)
      exact wp_mono (peerLock_spec locked h) (fun _ => hstep) fun _ r' h' => hstep r' h'.1
  | physicalActivity =>
      exact wp_mono (physicalActivity_spec h)
        (fun _ r' h' => .ended h'.session (by simp) fun _ _ => id)
        fun _ r' h' => .ended h'.1.session (by simp) fun _ _ => id
  | position event =>
      exact wp_mono (position_spec event r)
        (fun _ _ h' => h'.framed.step (by simp) fun _ _ => ⟨trivial, rfl⟩)
        fun _ _ h' => h'.1.framed.step (by simp) fun _ _ => ⟨trivial, rfl⟩
  | positionOn output event =>
      exact wp_mono (positionOn_spec output event r)
        (fun _ _ h' => h'.framed.step (by simp) fun _ _ => ⟨trivial, rfl⟩)
        fun _ _ h' => h'.1.framed.step (by simp) fun _ _ => ⟨trivial, rfl⟩
  | poll =>
      exact wp_mono (poll_spec r) (fun _ _ h' => h'.framed.step (by simp) fun _ _ => ⟨trivial, rfl⟩)
        fun _ _ h' => h'.1.framed.step (by simp) fun _ _ => ⟨trivial, rfl⟩
  | configureTouchpads devices =>
      exact wp_mono (configureTouchpads_spec devices r)
        (fun _ _ h' => h'.framed.step (by simp) fun _ _ => ⟨trivial, rfl⟩)
        fun _ _ h' => h'.1.framed.step (by simp) fun _ _ => ⟨trivial, rfl⟩

/-! ### Every sequence of calls -/

/-- After the calls `earlier`, a `begin` for the session is granted, and none of the calls `since`
ends that session. -/
structure Open (sink : B) (session : ℕ) (earlier since : List Call) : Prop where
  granted : Granted session (Run.run next (new sink) earlier)
  undisturbed : Run.Along next (Undisturbed session)
    (Run.run next (new sink) (earlier ++ [.begin session])) since

/-- The inputs since a session was active are those expected, in order, and all are passed on. -/
theorem run_undisturbed {session : ℕ} {since : List Call} {r : Receiver B} (h : Inv r)
    (hs : r.session = some session) (ha : Run.Along next (Undisturbed session) r since) :
    let r' := Run.run next r since
    let inputs := inputsOf session since
    r'.session = some session ∧ r'.expectedSequence = r.expectedSequence + inputs.length ∧
      r'.passed = r.passed ++ inputs.map (session, ·) ∧
      inputs.map Prod.fst = List.range' r.expectedSequence inputs.length := by
  induction since generalizing r with
  | nil => exact ⟨hs, rfl, (List.append_nil _).symm, rfl⟩
  | cons call since ih =>
      obtain ⟨hu, ha⟩ := ha
      have hinv : Inv (next r call) := next_of_wp (inv_call call h)
      cases step_next call h with
      | began hcall granted => exact absurd ((granted.idle h).symm.trans hs) (by simp)
      | ended idle hcall disturbed => exact absurd hu (disturbed session hs)
      | kept continues expectedSequence passed refused undisturbed =>
          have hnone : inputsOf session (call :: since) = inputsOf session since :=
            List.filterMap_cons_none (undisturbed session hs).2
          simp only [Run.run_cons, hnone]
          have := ih hinv (continues.trans hs) ha
          rwa [expectedSequence, passed] at this
      | took hcall accepts undisturbed continues expectedSequence passed =>
          rename_i s sequence event
          obtain ⟨hs', rfl, -, -⟩ := accepts
          obtain rfl := Option.some.inj (hs'.symm.trans hs)
          have hcons : inputsOf s (call :: since) =
              (r.expectedSequence, event) :: inputsOf s since :=
            List.filterMap_cons_some (by rw [hcall]; exact if_pos rfl)
          obtain ⟨h₁, h₂, h₃, h₄⟩ := ih hinv (continues.trans hs) ha
          simp only [Run.run_cons, hcons]
          refine ⟨h₁, ?_, ?_, ?_⟩
          · rw [h₂, expectedSequence, List.length_cons]
            omega
          · rw [h₃, passed, List.append_assoc]
            rfl
          · rw [List.map_cons, h₄, expectedSequence, List.length_cons, List.range'_succ]

/-- **A session is active exactly while it is open.** -/
theorem session_run (sink : B) (calls : List Call) (session : ℕ) :
    (Run.run next (new sink) calls).session = some session ↔
      ∃ earlier since, calls = earlier ++ .begin session :: since ∧
        Open sink session earlier since := by
  constructor
  · induction calls using List.reverseRecOn with
    | nil => rintro ⟨⟩
    | append_singleton calls call ih =>
        rw [Run.run_append]
        intro hs
        have hinv := inv_run sink calls
        -- a call that leaves the session active prolongs it
        have hlonger : (Run.run next (new sink) calls).session = some session →
            Undisturbed session (Run.run next (new sink) calls) call →
            ∃ earlier since, calls ++ [call] = earlier ++ .begin session :: since ∧
              Open sink session earlier since := by
          intro hs hu
          obtain ⟨earlier, since, rfl, hopen⟩ := ih hs
          refine ⟨earlier, since ++ [call], by simp, hopen.granted, ?_⟩
          rw [Run.along_append]
          refine ⟨hopen.undisturbed, ?_, trivial⟩
          rwa [← Run.run_append, List.append_assoc]
        cases step_next call hinv with
        | began hcall granted unlocked active =>
            rename_i s
            obtain rfl := Option.some.inj (active.symm.trans hs)
            exact ⟨calls, [], by rw [hcall], granted, trivial⟩
        | took hcall accepts undisturbed continues =>
            have hs' := continues.symm.trans hs
            obtain rfl := Option.some.inj (accepts.1.symm.trans hs')
            exact hlonger hs' undisturbed
        | kept continues expectedSequence passed refused undisturbed =>
            have hs' := continues.symm.trans hs
            exact hlonger hs' (undisturbed session hs').1
        | ended idle => exact absurd (idle.symm.trans hs) (by simp)
  · rintro ⟨earlier, since, rfl, hopen⟩
    -- the session is active once it has begun, and nothing since has disturbed it
    have hbegan :
        (Run.run next (new sink) (earlier ++ [.begin session])).session = some session := by
      rw [Run.run_append]
      cases step_next (.begin session) (inv_run sink earlier) with
      | began hcall granted unlocked active =>
          obtain rfl := Call.begin.inj hcall
          exact active
      | took hcall => cases hcall
      | kept _ _ _ refused => exact absurd hopen.granted (refused session rfl)
      | ended _ hcall => exact absurd rfl (hcall session)
    have := (run_undisturbed (inv_run sink _) hbegan hopen.undisturbed).1
    rwa [← Run.run_append, List.append_assoc] at this

/-- The inputs of an open session. -/
theorem open_spec {sink : B} {session : ℕ} {earlier since : List Call}
    (h : Open sink session earlier since) :
    let r := Run.run next (new sink) (earlier ++ .begin session :: since)
    r.expectedSequence = (inputsOf session since).length ∧
      r.passed = (Run.run next (new sink) earlier).passed ++ (inputsOf session since).map
        (session, ·) ∧
      (inputsOf session since).map Prod.fst = List.range (inputsOf session since).length := by
  have hinv := inv_run sink earlier
  rw [List.append_cons, Run.run_append, Run.run_append]
  cases step_next (.begin session) hinv with
  | began hcall granted unlocked active expectedSequence passed =>
      obtain rfl := Call.begin.inj hcall
      have hundisturbed := h.undisturbed
      rw [Run.run_append] at hundisturbed
      obtain ⟨-, h₂, h₃, h₄⟩ :=
        run_undisturbed (next_of_wp (inv_call _ hinv)) active hundisturbed
      rw [expectedSequence] at h₂ h₄
      rw [passed] at h₃
      exact ⟨h₂.trans (Nat.zero_add _), h₃, h₄.trans List.range_eq_range'.symm⟩
  | took hcall => cases hcall
  | kept _ _ _ refused => exact absurd h.granted (refused session rfl)
  | ended _ hcall => exact absurd rfl (hcall session)

/-! ### Locks -/

/-- What the notifications so far say about the locks. -/
def noted (locks : Bool × Bool) : Call → Bool × Bool
  | .localLock locked => (locked, locks.2)
  | .peerLock locked => (locks.1, locked)
  | _ => locks

/-- The last notifications about the desktop and the peer's, unlocked where there was none. -/
def lastLocks (calls : List Call) : Bool × Bool := calls.foldl noted (false, false)

/-- A call notes the locks it is about. -/
theorem locks_next (call : Call) {r : Receiver B} (h : Inv r) :
    locks (next r call) = noted (locks r) call := by
  suffices hwp : wp call.run r (fun _ r' => locks r' = noted (locks r) call)
      (fun _ r' => locks r' = noted (locks r) call) from next_of_wp hwp
  have hframed : ∀ {r' : Receiver B}, SinkOnly r r' → locks r' = locks r := fun h' => by
    rw [locks, h'.framed.state]; rfl
  cases call with
  | «begin» session =>
      exact wp_map.mpr (wp_mono (begin_spec session h) (fun _ _ h' => h'.2.1)
        fun _ _ h' => congrArg locks h'.1)
  | input session sequence event =>
      refine wp_map.mpr (wp_mono (input_spec session sequence event h) (fun taken r' h' => ?_)
        fun _ _ h' => h'.locks)
      cases taken with
      | true => exact Passed.locks h'
      | false => exact congrArg locks h'.1
  | «end» session =>
      refine wp_mono (end_spec session r) (fun _ r' h' => ?_) fun _ _ h' => h'.2.1.locks
      split_ifs at h' with hs
      · exact h'.locks
      · exact congrArg locks h'
  | stop reason =>
      exact wp_mono (stop_idle reason r) (fun _ _ h' => h'.locks) fun _ _ h' => h'.1.locks
  | localLock locked =>
      exact wp_mono (localLock_spec locked h) (fun _ _ h' => h'.locks) fun _ _ h' => h'.1.locks
  | peerLock locked =>
      exact wp_mono (peerLock_spec locked h) (fun _ _ h' => h'.locks) fun _ _ h' => h'.1.locks
  | physicalActivity =>
      exact wp_mono (physicalActivity_spec h) (fun _ _ h' => h'.locks) fun _ _ h' => h'.1.locks
  | position event =>
      exact wp_mono (position_spec event r) (fun _ _ h' => hframed h') fun _ _ h' => hframed h'.1
  | positionOn output event =>
      exact wp_mono (positionOn_spec output event r) (fun _ _ h' => hframed h')
        fun _ _ h' => hframed h'.1
  | poll => exact wp_mono (poll_spec r) (fun _ _ h' => hframed h') fun _ _ h' => hframed h'.1
  | configureTouchpads devices =>
      exact wp_mono (configureTouchpads_spec devices r) (fun _ _ h' => hframed h')
        fun _ _ h' => hframed h'.1

/-- The locks are those that were last called. -/
theorem locks_run (sink : B) (calls : List Call) :
    locks (Run.run next (new sink) calls) = lastLocks calls := by
  induction calls using List.reverseRecOn with
  | nil => rfl
  | append_singleton calls call ih =>
      rw [Run.run_append, lastLocks, List.foldl_append]
      exact (locks_next call (inv_run sink calls)).trans (congrArg (noted · call) ih)

/-- A `begin` is granted on an unlocked receiver only. -/
theorem Granted.unlocked {session : ℕ} {r : Receiver B} (h : Inv r) (hg : Granted session r) :
    locks r = (false, false) := by
  cases step_next (.begin session) h with
  | began hcall granted unlocked => exact unlocked
  | took hcall => cases hcall
  | kept _ _ _ refused => exact absurd hg (refused session rfl)
  | ended _ hcall => exact absurd rfl (hcall session)

/-- A lock does not stand among the calls since a session was opened. -/
theorem lock_not_mem {session : ℕ} {since : List Call} {r : Receiver B} {lock : Call}
    (hlock : lock = .localLock true ∨ lock = .peerLock true)
    (ha : Run.Along next (Undisturbed session) r since) : lock ∉ since := by
  induction since generalizing r with
  | nil => exact List.not_mem_nil
  | cons call since ih =>
      intro hmem
      rcases List.mem_cons.mp hmem with rfl | hmem
      · rcases hlock with rfl | rfl <;> exact absurd (ha.1) (by rintro ⟨⟩)
      · exact ih ha.2 hmem

/-! ### The gate -/

/-- Passing on, in terms of the calls so far. -/
theorem accepts_iff (sink : B) (calls : List Call) (session sequence : ℕ) (event : InputEvent) :
    Accepts (Run.run next (new sink) calls) session sequence event ↔
      ∃ earlier since,
      calls = earlier ++ .begin session :: since ∧ Open sink session earlier since ∧
        sequence = (inputsOf session since).length ∧ event.validate = .ok () ∧
        sequence + 1 < 2 ^ 64 := by
  rw [Accepts, session_run]
  constructor
  · rintro ⟨⟨earlier, since, rfl, hopen⟩, hseq, hrest⟩
    exact ⟨earlier, since, rfl, hopen, hseq.trans (open_spec hopen).1, hrest⟩
  · rintro ⟨earlier, since, rfl, hopen, hseq, hrest⟩
    exact ⟨⟨earlier, since, rfl, hopen⟩, hseq.trans (open_spec hopen).1.symm, hrest⟩

/-- **Injection gating.**  After every sequence of calls with any arguments, over any backend:
whatever the next call makes reach the backend is the input it passes on, a pointer placement it was
asked for, or releases; input is passed on exactly while its session is open, under the number of
inputs since, and if it is valid; the inputs of an open session are the numbers `0, 1, 2, …` in call
order, all passed on; a call for any other session returns false and changes nothing; and after a
lock, input is passed on only once neither side is locked and a `begin` has been granted again. -/
theorem injection_gated (sink : Tapped B) (calls : List Call) :
    let r := Run.run next (new sink) calls
    (∀ call, ∃ handed placed, ∃ codes : List ℕ, (next r call).passed = r.passed ++ handed ∧
        (next r call).sink.emitted =
          r.sink.emitted ++ (handed.map (·.2.2) ++ placed ++ codes.map .release) ∧
        PlacedBy placed call ∧ handed.length ≤ 1 ∧
        ∀ p ∈ handed, call = .input p.1 p.2.1 p.2.2 ∧ p.2.2.validate = .ok ()) ∧
      (∀ session sequence event,
        (next r (.input session sequence event)).passed = r.passed ++ [(session, sequence, event)] ↔
          ∃ earlier since, calls = earlier ++ .begin session :: since ∧
            Open sink session earlier since ∧ sequence = (inputsOf session since).length ∧
            event.validate = .ok () ∧ sequence + 1 < 2 ^ 64) ∧
      (∀ session earlier since, calls = earlier ++ .begin session :: since →
        Open sink session earlier since →
          r.passed = (Run.run next (new sink) earlier).passed ++
            (inputsOf session since).map (session, ·) ∧
          (inputsOf session since).map Prod.fst = List.range (inputsOf session since).length) ∧
      (∀ session, (∀ earlier since, calls = earlier ++ .begin session :: since →
          ¬ Open sink session earlier since) →
        ∀ sequence event, input session sequence event r = .ok false r) ∧
      ∀ lock, lock = .localLock true ∨ lock = .peerLock true →
        ∀ before after, calls = before ++ lock :: after →
          ∀ session sequence event,
            (next r (.input session sequence event)).passed =
                r.passed ++ [(session, sequence, event)] →
              ∃ between since, after = between ++ .begin session :: since ∧
                Granted session (Run.run next (new sink) (before ++ lock :: between)) ∧
                lastLocks (before ++ lock :: between) = (false, false) := by
  intro r
  have hinv : Inv r := inv_run sink calls
  have hpasses : ∀ session sequence event,
      (next r (.input session sequence event)).passed = r.passed ++ [(session, sequence, event)] ↔
        Accepts r session sequence event := by
    intro session sequence event
    obtain ⟨handed, placed, hhanded, -, hpassed, -⟩ :=
      emitted_next (.input session sequence event) hinv
    rw [hpassed, List.append_cancel_left_eq]
    rcases hhanded with ⟨rfl, hacc⟩ | ⟨rfl, hacc⟩
    · exact iff_of_true rfl hacc
    · exact iff_of_false nofun hacc
  refine ⟨fun call => ?_, fun session sequence event => ?_, ?_, ?_, ?_⟩
  · obtain ⟨handed, placed, hhanded, hplaced, hpassed, codes, hemitted⟩ := emitted_next call hinv
    refine ⟨handed, placed, codes, hpassed, hemitted, hplaced, ?_⟩
    cases call with
    | input session sequence event =>
        rcases hhanded with ⟨rfl, hacc⟩ | ⟨rfl, -⟩
        · refine ⟨le_rfl, fun p hp => ?_⟩
          obtain rfl := List.mem_singleton.mp hp
          exact ⟨rfl, hacc.2.2.1⟩
        · exact ⟨Nat.zero_le _, nofun⟩
    | _ =>
        obtain rfl := hhanded
        exact ⟨Nat.zero_le _, nofun⟩
  · rw [hpasses, accepts_iff]
  · rintro session earlier since rfl hopen
    exact (open_spec hopen).2
  · intro session hclosed sequence event
    have hs : r.session ≠ some session := by
      intro hs
      obtain ⟨earlier, since, he, hopen⟩ := (session_run sink calls session).mp hs
      exact hclosed earlier since he hopen
    rw [input]
    exact congrFun (if_pos (.inl hs)) r
  · rintro lock hlock before after rfl session sequence event hpass
    obtain ⟨earlier, since, he, hopen, -⟩ :=
      (accepts_iff sink _ session sequence event).mp ((hpasses session sequence event).mp hpass)
    -- the lock is not among the calls since the `begin`, so it stands before it
    have hnot := lock_not_mem hlock hopen.undisturbed
    obtain ⟨between, rfl, rfl⟩ : ∃ between, earlier = before ++ lock :: between ∧
        after = between ++ .begin session :: since := by
      rcases List.append_eq_append_iff.mp he with ⟨between, rfl, hafter⟩ | ⟨between, rfl, hsince⟩
      · cases between with
        | nil =>
            obtain ⟨rfl, -⟩ := List.cons.inj hafter
            rcases hlock with h | h <;> cases h
        | cons call between =>
            obtain ⟨rfl, rfl⟩ := List.cons.inj hafter
            exact ⟨between, rfl, rfl⟩
      · cases between with
        | nil =>
            obtain ⟨rfl, -⟩ := List.cons.inj hsince
            rcases hlock with h | h <;> cases h
        | cons call between =>
            obtain ⟨-, rfl⟩ := List.cons.inj hsince
            exact absurd (List.mem_append_right _ (List.mem_cons_self ..)) hnot
    refine ⟨between, since, rfl, hopen.granted, ?_⟩
    rw [← locks_run sink]
    exact hopen.granted.unlocked (inv_run sink _)

/-- A lock and its end, then a session with one input. -/
theorem injection_gated_scripted :
    let sink : Tapped Scripted := ⟨⟨∅, []⟩, []⟩
    let calls : List Call :=
      [.localLock true, .localLock false, .begin 7, .input 7 0 (.key 30 true)]
    let r := Run.run next (new sink) calls
    r.passed = [(7, 0, .key 30 true)] ∧
      (next r (.input 7 1 (.key 30 false))).passed = r.passed ++ [(7, 1, .key 30 false)] ∧
      input 8 0 (.key 30 true) r = .ok false r ∧
      ∃ between since, [.localLock false, .begin 7, .input 7 0 (.key 30 true)] =
          between ++ .begin 7 :: since ∧
        Granted 7 (Run.run next (new sink) ([] ++ .localLock true :: between)) ∧
        lastLocks ([] ++ .localLock true :: between) = (false, false) := by
  intro sink calls r
  obtain ⟨-, hpass, hsince, hother, hlock⟩ := injection_gated sink calls
  have hgranted : Granted 7 (Run.run next (new sink) [.localLock true, .localLock false]) :=
    ⟨_, rfl⟩
  have hopen : Open sink 7 [.localLock true, .localLock false] [.input 7 0 (.key 30 true)] := by
    have htaken : ∃ r', input 7 0 (.key 30 true) (Run.run next (new sink)
        ([.localLock true, .localLock false] ++ [.begin 7])) = .ok true r' := ⟨_, rfl⟩
    obtain ⟨r', htaken⟩ := htaken
    exact ⟨hgranted, fun e r'' he => (nomatch htaken.symm.trans he), trivial⟩
  have hnext := (hpass 7 1 (.key 30 false)).mpr ⟨_, _, rfl, hopen, rfl, by decide, by decide⟩
  refine ⟨(hsince 7 _ _ rfl hopen).1, hnext, ?_, ?_⟩
  · refine hother 8 (fun earlier since he => ?_) 0 _
    have hmem : Call.begin 8 ∈ calls := he ▸ List.mem_append_right _ (List.mem_cons_self ..)
    simp [calls] at hmem
  · exact hlock (.localLock true) (.inl rfl) [] _ rfl 7 1 (.key 30 false) hnext

end NiriBridge.Receiver
