import NiriBridge.Receiver.Gate

/-!
# Receiver — Outputs

The pointer changes to another output only with nothing down.  `position_on` takes the number of the
next input for a sign that nothing is held; `Rested` is why it is one: a session that has passed no
input on holds nothing.

`Watched B` is a backend that also keeps a list of its calls, so "without touching the backend" is a
statement about that list.
-/

namespace NiriBridge.Receiver

open Hoare

/-- A call of the backend. -/
inductive SinkCall where
  | poll
  | emit (event : InputEvent)
  | selectOutput (output : String)
  | configureTouchpads (devices : List Touchpad.Descriptor)
  | resetTouchpads
deriving DecidableEq

/-- A backend with the list of its calls. -/
structure Watched (B : Type) where
  sink : B
  calls : List SinkCall

namespace Watched

variable {B : Type}

/-- A call that is noted. -/
def note (call : SinkCall) (f : B → Result Unit × B) (b : Watched B) : Result Unit × Watched B :=
  ((f b.sink).1, ⟨(f b.sink).2, b.calls ++ [call]⟩)

instance [InputSink B] : InputSink (Watched B) where
  poll := note .poll InputSink.poll
  emit event := note (.emit event) (InputSink.emit event)
  selectOutput output := note (.selectOutput output) (InputSink.selectOutput output)
  configureTouchpads devices :=
    note (.configureTouchpads devices) (InputSink.configureTouchpads devices)
  resetTouchpads := note .resetTouchpads InputSink.resetTouchpads

theorem of_note {call : SinkCall} {f : B → Result Unit × B} {b b' : Watched B} {x : Result Unit}
    (h : note call f b = (x, b')) : f b.sink = (x, b'.sink) ∧ b'.calls = b.calls ++ [call] := by
  obtain ⟨rfl, rfl⟩ := Prod.mk.inj h
  exact ⟨rfl, rfl⟩

variable [InputSink B]

/-- What is down at the backend does not depend on the list. -/
def law (law : SinkLaw B) : SinkLaw (Watched B) where
  down b := law.down b.sink
  touched b := law.touched b.sink
  emit_ok h := law.emit_ok (of_note h).1
  emit_error h := law.emit_error (of_note h).1
  poll h := law.poll h
  selectOutput h := law.selectOutput h
  configureTouchpads h := law.configureTouchpads h
  resetTouchpads h := law.resetTouchpads h
  reset_ok h := law.reset_ok (of_note h).1

end Watched

variable {B : Type} [InputSink B]

/-! ### A session that has passed nothing on -/

/-- Before its first input a session holds nothing. -/
def Rested (r : Receiver B) : Prop :=
  r.session.isSome = true → r.expectedSequence = 0 → r.state.held.keys = ∅

omit [InputSink B] in
/-- A receiver without a session is at rest. -/
theorem rested_of_no_session {r : Receiver B} (h : r.session = none) : Rested r := by
  intro hs
  rw [h] at hs
  cases hs

omit [InputSink B] in
/-- Rest is not about the backend. -/
theorem Rested.of_framed {r r' : Receiver B} (h : Rested r) (hf : Framed r r') : Rested r' := by
  intro hs hseq
  rw [hf.session] at hs
  rw [hf.expectedSequence] at hseq
  rw [hf.state]
  exact h hs hseq

omit [InputSink B] in
/-- A lock change leaves a session as it is or ends it. -/
theorem rested_lockChanged {change : StopEffects × ControlState} {r r' : Receiver B} (h : Rested r)
    (hchange : change.2 = r.state ∨ change.2.mode ≠ .receiving) (hl : LockChanged change r r') :
    Rested r' := by
  by_cases hmode : change.2.mode = .receiving
  · have hstate : change.2 = r.state := hchange.resolve_right (not_not.mpr hmode)
    have hsession : r'.session = r.session := hl.session.trans (if_pos hmode)
    exact h.of_framed ⟨hl.state.trans hstate, hsession, hl.expectedSequence, hl.passed⟩
  · exact rested_of_no_session (hl.session.trans (if_neg hmode))

omit [InputSink B] in
/-- The own lock changes nothing, or ends the session. -/
theorem localLock_change (state : ControlState) (locked : Bool) :
    (state.localLockChanged locked).2 = state ∨
    (state.localLockChanged locked).2.mode ≠ .receiving := by
  unfold ControlState.localLockChanged
  split_ifs
  · exact .inl rfl
  · exact .inr (stop_mode _ _)

omit [InputSink B] in
/-- The peer's lock changes nothing, or ends the session. -/
theorem peerLock_change (state : ControlState) (locked : Bool) :
    (state.peerLockChanged locked).2 = state ∨
    (state.peerLockChanged locked).2.mode ≠ .receiving := by
  unfold ControlState.peerLockChanged
  split_ifs
  · exact .inl rfl
  · exact .inr (stop_mode _ _)

theorem rested_lock {r : Receiver B} (h : Rested r) {change : StopEffects × ControlState}
    (hchange : change.2 = r.state ∨ change.2.mode ≠ .receiving) :
    wp (lockChanged change.1 change.2) r (fun _ => Rested) (fun _ => Rested) :=
  wp_mono (lockChanged_spec _ _ r) (fun _ _ h' => rested_lockChanged h hchange h'.1)
    fun _ _ h' => rested_lockChanged h hchange h'.1

/-- Every call keeps a receiver at rest. -/
theorem rested_call (call : Call) {r : Receiver B} (hinv : Inv r) (h : Rested r) :
    wp call.run r (fun _ => Rested) (fun _ => Rested) := by
  have hidle : ∀ r', Idle r r' → Rested r' := fun r' h' => rested_of_no_session h'.session
  have hframed : ∀ r', SinkOnly r r' → Rested r' := fun r' h' => h.of_framed h'.framed
  cases call with
  | «begin» session =>
      refine wp_map.mpr (wp_mono (wp_and (begin_spec session hinv) (wp_self _ r))
        (fun started r' h' => ?_) fun _ _ h' => h'.1.1 ▸ h)
      obtain ⟨⟨-, -, -, ⟨⟨-, hheld, -⟩, -⟩, hstarted⟩, hrun⟩ := h'
      cases started with
      | false => exact hstarted.1 ▸ h
      | true =>
          -- nothing was held before the session, and `begin` presses nothing
          intro _ _
          rw [hheld]
          exact hinv.idle (Granted.idle hinv ⟨r', hrun⟩)
  | input session sequence event =>
      refine wp_map.mpr (wp_mono (input_spec session sequence event hinv) (fun taken r' h' => ?_)
        fun _ _ h' => rested_of_no_session h'.ends)
      cases taken with
      | true =>
          have hnext : r'.expectedSequence = r.expectedSequence + 1 := Passed.expectedSequence h'
          intro _ hseq
          exact absurd (hnext.symm.trans hseq) (Nat.succ_ne_zero _)
      | false => exact h'.1 ▸ h
  | «end» session =>
      refine wp_mono (end_spec session r) (fun _ r' h' => ?_) fun _ r' h' => hidle r' h'.2.1
      split_ifs at h'
      · exact hidle r' h'
      · exact h' ▸ h
  | stop reason =>
      exact wp_mono (stop_idle reason r) (fun _ r' => hidle r') fun _ r' h' => hidle r' h'.1
  | localLock locked =>
      rw [Call.run, Receiver.localLock, wp_bind, wp_get]
      exact rested_lock h (localLock_change r.state locked)
  | peerLock locked =>
      rw [Call.run, Receiver.peerLock, wp_bind, wp_get]
      exact rested_lock h (peerLock_change r.state locked)
  | physicalActivity =>
      exact wp_mono (physicalActivity_spec hinv) (fun _ r' => hidle r') fun _ r' h' => hidle r' h'.1
  | position event =>
      exact wp_mono (position_spec event r) (fun _ r' => hframed r') fun _ r' h' => hframed r' h'.1
  | positionOn output event =>
      exact wp_mono (positionOn_spec output event r) (fun _ r' => hframed r')
        fun _ r' h' => hframed r' h'.1
  | poll => exact wp_mono (poll_spec r) (fun _ r' => hframed r') fun _ r' h' => hframed r' h'.1
  | configureTouchpads devices =>
      exact wp_mono (configureTouchpads_spec devices r) (fun _ r' => hframed r')
        fun _ r' h' => hframed r' h'.1

/-- A receiver is at rest after any calls. -/
theorem rested_run (sink : B) (calls : List Call) : Rested (Run.run next (new sink) calls) := by
  refine (Run.run_invariant_of_step (I := fun r => Inv r ∧ Rested r) (fun r call h => ?_)
    ⟨inv_new sink, rested_of_no_session rfl⟩).2
  exact ⟨next_of_wp (inv_call call h.1), next_of_wp (rested_call call h.1 h.2)⟩

/-! ### Changing the output -/

/-- Nothing waits to be released, and no session has passed input on. -/
def MaySelect {B : Type} (r : Receiver B) : Prop :=
  r.pendingReleases = ∅ ∧ (r.session = none ∨ r.expectedSequence = 0)

/-- The backend has been asked for the output, before anything else. -/
def Selected (output : String) (r r' : Receiver (Watched B)) : Prop :=
  ∃ rest, r'.sink.calls = r.sink.calls ++ .selectOutput output :: rest

/-- The output is selected only when that is allowed. -/
theorem positionOn_asks (output : String) (event : InputEvent) (r : Receiver (Watched B)) :
    wp (positionOn output event) r (fun _ r' => MaySelect r ∧ Selected output r r')
      (fun _ r' => r' = r ∨ MaySelect r ∧ Selected output r r') := by
  rw [positionOn, wp_bind, wp_get, wp_bind, wp_check]
  refine ⟨fun _ hguard => ?_, fun _ _ => .inl rfl⟩
  have hmay : r.pendingReleases = ∅ ∧ (r.session = none ∨ r.expectedSequence = 0) :=
    ensure_eq_ok.mp hguard
  rw [wp_bind, wp_check]
  refine ⟨fun _ _ => ?_, fun _ _ => .inl rfl⟩
  rw [wp_bind, wp_check]
  refine ⟨fun _ _ => ?_, fun _ _ => .inl rfl⟩
  have hselected : ∀ {x b}, InputSink.selectOutput output r.sink = (x, b) →
      b.calls = r.sink.calls ++ [.selectOutput output] := fun hb => (Watched.of_note hb).2
  rw [wp_bind]
  refine wp_call (fun b hb => ?_) fun e b hb => .inr ⟨hmay, [], hselected hb⟩
  have hemitted : ∀ {x b'}, InputSink.emit event b = (x, b') →
      b'.calls = r.sink.calls ++ [.selectOutput output, .emit event] := by
    intro x b' hb'
    rw [(Watched.of_note hb').2, hselected hb, List.append_assoc]
    rfl
  exact wp_call (fun b' hb' => ⟨hmay, [.emit event], hemitted hb'⟩)
    fun e b' hb' => .inr ⟨hmay, [.emit event], hemitted hb'⟩

omit [InputSink B] in
/-- With nothing waiting and a session that has passed nothing on, nothing is held. -/
theorem MaySelect.held {r : Receiver B} (h : MaySelect r) (hinv : Inv r) (hrested : Rested r) :
    r.state.held.keys = ∅ := by
  by_cases hs : r.session = none
  · exact hinv.idle hs
  · exact hrested (Option.isSome_iff_ne_none.mpr hs) (h.2.resolve_left hs)

/-- **The output changes with nothing down.**  On a receiver whose backend had nothing down, after
every sequence of calls and whatever failed on the way: `position_on` either asks the backend for
the output first, and then no key or button is down, or it fails and leaves the backend alone. -/
theorem select_released (law : SinkLaw B) {sink : Watched B} (hsink : ∀ c, ¬ law.down sink.sink c)
    (calls : List Call) (output : String) (event : InputEvent) :
    let r := Run.run next (new sink) calls
    ((∀ c, ¬ law.down r.sink.sink c) ∧ Selected output r (next r (.positionOn output event))) ∨
      ∃ e, positionOn output event r = .error e r := by
  intro r
  have hinv : Inv r := inv_run sink calls
  have hdown : ∀ c, ¬ (Watched.law law).down sink c := hsink
  have hcovers : HeldCovers (Watched.law law) r := held_run hdown calls
  have hreleased : MaySelect r → ∀ c, ¬ law.down r.sink.sink c := by
    intro hmay c hc
    rcases hcovers c hc with hm | hm
    · rw [hmay.held hinv (rested_run sink calls)] at hm
      exact SortedSet.not_mem_empty c hm
    · rw [hmay.1] at hm
      exact SortedSet.not_mem_empty c hm
  have hasks := positionOn_asks output event r
  cases hrun : positionOn output event r with
  | ok u r' =>
      obtain ⟨hmay, hselected⟩ := wp_of_ok hasks hrun
      have hnext : next r (.positionOn output event) = r' := by
        simp only [next, Call.run, hrun]
      exact .inl ⟨hreleased hmay, hnext ▸ hselected⟩
  | error e r' =>
      rcases wp_of_error hasks hrun with rfl | ⟨hmay, hselected⟩
      · exact .inr ⟨e, rfl⟩
      have hnext : next r (.positionOn output event) = r' := by
        simp only [next, Call.run, hrun]
      exact .inl ⟨hreleased hmay, hnext ▸ hselected⟩

end NiriBridge.Receiver
