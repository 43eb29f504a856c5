import NiriBridge.Keys.Monitor
import NiriBridge.Receiver.Outputs

/-!
# Receiver — Replay

A session starts with nothing held, and every input that is passed on changes what is held.  So the
keys that a receiver holds are those its session's inputs lead to (`Replays`), after every sequence
of calls and whatever the backend fails at.
-/

namespace NiriBridge.Receiver

open Hoare

variable {B : Type}

/-- The keys among the codes are these; the codes of buttons are larger. -/
def SameKeys (codes keys : SortedSet ℕ) : Prop := ∀ c ≤ 255, c ∈ codes ↔ c ∈ keys

/-- What has been passed on of the session, after everything before it, leads to the keys that are
held. -/
def Replays (r : Receiver B) : Prop :=
  ∀ n, r.session = some n → ∃ before since, r.passed = before ++ since ∧
    since.length = r.expectedSequence ∧ (∀ p ∈ since, p.1 = n) ∧
    SameKeys r.state.held.keys (keysAfter ∅ (since.map (·.2.2)))

theorem replays_of_no_session {r : Receiver B} (h : r.session = none) : Replays r := by
  intro n hn
  cases h.symm.trans hn

theorem Replays.of_framed {r r' : Receiver B} (h : Replays r) (hf : Framed r r') : Replays r' := by
  intro n hn
  obtain ⟨before, since, hpassed, hlength, hof, hkeys⟩ := h n (hf.session ▸ hn)
  exact ⟨before, since, hf.passed.trans hpassed, hlength.trans hf.expectedSequence.symm, hof,
    hf.state.symm ▸ hkeys⟩

/-- A lock change leaves a session as it is or ends it. -/
theorem Replays.of_lock {change : StopEffects × ControlState} {r r' : Receiver B} (h : Replays r)
    (hchange : change.2 = r.state ∨ change.2.mode ≠ .receiving) (hl : LockChanged change r r') :
    Replays r' := by
  by_cases hmode : change.2.mode = .receiving
  · have hstate : change.2 = r.state := hchange.resolve_right (not_not.mpr hmode)
    have hsession : r'.session = r.session := hl.session.trans (if_pos hmode)
    exact h.of_framed ⟨hl.state.trans hstate, hsession, hl.expectedSequence, hl.passed⟩
  · exact replays_of_no_session (hl.session.trans (if_neg hmode))

/-- An event means the same for the keys on both sides. -/
theorem applied_keyAfter {event : InputEvent} {codes keys : SortedSet ℕ}
    (hv : event.validate = .ok ()) (h : SameKeys codes keys) {c : ℕ} (hc : c ≤ 255) :
    applied event (· ∈ codes) c ↔ c ∈ keyAfter keys event := by
  cases event with
  | key code pressed =>
      rw [mem_keyAfter]
      cases pressed <;> by_cases hcode : c = code <;>
        simp [applied, InputEvent.heldTransition, hcode, h c hc]
  | button code pressed =>
      -- the code of a button is no key
      have hlarge : 272 ≤ code := (ensure_eq_ok.mp hv).1
      have hne : c ≠ code := by omega
      cases pressed <;> simp [applied, InputEvent.heldTransition, keyAfter, hne, h c hc]
  | _ => exact h c hc

variable [InputSink B]

/-- After a stop nothing is held. -/
theorem replays_stop (reason : StopReason) (r : Receiver B) :
    wp (stop reason) r (fun _ => Replays) (fun _ => Replays) :=
  wp_mono (stop_spec reason r) (fun _ _ h => replays_of_no_session h.1.session)
    fun _ _ h => replays_of_no_session h.1.session

/-- **An input that is passed on** changes what is held as it changes what it is read from. -/
theorem replays_input (session sequence : ℕ) (event : InputEvent) {r : Receiver B} (h : Replays r) :
    wp (input session sequence event) r (fun _ => Replays) (fun _ => Replays) := by
  rw [input, wp_bind, wp_get, wp_ite]
  refine ⟨fun _ => h, fun heq => ?_⟩
  obtain ⟨hs, hmode⟩ : r.session = some session ∧ r.state.mode = .receiving := by
    simpa only [not_or, not_not] using heq
  rw [wp_ite]
  refine ⟨fun _ => ?_, fun _ => ?_⟩
  · rw [wp_bind]
    exact replays_stop _ r
  cases hv : event.validate with
  | error e =>
      simp only [wp_bind]
      exact replays_stop _ r
  | ok =>
      simp only [wp_ite, wp_bind]
      refine ⟨fun _ => replays_stop _ r, fun _ => ?_⟩
      rw [wp_set, wp_attempt]
      refine wp_call (fun b _ => ?_) fun e b _ => ?_
      · rw [wp_bind, wp_modify]
        -- one more input has been applied, the last of the session
        intro n hn
        obtain rfl : session = n := Option.some.inj (hs.symm.trans hn)
        obtain ⟨before, since, hpassed, hlength, hof, hkeys⟩ := h session hs
        refine ⟨before, since ++ [(session, sequence, event)], ?_, ?_, ?_, fun c hc => ?_⟩
        · rw [← List.append_assoc, ← hpassed]
        · rw [List.length_append, hlength]
          rfl
        · simpa [or_imp, forall_and] using hof
        · rw [mem_forget_remember hmode, List.map_append, keysAfter_append]
          exact applied_keyAfter hv hkeys hc
      · rw [wp_bind, wp_attempt]
        exact wp_mono (replays_stop _ _) (fun _ _ h => h) fun _ _ h => h

/-- A session begins with nothing held. -/
theorem replays_begin (session : ℕ) {r : Receiver B} (hinv : Inv r) (h : Replays r) :
    wp («begin» session) r (fun _ => Replays) (fun _ => Replays) := by
  refine wp_mono (wp_and (begin_spec session hinv) (wp_self _ r)) (fun started r' h' => ?_)
    fun _ _ h' => h'.1.1 ▸ h
  obtain ⟨⟨-, -, -, ⟨⟨-, hheld, -⟩, -⟩, hstarted⟩, hrun⟩ := h'
  cases started with
  | false => exact hstarted.1 ▸ h
  | true =>
      -- nothing is held before a session
      have hempty : r'.state.held.keys = ∅ := by
        rw [hheld]
        exact hinv.idle (Granted.idle hinv ⟨r', hrun⟩)
      intro n _
      refine ⟨r'.passed, [], (List.append_nil _).symm, hstarted.2.symm, by simp, fun c _ => ?_⟩
      rw [hempty]
      rfl

theorem replays_lock {r : Receiver B} (h : Replays r) {change : StopEffects × ControlState}
    (hchange : change.2 = r.state ∨ change.2.mode ≠ .receiving) :
    wp (lockChanged change.1 change.2) r (fun _ => Replays) (fun _ => Replays) :=
  wp_mono (lockChanged_spec _ _ r) (fun _ _ h' => h.of_lock hchange h'.1)
    fun _ _ h' => h.of_lock hchange h'.1

/-- Every call keeps what is held the replay of what was passed. -/
theorem replays_call (call : Call) {r : Receiver B} (hinv : Inv r) (h : Replays r) :
    wp call.run r (fun _ => Replays) (fun _ => Replays) := by
  have hidle : ∀ r', Idle r r' → Replays r' := fun r' h' => replays_of_no_session h'.session
  have hframed : ∀ r', SinkOnly r r' → Replays r' := fun r' h' => h.of_framed h'.framed
  cases call with
  | «begin» session => exact wp_map.mpr (replays_begin session hinv h)
  | input session sequence event => exact wp_map.mpr (replays_input session sequence event h)
  | «end» session =>
      rw [Call.run, Receiver.end, wp_bind, wp_get, wp_ite]
      exact ⟨fun _ => replays_stop _ r, fun _ => h⟩
  | stop reason => exact replays_stop reason r
  | localLock locked =>
      rw [Call.run, Receiver.localLock, wp_bind, wp_get]
      exact replays_lock h (localLock_change r.state locked)
  | peerLock locked =>
      rw [Call.run, Receiver.peerLock, wp_bind, wp_get]
      exact replays_lock h (peerLock_change r.state locked)
  | physicalActivity =>
      exact wp_mono (physicalActivity_spec hinv) (fun _ r' => hidle r') fun _ r' h' => hidle r' h'.1
  | position event =>
      exact wp_mono (position_spec event r) (fun _ r' => hframed r') fun _ r' h' => hframed r' h'.1
  | positionOn output event =>
      exact wp_mono (positionOn_spec output event r) (fun _ r' => hframed r')
        fun _ r' h' => hframed r' h'.1
  | poll => exact wp_mono (poll_spec r) (fun _ r' => hframed r') fun _ r' h' => hframed r' h'.1
  | configureTouchpads devices =>
      exact wp_mono (configureTouchpads_spec devices r) (fun _ r' => hframed r')
        fun _ r' h' => hframed r' h'.1

/-- **The receiver holds what the session has pressed**, after every sequence of calls. -/
theorem replays_run (sink : B) (calls : List Call) : Replays (Run.run next (new sink) calls) := by
  refine (Run.run_invariant_of_step (I := fun r => Inv r ∧ Replays r) (fun r call h => ?_)
    ⟨inv_new sink, replays_of_no_session rfl⟩).2
  exact ⟨next_of_wp (inv_call call h.1), next_of_wp (replays_call call h.1 h.2)⟩

end NiriBridge.Receiver
