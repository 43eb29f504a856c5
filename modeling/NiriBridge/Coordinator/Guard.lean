import NiriBridge.Coordinator.Chord

/-!
# Coordinator — Guard

The chord over a pass of the loop.  Every branch keeps `Guarded`, those that neither tick nor start
a session because they leave a session that goes on alone (`Tame`); all but the start of a session
begin none (`Mute`).

* `pass_guarded`: the step of the invariant.
* `pass_begins`: no session begins while the chord is held.
* `pass_chord`: the pass with the chord ends the session.
-/

namespace NiriBridge

open Hoare Session

namespace Coordinator

open PhysicalKeys

variable {B T D : Type} {F : Format T D} {env : Env T} {s s' : Watched B T} {α : Type}

/-- No session begins, and the devices have been read or suspended. -/
structure Mute (s s' : Watched B T) : Prop where
  begun : ∀ n, .begin n ∈ signals s'.outbox → .begin n ∈ signals s.outbox
  since : (∃ keys, Since keys s.activity.keyboard) → ∃ keys, Since keys s'.activity.keyboard

/-- Besides, a session that goes on is left alone. -/
structure Tame (s s' : Watched B T) : Prop extends Mute s s' where
  sending : s'.role.isSending = true → s.role.isSending = true ∧ s'.sourceKeys = s.sourceKeys ∧
    s'.activity.keyboard = s.activity.keyboard

instance : IsPreorder (Watched B T) Mute where
  refl _ := ⟨fun _ => id, id⟩
  trans _ _ _ h h' := ⟨fun n hn => h.begun n (h'.begun n hn), h'.since ∘ h.since⟩

instance : IsPreorder (Watched B T) Tame where
  refl _ := ⟨⟨fun _ => id, id⟩, fun hs => ⟨hs, rfl, rfl⟩⟩
  trans _ _ _ h h' := by
    refine ⟨⟨fun n hn => h.begun n (h'.begun n hn), h'.since ∘ h.since⟩, fun hs => ?_⟩
    obtain ⟨hs₁, hkeys₁, hkeyboard₁⟩ := h'.sending hs
    obtain ⟨hs₂, hkeys₂, hkeyboard₂⟩ := h.sending hs₁
    exact ⟨hs₂, hkeys₁.trans hkeys₂, hkeyboard₁.trans hkeyboard₂⟩

/-- A part that leaves the keys alone, and a session as it is. -/
theorem Calm.tame (h : Calm s s') : Tame s s' where
  begun := h.begun
  since := fun ⟨keys, hsince⟩ => ⟨keys, h.keyboard ▸ hsince⟩
  sending hs := ⟨h.sending hs, h.keys, h.keyboard⟩

/-- A coordinator that does not send may be anything else. -/
theorem Mute.tame (h : Mute s s') (hrole : s'.role.isSending = false) : Tame s s' :=
  ⟨h, fun hs => absurd (hrole.symm.trans hs) (by simp)⟩

/-- The guard is kept where no session begins. -/
theorem Guarded.tame (h : Guarded s) (ht : Tame s s') : Guarded s' where
  since := ht.since h.since
  keys hs := by
    obtain ⟨hs, hkeys, hkeyboard⟩ := ht.sending hs
    rw [hkeys, hkeyboard]
    exact h.keys hs
  pending hs := by
    obtain ⟨hs, -, hkeyboard⟩ := ht.sending hs
    rw [hkeyboard]
    exact h.pending hs
  chord hs := by
    obtain ⟨hs, hkeys, -⟩ := ht.sending hs
    rw [hkeys]
    exact h.chord hs

theorem moves_tame {m : CoordinatorM ActivityMonitor B T α} (h : Moves Calm m) :
    Moves Tame m := fun s =>
  wp_mono (h s) (fun _ _ => Calm.tame) fun _ _ => Calm.tame

theorem moves_mute {m : CoordinatorM ActivityMonitor B T α} (h : Moves Calm m) :
    Moves Mute m := fun s =>
  wp_mono (h s) (fun _ _ h => h.tame.toMute) fun _ _ h => h.tame.toMute

/-! ### The branches that read or suspend the devices -/

theorem mute_suspend : Moves Mute (suspend : CoordinatorM ActivityMonitor B T Unit) :=
  .modify fun _ => ⟨fun _ => id, fun _ => ⟨∅, since_default⟩⟩

/-- A part of a branch that leaves a session alone. -/
theorem wp_tame_bind {β : Type} {s₀ : Watched B T} {m : CoordinatorM ActivityMonitor B T α}
    {f : α → CoordinatorM ActivityMonitor B T β} (h : Tame s₀ s) (hm : Moves Tame m)
    (hf : ∀ a s', Tame s₀ s' → wp (f a) s' (fun _ => Tame s₀) (fun _ => Mute s₀)) :
    wp (m >>= f) s (fun _ => Tame s₀) (fun _ => Mute s₀) :=
  wp_bind.mpr (wp_mono (hm.after h) hf fun _ _ h => h.toMute)

/-- The session, if there is one, is given up because a desktop is locked. -/
theorem wp_leave {s₀ : Watched B T} (h : Mute s₀ s) :
    wp (do
      setRole .local
      stopCapture env) s (fun _ => Tame s₀) (fun _ => Mute s₀) := by
  rw [setRole, wp_bind, wp_modify]
  have hlocal : Mute s₀ { s with role := .local } := ⟨h.begun, h.since⟩
  refine wp_mono (still_stopCapture env _) (fun _ s₁ h₁ => ?_) fun _ s₁ h₁ => ?_
  · refine (trans_of Mute hlocal h₁.calm.tame.toMute).tame ?_
    rw [h₁.role]
    rfl
  · exact trans_of Mute hlocal h₁.calm.tame.toMute

/-- A new state of the desktop begins no session. -/
theorem statusChanged_spec [InputSink B] (unlocked : Result Bool) (s : Watched B T) :
    wp (statusChanged env unlocked) s (fun _ => Tame s) (fun _ => Mute s) := by
  have hcalm : ∀ {α : Type} {m : CoordinatorM ActivityMonitor B T α},
      Moves Still m → Moves Tame m :=
    fun h => moves_tame (moves_calm h)
  have hready :
    ∀ unlocked, Moves Calm (modify fun s : Watched B T => { s with localReady := unlocked } :
      CoordinatorM ActivityMonitor B T PUnit) :=
    fun _ => .modify fun _ => ⟨rfl, rfl, id, fun hr => ⟨hr, rfl⟩, fun _ => id⟩
  refine wp_tame_bind (refl_of Tame s) (hcalm (still_external _)) fun unlocked s₁ h₁ => ?_
  refine wp_tame_bind h₁ (moves_tame (hready unlocked)) fun _ s₂ h₂ => ?_
  refine wp_tame_bind h₂ (hcalm (still_onReceiver _)) fun _ s₃ h₃ => ?_
  refine wp_tame_bind h₃ (hcalm (still_send rfl)) fun _ s₄ h₄ => ?_
  cases unlocked with
  | true => exact h₄
  | false =>
      simp only [Bool.false_eq_true, if_false]
      have hend : Moves Mute (do
          suspend
          announceEnd env : CoordinatorM ActivityMonitor B T Unit) :=
        mute_suspend.bind fun _ => moves_mute (calm_announceEnd env)
      rw [← bind_assoc, wp_bind]
      exact wp_mono (hend.after h₄.toMute) (fun _ s₅ h₅ => wp_leave h₅) fun _ _ h => h

/-- The state of the peer's desktop begins no session. -/
theorem peerLockState_spec [InputSink B] (locked : Bool) (s : Watched B T) :
    wp (peerLockState env locked) s (fun _ => Tame s) (fun _ => Mute s) := by
  have hcalm : ∀ {α : Type} {m : CoordinatorM ActivityMonitor B T α},
      Moves Still m → Moves Tame m :=
    fun h => moves_tame (moves_calm h)
  have hready : Moves Calm (modify fun s : Watched B T => { s with peerReady := !locked } :
      CoordinatorM ActivityMonitor B T PUnit) :=
    .modify fun _ => ⟨rfl, rfl, id, fun hr => ⟨hr, rfl⟩, fun _ => id⟩
  rw [peerLockState, wp_bind, wp_get]
  refine wp_tame_bind (refl_of Tame s) (hcalm (still_own _)) fun _ s₁ h₁ => ?_
  refine wp_tame_bind h₁ (moves_tame hready) fun _ s₂ h₂ => ?_
  refine wp_tame_bind h₂ (hcalm (still_onReceiver _)) fun _ s₃ h₃ => ?_
  cases locked with
  | false => exact h₃
  | true =>
      simp only [if_true]
      have hend : Moves Mute (do
          suspend
          announceEnd env : CoordinatorM ActivityMonitor B T Unit) :=
        mute_suspend.bind fun _ => moves_mute (calm_announceEnd env)
      rw [← bind_assoc, wp_bind]
      refine wp_mono (hend.after h₃.toMute) (fun _ s₄ h₄ => ?_) fun _ _ h => h
      split_ifs
      · have hback : Moves Mute (do
            stopCapture env
            placeBack env s.role fun _ => s.localReady : CoordinatorM ActivityMonitor B T Unit) :=
          moves_mute (moves_calm ((still_stopCapture env).bind fun _ => still_placeBack _ _))
        rw [wp_bind]
        exact wp_mono (hback.after h₄) (fun _ s₅ h₅ => wp_leave h₅) fun _ _ h => h
      · exact wp_leave h₄

/-- Any message but the beginning of a session. -/
theorem tame_sendFrame {frame : Frame} (h : ∀ n, frame.signal ≠ some (.begin n)) :
    Moves Tame (sendFrame env frame : CoordinatorM ActivityMonitor B T Unit) := by
  intro s
  have hsent : Tame s { s with outbox := s.outbox ++ [frame] } := by
    refine ⟨⟨fun n hn => ?_, id⟩, fun hs => ⟨hs, rfl, rfl⟩⟩
    exact mem_signals_push h hn
  refine wp_mono (sendFrame_spec env frame s) (fun _ s' hs => hs ▸ hsent) fun stop s' hs => ?_
  obtain ⟨-, rfl | rfl⟩ := hs
  · exact refl_of Tame s'
  · exact hsent

theorem end_ne_begin {session : ℕ} {exit : Option EdgePosition} {own : Bool} (n : ℕ) :
    (Frame.mk (.end session exit) own).signal ≠ some (.begin n) := by rintro ⟨⟩

/-- The devices are read while the coordinator does not send. -/
theorem tame_sample (hrole : s.role.isSending = false) :
    wp sample s (fun _ s' => Tame s s' ∧ s'.role = s.role) (fun _ => Mute s) := by
  rw [sample, wp_onActivity]
  have hmute : ∀ m, ActivityMonitor.Goes s.activity m → Mute s { s with activity := m } :=
    fun m hm => ⟨fun _ => id, fun h => h.imp fun keys hsince => hm keys hsince⟩
  exact wp_mono (ActivityMonitor.moves_sample s.activity)
    (fun _ m hm => ⟨(hmute m hm).tame hrole, rfl⟩)
    fun _ m hm => hmute m hm

/-- An input of the peer begins no session of the device's own. -/
theorem peerInput_spec [InputSink B] (session sequence : ℕ) (event : InputEvent) (s : Watched B T) :
    wp (peerInput env session sequence event) s (fun _ => Tame s) (fun _ => Mute s) := by
  have hcalm : ∀ {α : Type} {m : CoordinatorM ActivityMonitor B T α},
      Moves Still m → Moves Tame m :=
    fun h => moves_tame (moves_calm h)
  refine wp_tame_bind (refl_of Tame s) (hcalm (still_own _)) fun _ s₁ h₁ => ?_
  rw [wp_bind, wp_get, wp_ite]
  refine ⟨fun hrole => ?_, fun _ => h₁⟩
  have hnot : s₁.role.isSending = false := by rw [hrole]; rfl
  rw [wp_bind]
  refine wp_mono (tame_sample hnot) ?_ fun _ s₂ h₂ => trans_of Mute h₁.toMute h₂
  rintro physical s₂ ⟨h₂, hrole₂⟩
  have h₂ := trans_of Tame h₁ h₂
  cases physical with
  | false =>
      simp only [Bool.false_eq_true, if_false]
      exact wp_tame_bind h₂ (hcalm (still_onReceiver _)) fun _ s₃ h₃ => h₃
  | true =>
      simp only [if_true]
      have hend : Moves Tame (sendEnd env session none : CoordinatorM ActivityMonitor B T Unit) :=
        .get_bind fun s => tame_sendFrame end_ne_begin s
      refine wp_tame_bind h₂ (hcalm (still_onReceiver _)) fun _ s₃ h₃ => ?_
      exact wp_tame_bind h₃ hend fun _ s₄ h₄ => wp_leave h₄.toMute

/-- Whether the peer may enter is decided after a reading of the devices. -/
theorem mayEnter_spec (s : Watched B T) :
    wp mayEnter s (fun _ s' => Tame s s') (fun _ => Mute s) := by
  rw [mayEnter, wp_bind, wp_get, wp_ite]
  refine ⟨fun hmay => ?_, fun _ => refl_of Tame s⟩
  have hnot : s.role.isSending = false := by
    rw [hmay.1]
    rfl
  rw [wp_bind]
  exact wp_mono (tame_sample hnot) (fun _ s₁ h₁ => h₁.1) fun _ _ h => h

/-- A session of the peer is none of the device's own. -/
theorem peerBegin_spec [InputSink B] (session : ℕ) (entry : EdgePosition) (s : Watched B T) :
    wp (peerBegin env session entry) s (fun _ => Tame s) (fun _ => Mute s) := by
  have hcalm : ∀ {α : Type} {m : CoordinatorM ActivityMonitor B T α},
      Moves Still m → Moves Tame m :=
    fun h => moves_tame (moves_calm h)
  have hmay : wp (if (s.entryEdge entry.edgeId).isSome then mayEnter else pure false) s
      (fun _ => Tame s) (fun _ => Mute s) := by
    split_ifs
    · exact mayEnter_spec s
    · exact refl_of Tame s
  rw [peerBegin, wp_bind, wp_get]
  dsimp only
  rw [wp_bind]
  refine wp_mono hmay (fun accepted s₁ h₁ => ?_) fun _ _ h => h
  split
  next edge _ =>
    refine wp_tame_bind h₁ (hcalm (still_onReceiver _)) fun _ s₂ h₂ => ?_
    refine wp_tame_bind h₂ (hcalm (still_own _)) fun _ s₃ h₃ => ?_
    refine wp_tame_bind h₃ (hcalm (still_place _ _)) fun _ s₄ h₄ => ?_
    rw [setRole, wp_modify]
    exact Mute.tame ⟨h₄.begun, h₄.since⟩ rfl
  next => exact h₁.toMute
  next =>
    exact wp_mono ((tame_sendFrame end_ne_begin).after h₁) (fun _ _ h => h) fun _ _ h => h.toMute

/-! ### Passes -/

/-- The transitions of a tick, while the coordinator sends, have Escape complete the chord. -/
def Permitted (s : Watched B T) (event : Event) : Prop :=
  ∀ ready, event = .tick ready → s.role.isSending = true →
    EscapeLast s.activity.keyboard.held (transitions s.activity)

/-- Where no session begins, none begins with the chord. -/
theorem Mute.begins (h : Mute s s') : Begins s s' := fun n hn => .inl (h.begun n hn)

/-- What a branch that reads no key for a session does to the chord. -/
theorem guarded_of_tame {m : CoordinatorM ActivityMonitor B T Unit} (h : Guarded s)
    (hm : wp m s (fun _ => Tame s) (fun _ => Mute s)) : wp m s (fun _ => Guarded)
    (fun _ _ => True) :=
  wp_mono hm (fun _ _ ht => h.tame ht) fun _ _ _ => trivial

/-- And so for a part of the loop. -/
theorem begins_of_tame {m : CoordinatorM ActivityMonitor B T Unit}
    (hm : wp m s (fun _ => Tame s) (fun _ => Mute s)) : wp m s (fun _ => Begins s)
    (fun _ => Begins s) :=
  wp_mono hm (fun _ _ ht => Mute.begins ht.toMute) fun _ _ => Mute.begins

/-- The pointer has crossed an edge, but no session starts. -/
theorem captureStarted_of_session [InputSink B] (edge : ℕ) (fraction : ℚ)
    (h : ¬ (s.role = .local ∧ s.localReady = true ∧ s.peerReady = true)) :
    wp (captureStarted env edge fraction) s (fun _ => Tame s) (fun _ => Mute s) := by
  have hcalm : ∀ {m : CoordinatorM ActivityMonitor B T Unit}, Moves Calm m →
      wp m s (fun _ => Tame s) (fun _ => Mute s) :=
    fun hm => wp_mono (moves_tame hm s) (fun _ _ ht => ht) fun _ _ ht => ht.toMute
  rw [captureStarted, wp_bind, wp_get, wp_bind, wp_own]
  refine ⟨fun edge _ => ?_, fun _ _ => refl_of Mute s⟩
  rw [wp_bind, wp_own]
  refine ⟨fun _ _ => ?_, fun _ _ => refl_of Mute s⟩
  cases hr : s.role with
  | «local» =>
      rw [wp_ite]
      exact ⟨fun hready =>
        absurd ⟨hr, hready⟩ h, fun _ => hcalm (moves_calm (still_stopCapture env))⟩
  | sending => exact hcalm (moves_calm (still_stopCapture env))
  | receiving session =>
      have hend : Moves Tame (sendEnd env session (some ⟨(edgeAt s.config edge).id, fraction⟩) :
          CoordinatorM ActivityMonitor B T Unit) :=
        .get_bind fun s => tame_sendFrame end_ne_begin s
      have hback : Moves Calm (do
          setRole .local
          stopCapture env
          place env (edgeAt s.config edge) fraction
          rearm env : CoordinatorM ActivityMonitor B T Unit) :=
        calm_setRole.bind fun _ => moves_calm ((still_stopCapture env).bind fun _ =>
          (still_place _ _).bind fun _ => still_rearm env)
      refine wp_tame_bind (refl_of Tame s) (moves_tame (moves_calm (still_onReceiver _)))
        fun _ s₁ h₁ => ?_
      refine wp_tame_bind h₁ hend fun _ s₂ h₂ => ?_
      exact wp_mono ((moves_tame hback).after h₂) (fun _ _ ht => ht) fun _ _ ht => ht.toMute

/-- The pointer has crossed an edge, and a session may start. -/
theorem wp_captureStarted [InputSink B] {edge : ℕ} {fraction : ℚ} {Q : Unit → Watched B T → Prop}
    {E : Stop → Watched B T → Prop} (hrole : s.role = .local)
    (hready : s.localReady = true ∧ s.peerReady = true)
    (hQ : ∀ edge, wp (startSession env edge fraction) s Q E) (hE : ∀ stop, E stop s) :
    wp (captureStarted env edge fraction) s Q E := by
  rw [captureStarted, wp_bind, wp_get, wp_bind, wp_own]
  refine ⟨fun edge _ => ?_, fun _ _ => hE _⟩
  rw [wp_bind, wp_own, hrole]
  exact ⟨fun _ _ => (if_pos hready).symm ▸ hQ edge, fun _ _ => hE _⟩

/-- A session of the device's own begins guarded. -/
theorem captureStarted_guarded [InputSink B] (edge : ℕ) (fraction : ℚ) (h : Guarded s) :
    wp (captureStarted env edge fraction) s (fun _ => Guarded) (fun _ _ => True) := by
  by_cases hstart : s.role = .local ∧ s.localReady = true ∧ s.peerReady = true
  · exact wp_captureStarted hstart.1 hstart.2 (fun _ => startSession_guarded h hstart.1)
      fun _ => trivial
  · exact guarded_of_tame h (captureStarted_of_session edge fraction hstart)

/-- It begins only after a reading that finds no chord. -/
theorem captureStarted_begins [InputSink B] (edge : ℕ) (fraction : ℚ) (s : Watched B T) :
    wp (captureStarted env edge fraction) s (fun _ => Begins s) (fun _ => Begins s) := by
  by_cases hstart : s.role = .local ∧ s.localReady = true ∧ s.peerReady = true
  · exact wp_captureStarted hstart.1 hstart.2 (fun _ => startSession_begins s) fun _ _ => .inl
  · exact begins_of_tame (captureStarted_of_session edge fraction hstart)

/-- What holds of every report of the capture worker. -/
theorem wp_captureEvent [InputSink B] {event : Option StreamEvent} {Q : Watched B T → Prop}
    {E : Watched B T → Prop} (hsame : Q s) (hfail : E s)
    (hcalm : ∀ m : CoordinatorM ActivityMonitor B T Unit,
      Moves Calm m → wp m s (fun _ => Q) (fun _ => E))
    (hstarted : ∀ task edge fraction, wp (captureStarted env edge fraction)
      { s with capture := some task } (fun _ => Q) (fun _ => E)) :
    wp (captureEvent env event) s (fun _ => Q) (fun _ => E) := by
  rw [captureEvent, wp_bind, wp_own]
  refine ⟨fun event _ => ?_, fun _ _ => hfail⟩
  rw [wp_bind, wp_get]
  cases s.capture with
  | none => exact hsame
  | some task =>
      simp only [wp_ite]
      refine ⟨fun _ => hsame, fun _ => ?_⟩
      cases event.event with
      | armed | ready => exact hsame
      | input event => exact hcalm _ (calm_captureInput event)
      | finished reason => exact hcalm _ (calm_captureEnded reason)
      | started edge fraction =>
          rw [wp_bind, wp_set]
          exact hstarted _ edge fraction

/-! ### Nothing but the start of a session begins one -/

theorem mute_sample : Moves Mute (sample : CoordinatorM ActivityMonitor B T Bool) :=
  .zoom (S := ActivityMonitor.Goes) (fun _ _ hm =>
    ⟨fun _ => id, fun ⟨keys, hsince⟩ => ⟨keys, hm keys hsince⟩⟩)
    ActivityMonitor.moves_sample

theorem mute_takeKeyboardEvents :
    Moves Mute (takeKeyboardEvents : CoordinatorM ActivityMonitor B T (List InputEvent)) :=
  .get_bind fun s => ⟨fun _ => id, fun ⟨_, hsince⟩ => ⟨s.activity.keyboard.held, hsince.drain⟩⟩

theorem mute_takeTouchpadEvents :
    Moves Mute (takeTouchpadEvents : CoordinatorM ActivityMonitor B T (List InputEvent)) :=
  .get_bind fun s => ⟨fun _ => id, fun ⟨keys, hsince⟩ =>
    ⟨keys, (ActivityMonitor.keyboard_takeTouchpadEvents s.activity).symm ▸ hsince⟩⟩

theorem mute_sendEnd (session : ℕ) (exit : Option EdgePosition) :
    Moves Mute (sendEnd env session exit : CoordinatorM ActivityMonitor B T Unit) := by
  refine .get_bind fun s => ?_
  exact wp_mono (tame_sendFrame end_ne_begin s) (fun _ _ h => h.toMute) fun _ _ h => h.toMute

theorem mute_forwardKeyboard (e : InputEvent) :
    Moves Mute (forwardKeyboard env e : CoordinatorM ActivityMonitor B T Bool) := by
  refine .get_bind fun s => ?_
  split
  · next code pressed _ =>
      rw [wp_bind, wp_set]
      have hinput : Moves Mute (do
          sendInput env (.key code pressed)
          return false : CoordinatorM ActivityMonitor B T Bool) :=
        (moves_mute (calm_sendInput _)).bind fun _ => .pure false
      exact (Moves.ite (.pure true) hinput).after ⟨fun _ => id, id⟩
  · exact refl_of Mute s
  · exact refl_of Mute s

theorem mute_forwardKeys [InputSink B] (events : List InputEvent) :
    Moves Mute (forwardKeys env events : CoordinatorM ActivityMonitor B T Unit) := by
  induction events with
  | nil => exact .pure ()
  | cons e events ih =>
      have hback : Moves Mute (do
          modify fun s => { s with role := .local, sourceKeys := ∅ }
          rearm env : CoordinatorM ActivityMonitor B T Unit) :=
        .bind (.modify fun _ => ⟨fun _ => id, id⟩) fun _ =>
          moves_mute (moves_calm (still_rearm env))
      refine (mute_forwardKeyboard e).bind fun emergency => .ite (.get_bind fun s => ?_) ih
      cases s.role with
      | «local» | receiving => exact hback s
      | sending session sequence edge fraction =>
          exact (mute_sendEnd session none).bind (fun _ =>
            (moves_mute (moves_calm (still_stopCapture env))).bind fun _ =>
              (moves_mute (moves_calm (still_place _ _))).bind fun _ => hback) s

theorem mute_tick [InputSink B] (ready : Result Unit) :
    Moves Mute (tick F env ready : CoordinatorM ActivityMonitor B T Unit) := by
  have hcalm : ∀ {α : Type} {m : CoordinatorM ActivityMonitor B T α},
      Moves Still m → Moves Mute m :=
    fun h => moves_mute (moves_calm h)
  refine (hcalm (still_external _)).bind fun _ => (hcalm (still_onReceiver _)).bind fun _ => ?_
  refine (hcalm (still_expireLayout F env)).bind fun _ => .get_bind fun s => ?_
  refine (Moves.ite mute_sample (.pure false)).bind (fun physical => ?_) s
  refine mute_takeKeyboardEvents.bind fun keys => mute_takeTouchpadEvents.bind fun touches => ?_
  refine (moves_mute (calm_takeOver physical)).bind fun _ =>
    (mute_forwardKeys keys).bind fun _ => ?_
  exact moves_mute (calm_afterKeys env touches)

/-! ### Passes with the chord -/

/-- A tick in which Escape completes the chord keeps the guard. -/
theorem tick_spec [InputSink B] {ready : Result Unit} (h : Guarded s)
    (hready : s.role.isSending = true → s.localReady = true ∧ s.peerReady = true)
    (hlast : s.role.isSending = true →
      EscapeLast s.activity.keyboard.held (transitions s.activity)) :
    wp (tick F env ready) s (fun _ => Guarded) (fun _ _ => True) := by
  cases hr : s.role with
  | «local» | receiving => exact tick_of_not_sending h (by rw [hr]; rfl)
  | sending j k edge fraction =>
      have hsending : s.role.isSending = true := by
        rw [hr]
        rfl
      have hkeys := h.keys hsending
      have hlast := hlast hsending
      rw [← hkeys] at hlast
      rcases chordless_or_completes (h.chord hsending) (transitions s.activity) with
        hquiet | ⟨before, e, after, heq, hquiet, hchord⟩
      · exact tick_quiet h hr (hready hsending) hquiet
      · obtain rfl := hlast before e after heq hquiet hchord
        exact wp_mono (tick_chord h hr (hready hsending) heq hquiet hchord) (fun _ _ h => h.2.1)
          fun _ _ _ => trivial

/-- The branches that do not read the keyboards for a session. -/
theorem branch_tame [InputSink B] {event : Event} (s : Watched B T)
    (htick : ∀ ready, event ≠ .tick ready) (hcapture : ∀ event', event ≠ .capture event') :
    wp (branch F env event) s (fun _ => Tame s) (fun _ => Mute s) := by
  have hcalm : ∀ {m : CoordinatorM ActivityMonitor B T Unit}, Moves Calm m →
      wp m s (fun _ => Tame s) (fun _ => Mute s) :=
    fun hm => wp_mono (moves_tame hm s) (fun _ _ ht => ht) fun _ _ ht => ht.toMute
  cases event with
  | exit => exact refl_of Mute s
  | outputs outputs => exact hcalm (calm_outputsChanged outputs)
  | release client => exact hcalm (calm_releaseControl client)
  | applyLayout client layout => exact hcalm (calm_applyLayout client layout)
  | status unlocked => exact statusChanged_spec unlocked s
  | tick ready => exact absurd rfl (htick ready)
  | capture event => exact absurd rfl (hcapture event)
  | disconnected => exact refl_of Mute s

/-- No message of the peer begins a session. -/
theorem peerMessage_tame [InputSink B] (message : Message) (s : Watched B T) :
    wp (peerMessage F env message) s (fun _ => Tame s) (fun _ => Mute s) := by
  have hcalm : ∀ {m : CoordinatorM ActivityMonitor B T Unit}, Moves Calm m →
      wp m s (fun _ => Tame s) (fun _ => Mute s) :=
    fun hm => wp_mono (moves_tame hm s) (fun _ _ ht => ht) fun _ _ ht => ht.toMute
  cases message with
  | desktop info => exact ⟨⟨fun _ => id, id⟩, fun hs => ⟨hs, rfl, rfl⟩⟩
  | layout message => exact hcalm (calm_layoutMessage message)
  | touchpads devices => exact hcalm (calm_peerTouchpads devices)
  | hello hello => exact refl_of Mute s
  | ping nonce => exact hcalm (moves_calm (still_send rfl))
  | pong nonce => exact refl_of Tame s
  | lockState locked => exact peerLockState_spec locked s
  | «begin» session entry => exact peerBegin_spec session entry s
  | input session sequence event => exact peerInput_spec session sequence event s
  | «end» session exit => exact hcalm (calm_peerEnd session exit)

/-- Every event of the capture keeps the guard. -/
theorem captureEvent_guarded [InputSink B] (event : Option StreamEvent) (h : Guarded s) :
    wp (captureEvent env event) s (fun _ => Guarded) (fun _ _ => True) :=
  wp_captureEvent h trivial (fun _ hm => h.moves hm) fun _ edge fraction =>
    captureStarted_guarded edge fraction ⟨h.since, h.keys, h.pending, h.chord⟩

theorem captureEvent_begins [InputSink B] (event : Option StreamEvent) (s : Watched B T) :
    wp (captureEvent env event) s (fun _ => Begins s) (fun _ => Begins s) :=
  wp_captureEvent (fun _ => .inl) (fun _ => .inl)
    (fun _ hm => wp_mono (hm s) (fun _ _ h => h.begins) fun _ _ h => h.begins)
    fun task edge fraction => captureStarted_begins edge fraction { s with capture := some task }

/-- In no branch does a session begin with the chord held. -/
theorem branch_begins [InputSink B] (event : Event) (s : Watched B T) :
    wp (branch F env event) s (fun _ => Begins s) (fun _ => Begins s) := by
  cases event with
  | tick ready => exact wp_mono (mute_tick ready s) (fun _ _ h => h.begins) fun _ _ h => h.begins
  | capture event => exact captureEvent_begins event s
  | exit | outputs | release | applyLayout | status | disconnected =>
      exact begins_of_tame (branch_tame s (by simp) (by simp))

/-- A pass ends with the head of the loop. -/
theorem wp_pass [InputSink B] {event : Event} {frame : Option Frame}
    {Q E Q' E' : Watched B T → Prop}
    (hmessage : ∀ f, frame = some f → wp (peerMessage F env f.message) s (fun _ => Q) (fun _ => E))
    (hbranch : frame = none → wp (branch F env event) s (fun _ => Q) (fun _ => E))
    (hQ : ∀ s₁ s₂, Q s₁ → Calm s₁ s₂ → Q' s₂) (hfail : ∀ s₁ s₂, Q s₁ → Calm s₁ s₂ → E' s₂)
    (hE : ∀ s₁, E s₁ → E' s₁) : wp (pass F env event frame) s (fun _ => Q') (fun _ => E') := by
  have hhead : ∀ s₁ : Watched B T, Q s₁ → wp (head env) s₁ (fun _ => Q') (fun _ => E') :=
    fun s₁ h₁ =>
    wp_mono (calm_head env s₁) (fun _ s₂ => hQ s₁ s₂ h₁) fun _ s₂ => hfail s₁ s₂ h₁
  unfold pass
  cases frame with
  | some frame =>
      exact wp_bind.mpr (wp_mono (hmessage frame rfl) (fun _ s₁ => hhead s₁) fun _ s₁ => hE s₁)
  | none => exact wp_bind.mpr (wp_mono (hbranch rfl) (fun _ s₁ => hhead s₁) fun _ s₁ => hE s₁)

/-- **No pass begins a session while the chord is held.** -/
theorem pass_begins [InputSink B] (event : Event) (frame : Option Frame) (s : Watched B T) :
    wp (pass F env event frame) s (fun _ => Begins s) (fun _ => Begins s) := by
  have hcalm : ∀ s₁ s₂ : Watched B T, Begins s s₁ → Calm s₁ s₂ → Begins s s₂ :=
    fun s₁ s₂ h hc n hn => h n (hc.begun n hn)
  exact wp_pass (fun f _ => begins_of_tame (peerMessage_tame f.message s))
    (fun _ => branch_begins event s)
    hcalm hcalm fun _ => id

/-- **The step of the invariant.** -/
theorem pass_guarded [InputSink B] {event : Event} {frame : Option Frame} (h : Guarded s)
    (hready : s.role.isSending = true → s.localReady = true ∧ s.peerReady = true)
    (hlast : frame = none → Permitted s event) :
    wp (pass F env event frame) s (fun _ => Guarded) (fun _ _ => True) := by
  refine wp_pass (fun f _ => guarded_of_tame h (peerMessage_tame f.message s)) (fun hframe => ?_)
    (fun _ _ h₁ hc => Guarded.calm h₁ hc) (fun _ _ _ _ => trivial) fun _ _ => trivial
  cases event with
  | tick ready => exact tick_spec h hready (hlast hframe ready rfl)
  | capture event => exact captureEvent_guarded event h
  | exit | outputs | release | applyLayout | status | disconnected =>
      exact guarded_of_tame h (branch_tame s (by simp) (by simp))

/-- **The pass with the chord.** -/
theorem pass_chord [InputSink B] {ready : Result Unit} {j k edge : ℕ} {fraction : ℚ}
    {before after : List InputEvent} (h : Guarded s) (hrole : s.role = .sending j k edge fraction)
    (hready : s.localReady = true ∧ s.peerReady = true)
    (heq : transitions s.activity = before ++ .key 1 true :: after)
    (hquiet : Chordless s.sourceKeys before)
    (hchord : Chord (keysAfter s.sourceKeys (before ++ [.key 1 true]))) :
    wp (pass F env (.tick ready) none) s
      (fun _ s' => s'.role = .local ∧
        signals s'.outbox = signals s.outbox ++ inputSignals j k before ++ [.end j true])
      (fun _ s' =>
        signals s'.outbox <+: signals s.outbox ++ inputSignals j k before ++ [.end j true]) := by
  refine wp_pass (by simp) (fun _ => tick_chord h hrole hready heq hquiet hchord) ?_ ?_ fun _ => id
  · rintro s₁ s₂ ⟨hrole₁, -, hsignals₁⟩ hc
    obtain ⟨hrole₂, hsignals₂⟩ := hc.silent hrole₁
    exact ⟨hrole₂, hsignals₂.trans hsignals₁⟩
  · rintro s₁ s₂ ⟨hrole₁, -, hsignals₁⟩ hc
    exact ((hc.silent hrole₁).2.trans hsignals₁) ▸ List.prefix_rfl

end Coordinator

end NiriBridge
