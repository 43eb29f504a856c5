import NiriBridge.Model.Receiver

/-!
# Receiver — Calls

What each call does to the receiver itself, over any backend.  A call that talks to the backend may
end either way, so each lemma says what holds after success and what holds after failure.  `Framed r
r'` says that only the backend and the pending releases have changed.
-/

namespace NiriBridge.Receiver

open Hoare

variable {B : Type}

@[simp] theorem wp_check {α : Type} {x : Result α} {r : Receiver B} {Q : α → Receiver B → Prop}
    {E : Error → Receiver B → Prop} :
    wp (check x) r Q E ↔ (∀ a, x = .ok a → Q a r) ∧ ∀ e, x = .error e → E e r := wp_lift

/-- Any backend may answer either way. -/
theorem wp_call {f : B → Result Unit × B} {r : Receiver B} {Q : Unit → Receiver B → Prop}
    {E : Error → Receiver B → Prop}
    (hok : ∀ b, f r.sink = (.ok (), b) → Q () { r with sink := b })
    (herr : ∀ e b, f r.sink = (.error e, b) → E e { r with sink := b }) : wp (call f) r Q E := by
  unfold wp call
  rcases hf : f r.sink with ⟨_ | _, b⟩
  · exact herr _ b hf
  · exact hok b hf

/-- Only the backend and the pending releases have changed. -/
structure Framed (r r' : Receiver B) : Prop where
  state : r'.state = r.state
  session : r'.session = r.session
  expectedSequence : r'.expectedSequence = r.expectedSequence
  passed : r'.passed = r.passed

namespace Framed

theorem refl (r : Receiver B) : Framed r r := ⟨rfl, rfl, rfl, rfl⟩

theorem trans {r r' r'' : Receiver B} (h : Framed r r') (h' : Framed r' r'') : Framed r r'' :=
  ⟨h'.state.trans h.state, h'.session.trans h.session, h'.expectedSequence.trans h.expectedSequence,
    h'.passed.trans h.passed⟩

theorem update (r : Receiver B) (sink : B) (pending : SortedSet ℕ) :
    Framed r { r with sink := sink, pendingReleases := pending } := ⟨rfl, rfl, rfl, rfl⟩

end Framed

variable [InputSink B]

/-- The backend has returned this error. -/
inductive BackendError (B : Type) [InputSink B] : Error → Prop where
  | poll {b b' : B} {e : Error} (h : InputSink.poll b = (.error e, b')) : BackendError B e
  | emit {event : InputEvent} {b b' : B} {e : Error} (h : InputSink.emit event b = (.error e, b')) :
      BackendError B e
  | selectOutput {output : String} {b b' : B} {e : Error}
      (h : InputSink.selectOutput output b = (.error e, b')) : BackendError B e
  | configureTouchpads {devices : List Touchpad.Descriptor} {b b' : B} {e : Error}
      (h : InputSink.configureTouchpads devices b = (.error e, b')) : BackendError B e
  | resetTouchpads {b b' : B} {e : Error} (h : InputSink.resetTouchpads b = (.error e, b')) :
      BackendError B e

/-- The loop of `release` drops the codes it has released, and all of them if nothing fails. -/
theorem releaseCodes_spec (codes : List ℕ) (first : Option Error) (r : Receiver B)
    (hfirst : ∀ e ∈ first, BackendError B e) :
    wp (releaseCodes codes first) r
      (fun res r' => Framed r r' ∧ (∀ e ∈ res, BackendError B e) ∧ (res = none → first = none ∧
        ∀ c ∈ r'.pendingReleases, c ∈ r.pendingReleases ∧ c ∉ codes))
      (fun _ _ => False) := by
  induction codes generalizing first r with
  | nil => exact ⟨.refl r, hfirst, fun h => ⟨h, fun c hc => ⟨hc, List.not_mem_nil⟩⟩⟩
  | cons code codes ih =>
      rw [releaseCodes, wp_bind, wp_attempt]
      refine wp_call (fun b _ => ?_) (fun e b hb => ?_)
      · rw [wp_bind, wp_modify]
        refine wp_mono (ih _ _ hfirst) (fun res r' h => ?_) fun _ _ => id
        refine ⟨(Framed.update r _ _).trans h.1, h.2.1, fun hres => ?_⟩
        refine ⟨(h.2.2 hres).1, fun c hc => ?_⟩
        obtain ⟨hmem, hcodes⟩ := (h.2.2 hres).2 c hc
        obtain ⟨hne, hmem⟩ := SortedSet.mem_erase.mp hmem
        exact ⟨hmem, fun h => (List.mem_cons.mp h).elim hne hcodes⟩
      · have hfirst' : ∀ e' ∈ first.or (some e), BackendError B e' := by
          intro e' he'
          cases first with
          | none => exact Option.some.inj he' ▸ .emit hb
          | some e₁ => exact hfirst e' he'
        refine wp_mono (ih _ _ hfirst') (fun res r' h => ?_) fun _ _ => id
        refine ⟨(Framed.update r _ _).trans h.1, h.2.1, fun hres => ?_⟩
        exact absurd (h.2.2 hres).1 (by cases first <;> simp)

/-- Everything pending has been released, or the backend has failed. -/
theorem release_spec (codes : List ℕ) (r : Receiver B) :
    wp (release codes) r (fun _ r' => Framed r r' ∧ r'.pendingReleases = ∅)
      (fun e r' => Framed r r' ∧ BackendError B e) := by
  rw [release, wp_bind, wp_modify, wp_bind, wp_get, wp_bind]
  refine wp_mono (releaseCodes_spec _ _ _ (by simp)) (fun res r' h => ?_) fun _ _ => False.elim
  have hframe : Framed r r' := (Framed.update r _ _).trans h.1
  cases res with
  | some e => exact ⟨hframe, h.2.1 e rfl⟩
  | none =>
      refine ⟨hframe, SortedSet.eq_empty_iff.mpr fun c hc => ?_⟩
      obtain ⟨hmem, hcodes⟩ := (h.2.2 rfl).2 c hc
      exact hcodes hmem

/-- The backend has just reset its touchpads. -/
def TouchpadsReset (r : Receiver B) : Prop := ∃ b : B, InputSink.resetTouchpads b = (.ok (), r.sink)

/-- The cleanup leaves nothing pending, or the backend has failed. -/
theorem releaseWithTouchpads_spec (codes : List ℕ) (r : Receiver B) :
    wp (releaseWithTouchpads codes) r
      (fun _ r' => Framed r r' ∧ r'.pendingReleases = ∅ ∧ TouchpadsReset r')
      (fun e r' => Framed r r' ∧ BackendError B e) := by
  rw [releaseWithTouchpads, wp_bind, wp_attempt]
  refine wp_mono (release_spec codes r) (fun _ r₁ h => ?_) fun e r₁ h => ?_
  · rw [wp_bind, wp_attempt]
    refine wp_call (fun b hb => ?_) fun e b hb => ?_ <;> rw [wp_bind, wp_check]
    · refine ⟨fun _ _ => ?_, by simp⟩
      rw [wp_check]
      exact ⟨fun _ _ => ⟨h.1.trans ⟨rfl, rfl, rfl, rfl⟩, h.2, r₁.sink, hb⟩, by simp⟩
    · refine ⟨fun _ _ => ?_, by simp⟩
      rw [wp_check]
      refine ⟨by simp, fun e' he' => ⟨h.1.trans ⟨rfl, rfl, rfl, rfl⟩, ?_⟩⟩
      exact Except.error.inj he' ▸ .resetTouchpads hb
  · rw [wp_bind, wp_attempt]
    refine wp_call (fun b hb => ?_) fun e b hb => ?_ <;> rw [wp_bind, wp_check] <;>
      exact ⟨by simp, fun e' he' => ⟨h.1.trans ⟨rfl, rfl, rfl, rfl⟩, Except.error.inj he' ▸ h.2⟩⟩

/-- The receiver after a session has ended with control state `state`. -/
structure Ended (state : ControlState) (r r' : Receiver B) : Prop where
  state : r'.state = state
  session : r'.session = none
  expectedSequence : r'.expectedSequence = r.expectedSequence
  passed : r'.passed = r.passed

omit [InputSink B] in
theorem Ended.of_framed {state : ControlState} {r r' : Receiver B}
    (h : Framed { r with state := state, session := none } r') : Ended state r r' :=
  ⟨h.state, h.session, h.expectedSequence, h.passed⟩

/-- After a stop there is no session, and nothing is pending unless the backend has failed. -/
theorem stop_spec (reason : StopReason) (r : Receiver B) :
    wp (stop reason) r
      (fun _ r' => Ended (r.state.stop reason).2 r r' ∧ r'.pendingReleases = ∅ ∧ TouchpadsReset r')
      (fun e r' => Ended (r.state.stop reason).2 r r' ∧ BackendError B e) := by
  rw [stop, wp_bind, wp_get, wp_bind, wp_set]
  exact wp_mono (releaseWithTouchpads_spec _ _) (fun _ _ h => ⟨.of_framed h.1, h.2⟩)
    fun _ _ h => ⟨.of_framed h.1, h.2⟩

/-- What a lock change does: a session ends unless the receiver is still receiving. -/
structure LockChanged (change : StopEffects × ControlState) (r r' : Receiver B) : Prop where
  state : r'.state = change.2
  session : r'.session = if change.2.mode = .receiving then r.session else none
  expectedSequence : r'.expectedSequence = r.expectedSequence
  passed : r'.passed = r.passed

/-- What a change of a lock leaves. -/
theorem lockChanged_spec (effects : StopEffects) (state : ControlState) (r : Receiver B) :
    wp (lockChanged effects state) r
      (fun _ r' => LockChanged (effects, state) r r' ∧ r'.pendingReleases = ∅ ∧
        (state.mode ≠ .receiving → TouchpadsReset r'))
      (fun e r' => LockChanged (effects, state) r r' ∧ BackendError B e) := by
  rw [lockChanged, wp_bind, wp_get, wp_ite]
  refine ⟨fun hmode => ?_, fun hmode => ?_⟩ <;> rw [wp_bind, wp_set]
  · have hframed : ∀ r', Framed { r with state := state, session := none } r' →
        LockChanged (effects, state) r r' := fun r' h =>
      ⟨h.state, by rw [h.session, if_neg hmode], h.expectedSequence, h.passed⟩
    exact wp_mono (releaseWithTouchpads_spec _ _)
      (fun _ r' h => ⟨hframed r' h.1, h.2.1, fun _ => h.2.2⟩) fun _ r' h => ⟨hframed r' h.1, h.2⟩
  · have hmode := not_not.mp hmode
    have hframed : ∀ r', Framed { r with state := state } r' → LockChanged (effects, state) r r' :=
      fun r' h => ⟨h.state, by rw [h.session, if_pos hmode], h.expectedSequence, h.passed⟩
    exact wp_mono (release_spec _ _)
      (fun _ r' h => ⟨hframed r' h.1, h.2, fun hne => absurd hmode hne⟩)
      fun _ r' h => ⟨hframed r' h.1, h.2⟩

/-! ### The invariant -/

/-- **The invariant of a receiver.**  The mode says whether a session is active and, if none is,
whether a desktop is locked; only an active session holds input. -/
structure Inv (r : Receiver B) : Prop where
  mode : r.state.mode =
    if r.session.isSome then .receiving
    else if r.state.localLocked || r.state.peerLocked then .paused else .local
  unlocked : r.session.isSome → r.state.localLocked = false ∧ r.state.peerLocked = false
  idle : r.session = none → r.state.held.keys = ∅

omit [InputSink B] in
/-- A new receiver has no session. -/
theorem inv_new (sink : B) : Inv (new sink) := ⟨rfl, by rintro ⟨⟩, fun _ => rfl⟩

omit [InputSink B] in
/-- A receiver that receives has a session. -/
theorem Inv.receiving_iff {r : Receiver B} (h : Inv r) :
    r.state.mode = .receiving ↔ r.session.isSome = true := by
  rw [h.mode]
  split_ifs with h₁ h₂ <;> simp [h₁]

omit [InputSink B] in
/-- The invariant is not about the backend. -/
theorem Inv.of_framed {r r' : Receiver B} (h : Inv r) (hf : Framed r r') : Inv r' := by
  refine ⟨?_, ?_, ?_⟩ <;> rw [hf.session, hf.state]
  exacts [h.mode, h.unlocked, h.idle]

omit [InputSink B] in
/-- A session that is stopped leaves nothing held. -/
theorem inv_of_ended {r r' : Receiver B} {state : ControlState} {reason : StopReason}
    (h : Ended (state.stop reason).2 r r') : Inv r' := by
  refine ⟨?_, fun hs => ?_, fun _ => ?_⟩
  · rw [h.session, h.state]
    rfl
  · rw [h.session] at hs
    cases hs
  · rw [h.state]
    rfl

/-! ### The calls -/

/-- The errors that say the two ends of a connection disagree about the session. -/
def sessionErrors : List Error :=
  [["Unexpected overlapping input session"], ["Receiver is busy"], ["Input sequence mismatch"]]

/-- An error of the backend, or one that says something else. -/
def Ordinary (B : Type) [InputSink B] (e : Error) : Prop := BackendError B e ∨ e ∉ sessionErrors

/-- A check that fails is ordinary if its message is about no session. -/
theorem ordinary_of_ensure {c : Prop} [Decidable c] {message : String} {e : Error}
    (h : ensure c message = .error e) (hm : [message] ∉ sessionErrors) : Ordinary B e :=
  .inr ((ensure_eq_error.mp h).2 ▸ hm)

/-- Which desktops the receiver knows to be locked. -/
def locks (r : Receiver B) : Bool × Bool := (r.state.localLocked, r.state.peerLocked)

/-- Only the backend has changed. -/
def SinkOnly (r r' : Receiver B) : Prop := ∃ sink, r' = { r with sink := sink }

omit [InputSink B] in
theorem SinkOnly.framed {r r' : Receiver B} (h : SinkOnly r r') : Framed r r' := by
  obtain ⟨sink, rfl⟩ := h
  exact ⟨rfl, rfl, rfl, rfl⟩

/-- To poll changes the backend only. -/
theorem poll_spec (r : Receiver B) :
    wp poll r (fun _ => SinkOnly r) (fun e r' => SinkOnly r r' ∧ Ordinary B e) :=
  wp_call (fun b _ => ⟨b, rfl⟩) fun _ b hb => ⟨⟨b, rfl⟩, .inl (.poll hb)⟩

/-- To configure touchpads changes the backend only. -/
theorem configureTouchpads_spec (devices : List Touchpad.Descriptor) (r : Receiver B) :
    wp (configureTouchpads devices) r (fun _ => SinkOnly r)
      (fun e r' => SinkOnly r r' ∧ Ordinary B e) := by
  rw [configureTouchpads, wp_bind, wp_get, wp_bind, wp_check]
  refine ⟨fun _ _ => ?_, fun e he => ⟨⟨r.sink, rfl⟩, ordinary_of_ensure he (by decide)⟩⟩
  exact wp_call (fun b _ => ⟨b, rfl⟩) fun _ b hb => ⟨⟨b, rfl⟩, .inl (.configureTouchpads hb)⟩

/-- What an invalid input is refused with. -/
def inputErrors : List Error :=
  [["Invalid touchpad index"], ["Invalid touchpad event time"], ["Invalid touchpad frame size"],
    ["Invalid touchpad event"], ["Unsupported keyboard code"], ["Unsupported pointer button"],
    ["Invalid relative motion"], ["Invalid absolute position"], ["Invalid scroll amount"]]

/-- The errors of an invalid input. -/
theorem mem_inputErrors {event : InputEvent} {e : Error} (h : event.validate = .error e) :
    e ∈ inputErrors := by
  cases event with
  | touchpad device timeUs events =>
      simp only [InputEvent.validate, Touchpad.validateFrame, bind_eq_error, ensure_eq_error] at h
      rcases h with ⟨-, rfl⟩ | ⟨_, -, ⟨-, rfl⟩ | ⟨_, -, ⟨-, rfl⟩ | ⟨_, -, h⟩⟩⟩
      · decide
      · decide
      · decide
      · obtain ⟨x, -, hx⟩ := forEach_eq_error h
        obtain ⟨-, rfl⟩ := ensure_eq_error.mp hx
        decide
  | scrollStop => cases h
  | _ =>
      obtain ⟨-, rfl⟩ := ensure_eq_error.mp h
      decide

/-- An invalid input is an ordinary error. -/
theorem validate_ordinary {event : InputEvent} {e : Error} (h : event.validate = .error e) :
    Ordinary B e := by
  have hapart : ∀ e ∈ inputErrors, e ∉ sessionErrors := by decide
  exact .inr (hapart e (mem_inputErrors h))

/-- To place the pointer changes the backend only. -/
theorem position_spec (event : InputEvent) (r : Receiver B) :
    wp (position event) r (fun _ => SinkOnly r) (fun e r' => SinkOnly r r' ∧ Ordinary B e) := by
  rw [position, wp_bind, wp_check]
  refine ⟨fun _ _ => ?_, fun e he => ⟨⟨r.sink, rfl⟩, ordinary_of_ensure he (by decide)⟩⟩
  rw [wp_bind, wp_check]
  refine ⟨fun _ _ => ?_, fun e he => ⟨⟨r.sink, rfl⟩, validate_ordinary he⟩⟩
  exact wp_call (fun b _ => ⟨b, rfl⟩) fun _ b hb => ⟨⟨b, rfl⟩, .inl (.emit hb)⟩

/-- To place the pointer on an output changes the backend only. -/
theorem positionOn_spec (output : String) (event : InputEvent) (r : Receiver B) :
    wp (positionOn output event) r (fun _ => SinkOnly r)
      (fun e r' => SinkOnly r r' ∧ Ordinary B e) := by
  rw [positionOn, wp_bind, wp_get, wp_bind, wp_check]
  refine ⟨fun _ _ => ?_, fun e he => ⟨⟨r.sink, rfl⟩, ordinary_of_ensure he (by decide)⟩⟩
  rw [wp_bind, wp_check]
  refine ⟨fun _ _ => ?_, fun e he => ⟨⟨r.sink, rfl⟩, ordinary_of_ensure he (by decide)⟩⟩
  rw [wp_bind, wp_check]
  refine ⟨fun _ _ => ?_, fun e he => ⟨⟨r.sink, rfl⟩, validate_ordinary he⟩⟩
  rw [wp_bind]
  refine wp_call (fun b _ => ?_) fun _ b hb => ⟨⟨b, rfl⟩, .inl (.selectOutput hb)⟩
  exact wp_call (fun b' _ => ⟨b', rfl⟩) fun _ b' hb => ⟨⟨b', rfl⟩, .inl (.emit hb)⟩

/-- What is held, what is pending and the backend are as they were. -/
def SameHeld (r r' : Receiver B) : Prop :=
  r'.sink = r.sink ∧ r'.state.held = r.state.held ∧ r'.pendingReleases = r.pendingReleases

/-- `begin` starts a session when none is active and no desktop is locked; it changes nothing
else. -/
theorem begin_spec (session : ℕ) {r : Receiver B} (h : Inv r) :
    wp («begin» session) r
      (fun started r' => Inv r' ∧ locks r' = locks r ∧ r'.passed = r.passed ∧
        (SameHeld r r' ∧ r.pendingReleases = ∅) ∧ if started then r'.session = some session ∧
        r'.expectedSequence = 0
        else r' = r ∧ (r.session.isSome ∨ r.state.localLocked ∨ r.state.peerLocked))
      (fun e r' => r' = r ∧ Ordinary B e ∧ (session = 0 ∨ r.pendingReleases ≠ ∅)) := by
  rw [«begin», wp_bind, wp_check]
  refine ⟨fun _ _ => ?_, fun e he => ?_⟩
  · rw [wp_bind, wp_get, wp_bind, wp_check]
    refine ⟨fun _ hp => ?_, fun e he => ?_⟩
    · have hpending : r.pendingReleases = ∅ := ensure_eq_ok.mp hp
      by_cases hstart : r.session.isSome ∨ r.state.localLocked ∨ r.state.peerLocked
      · have hmode : r.state.mode ≠ .local := by
          rw [h.mode]
          split_ifs <;> simp_all
        have hs : r.state.start .receiving = (false, r.state) := if_pos (.inl hmode)
        simp only [hs, Bool.false_eq_true, if_false]
        exact ⟨h, rfl, rfl, ⟨⟨rfl, rfl, rfl⟩, hpending⟩, rfl, hstart⟩
      · obtain ⟨hnone, hl, hp⟩ : r.session = none ∧ r.state.localLocked = false ∧
            r.state.peerLocked = false := by simpa using hstart
        have hmode : r.state.mode = .local := by simp [h.mode, hnone, hl, hp]
        have hs : r.state.start .receiving = (true, { r.state with mode := .receiving }) := by
          simp [ControlState.start, hmode, hl, hp]
        simp only [hs, if_true, wp_bind, wp_set]
        exact ⟨⟨rfl, fun _ => ⟨hl, hp⟩, by simp⟩, rfl, rfl, ⟨⟨rfl, rfl, rfl⟩, hpending⟩, rfl, rfl⟩
    · exact ⟨rfl, ordinary_of_ensure he (by decide), .inr (ensure_eq_error.mp he).1⟩
  · exact ⟨rfl, ordinary_of_ensure he (by decide), .inl (not_not.mp (ensure_eq_error.mp he).1)⟩

/-- The receiver has no session, and nothing else has changed that the coordinator can see. -/
structure Idle (r r' : Receiver B) : Prop where
  inv : Inv r'
  session : r'.session = none
  locks : locks r' = locks r
  passed : r'.passed = r.passed

omit [InputSink B] in
theorem Idle.of_ended {r r' : Receiver B} {reason : StopReason}
    (h : Ended (r.state.stop reason).2 r r') : Idle r r' :=
  ⟨inv_of_ended h, h.session, by rw [Receiver.locks, h.state]; rfl, h.passed⟩

/-- A receiver that stops is idle, also when the backend fails. -/
theorem stop_idle (reason : StopReason) (r : Receiver B) :
    wp (stop reason) r (fun _ => Idle r) (fun e r' => Idle r r' ∧ Ordinary B e) :=
  wp_mono (stop_spec reason r) (fun _ _ h => .of_ended h.1) fun _ _ h => ⟨.of_ended h.1, .inl h.2⟩

/-- `end` ends the session it names and no other. -/
theorem end_spec (session : ℕ) (r : Receiver B) :
    wp («end» session) r (fun _ r' => if r.session = some session then Idle r r' else r' = r)
      (fun e r' => r.session = some session ∧ Idle r r' ∧ Ordinary B e) := by
  rw [«end», wp_bind, wp_get, wp_ite]
  refine ⟨fun hs => ?_, fun hs => ?_⟩
  · simp only [if_pos hs]
    exact wp_mono (stop_idle _ r) (fun _ _ => id) fun _ _ h => ⟨hs, h⟩
  · rw [wp_pure, if_neg hs]

/-- After physical activity no session is active. -/
theorem physicalActivity_spec {r : Receiver B} (h : Inv r) :
    wp physicalActivity r (fun _ => Idle r) (fun e r' => Idle r r' ∧ Ordinary B e) := by
  rw [physicalActivity, wp_bind, wp_get]
  by_cases hmode : r.state.mode = .receiving
  · have hact : r.state.receiverPhysicalActivity = some (r.state.stop .localTakeover) :=
      if_pos hmode
    simp only [hact]
    rw [wp_bind, wp_set]
    exact wp_mono (releaseWithTouchpads_spec _ _) (fun _ _ h => .of_ended (.of_framed h.1))
      fun _ _ h => ⟨.of_ended (.of_framed h.1), .inl h.2⟩
  · have hact : r.state.receiverPhysicalActivity = none := if_neg hmode
    simp only [hact]
    have hnone : r.session = none := by
      simpa using mt h.receiving_iff.mpr hmode
    exact ⟨h, hnone, rfl, rfl⟩

/-- The receiver after it has been told about a lock. -/
structure Relocked (unchanged : Bool) (newLocks : Bool × Bool) (r r' : Receiver B) : Prop where
  inv : Inv r'
  session : r'.session = if unchanged then r.session else none
  locks : locks r' = newLocks
  expectedSequence : r'.expectedSequence = r.expectedSequence
  passed : r'.passed = r.passed

omit [InputSink B] in
/-- A lock that stays as it is changes nothing. -/
theorem relocked_unchanged {r r' : Receiver B} (h : Inv r)
    (hl : LockChanged (ControlState.noEffects, r.state) r r') : Relocked true (locks r) r r' := by
  have hsession : r'.session = r.session := by
    rw [hl.session]
    split_ifs with hmode
    · rfl
    · have hnone : r.session = none := by simpa using mt h.receiving_iff.mpr hmode
      exact hnone.symm
  have hframed : Framed r r' := ⟨hl.state, hsession, hl.expectedSequence, hl.passed⟩
  exact ⟨h.of_framed hframed, hsession, by rw [locks, hl.state]; rfl,
    hl.expectedSequence, hl.passed⟩

omit [InputSink B] in
/-- A receiver that stops does not receive. -/
theorem stop_mode (state : ControlState) (reason : StopReason) :
    (state.stop reason).2.mode ≠ .receiving := by
  simp only [ControlState.stop]
  split_ifs <;> decide

omit [InputSink B] in
/-- A lock that changes ends the session. -/
theorem relocked_stop {r r' : Receiver B} {state : ControlState} {reason : StopReason}
    (hl : LockChanged (state.stop reason) r r') :
    Relocked false (state.localLocked, state.peerLocked) r r' := by
  have hsession : r'.session = none := hl.session.trans (if_neg (stop_mode state reason))
  exact ⟨inv_of_ended (r := r) ⟨hl.state, hsession, hl.expectedSequence, hl.passed⟩, hsession,
    by rw [locks, hl.state]; rfl, hl.expectedSequence, hl.passed⟩

/-- A lock change either says nothing new or stops the receiver. -/
theorem relock_spec {r : Receiver B} (h : Inv r) {change : StopEffects × ControlState}
    {unchanged : Bool} {newLocks : Bool × Bool}
    (hchange : (unchanged = true ∧ newLocks = locks r ∧
      change = (ControlState.noEffects, r.state)) ∨ (unchanged = false ∧ ∃ state : ControlState,
        newLocks = (state.localLocked, state.peerLocked) ∧ change = state.stop .locked)) :
    wp (lockChanged change.1 change.2) r (fun _ => Relocked unchanged newLocks r)
      (fun e r' => Relocked unchanged newLocks r r' ∧ Ordinary B e) := by
  have hrel : ∀ r', LockChanged change r r' → Relocked unchanged newLocks r r' := by
    intro r' h'
    rcases hchange with ⟨rfl, rfl, rfl⟩ | ⟨rfl, state, rfl, rfl⟩
    · exact relocked_unchanged h h'
    · exact relocked_stop h'
  exact wp_mono (lockChanged_spec _ _ r) (fun _ r' h' => hrel r' h'.1)
    fun _ r' h' => ⟨hrel r' h'.1, .inl h'.2⟩

/-- What the own lock changes. -/
theorem localLock_spec (locked : Bool) {r : Receiver B} (h : Inv r) :
    wp (localLock locked) r
      (fun _ => Relocked (r.state.localLocked == locked) (locked, r.state.peerLocked) r)
      (fun e r' => Relocked (r.state.localLocked == locked) (locked, r.state.peerLocked) r r' ∧
        Ordinary B e) := by
  rw [localLock, wp_bind, wp_get]
  refine relock_spec h ?_
  by_cases hl : r.state.localLocked = locked
  · exact .inl ⟨by simpa using hl, by rw [locks, hl], if_pos hl⟩
  · exact .inr ⟨by simpa using hl, { r.state with localLocked := locked }, rfl, if_neg hl⟩

/-- What the peer's lock changes. -/
theorem peerLock_spec (locked : Bool) {r : Receiver B} (h : Inv r) :
    wp (peerLock locked) r
      (fun _ => Relocked (r.state.peerLocked == locked) (r.state.localLocked, locked) r)
      (fun e r' => Relocked (r.state.peerLocked == locked) (r.state.localLocked, locked) r r' ∧
        Ordinary B e) := by
  rw [peerLock, wp_bind, wp_get]
  refine relock_spec h ?_
  by_cases hl : r.state.peerLocked = locked
  · exact .inl ⟨by simpa using hl, by rw [locks, hl], if_pos hl⟩
  · exact .inr ⟨by simpa using hl, { r.state with peerLocked := locked }, rfl, if_neg hl⟩

/-- `input` has passed the event on. -/
structure Passed (session sequence : ℕ) (event : InputEvent) (r r' : Receiver B) : Prop where
  inv : Inv r'
  locks : locks r' = locks r
  active : r.session = some session
  inOrder : sequence = r.expectedSequence
  stays : r'.session = some session
  expectedSequence : r'.expectedSequence = r.expectedSequence + 1
  passed : r'.passed = r.passed ++ [(session, sequence, event)]

/-- `input` has failed and ended the session. -/
structure Refused (session sequence : ℕ) (event : InputEvent) (e : Error) (r r' : Receiver B) :
    Prop where
  inv : Inv r'
  locks : locks r' = locks r
  active : r.session = some session
  ends : r'.session = none
  passed : r'.passed = r.passed ∨
    sequence = r.expectedSequence ∧ r'.passed = r.passed ++ [(session, sequence, event)]
  error : Ordinary B e ∨ sequence ≠ r.expectedSequence

theorem Refused.of_idle {session sequence : ℕ} {event : InputEvent} {e : Error} {r r' : Receiver B}
    (h : Idle r r') (ha : r.session = some session)
    (he : Ordinary B e ∨ sequence ≠ r.expectedSequence) : Refused session sequence event e r r' :=
  ⟨h.inv, h.locks, ha, h.session, .inl h.passed, he⟩

omit [InputSink B] in
/-- To remember a key leaves the mode and the locks alone. -/
theorem remember_eq (event : InputEvent) (s : ControlState) :
    (remember event s).mode = s.mode ∧ (remember event s).localLocked = s.localLocked ∧
      (remember event s).peerLocked = s.peerLocked := by
  unfold remember
  split
  · unfold ControlState.press
    split_ifs <;> exact ⟨rfl, rfl, rfl⟩
  · exact ⟨rfl, rfl, rfl⟩

omit [InputSink B] in
/-- To forget a key leaves the mode and the locks alone. -/
theorem forget_eq (event : InputEvent) (s : ControlState) :
    (forget event s).mode = s.mode ∧ (forget event s).localLocked = s.localLocked ∧
      (forget event s).peerLocked = s.peerLocked := by
  unfold forget
  split <;> exact ⟨rfl, rfl, rfl⟩

/-- An input is passed on, ignored, or ends the session with an error. -/
theorem input_spec (session sequence : ℕ) (event : InputEvent) {r : Receiver B} (h : Inv r) :
    wp (input session sequence event) r
      (fun taken r' => if taken then Passed session sequence event r r'
        else r' = r ∧ r.session ≠ some session)
      (fun e r' => Refused session sequence event e r r') := by
  rw [input, wp_bind, wp_get, wp_ite]
  refine ⟨fun hne => ?_, fun heq => ?_⟩
  · refine ⟨rfl, fun hs => ?_⟩
    exact hne.elim (absurd hs) (absurd (h.receiving_iff.mpr (by simp [hs])))
  obtain ⟨hs, -⟩ : r.session = some session ∧ r.state.mode = .receiving := by
    simpa only [not_or, not_not] using heq
  -- every failure stops the receiver first; the error of the stop itself is the backend's
  have hstop : ∀ e, (Ordinary B e ∨ sequence ≠ r.expectedSequence) →
      wp (stop .disconnected) r (fun _ r' => Refused session sequence event e r r')
        (fun e' r' => Refused session sequence event e' r r') := fun e he =>
    wp_mono (stop_idle _ r) (fun _ _ h => .of_idle h hs he) fun _ _ h => .of_idle h.1 hs (.inl h.2)
  rw [wp_ite]
  refine ⟨fun hseq => ?_, fun hseq => ?_⟩
  · rw [wp_bind]
    exact hstop _ (.inr hseq)
  have hseq := not_not.mp hseq
  cases hv : event.validate with
  | error e =>
      simp only [wp_bind]
      exact hstop e (.inl (validate_ordinary hv))
  | ok =>
      simp only [wp_ite, wp_bind]
      refine ⟨fun _ => hstop _ (.inl (.inr (by decide))), fun _ => ?_⟩
      rw [wp_set, wp_attempt]
      refine wp_call (fun b _ => ?_) fun e b hb => ?_
      · rw [wp_bind, wp_modify]
        obtain ⟨hmode, hlocal, hpeer⟩ := remember_eq event r.state
        obtain ⟨hmode', hlocal', hpeer'⟩ := forget_eq event (remember event r.state)
        refine ⟨⟨?_, fun _ => ?_, fun hn => ?_⟩, ?_, hs, hseq, hs, rfl, rfl⟩
        · simp only [hmode', hmode, h.mode, hlocal', hlocal, hpeer', hpeer]
        · simp only [hlocal', hlocal, hpeer', hpeer]
          exact h.unlocked (by simp [hs])
        · exact absurd (hs.symm.trans hn) (by simp)
        · simp only [locks, hlocal', hlocal, hpeer', hpeer]
      · rw [wp_bind, wp_attempt]
        have hrefused : ∀ r₁ r', r₁.state = remember event r.state →
            r₁.passed = r.passed ++ [(session, sequence, event)] → Idle r₁ r' →
            Refused session sequence event e r r' := by
          intro r₁ r' hstate hpassed h'
          obtain ⟨-, hlocal, hpeer⟩ := remember_eq event r.state
          have hlocks : locks r₁ = locks r := by simp only [locks, hstate, hlocal, hpeer]
          exact ⟨h'.inv, h'.locks.trans hlocks, hs, h'.session,
            .inr ⟨hseq, h'.passed.trans hpassed⟩, .inl (.inl (.emit hb))⟩
        exact wp_mono (stop_idle _ _) (fun _ r' => hrefused _ r' rfl rfl)
          fun _ r' h' => hrefused _ r' rfl rfl h'.1

end NiriBridge.Receiver
