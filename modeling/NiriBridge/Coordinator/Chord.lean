import NiriBridge.Coordinator.Watch

/-!
# Coordinator — Chord

The emergency chord.  While a coordinator sends, `source_keys` is what the keyboards hold, and a
press of Escape with Control, Alt and Shift ends the session; a modifier pressed while Escape is
held already does not.  So the chord ends every session if it is always Escape that completes it
(`EscapeLast`).

* `forwardKeys_quiet`, `forwardKeys_chord`: the transitions of a pass up to the chord, and the
  chord.
* `Guarded`: a coordinator that sends has no chord held.
* `tick_quiet`, `tick_chord`: a tick without the chord, and a tick with it.
* `startSession_guarded`, `startSession_begins`: no session starts with the chord.
-/

namespace NiriBridge

open Hoare Session

/-- Escape with Control, Alt and Shift. -/
def Chord (keys : SortedSet ℕ) : Prop := 1 ∈ keys ∧ emergencyModifiers keys = true

instance (keys : SortedSet ℕ) : Decidable (Chord keys) := inferInstanceAs (Decidable (_ ∧ _))

/-- The chord is held at no time. -/
def Chordless (keys : SortedSet ℕ) (events : List InputEvent) : Prop :=
  ∀ before, before <+: events → ¬ Chord (keysAfter keys before)

/-- The transition with which the chord is held for the first time is a press of Escape. -/
def EscapeLast (keys : SortedSet ℕ) (events : List InputEvent) : Prop :=
  ∀ before e after, events = before ++ e :: after → Chordless keys before →
    Chord (keysAfter keys (before ++ [e])) → e = .key 1 true

/-- The messages with these inputs. -/
def inputSignals (session sequence : ℕ) : List InputEvent → List (Signal InputEvent)
  | [] => []
  | e :: events => .input session sequence e :: inputSignals session (sequence + 1) events

theorem Chordless.head {keys : SortedSet ℕ} {events : List InputEvent} (h : Chordless keys events) :
    ¬ Chord keys :=
  h [] List.nil_prefix

/-- Without transitions the chord is not held if it is not held at the start. -/
theorem chordless_nil {keys : SortedSet ℕ} (h : ¬ Chord keys) : Chordless keys [] := by
  intro before hb
  rw [List.prefix_nil.mp hb]
  exact h

/-- The chord is held neither before the first transition nor from it on. -/
theorem chordless_cons {keys : SortedSet ℕ} {e : InputEvent} {events : List InputEvent} :
    Chordless keys (e :: events) ↔ ¬ Chord keys ∧ Chordless (keyAfter keys e) events := by
  refine ⟨fun h => ⟨h.head, fun before hb => h (e :: before) ((List.prefix_cons_inj e).mpr hb)⟩, ?_⟩
  rintro ⟨hkeys, h⟩ before hb
  cases before with
  | nil => exact hkeys
  | cons e' before =>
      obtain ⟨rfl, hbefore⟩ := List.cons_prefix_cons.mp hb
      exact h before hbefore

instance decidableChordless : ∀ keys events, Decidable (Chordless keys events)
  | keys, [] => decidable_of_iff (¬ Chord keys) ⟨chordless_nil, Chordless.head⟩
  | keys, e :: events =>
      have := decidableChordless (keyAfter keys e) events
      decidable_of_iff _ chordless_cons.symm

/-- The chord is never held, or for the first time after one of the transitions. -/
theorem chordless_or_completes {keys : SortedSet ℕ} (hkeys : ¬ Chord keys)
    (events : List InputEvent) :
    Chordless keys events ∨
    ∃ before e after, events = before ++ e :: after ∧ Chordless keys before ∧
      Chord (keysAfter keys (before ++ [e])) := by
  induction events generalizing keys with
  | nil => exact .inl (chordless_nil hkeys)
  | cons e events ih =>
      by_cases he : Chord (keyAfter keys e)
      · exact .inr ⟨[], e, events, rfl, chordless_nil hkeys, he⟩
      · rcases ih he with h | ⟨before, e', after, rfl, hquiet, hchord⟩
        · exact .inl (chordless_cons.mpr ⟨hkeys, h⟩)
        · exact .inr ⟨e :: before, e', after, rfl, chordless_cons.mpr ⟨hkeys, hquiet⟩, hchord⟩

theorem escapeLast_nil (keys : SortedSet ℕ) : EscapeLast keys [] := by
  intro before e after h
  cases before <;> cases h

/-- If the first transition completes the chord it is a press of Escape. -/
theorem escapeLast_cons {keys : SortedSet ℕ} {e : InputEvent} {events : List InputEvent} :
    EscapeLast keys (e :: events) ↔ Chord keys ∨
      (Chord (keyAfter keys e) → e = .key 1 true) ∧ EscapeLast (keyAfter keys e) events := by
  by_cases hkeys : Chord keys
  · refine iff_of_true (fun before _ _ _ hquiet => absurd hkeys hquiet.head) (.inl hkeys)
  · rw [or_iff_right hkeys]
    refine ⟨fun h => ⟨fun he => h [] e events rfl (chordless_nil hkeys) he, ?_⟩, ?_⟩
    · rintro before e' after rfl hquiet hchord
      exact h (e :: before) e' after rfl (chordless_cons.mpr ⟨hkeys, hquiet⟩) hchord
    · rintro ⟨he, h⟩ before e' after heq hquiet hchord
      cases before with
      | nil =>
          obtain ⟨rfl, -⟩ := List.cons_eq_cons.mp heq
          exact he hchord
      | cons e'' before =>
          obtain ⟨rfl, rfl⟩ := List.cons_eq_cons.mp heq
          exact h before e' after rfl (chordless_cons.mp hquiet).2 hchord

instance decidableEscapeLast : ∀ keys events, Decidable (EscapeLast keys events)
  | keys, [] => .isTrue (escapeLast_nil keys)
  | keys, e :: events =>
      have := decidableEscapeLast (keyAfter keys e) events
      decidable_of_iff _ escapeLast_cons.symm

namespace Coordinator

open PhysicalKeys

variable {B T D : Type} {F : Format T D} {env : Env T} {s : Watched B T} {j k edge : ℕ}
  {fraction : ℚ}

/-! ### Transitions -/

/-- The signal of a frame comes last. -/
theorem signals_push {frame : Frame} {signal : Signal InputEvent} (l : List Frame)
    (h : frame.signal = some signal) : signals (l ++ [frame]) = signals l ++ [signal] := by
  rw [signals_append]
  exact congrArg _ (List.filterMap_cons_some h)

/-- An input is sent in the session, with the next number. -/
theorem sendInput_spec (e : InputEvent) (hrole : s.role = .sending j k edge fraction) :
    wp (sendInput env e) s
      (fun _ s' => s' = { s with
        outbox := s.outbox ++ [⟨.input j k e, false⟩]
        role := .sending j (k + 1) edge fraction })
      (fun _ s' => signals s'.outbox <+: signals s.outbox ++ [.input j k e]) := by
  have hsignals :
      signals (s.outbox ++ [⟨.input j k e, false⟩]) = signals s.outbox ++ [.input j k e] :=
    signals_push _ rfl
  rw [sendInput, wp_bind, wp_get, hrole]
  dsimp only
  rw [wp_bind]
  refine wp_mono (sendFrame_spec env _ s) (fun _ s₁ hs₁ => ?_) fun stop s₁ hs₁ => ?_
  · rw [wp_bind, wp_own, hs₁]
    exact ⟨fun _ _ => rfl, fun _ _ => hsignals ▸ List.prefix_rfl⟩
  · obtain ⟨-, rfl | rfl⟩ := hs₁
    · exact List.prefix_append _ _
    · exact hsignals ▸ List.prefix_rfl

/-- A transition that does not complete the chord goes to the peer. -/
theorem forwardKeyboard_quiet {e : InputEvent} (he : IsKey e)
    (hrole : s.role = .sending j k edge fraction) (hquiet : ¬ Chord (keyAfter s.sourceKeys e)) :
    wp (forwardKeyboard env e) s
      (fun emergency s' => emergency = false ∧ s' = { s with
        sourceKeys := keyAfter s.sourceKeys e
        outbox := s.outbox ++ [⟨.input j k e, false⟩]
        role := .sending j (k + 1) edge fraction })
      (fun _ s' => signals s'.outbox <+: signals s.outbox ++ [.input j k e]) := by
  obtain ⟨code, pressed, rfl, -⟩ := he
  rw [forwardKeyboard, wp_bind, wp_get, hrole]
  dsimp only
  rw [wp_bind, wp_set, wp_ite]
  refine ⟨?_, fun _ => ?_⟩
  · rintro ⟨rfl, rfl, hmodifiers⟩
    exact absurd ⟨SortedSet.mem_insert.mpr (.inl rfl), hmodifiers⟩ hquiet
  · rw [wp_bind]
    exact wp_mono (sendInput_spec _ rfl) (fun _ s₁ hs₁ => ⟨rfl, hs₁⟩) fun _ _ h => h

/-- The transitions up to the chord go to the peer. -/
theorem forwardKeys_quiet [InputSink B] {before rest : List InputEvent}
    (hkeys : ∀ e ∈ before, IsKey e) (hrole : s.role = .sending j k edge fraction)
    (hquiet : Chordless s.sourceKeys before) {Q : Unit → Watched B T → Prop}
    {E : Stop → Watched B T → Prop}
    (hE : ∀ stop s', signals s'.outbox <+: signals s.outbox ++ inputSignals j k before → E stop s')
    (hrest : ∀ s', s'.sourceKeys = keysAfter s.sourceKeys before → s'.activity = s.activity →
      s'.role = .sending j (k + before.length) edge fraction →
      signals s'.outbox = signals s.outbox ++ inputSignals j k before →
      wp (forwardKeys env rest) s' Q E) :
    wp (forwardKeys env (before ++ rest)) s Q E := by
  induction before generalizing s k with
  | nil => exact hrest s rfl rfl hrole (List.append_nil _).symm
  | cons e before ih =>
      obtain ⟨he, hkeys⟩ := List.forall_mem_cons.mp hkeys
      obtain ⟨-, hquiet⟩ := chordless_cons.mp hquiet
      have hinputs : ∀ l, l ++ [.input j k e] ++ inputSignals j (k + 1) before =
          l ++ inputSignals j k (e :: before) := fun l => List.append_assoc _ _ _
      rw [List.cons_append, forwardKeys, wp_bind]
      refine wp_mono (forwardKeyboard_quiet he hrole hquiet.head) ?_ fun stop s' hs' => ?_
      · rintro emergency s₁ ⟨rfl, hs₁⟩
        have hsignals : signals s₁.outbox = signals s.outbox ++ [.input j k e] := by
          rw [hs₁]
          exact signals_push _ rfl
        simp only [Bool.false_eq_true, if_false]
        refine ih hkeys (by rw [hs₁]) (by rwa [hs₁]) (fun stop s' hs' => hE stop s' ?_)
          fun s' hkeys' hactivity' hrole' hsignals' => hrest s' ?_ ?_ ?_ ?_
        · rwa [hsignals, hinputs] at hs'
        · rw [hkeys', hs₁, keysAfter_cons]
        · rw [hactivity', hs₁]
        · rw [hrole', List.length_cons, Nat.add_assoc, Nat.add_comm 1]
        · rw [hsignals', hsignals, hinputs]
      · refine hE stop s' (hs'.trans ?_)
        rw [← hinputs]
        exact List.prefix_append _ _

/-- **A press of Escape that completes the chord** ends the session, and nothing follows. -/
theorem forwardKeys_chord [InputSink B] {rest : List InputEvent}
    (hrole : s.role = .sending j k edge fraction) (hchord : Chord (s.sourceKeys.insert 1)) :
    wp (forwardKeys env (.key 1 true :: rest)) s
      (fun _ s' => s'.role = .local ∧ s'.activity = s.activity ∧
        signals s'.outbox = signals s.outbox ++ [.end j true])
      (fun _ s' => signals s'.outbox <+: signals s.outbox ++ [.end j true]) := by
  -- the press of Escape itself is not sent
  have hpress : wp (forwardKeyboard env (.key 1 true)) s
      (fun emergency s' => emergency = true ∧ s' = { s with sourceKeys := s.sourceKeys.insert 1 })
      (fun _ _ => False) := by
    rw [forwardKeyboard, wp_bind, wp_get, hrole]
    dsimp only
    rw [wp_bind, wp_set, if_pos rfl, if_pos ⟨rfl, rfl, hchord.2⟩, wp_pure]
    exact ⟨rfl, rfl⟩
  rw [forwardKeys, wp_bind]
  refine wp_mono hpress ?_ fun _ _ => False.elim
  rintro emergency s₁ ⟨rfl, hs₁⟩
  have hrole₁ : s₁.role = .sending j k edge fraction := by rw [hs₁, hrole]
  have hend : signals (s₁.outbox ++ [⟨.end j none, true⟩]) = signals s.outbox ++ [.end j true] := by
    rw [hs₁]
    exact signals_push _ rfl
  simp only [if_true]
  rw [wp_bind, wp_get, hrole₁]
  dsimp only
  rw [wp_bind, sendEnd, wp_bind, wp_get, hrole₁]
  refine wp_mono (sendFrame_spec env _ s₁) (fun _ s₂ hs₂ => ?_) fun stop s₂ hs₂ => ?_
  · have hsent : signals s₂.outbox = signals s.outbox ++ [.end j true] := by
      rw [hs₂]
      exact hend
    -- the end has been sent; what follows writes no more
    have hback : Moves Still (do
        stopCapture env
        place env (edgeAt s₁.config edge) fraction : CoordinatorM ActivityMonitor B T Unit) :=
      (still_stopCapture env).bind fun _ => still_place _ _
    have hactivity : s₂.activity = s.activity := by rw [hs₂, hs₁]
    have hended : ∀ {s₃ : Watched B T}, Still s₂ s₃ →
        s₃.activity = s.activity ∧ signals s₃.outbox = signals s.outbox ++ [.end j true] :=
      fun h => ⟨h.activity.trans hactivity, h.signals.trans hsent⟩
    rw [← bind_assoc, wp_bind]
    refine wp_mono (hback s₂) (fun _ s₃ h₃ => ?_) fun _ s₃ h₃ => (hended h₃).2 ▸ List.prefix_rfl
    rw [wp_bind, wp_modify, rearm, wp_modify]
    have hdone := hended h₃
    exact ⟨rfl, hdone.1, hdone.2⟩
  · obtain ⟨-, rfl | rfl⟩ := hs₂
    · rw [hs₁]
      exact List.prefix_append _ _
    · exact hend ▸ List.prefix_rfl

/-- Keys are not forwarded unless the device sends. -/
theorem forwardKeys_of_not_sending [InputSink B] (events : List InputEvent)
    (hrole : s.role.isSending = false) :
    wp (forwardKeys env events) s (fun _ s' => s' = s) (fun _ _ => False) := by
  induction events with
  | nil => exact rfl
  | cons e events ih =>
      have hskip : wp (forwardKeyboard env e) s (fun emergency s' => emergency = false ∧ s' = s)
          (fun _ _ => False) := by
        rw [forwardKeyboard, wp_bind, wp_get]
        cases hr : s.role with
        | «local» | receiving => cases e <;> exact ⟨rfl, rfl⟩
        | sending => simp [hr, Role.isSending] at hrole
      rw [forwardKeys, wp_bind]
      refine wp_mono hskip ?_ fun _ _ => False.elim
      rintro emergency s₁ ⟨rfl, rfl⟩
      exact ih

/-! ### The invariant -/

/-- **The chord is not held while the coordinator sends**, and `source_keys` is what the keyboards
hold. -/
structure Guarded (s : Watched B T) : Prop where
  since : ∃ keys, Since keys s.activity.keyboard
  keys : s.role.isSending = true → s.sourceKeys = s.activity.keyboard.held
  pending : s.role.isSending = true → s.activity.keyboard.pending = []
  chord : s.role.isSending = true → ¬ Chord s.sourceKeys

theorem Guarded.calm {s' : Watched B T} (h : Guarded s) (hc : Calm s s') : Guarded s' where
  since := by
    rw [hc.keyboard]
    exact h.since
  keys hs := by
    rw [hc.keys, hc.keyboard]
    exact h.keys (hc.sending hs)
  pending hs := by
    rw [hc.keyboard]
    exact h.pending (hc.sending hs)
  chord hs := by
    rw [hc.keys]
    exact h.chord (hc.sending hs)

/-- Nothing is asked of a coordinator that does not send. -/
theorem guarded_of_not_sending (keys : SortedSet ℕ) (hsince : Since keys s.activity.keyboard)
    (hrole : s.role.isSending = false) : Guarded s :=
  ⟨⟨keys, hsince⟩, fun hs => absurd (hrole.symm.trans hs) (by simp),
    fun hs =>
      absurd (hrole.symm.trans hs) (by simp), fun hs => absurd (hrole.symm.trans hs) (by simp)⟩

/-- Parts that leave the keys and the role alone keep the guard. -/
theorem Guarded.moves {m : CoordinatorM ActivityMonitor B T Unit} (h : Guarded s)
    (hm : Moves Calm m) :
    wp m s (fun _ => Guarded) (fun _ _ => True) :=
  wp_mono (hm s) (fun _ _ hc => h.calm hc) fun _ _ _ => trivial

/-- While the device sends, the transitions lead from `source_keys` to what is held. -/
theorem Guarded.since_keys (h : Guarded s) (hs : s.role.isSending = true) :
    Since s.sourceKeys s.activity.keyboard := by
  obtain ⟨keys, hsince⟩ := h.since
  refine ⟨hsince.inRange, hsince.events, ?_⟩
  rw [h.pending hs, h.keys hs, keysAfter_nil]

/-- The transitions that the next reading of the devices finds. -/
def transitions (m : ActivityMonitor) : List InputEvent :=
  match ActivityMonitor.sample.run m with
  | .ok _ m' => m'.keyboard.pending
  | .error _ _ => []

/-- What the keyboards hold after the next reading of the devices. -/
def sampledKeys (m : ActivityMonitor) : SortedSet ℕ :=
  match ActivityMonitor.sample.run m with
  | .ok _ m' | .error _ m' => m'.keyboard.held

/-- What the devices are after the next reading, if it succeeds. -/
theorem wp_sample {Q : Bool → Watched B T → Prop} {E : Stop → Watched B T → Prop}
    (hQ : ∀ active m, transitions s.activity = m.keyboard.pending →
      sampledKeys s.activity = m.keyboard.held → ActivityMonitor.Goes s.activity m →
      Q active { s with activity := m })
    (hE : ∀ stop m, E stop { s with activity := m }) :
    wp sample s Q E := by
  rw [sample, wp_onActivity]
  have hgoes := ActivityMonitor.moves_sample s.activity
  refine wp_mono (wp_and (wp_self _ _) hgoes) (fun active m hm => ?_) fun e m _ => hE _ m
  obtain ⟨hm, hgoes⟩ := hm
  have htransitions : transitions s.activity = m.keyboard.pending := by
    rw [transitions, show ActivityMonitor.sample.run s.activity = .ok active m from hm]
  have hkeys : sampledKeys s.activity = m.keyboard.held := by
    rw [sampledKeys, show ActivityMonitor.sample.run s.activity = .ok active m from hm]
  exact hQ active m htransitions hkeys hgoes

/-! ### The tick -/

/-- The part of a tick after the keys. -/
def afterKeys (env : Env T) (touchpadEvents : List InputEvent) :
    CoordinatorM ActivityMonitor B T Unit := do
  sendInputs env touchpadEvents
  reapCapture env
  beat env

theorem calm_afterKeys (env : Env T) (touchpadEvents : List InputEvent) :
    Moves Calm (afterKeys env touchpadEvents : CoordinatorM ActivityMonitor B T Unit) :=
  (calm_sendInputs _).bind fun _ => (calm_reapCapture env).bind fun _ => moves_calm (still_beat env)

/-- A tick up to the keys.  The devices are read if both desktops are unlocked. -/
theorem wp_tick_sampled [InputSink B] {ready : Result Unit} {Q : Unit → Watched B T → Prop}
    {E : Stop → Watched B T → Prop}
    (hE : ∀ stop s', signals s'.outbox = signals s.outbox → E stop s')
    (hQ : ∀ s₁ m m' physical, Still s s₁ →
      (s.localReady = true ∧ s.peerReady = true →
        ActivityMonitor.sample s.activity = .ok physical m) →
      (¬ (s.localReady = true ∧ s.peerReady = true) → m = s.activity) →
      m'.keyboard = m.keyboard.drain.2 →
        wp (do
            takeOver env physical
            forwardKeys env m.keyboard.pending
            afterKeys env (ActivitySource.takeTouchpadEvents m').1)
          { s₁ with activity := (ActivitySource.takeTouchpadEvents m').2 } Q E) :
    wp (tick F env ready) s Q E := by
  rw [tick, wp_bind]
  have hstill : ∀ {stop : Stop} {s'}, Still s s' → E stop s' := fun h => hE _ _ h.signals
  refine wp_mono (still_external ready s) (fun _ s₁ h₁ => ?_) fun _ _ => hstill
  rw [wp_bind]
  refine wp_mono ((still_onReceiver _).after h₁) (fun _ s₂ h₂ => ?_) fun _ _ => hstill
  rw [wp_bind]
  refine wp_mono ((still_expireLayout F env).after h₂) (fun _ s₃ h₃ => ?_) fun _ _ => hstill
  rw [wp_bind, wp_get]
  have htake : ∀ physical m,
      (s.localReady = true ∧ s.peerReady = true →
        ActivityMonitor.sample s.activity = .ok physical m) →
      (¬ (s.localReady = true ∧ s.peerReady = true) → m = s.activity) →
      wp (do
        let keyboardEvents ← takeKeyboardEvents
        let touchpadEvents ← takeTouchpadEvents
        takeOver env physical
        forwardKeys env keyboardEvents
        afterKeys env touchpadEvents) { s₃ with activity := m } Q E := by
    intro physical m hsampled hnot
    rw [takeKeyboardEvents, wp_bind, wp_bind, wp_get, wp_bind, wp_set, wp_pure]
    rw [takeTouchpadEvents, wp_bind, wp_bind, wp_get, wp_bind, wp_set, wp_pure]
    exact hQ s₃ m _ physical h₃ hsampled hnot rfl
  have hactivity : s₃.activity = s.activity := h₃.activity
  rw [h₃.ready.1, h₃.ready.2]
  split_ifs with hready
  · rw [wp_bind, sample, wp_onActivity, hactivity]
    refine wp_mono (wp_self _ _) (fun physical m hm => ?_) fun stop m _ => hE _ _ h₃.signals
    exact htake physical m (fun _ => hm) fun hnot => absurd hready hnot
  · have hsame : { s₃ with activity := s.activity } = s₃ := by rw [← hactivity]
    exact hsame ▸ htake false s.activity (fun h => absurd h hready) fun _ => rfl

/-- The same, with what the reading has found. -/
theorem wp_tick [InputSink B] {ready : Result Unit} {Q : Unit → Watched B T → Prop}
    {E : Stop → Watched B T → Prop}
    (hE : ∀ stop s', signals s'.outbox = signals s.outbox → E stop s')
    (hQ : ∀ s₁ m physical touchpadEvents, Still s s₁ →
      (s.localReady = true ∧ s.peerReady = true → transitions s.activity = m.keyboard.pending ∧
        ActivityMonitor.Goes s.activity m) →
      (¬ (s.localReady = true ∧ s.peerReady = true) → m = s.activity) →
      ∀ activity, activity.keyboard = m.keyboard.drain.2 →
        wp (do
            takeOver env physical
            forwardKeys env m.keyboard.pending
            afterKeys env touchpadEvents) { s₁ with activity := activity } Q E) :
    wp (tick F env ready) s Q E := by
  refine wp_tick_sampled hE fun s₁ m m' physical h₁ hsampled hnot hm' => ?_
  refine hQ s₁ m physical _ h₁ (fun hready => ?_) hnot _
    ((ActivityMonitor.keyboard_takeTouchpadEvents m').trans hm')
  have hrun : ActivityMonitor.sample.run s.activity = .ok physical m := hsampled hready
  have hgoes := wp_of_ok (ActivityMonitor.moves_sample s.activity) (hsampled hready)
  exact ⟨by rw [transitions, hrun], hgoes⟩

/-- A coordinator that sends has its keys forwarded, and is not taken over. -/
theorem wp_takeOver_sending [InputSink B] {physical : Bool}
    {m : CoordinatorM ActivityMonitor B T Unit} {Q : Unit → Watched B T → Prop}
    {E : Stop → Watched B T → Prop} (hrole : s.role = .sending j k edge fraction) (h : wp m s Q E) :
    wp (do
      takeOver env physical
      m) s Q E := by
  rw [wp_bind, takeOver, wp_bind, wp_get, hrole]
  exact h

/-- A tick of a device that does not send keeps the guard. -/
theorem tick_of_not_sending [InputSink B] {ready : Result Unit} (h : Guarded s)
    (hrole : s.role.isSending = false) :
    wp (tick F env ready) s (fun _ => Guarded) (fun _ _ => True) := by
  refine wp_tick (fun _ _ _ => trivial)
    fun s₁ m physical touchpadEvents hs₁ hsampled hnot activity hm => ?_
  obtain ⟨keys, hsince⟩ := h.since
  have hsince : Since keys m.keyboard := by
    by_cases hready : s.localReady = true ∧ s.peerReady = true
    · exact (hsampled hready).2 keys hsince
    · exact hnot hready ▸ hsince
  have hrole₁ : s₁.role.isSending = false := hs₁.role ▸ hrole
  have hguarded : Guarded { s₁ with activity := activity } :=
    guarded_of_not_sending m.keyboard.held (hm ▸ hsince.drain) hrole₁
  rw [wp_bind]
  refine wp_mono (calm_takeOver physical _) (fun _ s₂ h₂ => ?_) fun _ _ _ => trivial
  have hrole₂ : s₂.role.isSending = false := by
    by_contra hs
    exact absurd (hrole₁.symm.trans (h₂.sending (eq_true_of_ne_false hs))) (by simp)
  rw [wp_bind]
  refine wp_mono (forwardKeys_of_not_sending _ hrole₂) (fun _ s₃ h₃ => ?_) fun _ _ _ => trivial
  subst h₃
  exact (hguarded.calm h₂).moves (calm_afterKeys env touchpadEvents)

/-- What a tick finds while the coordinator sends. -/
theorem wp_tick_sending [InputSink B] {ready : Result Unit} {Q : Unit → Watched B T → Prop}
    {E : Stop → Watched B T → Prop} (h : Guarded s) (hrole : s.role = .sending j k edge fraction)
    (hready : s.localReady = true ∧ s.peerReady = true)
    (hE : ∀ stop s', signals s'.outbox = signals s.outbox → E stop s')
    (hQ : ∀ s₁ touchpadEvents, s₁.role = .sending j k edge fraction → s₁.sourceKeys = s.sourceKeys →
      signals s₁.outbox = signals s.outbox →
      s₁.activity.keyboard.held = keysAfter s.sourceKeys (transitions s.activity) →
      s₁.activity.keyboard.pending = [] → Since s₁.activity.keyboard.held s₁.activity.keyboard →
      wp (do
        forwardKeys env (transitions s.activity)
        afterKeys env touchpadEvents) s₁ Q E) :
    wp (tick F env ready) s Q E := by
  have hsending : s.role.isSending = true := by
    rw [hrole]
    rfl
  refine wp_tick hE fun s₁ m physical touchpadEvents hs₁ hsampled hnot activity hm => ?_
  obtain ⟨htransitions, hgoes⟩ := hsampled hready
  have hsince := hgoes _ (h.since_keys hsending)
  refine wp_takeOver_sending (hs₁.role.trans hrole) ?_
  rw [← htransitions]
  refine hQ { s₁ with activity := activity } touchpadEvents
    (hs₁.role.trans hrole) hs₁.keys hs₁.signals
    ?_ ?_ ?_
  · rw [hm, htransitions]
    exact hsince.held.symm
  · rw [hm]
    rfl
  · rw [hm]
    exact hsince.drain

/-- The transitions that a reading finds are those of keys. -/
theorem isKey_transitions (h : Guarded s) : ∀ e ∈ transitions s.activity, IsKey e := by
  intro e he
  obtain ⟨keys, hsince⟩ := h.since
  have hgoes := ActivityMonitor.moves_sample s.activity
  unfold transitions at he
  split at he
  · next a m' hm => exact ((wp_of_ok hgoes hm) keys hsince).events e he
  · exact absurd he List.not_mem_nil

/-- **A tick without the chord.** -/
theorem tick_quiet [InputSink B] {ready : Result Unit} (h : Guarded s)
    (hrole : s.role = .sending j k edge fraction)
    (hready : s.localReady = true ∧ s.peerReady = true)
    (hquiet : Chordless s.sourceKeys (transitions s.activity)) :
    wp (tick F env ready) s (fun _ => Guarded) (fun _ _ => True) := by
  refine wp_tick_sending h hrole hready (fun _ _ _ => trivial)
    fun s₁ touchpadEvents hrole₁ hkeys₁ _ hheld hpending hsince => ?_
  rw [wp_bind, ← List.append_nil (transitions s.activity)]
  refine forwardKeys_quiet (isKey_transitions h) hrole₁ (hkeys₁ ▸ hquiet) (fun _ _ _ => trivial)
    fun s₂ hkeys₂ hactivity₂ _ _ => ?_
  rw [forwardKeys, wp_pure]
  rw [hkeys₁] at hkeys₂
  have hguarded : Guarded s₂ := by
    refine ⟨⟨_, hactivity₂ ▸ hsince⟩, fun _ => ?_, fun _ => ?_, fun _ => ?_⟩
    · rw [hkeys₂, hactivity₂, hheld]
    · rw [hactivity₂, hpending]
    · rw [hkeys₂]
      exact hquiet _ List.prefix_rfl
  exact hguarded.moves (calm_afterKeys env touchpadEvents)

/-- **A tick with the chord**: the transitions before it are sent, then the end of the session, and
nothing else. -/
theorem tick_chord [InputSink B] {ready : Result Unit} {before after : List InputEvent}
    (h : Guarded s) (hrole : s.role = .sending j k edge fraction)
    (hready : s.localReady = true ∧ s.peerReady = true)
    (heq : transitions s.activity = before ++ .key 1 true :: after)
    (hquiet : Chordless s.sourceKeys before)
    (hchord : Chord (keysAfter s.sourceKeys (before ++ [.key 1 true]))) :
    wp (tick F env ready) s
      (fun _ s' => s'.role = .local ∧ Guarded s' ∧
        signals s'.outbox = signals s.outbox ++ inputSignals j k before ++ [.end j true])
      (fun _ s' =>
        signals s'.outbox <+: signals s.outbox ++ inputSignals j k before ++ [.end j true]) := by
  have hbefore : ∀ e ∈ before, IsKey e := fun e he =>
    isKey_transitions h e (heq ▸ List.mem_append_left _ he)
  refine wp_tick_sending h hrole hready (fun stop s' hs' => ?_)
    fun s₁ touchpadEvents hrole₁ hkeys₁ hsignals₁ hheld hpending hsince => ?_
  · rw [hs', List.append_assoc]
    exact List.prefix_append _ _
  rw [wp_bind, heq]
  refine forwardKeys_quiet hbefore hrole₁ (hkeys₁ ▸ hquiet) (fun stop s' hs' => ?_)
    fun s₂ hkeys₂ hactivity₂ hrole₂ hsignals₂ => ?_
  · rw [hsignals₁] at hs'
    exact hs'.trans (List.prefix_append _ _)
  rw [hkeys₁] at hkeys₂
  have hchord₂ : Chord (s₂.sourceKeys.insert 1) := by
    rw [keysAfter_append, ← hkeys₂] at hchord
    exact hchord
  rw [hsignals₁] at hsignals₂
  refine wp_mono (forwardKeys_chord hrole₂ hchord₂) ?_ fun stop s₃ hs₃ => hsignals₂ ▸ hs₃
  rintro _ s₃ ⟨hrole₃, hactivity₃, hsignals₃⟩
  have hguarded : Guarded s₃ := by
    have hkeyboard : Since s₁.activity.keyboard.held s₃.activity.keyboard := by
      rw [hactivity₃, hactivity₂]
      exact hsince
    exact guarded_of_not_sending _ hkeyboard (by rw [hrole₃]; rfl)
  refine wp_mono (calm_afterKeys env touchpadEvents s₃) (fun _ s₄ h₄ => ?_) fun stop s₄ h₄ => ?_
  · obtain ⟨hrole₄, hsignals₄⟩ := h₄.silent hrole₃
    exact ⟨hrole₄, hguarded.calm h₄, by rw [hsignals₄, hsignals₃, hsignals₂]⟩
  · have hsignals₄ := (h₄.silent hrole₃).2
    rw [hsignals₃, hsignals₂] at hsignals₄
    exact hsignals₄ ▸ List.prefix_rfl

/-! ### Keys at the start of a session -/

/-- A key that is pressed is forwarded and held, and the session goes on unless it completes the
chord. -/
theorem forwardKeyboard_press {code : ℕ} (hrole : s.role.isSending = true) :
    wp (forwardKeyboard env (.key code true)) s
      (fun _ s' => s'.role.isSending = true ∧ s'.sourceKeys = s.sourceKeys.insert code ∧
        s'.activity = s.activity) (fun _ _ => True) := by
  cases hr : s.role with
  | «local» | receiving => simp [hr, Role.isSending] at hrole
  | sending j k edge fraction =>
      rw [forwardKeyboard, wp_bind, wp_get, hr]
      dsimp only
      rw [wp_bind, wp_set, wp_ite]
      refine ⟨fun _ => ⟨rfl, rfl, rfl⟩, fun _ => ?_⟩
      rw [wp_bind]
      refine wp_mono (sendInput_spec _ rfl) (fun _ s₁ hs₁ => ?_) fun _ _ _ => trivial
      rw [wp_pure, hs₁]
      exact ⟨rfl, rfl, rfl⟩

/-- The keys that are down become those of the session. -/
theorem enterKeys_spec {codes : List ℕ} (hrole : s.role.isSending = true) :
    wp (enterKeys env codes) s
      (fun _ s' => s'.role.isSending = true ∧ s'.sourceKeys = s.sourceKeys.extend codes ∧
        s'.activity = s.activity) (fun _ _ => True) := by
  induction codes generalizing s with
  | nil => exact ⟨hrole, rfl, rfl⟩
  | cons code codes ih =>
      rw [enterKeys, wp_bind]
      refine wp_mono (forwardKeyboard_press hrole) ?_ fun _ _ _ => trivial
      rintro _ s₁ ⟨hrole₁, hkeys₁, hactivity₁⟩
      refine wp_mono (ih hrole₁) (fun _ s₂ h₂ => ?_) fun _ _ _ => trivial
      exact ⟨h₂.1, by rw [h₂.2.1, hkeys₁]; rfl, h₂.2.2.trans hactivity₁⟩

/-- A session begins only after a reading of the devices that finds no chord. -/
def Begins (s s' : Watched B T) : Prop :=
  ∀ n, .begin n ∈ signals s'.outbox → .begin n ∈ signals s.outbox ∨ ¬ Chord (sampledKeys s.activity)

/-- No session begins where the role is left alone. -/
theorem Calm.begins {s' : Watched B T} (h : Calm s s') : Begins s s' :=
  fun n hn => .inl (h.begun n hn)

/-- With the chord held, the pointer crosses the edge in vain. -/
theorem still_refuse (env : Env T) : Moves Still (do
    stopCapture env
    rearm env : CoordinatorM ActivityMonitor B T Unit) :=
  (still_stopCapture env).bind fun _ => still_rearm env

/-- A session is not begun while the chord is held. -/
theorem startSession_begins (s : Watched B T) :
    wp (startSession env edge fraction) s (fun _ => Begins s) (fun _ => Begins s) := by
  rw [startSession, wp_bind]
  refine wp_sample (fun active m _ hsampled _ => ?_) fun stop m => fun n => .inl
  rw [wp_bind, wp_get, takeKeyboardEvents, wp_bind, wp_bind, wp_get, wp_bind, wp_set,
    wp_pure, wp_ite]
  refine ⟨fun _ => ?_, fun hno => ?_⟩
  · exact wp_mono (still_refuse env _) (fun _ s' hs' n hn => .inl (hs'.signals ▸ hn))
      fun _ s' hs' n hn => .inl (hs'.signals ▸ hn)
  · have hchord : ¬ Chord m.keyboard.held := hno
    exact wp_mono (wp_true _ _) (fun _ _ _ n _ => .inr (hsampled ▸ hchord))
      fun _ _ _ n _ => .inr (hsampled ▸ hchord)

/-- The keys that are down, without the chord, are those of the new session. -/
theorem guarded_enter {keys : SortedSet ℕ} (hheld : s.activity.keyboard.held = keys)
    (hrole : s.role.isSending = true) (hkeys : s.sourceKeys = ∅)
    (hsince : Since keys s.activity.keyboard) (hpending : s.activity.keyboard.pending = [])
    (hchord : ¬ Chord keys) :
    wp (enterKeys env keys.toList) s (fun _ => Guarded) (fun _ _ => True) := by
  refine wp_mono (enterKeys_spec hrole) ?_ fun _ _ _ => trivial
  rintro _ s' ⟨-, hkeys', hactivity'⟩
  have hall : s'.sourceKeys = keys := by
    rw [hkeys', hkeys]
    refine SortedSet.ext fun c => ?_
    rw [SortedSet.mem_extend, ← SortedSet.mem_def]
    exact or_iff_left (SortedSet.not_mem_empty c)
  refine ⟨⟨_, hactivity' ▸ hsince⟩, fun _ => ?_, fun _ => ?_, fun _ => ?_⟩
  · rw [hall, hactivity', hheld]
  · rw [hactivity', hpending]
  · rwa [hall]

/-- **The start of a session**, unless the chord is held. -/
theorem startSession_guarded (h : Guarded s) (hrole : s.role = .local) :
    wp (startSession env edge fraction) s (fun _ => Guarded) (fun _ _ => True) := by
  obtain ⟨keys, hsince⟩ := h.since
  rw [startSession, wp_bind]
  refine wp_sample (fun active m _ _ hgoes => ?_) fun _ _ => trivial
  have hkeyboard : Since m.keyboard.held m.keyboard.drain.2 := (hgoes keys hsince).drain
  rw [wp_bind, wp_get, takeKeyboardEvents, wp_bind, wp_bind, wp_get, wp_bind, wp_set,
    wp_pure, wp_ite]
  refine ⟨fun _ => ?_, fun hno => ?_⟩
  · refine wp_mono (still_refuse env _) (fun _ s' h' => ?_) fun _ _ _ => trivial
    refine guarded_of_not_sending m.keyboard.held (h'.activity ▸ hkeyboard) ?_
    rw [h'.role, hrole]
    rfl
  · rw [wp_bind, wp_own]
    refine ⟨fun _ _ => ?_, fun _ _ => trivial⟩
    rw [wp_bind, wp_modify, wp_bind]
    refine wp_mono (sendFrame_spec env _ _) (fun _ s₁ hs₁ => ?_) fun _ _ _ => trivial
    subst hs₁
    rw [wp_bind, wp_modify]
    exact guarded_enter rfl rfl rfl hkeyboard rfl hno

end Coordinator

end NiriBridge
