import NiriBridge.Coordinator.Drives
import NiriBridge.Coordinator.Guard
import NiriBridge.Keys.Toggles

/-!
# Coordinator — Mirror

What a coordinator writes of its keyboards.  While it sends, the keys written of the session lead
from nothing to what the keyboards hold, and each of them changes something.

* `Mirrors`: while a coordinator sends, `source_keys` is what the keyboards hold.
* `Types`: the keys that a part of the loop writes lead from what was held to `source_keys`.
* `pass_mirrors`: a pass goes on with a session, or begins one with the keys that are down.
-/

namespace NiriBridge

open Hoare Session

/-- The touchpads type no keys. -/
theorem ActivityMonitor.padsQuiet : PadsQuiet ActivityMonitor where
  route remote m := by
    have hframes :
        ∀ (frames : List Touchpad.CapturedFrame), ∀ e ∈ frames.map frameEvent, e.typed = false := by
      intro frames e he
      obtain ⟨frame, -, rfl⟩ := List.mem_map.mp he
      rfl
    show wp (routeTouchpads remote) m _ _
    have hask : wp ask m (fun _ _ => True) (fun _ _ => True) := wp_true _ _
    rw [routeTouchpads, wp_bind]
    refine wp_mono hask (fun hardware m _ => ?_) fun _ _ _ => trivial
    rw [wp_bind, wp_get]
    cases m.touchpads with
    | none => exact fun e he => absurd he List.not_mem_nil
    | some router =>
        rw [wp_bind, wp_lift]
        exact ⟨fun routed _ => hframes _, fun _ _ => trivial⟩
  take m e he := by
    have he : e ∈ (takeTouchpadEvents m).1 := he
    unfold takeTouchpadEvents at he
    split at he
    · exact absurd he List.not_mem_nil
    · obtain ⟨frame, -, rfl⟩ := List.mem_map.mp he
      rfl

/-! ### The keys written -/

/-- The key of a message, with its session. -/
def Session.Signal.typed : Signal InputEvent → Option (ℕ × InputEvent)
  | .input session _ event => if event.typed then some (session, event) else none
  | _ => none

/-- The keys that are written are among the signals. -/
theorem typed_eq (l : List Frame) : typed l = (signals l).filterMap Signal.typed := by
  rw [signals, List.filterMap_filterMap, typed]
  refine List.filterMap_congr fun frame _ => ?_
  unfold Frame.typed Frame.signal
  cases frame.message <;> rfl

/-- The keys that are written. -/
def strokes (l : List Frame) : List InputEvent := (typed l).map Prod.snd

theorem strokes_congr {l l' : List Frame} (h : signals l = signals l') :
    strokes l = strokes l' := by
  rw [strokes, strokes, typed_eq, typed_eq, h]

/-- A key that is written comes last. -/
theorem strokes_push {session sequence : ℕ} {event : InputEvent} {own : Bool} (l : List Frame)
    (h : event.typed = true) :
    strokes (l ++ [⟨.input session sequence event, own⟩]) = strokes l ++ [event] := by
  simp [strokes, typed, Frame.typed, h]

/-! ### The keys that are down -/

/-- The chord is held if more keys are held. -/
theorem Chord.mono {keys keys' : SortedSet ℕ} (hc : Chord keys) (h : ∀ c ∈ keys, c ∈ keys') :
    Chord keys' := by
  refine ⟨h 1 hc.1, ?_⟩
  have hmodifiers := hc.2
  simp only [emergencyModifiers, List.all_eq_true, List.any_eq_true, decide_eq_true_eq]
    at hmodifiers ⊢
  exact fun group hgroup =>
    (hmodifiers group hgroup).imp fun code hcode => ⟨hcode.1, h code hcode.2⟩

/-- The keys that are down are pressed, one after the other. -/
def pressesOf (codes : List ℕ) : List InputEvent := codes.map fun code => .key code true

/-- After presses these keys are held as well. -/
theorem keysAfter_pressesOf (keys : SortedSet ℕ) (codes : List ℕ) :
    keysAfter keys (pressesOf codes) = keys.extend codes := by
  induction codes generalizing keys with
  | nil => rfl
  | cons code codes ih => exact ih (keys.insert code)

/-- The presses of different keys that are not held all change something. -/
theorem toggles_pressesOf {keys : SortedSet ℕ} {codes : List ℕ} (hnodup : codes.Nodup)
    (hfresh : ∀ c ∈ codes, c ∉ keys) : Toggles keys (pressesOf codes) := by
  induction codes generalizing keys with
  | nil => trivial
  | cons code codes ih =>
      obtain ⟨hnot, hnodup⟩ := List.nodup_cons.mp hnodup
      obtain ⟨hcode, hfresh⟩ := List.forall_mem_cons.mp hfresh
      refine ⟨iff_of_false hcode (by simp), ih hnodup fun c hc hmem => ?_⟩
      rcases SortedSet.mem_insert.mp hmem with rfl | hmem
      · exact hnot hc
      · exact hfresh c hc hmem

namespace Coordinator

open PhysicalKeys

variable {B T D : Type} {F : Format T D} {env : Env T} {s s' s'' : Watched B T} {j k edge : ℕ}
  {fraction : ℚ}

/-- **What the peer has been told of the keys is what the keyboards hold**, while the coordinator
sends. -/
structure Mirrors (s : Watched B T) : Prop where
  since : ∃ keys, Since keys s.activity.keyboard
  keys : s.role.isSending = true → s.sourceKeys = s.activity.keyboard.held
  pending : s.role.isSending = true → s.activity.keyboard.pending = []

/-- The mirror is kept where no session begins. -/
theorem Mirrors.tame (h : Mirrors s) (ht : Tame s s') : Mirrors s' where
  since := ht.since h.since
  keys hs := by
    obtain ⟨hs, hkeys, hkeyboard⟩ := ht.sending hs
    rw [hkeys, hkeyboard]
    exact h.keys hs
  pending hs := by
    obtain ⟨hs, -, hkeyboard⟩ := ht.sending hs
    rw [hkeyboard]
    exact h.pending hs

/-- A device that does not send has told the peer of no keys. -/
theorem mirrors_of_not_sending (keys : SortedSet ℕ) (hsince : Since keys s.activity.keyboard)
    (hrole : s.role.isSending = false) : Mirrors s :=
  ⟨⟨keys, hsince⟩, fun hs => absurd (hrole.symm.trans hs) (by simp),
    fun hs => absurd (hrole.symm.trans hs) (by simp)⟩

/-- While the device sends, each transition changes what the peer has been told. -/
theorem Mirrors.flips (h : Mirrors s) (hs : s.role.isSending = true) :
    Flips s.sourceKeys s.activity.keyboard := by
  obtain ⟨keys, hsince⟩ := h.since
  refine ⟨⟨hsince.inRange, hsince.events, ?_⟩, ?_⟩
  · rw [h.pending hs, h.keys hs, keysAfter_nil]
  · rw [h.pending hs]
    trivial

/-- The keys written lead from `keys` to `source_keys`, and each of them changes something. -/
def Types (keys : SortedSet ℕ) (s s' : Watched B T) : Prop :=
  ∃ events, strokes s'.outbox = strokes s.outbox ++ events ∧ Toggles keys events ∧
    s'.sourceKeys = keysAfter keys events

/-- What the peer has been told of the keys in the session that goes on. -/
def toldKeys (s : Watched B T) : SortedSet ℕ := if s.role.isSending then s.sourceKeys else ∅

/-- A coordinator that sends goes on with its session or has begun one, and tells the peer of its
keys. -/
structure Spells (s s' : Watched B T) : Prop where
  begun :
    ∀ n,
    .begin n ∈ signals s'.outbox → .begin n ∈ signals s.outbox ∨ s.role = .local ∧ n = s.nextSession
  typed : s'.role.isSending = true → Types (toldKeys s) s s'

/-- What only calls the receiver writes no key. -/
theorem Drives.strokes [InputSink B] (h : Drives False s s') :
    strokes s'.outbox = strokes s.outbox :=
  congrArg (List.map Prod.snd) (h.silent id)

/-- A part that writes no keys goes on with the session and says nothing of them. -/
theorem Tame.spells [InputSink B] (ht : Tame s s') (hd : Drives False s s') : Spells s s' where
  begun n hn := .inl (ht.begun n hn)
  typed hs := by
    obtain ⟨hs, hkeys, -⟩ := ht.sending hs
    refine ⟨[], ?_, trivial, ?_⟩
    · rw [List.append_nil]
      exact hd.strokes
    · rw [hkeys, toldKeys, if_pos hs, keysAfter_nil]

/-- Nothing more is told. -/
theorem Spells.calm [InputSink B] (h : Spells s s') (hc : Calm s' s'') (hd : Drives False s' s'') :
    Spells s s'' where
  begun n hn := h.begun n (hc.begun n hn)
  typed hs := by
    obtain ⟨events, hevents, htoggles, hkeys⟩ := h.typed (hc.sending hs)
    exact ⟨events, hd.strokes.trans hevents, htoggles, hc.keys.trans hkeys⟩

/-- What a pass makes of a coordinator. -/
abbrev Mirrored (s s' : Watched B T) : Prop := Mirrors s' ∧ Spells s s'

/-- A part of a pass in which no session begins and no key is written. -/
theorem mirrored_of_tame [InputSink B] {m : CoordinatorM ActivityMonitor B T Unit} (h : Mirrors s)
    (hm : wp m s (fun _ => Tame s) (fun _ => Mute s))
    (hd : wp m s (fun _ => Drives False s) (fun _ => Drives False s)) :
    wp m s (fun _ => Mirrored s) (fun _ _ => True) :=
  wp_mono (wp_and hm hd) (fun _ _ h' => ⟨h.tame h'.1, h'.1.spells h'.2⟩) fun _ _ _ => trivial

/-- A part that leaves the keys alone, after a pass. -/
theorem mirrored_of_calm [InputSink B] {m : CoordinatorM ActivityMonitor B T Unit}
    (h : Mirrored s s') (hm : Moves Calm m) (hd : Moves (Drives False) m) :
    wp m s' (fun _ => Mirrored s) (fun _ _ => True) :=
  wp_mono (wp_and (hm s') (hd s')) (fun _ _ h' => ⟨h.1.tame h'.1.tame, h.2.calm h'.1 h'.2⟩)
    fun _ _ _ => trivial

/-! ### The tick -/

/-- Whatever comes first. -/
theorem wp_then {α β : Type} {m : CoordinatorM ActivityMonitor B T α}
    {f : α → CoordinatorM ActivityMonitor B T β} {Q : β → Watched B T → Prop}
    (h : ∀ a s', wp (f a) s' Q (fun _ _ => True)) :
    wp (m >>= f) s Q (fun _ _ => True) :=
  wp_bind.mpr (wp_mono (wp_true m s) (fun a s' _ => h a s') fun _ _ => id)

/-- A transition goes to the peer, or completes the chord. -/
theorem forwardKeyboard_spec {e : InputEvent} (he : IsKey e)
    (hrole : s.role = .sending j k edge fraction) :
    wp (forwardKeyboard env e) s
      (fun emergency s' => emergency = false → s'.role = .sending j (k + 1) edge fraction ∧
        s'.sourceKeys = keyAfter s.sourceKeys e ∧ s'.activity = s.activity ∧
        strokes s'.outbox = strokes s.outbox ++ [e])
      (fun _ _ => True) := by
  obtain ⟨code, pressed, rfl, -⟩ := he
  rw [forwardKeyboard, wp_bind, wp_get, hrole]
  dsimp only
  rw [wp_bind, wp_set, wp_ite]
  refine ⟨fun _ => by rintro ⟨⟩, fun _ => ?_⟩
  rw [wp_bind]
  refine wp_mono (sendInput_spec _ rfl) (fun _ s₁ hs₁ _ => ?_) fun _ _ _ => trivial
  rw [hs₁]
  exact ⟨rfl, rfl, rfl, strokes_push _ rfl⟩

/-- The transitions of a tick go to the peer one after the other, unless the session ends. -/
theorem forwardKeys_spec [InputSink B] {events : List InputEvent} (hkeys : ∀ e ∈ events, IsKey e)
    (hrole : s.role = .sending j k edge fraction) :
    wp (forwardKeys env events) s
      (fun _ s' => s'.role.isSending = true → s'.sourceKeys = keysAfter s.sourceKeys events ∧
        s'.activity = s.activity ∧ strokes s'.outbox = strokes s.outbox ++ events)
      (fun _ _ => True) := by
  induction events generalizing s k with
  | nil => exact fun _ => ⟨rfl, rfl, (List.append_nil _).symm⟩
  | cons e events ih =>
      obtain ⟨he, hkeys⟩ := List.forall_mem_cons.mp hkeys
      rw [forwardKeys, wp_bind]
      refine wp_mono (forwardKeyboard_spec he hrole)
        (fun emergency s₁ h₁ => ?_) fun _ _ _ => trivial
      cases emergency with
      | false =>
          obtain ⟨hrole₁, hkeys₁, hactivity₁, hstrokes₁⟩ := h₁ rfl
          simp only [Bool.false_eq_true, if_false]
          refine wp_mono (ih hkeys hrole₁) (fun _ s₂ h₂ hs => ?_) fun _ _ _ => trivial
          obtain ⟨hkeys₂, hactivity₂, hstrokes₂⟩ := h₂ hs
          refine ⟨?_, hactivity₂.trans hactivity₁, ?_⟩
          · rw [hkeys₂, hkeys₁, keysAfter_cons]
          · rw [hstrokes₂, hstrokes₁, List.append_assoc]
            rfl
      | true =>
          -- the chord ends the session, and nothing is said of what was sent in it
          have hend : ∀ s₂, wp (do
              modify fun s => { s with role := .local, sourceKeys := ∅ }
              rearm env : CoordinatorM ActivityMonitor B T Unit) s₂
              (fun _ s' =>
                s'.role.isSending = true → s'.sourceKeys = keysAfter s.sourceKeys (e :: events) ∧
                s'.activity = s.activity ∧ strokes s'.outbox = strokes s.outbox ++ e :: events)
              (fun _ _ => True) := by
            intro s₂
            rw [wp_bind, wp_modify, rearm, wp_modify]
            rintro ⟨⟩
          simp only [if_true]
          rw [wp_bind, wp_get]
          cases s₁.role with
          | «local» | receiving => exact hend s₁
          | sending => exact wp_then fun _ _ => wp_then fun _ _ => wp_then fun _ _ => hend _

theorem drives_afterKeys [InputSink B] {touchpadEvents : List InputEvent}
    (h : ∀ e ∈ touchpadEvents, e.typed = false) :
    Moves (Drives False) (afterKeys env touchpadEvents : CoordinatorM ActivityMonitor B T Unit) :=
  (drives_sendInputs (.inr h)).bind fun _ => (drives_reapCapture env).bind fun _ => drives_beat env

/-- **A tick** tells the peer of every change of the keyboards. -/
theorem tick_mirrors [InputSink B] {ready : Result Unit} (h : Mirrors s)
    (hready : s.role.isSending = true → s.localReady = true ∧ s.peerReady = true) :
    wp (tick F env ready) s (fun _ => Mirrored s) (fun _ _ => True) := by
  refine wp_tick_sampled (fun _ _ _ => trivial) fun s₁ m m' physical h₁ hsampled hnot hm' => ?_
  have hkeyboard : (ActivitySource.takeTouchpadEvents m').2.keyboard = m.keyboard.drain.2 :=
    (ActivityMonitor.keyboard_takeTouchpadEvents m').trans hm'
  have hafter : ∀ s₂, Mirrored s s₂ → wp (afterKeys env (ActivitySource.takeTouchpadEvents m').1) s₂
      (fun _ => Mirrored s) (fun _ _ => True) := fun s₂ h₂ =>
    mirrored_of_calm h₂ (calm_afterKeys env _)
      (drives_afterKeys (ActivityMonitor.padsQuiet.take m'))
  cases hr : s.role with
  | «local» | receiving =>
      -- nobody is told: a session that starts later begins with the keys that are down then
      have hnot₁ : s₁.role.isSending = false := by
        rw [h₁.role, hr]
        rfl
      have hsince : ∃ keys, Since keys m.keyboard := by
        obtain ⟨keys, hsince⟩ := h.since
        by_cases hboth : s.localReady = true ∧ s.peerReady = true
        · have hgoes := wp_of_ok (ActivityMonitor.moves_sample s.activity) (hsampled hboth)
          exact ⟨keys, hgoes keys hsince⟩
        · exact ⟨keys, (hnot hboth).symm ▸ hsince⟩
      obtain ⟨keys, hsince⟩ := hsince
      have hstart : Mirrored s { s₁ with activity := (ActivitySource.takeTouchpadEvents m').2 } :=
        ⟨mirrors_of_not_sending m.keyboard.held (hkeyboard.symm ▸ hsince.drain) hnot₁,
          fun n hn => .inl (h₁.signals ▸ hn), fun hs => absurd (hnot₁.symm.trans hs) (by simp)⟩
      rw [wp_bind]
      refine wp_mono (wp_and (calm_takeOver physical _)
        (mirrored_of_calm hstart (calm_takeOver physical) (drives_takeOver physical))) ?_
          fun _ _ _ => trivial
      rintro _ s₂ ⟨hcalm, h₂⟩
      have hnot₂ : s₂.role.isSending = false :=
        eq_false_of_ne_true fun hs => absurd (hnot₁.symm.trans (hcalm.sending hs)) (by simp)
      refine wp_bind.mpr (wp_mono (forwardKeys_of_not_sending _ hnot₂)
        (fun _ s₃ h₃ => ?_) fun _ _ _ => trivial)
      exact h₃ ▸ hafter s₂ h₂
  | sending j k edge fraction =>
      have hs : s.role.isSending = true := by
        rw [hr]
        rfl
      -- the reading leads from what the peer has been told to what the keyboards hold
      have hsteps := wp_of_ok (ActivityMonitor.flips_sample s.activity) (hsampled (hready hs))
      have hflips : Flips s.sourceKeys m.keyboard := hsteps _ (h.flips hs)
      have hstart : Mute s { s₁ with activity := (ActivitySource.takeTouchpadEvents m').2 } :=
        ⟨fun n hn => h₁.signals ▸ hn, fun _ => ⟨_, hkeyboard.symm ▸ hflips.toSince.drain⟩⟩
      refine wp_takeOver_sending (h₁.role.trans hr) (wp_bind.mpr ?_)
      refine wp_mono (wp_and ((mute_forwardKeys m.keyboard.pending).after hstart)
        (forwardKeys_spec hflips.events (h₁.role.trans hr))) ?_ fun _ _ _ => trivial
      rintro _ s₂ ⟨hmute, hforward⟩
      -- the keys that were forwarded are the ones that had been read
      refine hafter s₂ ⟨⟨hmute.since h.since, fun hs₂ => ?_, fun hs₂ => ?_⟩,
        fun n hn => .inl (hmute.begun n hn), fun hs₂ => ⟨m.keyboard.pending, ?_, ?_, ?_⟩⟩
      all_goals
        obtain ⟨hkeys, hactivity, hstrokes⟩ := hforward hs₂
      · rw [hkeys, hactivity, hkeyboard, h₁.keys, hflips.held]
        rfl
      · rw [hactivity, hkeyboard]
        rfl
      · rw [hstrokes, strokes_congr h₁.signals]
      · rw [toldKeys, if_pos hs]
        exact hflips.toggles
      · rw [hkeys, toldKeys, if_pos hs, h₁.keys]

/-! ### The start of a session -/

/-- Without the chord the peer is told of all the keys that are down. -/
theorem enterKeys_presses {codes : List ℕ} (hcodes : ∀ c ∈ codes, 1 ≤ c ∧ c ≤ 255)
    (hrole : s.role = .sending j k edge fraction) (hchord : ¬ Chord (s.sourceKeys.extend codes)) :
    wp (enterKeys env codes) s
      (fun _ s' => s'.sourceKeys = s.sourceKeys.extend codes ∧ s'.activity = s.activity ∧
        strokes s'.outbox = strokes s.outbox ++ pressesOf codes ∧
        ∀ n, .begin n ∈ signals s'.outbox → .begin n ∈ signals s.outbox)
      (fun _ _ => True) := by
  induction codes generalizing s k with
  | nil => exact ⟨rfl, rfl, (List.append_nil _).symm, fun _ => id⟩
  | cons code codes ih =>
      obtain ⟨hcode, hcodes⟩ := List.forall_mem_cons.mp hcodes
      have hmore : ∀ c ∈ s.sourceKeys.insert code, c ∈ (s.sourceKeys.insert code).extend codes :=
        fun c hc => SortedSet.mem_extend.mpr (.inr hc)
      have hquiet : ¬ Chord (s.sourceKeys.insert code) := fun hc => hchord (hc.mono hmore)
      rw [enterKeys, wp_bind]
      refine wp_mono (forwardKeyboard_quiet ⟨code, true, rfl, hcode⟩ hrole hquiet) ?_
        fun _ _ _ => trivial
      rintro _ s₁ ⟨-, rfl⟩
      refine wp_mono (ih hcodes rfl hchord) ?_ fun _ _ _ => trivial
      rintro _ s₂ ⟨hkeys, hactivity, hstrokes, hbegun⟩
      refine ⟨hkeys, hactivity, ?_,
        fun n hn => mem_signals_push (by simp [Frame.signal]) (hbegun n hn)⟩
      rw [hstrokes, strokes_push _ rfl, List.append_assoc]
      rfl

/-- The keys that are down, without the chord, are those of the new session. -/
theorem mirrored_enter {keys : SortedSet ℕ} (hlocal : s.role = .local)
    (hheld : s'.activity.keyboard.held = keys) (hsince : Since keys s'.activity.keyboard)
    (hpending : s'.activity.keyboard.pending = []) (hrole : s'.role = .sending j k edge fraction)
    (hkeys : s'.sourceKeys = ∅)
    (hbegun : signals s'.outbox = signals s.outbox ++ [.begin s.nextSession])
    (hchord : ¬ Chord keys) :
    wp (enterKeys env keys.toList) s' (fun _ => Mirrored s) (fun _ _ => True) := by
  -- no keys have been sent in this session before
  have hall : s'.sourceKeys.extend keys.toList = keys := by
    refine SortedSet.ext fun c => ?_
    rw [hkeys, SortedSet.mem_extend, ← SortedSet.mem_def]
    exact or_iff_left (SortedSet.not_mem_empty c)
  have hrange : ∀ c ∈ keys.toList, 1 ≤ c ∧ c ≤ 255 := by
    intro c hc
    rw [← hheld, ← SortedSet.mem_def] at hc
    obtain ⟨device, hdevice⟩ := mem_held.mp hc
    exact hsince.inRange device c hdevice
  have htold : toldKeys s = ∅ := by
    rw [toldKeys, hlocal]
    rfl
  have hstrokes : strokes s'.outbox = strokes s.outbox := by
    rw [strokes, strokes, typed_eq, typed_eq, hbegun, List.filterMap_append]
    exact congrArg (List.map Prod.snd) (List.append_nil _)
  refine wp_mono (enterKeys_presses hrange hrole (hall.symm ▸ hchord)) ?_ fun _ _ _ => trivial
  rintro _ s'' ⟨hkeys'', hactivity, hstrokes'', hbegun''⟩
  rw [hall] at hkeys''
  refine ⟨⟨⟨keys, ?_⟩, fun _ => ?_, fun _ => ?_⟩,
    fun n hn => ?_, fun _ => ⟨pressesOf keys.toList, ?_, ?_, ?_⟩⟩
  · rw [hactivity]
    exact hsince
  · rw [hkeys'', hactivity, hheld]
  · rw [hactivity, hpending]
  · have hn := hbegun'' n hn
    rw [hbegun, List.mem_append] at hn
    exact hn.imp_right fun hn => ⟨hlocal, by simpa using hn⟩
  · rw [hstrokes'', hstrokes]
  · rw [htold]
    exact toggles_pressesOf keys.nodup fun c _ => SortedSet.not_mem_empty c
  · rw [hkeys'', htold, keysAfter_pressesOf, ← hkeys, hall]

/-- **A session begins with the keys that are down.** -/
theorem startSession_mirrors (h : Mirrors s) (hrole : s.role = .local) :
    wp (startSession env edge fraction) s (fun _ => Mirrored s) (fun _ _ => True) := by
  obtain ⟨keys, hsince⟩ := h.since
  rw [startSession, wp_bind]
  refine wp_sample (fun active m _ _ hgoes => ?_) fun _ _ => trivial
  have hkeyboard : Since m.keyboard.held m.keyboard.drain.2 := (hgoes keys hsince).drain
  rw [wp_bind, wp_get, takeKeyboardEvents, wp_bind, wp_bind, wp_get, wp_bind, wp_set,
    wp_pure, wp_ite]
  refine ⟨fun _ => ?_, fun hno => ?_⟩
  · refine wp_mono (still_refuse env _) (fun _ s' h' => ?_) fun _ _ _ => trivial
    have hnot : s'.role.isSending = false := by
      rw [h'.role, hrole]
      rfl
    exact ⟨mirrors_of_not_sending m.keyboard.held (h'.activity ▸ hkeyboard) hnot,
      fun n hn => .inl (h'.signals ▸ hn), fun hs => absurd (hnot.symm.trans hs) (by simp)⟩
  · rw [wp_bind, wp_own]
    refine ⟨fun _ _ => ?_, fun _ _ => trivial⟩
    rw [wp_bind, wp_modify, wp_bind]
    refine wp_mono (sendFrame_spec env _ _) (fun _ s₁ hs₁ => ?_) fun _ _ _ => trivial
    subst hs₁
    rw [wp_bind, wp_modify]
    exact mirrored_enter hrole rfl hkeyboard rfl rfl rfl (signals_push _ rfl) hno

/-! ### Passes -/

/-- A session begins with the keys that are held. -/
theorem captureStarted_mirrors [InputSink B] (edge : ℕ) (fraction : ℚ) (h : Mirrors s) :
    wp (captureStarted env edge fraction) s (fun _ => Mirrored s) (fun _ _ => True) := by
  by_cases hstart : s.role = .local ∧ s.localReady = true ∧ s.peerReady = true
  · exact wp_captureStarted hstart.1 hstart.2 (fun _ => startSession_mirrors h hstart.1)
      fun _ => trivial
  · exact mirrored_of_tame h (captureStarted_of_session edge fraction hstart)
      (drives_captureStarted edge fraction fun hs => hstart hs)

/-- Every event of the capture keeps the mirror, since the keyboards are read by the device. -/
theorem captureEvent_mirrors [InputSink B] (event : Option StreamEvent) (h : Mirrors s)
    (hkeyboard : s.physicalKeyboard = true) :
    wp (captureEvent env event) s (fun _ => Mirrored s) (fun _ _ => True) := by
  have hsame : Mirrored s s := ⟨h, (refl_of Tame s).spells (refl_of (Drives False) s)⟩
  rw [captureEvent, wp_bind, wp_own]
  refine ⟨fun event _ => ?_, fun _ _ => trivial⟩
  rw [wp_bind, wp_get]
  cases s.capture with
  | none => exact hsame
  | some task =>
      simp only [wp_ite]
      refine ⟨fun _ => hsame, fun _ => ?_⟩
      cases event.event with
      | armed | ready => exact hsame
      | input event =>
          have hdrives :
              wp (captureInput env event) s (fun _ => Drives False s) (fun _ => Drives False s) :=
            drives_captureInput event (.inr hkeyboard)
          exact mirrored_of_tame h (wp_mono (calm_captureInput event s) (fun _ _ hc => hc.tame)
            fun _ _ hc => hc.tame.toMute) hdrives
      | finished reason =>
          exact mirrored_of_calm hsame (calm_captureEnded reason) (drives_captureEnded reason)
      | started edge fraction =>
          have hstarted : Mirrors { s with capture := some { task with started := true } } :=
            ⟨h.since, h.keys, h.pending⟩
          rw [wp_bind, wp_set]
          exact wp_mono (captureStarted_mirrors edge fraction hstarted)
            (fun _ _ h' => ⟨h'.1, h'.2.begun, h'.2.typed⟩) fun _ _ => id

/-- **A pass** goes on with a session, or begins one with the keys that are down; of every change of
the keyboards in between the peer is told. -/
theorem pass_mirrors [InputSink B] {event : Event} {frame : Option Frame} (h : Mirrors s)
    (hkeyboard : s.physicalKeyboard = true)
    (hready : s.role.isSending = true → s.localReady = true ∧ s.peerReady = true) :
    wp (pass F env event frame) s (fun _ => Mirrored s) (fun _ _ => True) := by
  have hhead : ∀ s₁, Mirrored s s₁ → wp (head env) s₁ (fun _ => Mirrored s) (fun _ _ => True) :=
    fun s₁ h₁ =>
    mirrored_of_calm h₁ (calm_head env) (drives_head env (.inr ActivityMonitor.padsQuiet))
  cases frame with
  | some frame =>
      refine wp_bind.mpr (wp_mono ?_ (fun _ s₁ => hhead s₁) fun _ _ => id)
      exact mirrored_of_tame h (peerMessage_tame frame.message s) (drives_message frame.message s)
  | none =>
      refine wp_bind.mpr (wp_mono (m := branch F env event) ?_ (fun _ s₁ => hhead s₁) fun _ _ => id)
      cases event with
      | tick ready => exact tick_mirrors h hready
      | capture event => exact captureEvent_mirrors event h hkeyboard
      | exit | outputs | release | applyLayout | status | disconnected =>
          exact mirrored_of_tame h (branch_tame s (by simp) (by simp))
            (drives_branch (by simp) (by simp) s)

end Coordinator

end NiriBridge
