import NiriBridge.Coordinator.Messages

/-!
# Coordinator — Edges

The parts of the loop, over any devices and any backend, and what they have to do with edges and
with the ends of the device's own sessions.  Most of them have nothing to do with either (`Aside`);
the others leave displays and edges alone and say nothing of them (`Level`).
-/

namespace NiriBridge

open Hoare Session

/-- The frame is about the outputs of a device or about a position on an edge. -/
def Frame.locates (frame : Frame) : Bool :=
  match frame.message with
  | .desktop _ | .begin .. | .end _ (some _) => true
  | _ => false

/-- The frames that are about edges. -/
def located (frames : List Frame) : List Frame := frames.filter Frame.locates

theorem located_append (l l' : List Frame) : located (l ++ l') = located l ++ located l' :=
  List.filter_append ..

theorem located_push {frame : Frame} (l : List Frame) (h : frame.locates = false) :
    located (l ++ [frame]) = located l := by
  simp [located, h]

theorem mem_located {frame : Frame} {l : List Frame} :
    frame ∈ located l ↔ frame ∈ l ∧ frame.locates = true := List.mem_filter

namespace Coordinator

variable {A B T D : Type} {α : Type} {F : Format T D} {env : Env T} {c : Prop}
  {s s' : Coordinator A B T}

/-- The displays are left alone, and nothing is said of them or of edges.  Under `c` no session of
the device itself is ended. -/
structure Told (c : Prop) (s s' : Coordinator A B T) : Prop where
  config : s'.config = s.config
  desktop : s'.desktop = s.desktop
  peerDesktop : s'.peerDesktop = s.peerDesktop
  located : located s'.outbox = located s.outbox
  ended : c → ∀ n, .end n true ∈ signals s'.outbox → .end n true ∈ signals s.outbox

/-- The edges are left alone as well. -/
structure Level (c : Prop) (s s' : Coordinator A B T) : Prop extends Told c s s' where
  available : s'.availableEdges = s.availableEdges
  captured : s'.captureEdges = s.captureEdges
  desktopEpoch : s'.desktopEpoch = s.desktopEpoch
  captureEpoch : s'.captureEpoch = s.captureEpoch
  capture : s'.capture.isSome = true → s.capture.isSome = true
  session : s'.role.session.isSome = true → s.role.session.isSome = true ∨ s.availableEdges ≠ []

/-- What a part of the loop has nothing to do with. -/
structure Aside (s s' : Coordinator A B T) : Prop extends Level True s s' where
  role : s'.role = s.role
  keys : s'.sourceKeys = s.sourceKeys
  activity : s'.activity = s.activity
  localReady : s'.localReady = s.localReady
  peerReady : s'.peerReady = s.peerReady

/-- Nothing is said of displays in two parts that say nothing. -/
theorem Told.trans {s'' : Coordinator A B T} (h : Told c s s') (h' : Told c s' s'') :
    Told c s s'' where
  config := h'.config.trans h.config
  desktop := h'.desktop.trans h.desktop
  peerDesktop := h'.peerDesktop.trans h.peerDesktop
  located := h'.located.trans h.located
  ended hc n hn := h.ended hc n (h'.ended hc n hn)

instance : IsPreorder (Coordinator A B T) (Level c) where
  refl _ := ⟨⟨rfl, rfl, rfl, rfl, fun _ _ => id⟩, rfl, rfl, rfl, rfl, id, .inl⟩
  trans _ _ _ h h' := by
    refine ⟨h.toTold.trans h'.toTold, h'.available.trans h.available, h'.captured.trans h.captured,
      h'.desktopEpoch.trans h.desktopEpoch, h'.captureEpoch.trans h.captureEpoch,
      h.capture ∘ h'.capture, fun hs => ?_⟩
    rcases h'.session hs with hs | hs
    · exact h.session hs
    · exact .inr (h.available ▸ hs)

instance : IsPreorder (Coordinator A B T) Aside where
  refl s := ⟨refl_of (Level True) s, rfl, rfl, rfl, rfl, rfl⟩
  trans _ _ _ h h' := ⟨trans_of (Level True) h.toLevel h'.toLevel, h'.role.trans h.role,
    h'.keys.trans h.keys, h'.activity.trans h.activity, h'.localReady.trans h.localReady,
    h'.peerReady.trans h.peerReady⟩

theorem Aside.level (h : Aside s s') : Level c s s' :=
  ⟨⟨h.config, h.desktop, h.peerDesktop, h.located, fun _ => h.ended trivial⟩,
    h.available, h.captured, h.desktopEpoch, h.captureEpoch, h.capture, h.session⟩

/-- A part that has nothing to do with edges leaves them alone. -/
theorem moves_level {m : CoordinatorM A B T α} (h : Moves Aside m) : Moves (Level c) m := fun s =>
  wp_mono (h s) (fun _ _ => Aside.level) fun _ _ => Aside.level

/-- A frame about no edge, which ends no session of the device itself. -/
theorem aside_push {frame : Frame} (h : frame.locates = false)
    (hs : ∀ n, frame.signal ≠ some (.end n true)) :
    Aside s { s with outbox := s.outbox ++ [frame] } := by
  refine ⟨⟨⟨rfl, rfl, rfl, located_push _ h, fun _ n hn => ?_⟩, rfl, rfl, rfl, rfl, id, .inl⟩,
    rfl, rfl, rfl, rfl, rfl⟩
  rw [signals_append, List.mem_append] at hn
  refine hn.resolve_right fun hn => ?_
  obtain ⟨frame', hframe, hn⟩ := List.mem_filterMap.mp hn
  exact hs n (List.mem_singleton.mp hframe ▸ hn)

/-! ### What stays aside -/

theorem aside_own (r : Result α) : Moves Aside (own r : CoordinatorM A B T α) := .lift r

theorem aside_external (r : Result α) : Moves Aside (external r : CoordinatorM A B T α) := .lift r

/-- What `Aside` is about, as a value. -/
def bearings (s : Coordinator A B T) :=
  ((s.config, s.desktop, s.peerDesktop, s.outbox, s.availableEdges, s.captureEdges),
    (s.desktopEpoch, s.captureEpoch, s.capture, s.role, s.sourceKeys),
    (s.activity, s.localReady, s.peerReady))

theorem aside_of_eq (h : s'.bearings = s.bearings) : Aside s s' := by
  simp only [bearings, Prod.mk.injEq] at h
  obtain ⟨⟨hconfig, hdesktop, hpeer, houtbox, havailable, hcaptured⟩,
    ⟨hdesktopEpoch, hcaptureEpoch, hcapture, hrole, hkeys⟩, hactivity, hlocal, hready⟩ := h
  exact ⟨⟨⟨hconfig, hdesktop, hpeer, by rw [houtbox], fun _ _ => houtbox ▸ id⟩,
    havailable, hcaptured, hdesktopEpoch, hcaptureEpoch, fun hs => hcapture ▸ hs,
    fun hs => .inl (hrole ▸ hs)⟩, hrole, hkeys, hactivity, hlocal, hready⟩

theorem aside_onReceiver (m : ReceiverM B α) :
    Moves Aside (onReceiver m : CoordinatorM A B T α) := by
  intro s
  rw [wp_onReceiver]
  exact wp_mono (wp_true m s.receiver) (fun _ _ _ => aside_of_eq rfl) fun _ _ _ => aside_of_eq rfl

theorem aside_onFiles (m : FilesM T α) :
    Moves Aside (onFiles m : CoordinatorM A B T (Except Error α)) := by
  intro s
  rw [wp_onFiles]
  exact wp_mono (wp_true m s.files) (fun _ _ _ => aside_of_eq rfl) fun _ _ _ => aside_of_eq rfl

theorem aside_sendFrame {frame : Frame} (h : frame.locates = false)
    (hs : ∀ n, frame.signal ≠ some (.end n true)) :
    Moves Aside (sendFrame env frame : CoordinatorM A B T Unit) := by
  intro s
  refine wp_mono (sendFrame_spec env frame s) (fun _ s' hs' => hs' ▸ aside_push h hs)
    fun stop s' hs' => ?_
  obtain ⟨-, rfl | rfl⟩ := hs'
  · exact refl_of Aside s'
  · exact aside_push h hs

/-- A message that is not about a session. -/
theorem aside_send {message : Message} (h : (Frame.mk message false).locates = false)
    (hs : (Frame.mk message false).signal = none) :
    Moves Aside (send env message : CoordinatorM A B T Unit) :=
  aside_sendFrame h fun _ hn => absurd (hs.symm.trans hn) (by simp)

theorem aside_stopCapture (env : Env T) :
    Moves Aside (stopCapture env : CoordinatorM A B T Unit) := by
  intro s
  have hstopped : Aside s { s with capture := none } :=
    ⟨⟨⟨rfl, rfl, rfl, rfl, fun _ _ => id⟩, rfl, rfl, rfl, rfl, by simp, .inl⟩, rfl, rfl,
      rfl, rfl, rfl⟩
  exact wp_mono (stopCapture_spec env s) (fun _ s' hs => hs ▸ hstopped) fun _ s' hs =>
    hs.2 ▸ hstopped

theorem aside_rearm (env : Env T) : Moves Aside (rearm env : CoordinatorM A B T Unit) :=
  .modify fun _ => aside_of_eq rfl

theorem aside_answer (client : ℕ) (reply : Reply) :
    Moves Aside (answer client reply : CoordinatorM A B T Unit) :=
  .modify fun _ => aside_of_eq rfl

theorem aside_place [InputSink B] (edge : EdgeConfig) (fraction : ℚ) :
    Moves Aside (place env edge fraction : CoordinatorM A B T Unit) :=
  (aside_external _).bind fun _ => (aside_own _).bind fun _ => aside_onReceiver _

theorem aside_placeBack [InputSink B] (role : Role) (condition : ℕ → Bool) :
    Moves Aside (placeBack env role condition : CoordinatorM A B T Unit) := by
  refine .get_bind fun s => ?_
  cases role with
  | sending session sequence edge fraction => exact Moves.ite (aside_place _ _) (.pure ()) s
  | «local» | receiving => exact refl_of Aside s

/-! ### The layout in scope -/

theorem aside_dropPending (F : Format T D) (env : Env T) (pending : PendingLayout T) :
    Moves Aside (dropPending F env pending : CoordinatorM A B T Unit) := by
  refine (aside_onFiles _).bind fun _ => ?_
  cases pending.reply with
  | none => exact .pure ()
  | some client => exact aside_answer client _

theorem aside_abandon (F : Format T D) (env : Env T) (pending : PendingLayout T) (code : String) :
    Moves Aside (abandon F env pending code : CoordinatorM A B T Unit) := by
  rw [abandon]
  cases pending.reply with
  | none => exact aside_dropPending F env _
  | some client => exact (aside_answer client _).bind fun _ => aside_dropPending F env _

/-- A layout in scope changes nothing of what a part of the loop leaves alone. -/
theorem wp_holding {R : Coordinator A B T → Coordinator A B T → Prop}
    [IsPreorder (Coordinator A B T) R] (hR : ∀ s s', Aside s s' → R s s') {s₀ : Coordinator A B T}
    {m : CoordinatorM A B T α} (pending : PendingLayout T)
    (hm : wp m s (fun _ => R s₀) (fun _ => R s₀)) :
    wp (holding F env pending m) s (fun _ => R s₀) (fun _ => R s₀) := by
  rw [holding, wp_bind, wp_attempt]
  refine wp_mono hm (fun _ _ h => h) fun stop s₁ h => ?_
  rw [wp_bind]
  have hdrop : Moves R (dropPending F env pending : CoordinatorM A B T Unit) := fun s =>
    wp_mono (aside_dropPending F env pending s) (fun _ => hR s) fun _ => hR s
  exact wp_mono (hdrop.after h) (fun _ _ => id) fun _ _ => id

theorem aside_holding {m : CoordinatorM A B T α} (pending : PendingLayout T) (hm : Moves Aside m) :
    Moves Aside (holding F env pending m) := fun s => wp_holding (fun _ _ => id) pending (hm s)

theorem aside_expireLayout (F : Format T D) (env : Env T) :
    Moves Aside (expireLayout F env : CoordinatorM A B T Unit) := by
  refine .get_bind fun s => ?_
  cases s.pendingLayout with
  | none => exact refl_of Aside s
  | some pending =>
      rw [wp_ite]
      refine ⟨fun _ => ?_, fun _ => refl_of Aside s⟩
      rw [wp_bind, wp_set]
      have habort :
          Moves Aside (send env (.layout (.abort pending.id)) : CoordinatorM A B T Unit) :=
        aside_send rfl rfl
      have hrest : Moves Aside (do
          holding F env pending (send env (.layout (.abort pending.id)))
          abandon F env pending "layout_unconfirmed" : CoordinatorM A B T Unit) :=
        (aside_holding pending habort).bind fun _ => aside_abandon F env pending _
      exact hrest.after (aside_of_eq rfl)

theorem aside_beat (env : Env T) : Moves Aside (beat env : CoordinatorM A B T Unit) := by
  refine .get_bind fun s => ?_
  refine Moves.ite (Moves.bind (aside_send rfl rfl) fun _ => ?_) (.pure ()) s
  exact .modify fun _ => aside_of_eq rfl

theorem aside_prepareLayout (checked : Result Path) (revision : String) (edges : List EdgeConfig) :
    Moves Aside (prepareLayout F env checked revision edges :
      CoordinatorM A B T (Except Error (Prepared T))) := by
  cases checked with
  | error e => exact .pure (Except.error e)
  | ok path => exact aside_onFiles _

theorem aside_layoutPrepared (id : String) (ok : Bool) (error : Option String) :
    Moves Aside (layoutPrepared F env id ok error : CoordinatorM A B T Unit) := by
  refine .get_bind fun s => ?_
  cases s.pendingWith id true with
  | none => exact refl_of Aside s
  | some pending =>
      rw [wp_bind, wp_set]
      have hcommit : Moves Aside (if ok then
          onFiles (pending.prepared.commit F (env.outputs.map OutputTable.logical) env.edit)
        else pure (.error [error.getD "operation_failed"]) :
          CoordinatorM A B T (Except Error (Prepared T))) :=
        .ite (aside_onFiles _) (.pure _)
      refine Moves.after (hcommit.bind fun r => ?_) (aside_of_eq rfl)
      cases r with
      | error e =>
          exact (aside_holding pending (aside_send rfl rfl)).bind fun _ =>
            aside_abandon F env pending _
      | ok prepared =>
          exact .bind (.modify fun _ => aside_of_eq rfl) fun _ => aside_send rfl rfl

theorem aside_layoutCommit (id : String) :
    Moves Aside (layoutCommit F env id : CoordinatorM A B T Unit) := by
  refine .get_bind fun s => ?_
  cases s.pendingWith id false with
  | none => exact refl_of Aside s
  | some pending =>
      rw [wp_bind, wp_set]
      refine Moves.after ((aside_onFiles _).bind fun r => ?_) (aside_of_eq rfl)
      cases r with
      | ok prepared =>
          exact (aside_onFiles _).bind fun _ => (aside_send rfl rfl).bind fun _ s => refl_of Aside s
      | error e =>
          exact (aside_holding pending (aside_send rfl rfl)).bind fun _ =>
            aside_dropPending F env pending

theorem aside_layoutResult (id : String) (ok : Bool) (revision error : Option String) :
    Moves Aside (layoutResult F env id ok revision error : CoordinatorM A B T Unit) := by
  refine .get_bind fun s => ?_
  cases s.pendingWith id true with
  | none => exact refl_of Aside s
  | some pending =>
      rw [wp_bind, wp_set]
      refine Moves.after (.ite ((aside_onFiles _).bind fun _ => ?_) (aside_abandon F env pending _))
        (aside_of_eq rfl)
      cases pending.reply with
      | none => exact fun s => refl_of Aside s
      | some client => exact (aside_answer client _).bind fun _ s => refl_of Aside s

theorem aside_layoutAbort (id : String) :
    Moves Aside (layoutAbort F env id : CoordinatorM A B T Unit) := by
  refine .get_bind fun s => ?_
  cases s.pendingLayout.filter (·.id == id) with
  | none => exact refl_of Aside s
  | some pending =>
      rw [wp_bind, wp_set]
      exact (aside_abandon F env pending _).after (aside_of_eq rfl)

/-! ### What ends a session -/

theorem Level.local (h : Level c s s') : Level c s { s' with role := .local } :=
  { h with session := by rintro ⟨⟩ }

theorem level_local : Moves (Level c) (setRole .local : CoordinatorM A B T Unit) :=
  .modify fun s => (refl_of (Level c) s).local

/-- The end of a session, which is not one of the device itself unless it may be. -/
theorem level_sendEnd {session : ℕ} (h : c → s.role.isSending = false) :
    wp (sendEnd env session none) s (fun _ => Level c s) (fun _ => Level c s) := by
  have hpush :
      Level c s { s with outbox := s.outbox ++ [⟨.end session none, s.role.isSending⟩] } := by
    refine ⟨⟨rfl, rfl, rfl, located_push _ rfl, fun hc n hn => ?_⟩, rfl, rfl, rfl, rfl, id, .inl⟩
    rw [h hc, signals_append, List.mem_append] at hn
    exact hn.resolve_right (by simp [signals, Frame.signal])
  rw [sendEnd, wp_bind, wp_get]
  refine wp_mono (sendFrame_spec env _ s) (fun _ s' hs' => hs' ▸ hpush) fun stop s' hs' => ?_
  obtain ⟨-, rfl | rfl⟩ := hs'
  · exact refl_of (Level c) s'
  · exact hpush

theorem level_announceEnd (h : c → s.role.isSending = false) :
    wp (announceEnd env) s (fun _ => Level c s) (fun _ => Level c s) := by
  rw [announceEnd, wp_bind, wp_get]
  cases s.role.session with
  | none => exact refl_of (Level c) s
  | some session => exact level_sendEnd h

theorem level_endSession [InputSink B] (h : c → s.role.isSending = false) :
    wp (endSession env) s (fun _ => Level c s) (fun _ => Level c s) := by
  rw [endSession, wp_bind, wp_get]
  cases s.role.session with
  | none => exact refl_of (Level c) s
  | some session =>
      rw [wp_bind]
      refine wp_mono (aside_onReceiver _ s) (fun _ s₁ h₁ => ?_) fun _ s₁ h₁ => h₁.level
      have hend : wp (sendEnd env session none) s₁ (fun _ => Level c s₁) (fun _ => Level c s₁) :=
        level_sendEnd fun hc => h₁.role ▸ h hc
      exact wp_mono hend (fun _ _ h₂ => trans_of (Level c) h₁.level h₂)
        fun _ _ h₂ => trans_of (Level c) h₁.level h₂

/-- A part of a branch, after others. -/
theorem wp_level_bind {β : Type} {s₀ : Coordinator A B T} {m : CoordinatorM A B T α}
    {f : α → CoordinatorM A B T β} (h : Level c s₀ s)
    (hm : wp m s (fun _ => Level c s) (fun _ => Level c s))
    (hf : ∀ a s', Level c s₀ s' → wp (f a) s' (fun _ => Level c s₀) (fun _ => Level c s₀)) :
    wp (m >>= f) s (fun _ => Level c s₀) (fun _ => Level c s₀) :=
  wp_bind.mpr (wp_mono hm (fun a s' h' => hf a s' (trans_of (Level c) h h'))
    fun _ _ h' => trans_of (Level c) h h')

theorem level_makeRoom [InputSink B] (h : c → s.role.isSending = false) : wp (do
    endSession env
    stopCapture env
    setRole .local) s (fun _ => Level c s) (fun _ => Level c s) :=
  wp_level_bind (refl_of (Level c) s) (level_endSession h) fun _ _ h₁ =>
    ((moves_level (aside_stopCapture env)).bind fun _ => level_local).after h₁

/-- The session, if there is one, is given up because a desktop is locked. -/
theorem level_leave : Moves (Level c) (do
    setRole .local
    stopCapture env : CoordinatorM A B T Unit) :=
  level_local.bind fun _ => moves_level (aside_stopCapture env)

/-- A coordinator that sends is not taken over. -/
theorem level_takeOver [InputSink B] (physical : Bool) (s : Coordinator A B T) :
    wp (takeOver env physical) s (fun _ s' => Level c s s' ∧ (s'.role.isSending = true → s' = s))
      (fun _ => Level c s) := by
  rw [takeOver, wp_bind, wp_get]
  cases hr : s.role with
  | «local» | sending => exact ⟨refl_of (Level c) s, fun _ => rfl⟩
  | receiving session =>
      rw [wp_ite]
      refine ⟨fun _ => ?_, fun _ => ⟨refl_of (Level c) s, fun _ => rfl⟩⟩
      rw [wp_bind]
      refine wp_mono (aside_onReceiver _ s) (fun _ s₁ h₁ => ?_) fun _ s₁ h₁ => h₁.level
      have hrole : c → s₁.role.isSending = false := fun _ => by
        rw [h₁.role, hr]
        rfl
      rw [wp_bind]
      refine wp_mono (level_announceEnd hrole) (fun _ s₂ h₂ => ?_)
        fun _ s₂ h₂ => trans_of (Level c) h₁.level h₂
      have h₂ := trans_of (Level c) (h₁.level : Level c s s₁) h₂
      rw [setRole, wp_bind, wp_modify]
      have hlocal : Level c s { s₂ with role := .local } := h₂.local
      refine wp_mono (((aside_stopCapture env).bind fun _ => aside_rearm env) _) (fun _ s₃ h₃ => ?_)
        fun _ s₃ h₃ => trans_of (Level c) hlocal h₃.level
      refine ⟨trans_of (Level c) hlocal h₃.level, fun hs => ?_⟩
      rw [h₃.role] at hs
      cases hs

/-- A worker that has ended ends a session only if it is reaped. -/
theorem level_reapCapture
    (h : c →
      ¬ (s.capture.isSome = true ∧ env.captureFinished = true ∧ env.captureEventsEmpty = true)) :
    wp (reapCapture env) s (fun _ => Level c s) (fun _ => Level c s) := by
  rw [reapCapture, wp_bind, wp_get, wp_ite]
  refine ⟨fun hreap => ?_, fun _ => refl_of (Level c) s⟩
  have hnot : ∀ s' : Coordinator A B T, c → s'.role.isSending = false :=
    fun _ hc => absurd hreap (h hc)
  refine wp_level_bind (refl_of (Level c) s) (moves_level (aside_stopCapture env) s)
    fun _ s₁ h₁ => ?_
  have hrearm : Moves (Level c) (rearm env : CoordinatorM A B T Unit) :=
    moves_level (aside_rearm env)
  cases s.role with
  | «local» | receiving => exact hrearm.after h₁
  | sending session sequence edge fraction =>
      exact wp_level_bind h₁ (level_sendEnd (hnot s₁)) fun _ s₂ h₂ =>
        (level_local.bind fun _ => hrearm).after h₂

/-! ### What forwards inputs -/

theorem level_sendInput (event : InputEvent) :
    Moves (Level c) (sendInput env event : CoordinatorM A B T Unit) := by
  refine .get_bind fun s => ?_
  cases hr : s.role with
  | «local» | receiving => exact refl_of (Level c) s
  | sending session sequence edge fraction =>
      have hsome : s.role.session.isSome = true := by
        rw [hr]
        rfl
      have hsend :
          Moves Aside (send env (.input session sequence event) : CoordinatorM A B T Unit) :=
        aside_sendFrame rfl fun _ => by rintro ⟨⟩
      rw [wp_bind]
      refine wp_mono (hsend s) (fun _ s₁ h₁ => ?_) fun _ s₁ h₁ => h₁.level
      rw [wp_bind]
      refine wp_mono ((aside_own _).after h₁) (fun _ s₂ h₂ => ?_) fun _ s₂ h₂ => h₂.level
      rw [setRole, wp_modify]
      exact { (h₂.level : Level c s s₂) with session := fun _ => .inl hsome }

theorem level_sendInputs (events : List InputEvent) :
    Moves (Level c) (sendInputs env events : CoordinatorM A B T Unit) := by
  induction events with
  | nil => exact .pure ()
  | cons event events ih => exact (level_sendInput event).bind fun _ => ih

/-- The keys that are held do not change when an input is sent. -/
theorem keys_sendInput (event : InputEvent) :
    Keeps Coordinator.sourceKeys (sendInput env event : CoordinatorM A B T Unit) := by
  have hsend :
      ∀ message, Keeps Coordinator.sourceKeys (send env message : CoordinatorM A B T Unit) := by
    intro message s
    refine wp_mono (sendFrame_spec env _ s) (fun _ s' hs => hs ▸ rfl) fun stop s' hs => ?_
    obtain ⟨-, rfl | rfl⟩ := hs <;> rfl
  intro s
  rw [sendInput, wp_bind, wp_get]
  cases s.role with
  | «local» | receiving => exact rfl
  | sending session sequence edge fraction =>
      have hnext : Keeps Coordinator.sourceKeys (do
          own (ensure (sequence + 1 < 2 ^ 64) "Input sequence exhausted")
          setRole (.sending session (sequence + 1) edge fraction) : CoordinatorM A B T Unit) :=
        .bind (.lift _) fun _ => .modify fun _ => rfl
      exact (hsend _).bind (fun _ => hnext) s

/-- Among the transitions is the press that completes the emergency chord. -/
def completesChord (held : SortedSet ℕ) : List InputEvent → Bool
  | .key code pressed :: events =>
      let held := if pressed then held.insert code else held.erase code
      decide (code = 1 ∧ pressed = true ∧ emergencyModifiers held = true) ||
        completesChord held events
  | _ => false

/-- A session goes on while no transition completes the chord. -/
theorem level_forwardKeyboard (event : InputEvent) (events : List InputEvent)
    (s : Coordinator A B T) :
    wp (forwardKeyboard env event) s
      (fun emergency s' => Level c s s' ∧
        (emergency = true → s.role.isSending = true ∧
          completesChord s.sourceKeys (event :: events) = true) ∧
        (emergency = false → s'.role.isSending = true → completesChord s'.sourceKeys events = true →
          s.role.isSending = true ∧ completesChord s.sourceKeys (event :: events) = true))
      (fun _ => Level c s) := by
  rw [forwardKeyboard, wp_bind, wp_get]
  cases hr : s.role with
  | «local» | receiving =>
      refine ⟨refl_of (Level c) s, ⟨fun h => (absurd h (by simp)), fun _ hs => ?_⟩⟩
      rw [hr] at hs
      cases hs
  | sending session sequence edge fraction =>
      cases event with
      | key code pressed =>
          have hkeys :
              ∀ held role,
              s.role = role → Level c s { s with sourceKeys := held, role := role } := by
            rintro held role rfl
            exact ⟨⟨rfl, rfl, rfl, rfl, fun _ _ => id⟩, rfl, rfl, rfl, rfl, id, .inl⟩
          rw [wp_bind, wp_set, wp_ite]
          refine ⟨fun hchord => ⟨hkeys _ _ hr, ⟨fun _ => ⟨rfl, ?_⟩, fun h => (absurd h (by simp))⟩⟩,
            fun hchord => ?_⟩
          · rw [completesChord, decide_eq_true hchord]
            rfl
          · rw [wp_bind]
            refine wp_mono (wp_and (level_sendInput (.key code pressed) _) (keys_sendInput _ _))
              (fun _ s₁ h₁ => ?_) fun _ s₁ h₁ => trans_of (Level c) (hkeys _ _ hr) h₁.1
            refine ⟨trans_of (Level c) (hkeys _ _ hr) h₁.1,
              ⟨fun h => (absurd h (by simp)), fun _ _ hcompletes => ⟨rfl, ?_⟩⟩⟩
            rw [h₁.2] at hcompletes
            rw [completesChord, hcompletes, Bool.or_true]
      | _ => exact refl_of (Level c) s

theorem level_forwardKeys [InputSink B] (events : List InputEvent) (s : Coordinator A B T)
    (h : c → s.role.isSending = true → completesChord s.sourceKeys events = false) :
    wp (forwardKeys env events) s (fun _ => Level c s) (fun _ => Level c s) := by
  induction events generalizing s with
  | nil => exact refl_of (Level c) s
  | cons event events ih =>
      rw [forwardKeys, wp_bind]
      refine wp_mono (level_forwardKeyboard event events s)
        (fun emergency s₁ h₁ => ?_) fun _ _ h₁ => h₁
      obtain ⟨h₁, hchord, hgoes⟩ := h₁
      -- the chord ends the session, and then `c` does not hold
      cases emergency with
      | false =>
          have hrest := ih s₁ fun hc hs => by
            by_contra hcompletes
            obtain ⟨hs', hcompletes'⟩ := hgoes rfl hs (eq_true_of_ne_false hcompletes)
            exact absurd ((h hc hs').symm.trans hcompletes') (by simp)
          exact wp_mono hrest (fun _ _ h₂ => trans_of (Level c) h₁ h₂)
            fun _ _ h₂ => trans_of (Level c) h₁ h₂
      | true =>
          obtain ⟨hs, hcompletes⟩ := hchord rfl
          have hnot : ¬ c := fun hc => absurd ((h hc hs).symm.trans hcompletes) (by simp)
          have hrest : Moves (Level c) (do
              modify fun s => { s with role := .local, sourceKeys := ∅ }
              rearm env : CoordinatorM A B T Unit) :=
            .bind (.modify fun _ =>
              ⟨⟨rfl, rfl, rfl, rfl, fun _ _ => id⟩, rfl, rfl, rfl, rfl, id, by rintro ⟨⟩⟩)
              fun _ => moves_level (aside_rearm env)
          simp only [if_true]
          rw [wp_bind, wp_get]
          cases s₁.role with
          | «local» | receiving => exact hrest.after h₁
          | sending session sequence edge fraction =>
              refine wp_level_bind h₁ (level_sendEnd fun hc => absurd hc hnot) fun _ s₂ h₂ => ?_
              have hback : Moves (Level c) (do
                  stopCapture env
                  place env (edgeAt s₁.config edge) fraction : CoordinatorM A B T Unit) :=
                moves_level ((aside_stopCapture env).bind fun _ => aside_place _ _)
              refine wp_level_bind h₂ (moves_level (aside_stopCapture env) s₂) fun _ s₃ h₃ => ?_
              exact wp_level_bind h₃ (moves_level (aside_place _ _) s₃)
                fun _ s₄ h₄ => hrest.after h₄

/-- The transitions that the next tick forwards. -/
def tickEvents [ActivitySource A] (s : Coordinator A B T) : List InputEvent :=
  if s.localReady ∧ s.peerReady then
    match ActivitySource.sample.run s.activity with
    | .ok _ activity | .error _ activity => (ActivitySource.takeKeyboardEvents activity).1
  else (ActivitySource.takeKeyboardEvents s.activity).1

theorem level_activity (activity : A) : Level c s { s with activity := activity } :=
  ⟨⟨rfl, rfl, rfl, rfl, fun _ _ => id⟩, rfl, rfl, rfl, rfl, id, .inl⟩

theorem level_tick [ActivitySource A] [InputSink B] (ready : Result Unit)
    (hchord : c → s.role.isSending = true → completesChord s.sourceKeys s.tickEvents = false)
    (hreap : c →
      ¬ (s.capture.isSome = true ∧ env.captureFinished = true ∧ env.captureEventsEmpty = true)) :
    wp (tick F env ready) s (fun _ => Level c s) (fun _ => Level c s) := by
  rw [tick, wp_bind]
  refine wp_mono (aside_external ready s) (fun _ s₁ h₁ => ?_) fun _ _ h => h.level
  rw [wp_bind]
  refine wp_mono ((aside_onReceiver _).after h₁) (fun _ s₂ h₂ => ?_) fun _ _ h => h.level
  rw [wp_bind]
  refine wp_mono ((aside_expireLayout F env).after h₂) (fun _ s₃ h₃ => ?_) fun _ _ h => h.level
  rw [wp_bind, wp_get]
  have hrest : ∀ physical activity, s.tickEvents = (ActivitySource.takeKeyboardEvents activity).1 →
      wp (do
        let keyboardEvents ← takeKeyboardEvents
        let touchpadEvents ← takeTouchpadEvents
        takeOver env physical
        forwardKeys env keyboardEvents
        sendInputs env touchpadEvents
        reapCapture env
        beat env) { s₃ with activity := activity } (fun _ => Level c s) (fun _ => Level c s) := by
    intro physical activity hevents
    rw [takeKeyboardEvents, wp_bind, wp_bind, wp_get, wp_bind, wp_set, wp_pure]
    rw [takeTouchpadEvents, wp_bind, wp_bind, wp_get, wp_bind, wp_set, wp_pure, ← hevents]
    have h₄ : ∀ activity, Level c s { s₃ with activity := activity } :=
      fun activity => trans_of (Level c) h₃.level (level_activity activity)
    rw [wp_bind]
    refine wp_mono (level_takeOver physical _) (fun _ s₅ h₅ => ?_) fun _ _ h =>
      trans_of (Level c) (h₄ _) h
    obtain ⟨h₅, hsame⟩ := h₅
    have h₅ := trans_of (Level c) (h₄ _) h₅
    refine wp_level_bind h₅ (level_forwardKeys _ s₅ fun hc hs => ?_) fun _ s₆ h₆ => ?_
    · obtain rfl := hsame hs
      have hs : s₃.role.isSending = true := hs
      show completesChord s₃.sourceKeys s.tickEvents = false
      rw [h₃.keys]
      exact hchord hc (h₃.role ▸ hs)
    refine wp_level_bind h₆ (level_sendInputs _ s₆) fun _ s₇ h₇ => ?_
    have hreap₇ : c → ¬ (s₇.capture.isSome = true ∧ env.captureFinished = true ∧
        env.captureEventsEmpty = true) := fun hc h => hreap hc ⟨h₇.capture h.1, h.2⟩
    exact wp_level_bind h₇ (level_reapCapture hreap₇) fun _ s₈ h₈ =>
      (moves_level (aside_beat env)).after h₈
  rw [h₃.localReady, h₃.peerReady]
  split_ifs with hready
  · rw [wp_bind, sample, wp_onActivity, h₃.activity]
    refine wp_mono (wp_self _ _) (fun physical activity hm => ?_) fun e activity _ =>
      trans_of (Level c) h₃.level (level_activity activity)
    refine hrest physical activity ?_
    rw [tickEvents, if_pos hready,
      show ActivitySource.sample.run s.activity = .ok physical activity from hm]
  · have hsame : { s₃ with activity := s.activity } = s₃ := by rw [← h₃.activity]
    refine hsame ▸ hrest false s.activity ?_
    rw [tickEvents, if_neg hready]

end Coordinator

end NiriBridge
