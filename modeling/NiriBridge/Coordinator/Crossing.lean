import NiriBridge.Coordinator.Edges

/-!
# Coordinator — Crossing

The branches of the loop, and what they say of edges.  Only a pointer that has crossed one says
anything, and what it says is about that edge (`captureStarted_spec`).

`GivesUp` is what makes a device end the session that it sends, and `Starts` what makes it start
one: both are about the state before the pass and what the pass finds.
-/

namespace NiriBridge.Coordinator

open Hoare Session

variable {A B T D : Type} {α : Type} {F : Format T D} {env : Env T} {c : Prop}
  {s s' : Coordinator A B T}

/-! ### What a device gives up -/

/-- What a layout that the peer prepares is checked for. -/
def checkPrepare (s : Coordinator A B T) : Result Path := do
  ensure s.pendingLayout.isNone "settings_busy"
  ensure (s.localReady ∧ s.peerReady) "session_locked"
  orError "config_invalid" s.config.sourcePath

/-- The edit of this device's configuration can be prepared. -/
def Prepares (F : Format T D) (env : Env T) (s : Coordinator A B T) (checked : Result Path)
    (revision : String) (edges : List EdgeConfig) : Prop :=
  ∃ path prepared files, checked = .ok path ∧
    Manager.prepareEdges F path (env.outputs.map OutputTable.logical) env.edit revision edges
      s.files = .ok prepared files

/-- With these displays the device does not go on with its capture or its session. -/
def Outdates (s : Coordinator A B T) (desktop : Desktop) (peerDesktop : Option Desktop) : Prop :=
  s.capture.isSome = true ∨ activeEdges desktop peerDesktop = []

/-- The worker of the capture has ended, and has nothing more to report. -/
def Reaps (env : Env T) (s : Coordinator A B T) : Prop :=
  s.capture.isSome = true ∧ env.captureFinished = true ∧ env.captureEventsEmpty = true

/-- What makes a device end the session that it sends. -/
def GivesUp [ActivitySource A] (F : Format T D) (env : Env T) (s : Coordinator A B T) :
    Event → Option Frame → Prop
  | _, some ⟨.lockState locked, _⟩ => locked = true
  | _, some ⟨.layout (.prepare _ edges revision), _⟩ =>
      s.Prepares F env s.checkPrepare revision edges
  | _, some ⟨.desktop peer, _⟩ => s.Outdates s.desktop (some peer)
  | _, some _ => False
  | .outputs outputs, none => s.Outdates { s.desktop with outputs := outputs } s.peerDesktop
  | .release _, none => True
  | .applyLayout _ layout, none =>
      s.Prepares F env (s.checkRequest layout) layout.localRevision layout.localEdges
  | .status unlocked, none => unlocked = .ok false
  | .tick _, none =>
      s.role.isSending = true ∧ completesChord s.sourceKeys s.tickEvents = true ∨ s.Reaps env
  | .capture (some ⟨generation, .finished _⟩), none =>
      s.capture.isSome = true ∧ generation = s.generation
  | _, none => False

/-- What makes a device start a session: its pointer crosses an edge. -/
def Starts (s : Coordinator A B T) (event : Event) : Option Frame → Prop
  | some _ => False
  | none =>
      match event with
      | .capture (some ⟨generation, .started ..⟩) =>
          s.role = .local ∧ s.capture.isSome = true ∧ generation = s.generation
      | _ => False

/-! ### The branches -/

/-- A reading of the devices changes only the activity monitor. -/
theorem sample_activity [ActivitySource A] :
    wp sample s (fun _ s' => ∃ activity, s' = { s with activity := activity })
    (fun _ s' => ∃ activity, s' = { s with activity := activity }) := by
  rw [sample, wp_onActivity]
  exact wp_mono (wp_true _ _) (fun _ activity _ => ⟨activity, rfl⟩) fun _ activity _ =>
    ⟨activity, rfl⟩

theorem level_suspend [ActivitySource A] : Moves (Level c) (suspend : CoordinatorM A B T Unit) :=
  .modify fun _ => level_activity _

theorem level_releaseControl [InputSink B] (client : ℕ) (h : ¬ c) :
    wp (releaseControl env client) s (fun _ => Level c s) (fun _ => Level c s) := by
  refine wp_level_bind (refl_of (Level c) s) (level_endSession fun hc => absurd hc h)
    fun _ s₁ h₁ => ?_
  refine wp_level_bind h₁ (moves_level (aside_stopCapture env) s₁) fun _ s₂ h₂ => ?_
  rw [wp_bind, wp_get]
  refine wp_level_bind h₂ (moves_level (aside_placeBack _ _) s₂) fun _ s₃ h₃ => ?_
  have hrest : Moves (Level c) (do
      setRole .local
      rearm env
      answer client (.success []) : CoordinatorM A B T Unit) :=
    level_local.bind fun _ => moves_level ((aside_rearm env).bind fun _ => aside_answer client _)
  exact hrest.after h₃

/-- Preparing a layout, with what it says of the edit. -/
theorem wp_prepareLayout {checked : Result Path} {revision : String} {edges : List EdgeConfig}
    {f : Except Error (Prepared T) → CoordinatorM A B T Unit} {Q : Unit → Coordinator A B T → Prop}
    {E : Stop → Coordinator A B T → Prop} (hE : ∀ stop s', Aside s s' → E stop s')
    (hf : ∀ r s',
      Aside s s' → ((∃ prepared, r = .ok prepared) → s.Prepares F env checked revision edges) →
      wp (f r) s' Q E) :
    wp (prepareLayout F env checked revision edges >>= f) s Q E := by
  have hprepares : wp (prepareLayout F env checked revision edges : CoordinatorM A B T _) s
      (fun r _ => (∃ prepared, r = .ok prepared) → s.Prepares F env checked revision edges)
      (fun _ _ => True) := by
    cases checked with
    | error e => exact fun h => absurd h.choose_spec (by simp)
    | ok path =>
        rw [prepareLayout, wp_onFiles]
        refine wp_mono (wp_self _ _) (fun prepared files h _ => ⟨path, prepared, files, rfl, h⟩) ?_
        exact fun e files _ h => absurd h.choose_spec (by simp)
  rw [wp_bind]
  exact wp_mono (wp_and (aside_prepareLayout checked revision edges s) hprepares)
    (fun r s₁ h₁ => hf r s₁ h₁.1 h₁.2) fun stop s₁ h₁ => hE stop s₁ h₁.1

theorem level_applyLayout [InputSink B] (client : ℕ) (layout : LayoutRequest)
    (h : c → ¬ s.Prepares F env (s.checkRequest layout) layout.localRevision layout.localEdges) :
    wp (applyLayout F env client layout) s (fun _ => Level c s) (fun _ => Level c s) := by
  rw [applyLayout, wp_bind, wp_get]
  refine wp_prepareLayout (fun _ _ h₁ => h₁.level) fun r s₁ h₁ hprepares => ?_
  cases r with
  | error e => exact (moves_level (aside_answer client _)).after h₁.level
  | ok prepared =>
      have hnot : ¬ c := fun hc => h hc (hprepares ⟨prepared, rfl⟩)
      have hroom : wp (do
          endSession env
          stopCapture env
          setRole .local
          external env.transactionId) s₁ (fun _ => Level c s₁) (fun _ => Level c s₁) := by
        refine wp_level_bind (refl_of (Level c) s₁) (level_endSession fun hc => absurd hc hnot)
          fun _ s₂ h₂ => ?_
        have hrest : Moves (Level c) (do
            stopCapture env
            setRole .local
            external env.transactionId : CoordinatorM A B T String) :=
          (moves_level (aside_stopCapture env)).bind fun _ => level_local.bind fun _ =>
            moves_level (aside_external _)
        exact hrest.after h₂
      refine wp_level_bind h₁.level (wp_holding (fun _ _ => Aside.level) _ hroom) fun id s₂ h₂ => ?_
      have hrest : Moves Aside (do
          modify fun s => { s with
            pendingLayout := some ⟨id, prepared, some client, layoutDeadline env⟩ }
          send env (.layout (.prepare id layout.peerEdges layout.peerRevision)) :
          CoordinatorM A B T Unit) :=
        .bind (.modify fun _ => aside_of_eq rfl) fun _ => aside_send rfl rfl
      exact (moves_level hrest).after h₂

theorem level_layoutPrepare [InputSink B] (id : String) (edges : List EdgeConfig)
    (revision : String) (h : c → ¬ s.Prepares F env s.checkPrepare revision edges) :
    wp (layoutPrepare F env id edges revision) s (fun _ => Level c s) (fun _ => Level c s) := by
  rw [layoutPrepare, wp_bind, wp_get]
  refine wp_prepareLayout (fun _ _ h₁ => h₁.level) fun r s₁ h₁ hprepares => ?_
  cases r with
  | error e => exact (moves_level (aside_send rfl rfl)).after h₁.level
  | ok prepared =>
      have hnot : ¬ c := fun hc => h hc (hprepares ⟨prepared, rfl⟩)
      have hroom : wp (do
          endSession env
          stopCapture env
          setRole .local) s₁ (fun _ => Level c s₁) (fun _ => Level c s₁) :=
        level_makeRoom fun hc => absurd hc hnot
      refine wp_level_bind h₁.level (wp_holding (fun _ _ => Aside.level) _ hroom) fun _ s₂ h₂ => ?_
      have hrest : Moves Aside (do
          modify fun s => { s with pendingLayout := some ⟨id, prepared, none, layoutDeadline env⟩ }
          send env (.layout (.prepared id true none)) : CoordinatorM A B T Unit) :=
        .bind (.modify fun _ => aside_of_eq rfl) fun _ => aside_send rfl rfl
      exact (moves_level hrest).after h₂

theorem level_statusChanged [ActivitySource A] [InputSink B] (unlocked : Result Bool)
    (h : c → unlocked ≠ .ok false) :
    wp (statusChanged env unlocked) s (fun _ => Level c s) (fun _ => Level c s) := by
  rw [statusChanged, wp_bind, wp_external]
  refine ⟨fun unlocked hunlocked => ?_, fun _ _ => refl_of (Level c) s⟩
  subst hunlocked
  rw [wp_bind, wp_modify]
  have h₁ : Level c s { s with localReady := unlocked } :=
    ⟨⟨rfl, rfl, rfl, rfl, fun _ _ => id⟩, rfl, rfl, rfl, rfl, id, .inl⟩
  refine wp_level_bind h₁ (moves_level (aside_onReceiver _) _) fun _ s₂ h₂ => ?_
  refine wp_level_bind h₂ (moves_level (aside_send rfl rfl) s₂) fun _ s₃ h₃ => ?_
  cases unlocked with
  | true => exact h₃
  | false =>
      simp only [Bool.false_eq_true, if_false]
      refine wp_level_bind h₃ (level_suspend s₃) fun _ s₄ h₄ => ?_
      refine wp_level_bind h₄ (level_announceEnd fun hc => absurd rfl (h hc)) fun _ s₅ h₅ => ?_
      exact level_leave.after h₅

theorem level_peerLockState [ActivitySource A] [InputSink B] (locked : Bool)
    (h : c → locked ≠ true) :
    wp (peerLockState env locked) s (fun _ => Level c s) (fun _ => Level c s) := by
  rw [peerLockState, wp_bind, wp_get, wp_bind, wp_own]
  refine ⟨fun _ _ => ?_, fun _ _ => refl_of (Level c) s⟩
  rw [wp_bind, wp_modify]
  have h₁ : Level c s { s with peerReady := !locked } :=
    ⟨⟨rfl, rfl, rfl, rfl, fun _ _ => id⟩, rfl, rfl, rfl, rfl, id, .inl⟩
  refine wp_level_bind h₁ (moves_level (aside_onReceiver _) _) fun _ s₂ h₂ => ?_
  cases locked with
  | false => exact h₂
  | true =>
      simp only [if_true]
      refine wp_level_bind h₂ (level_suspend s₂) fun _ s₃ h₃ => ?_
      refine wp_level_bind h₃ (level_announceEnd fun hc => absurd rfl (h hc)) fun _ s₄ h₄ => ?_
      have hback : Moves (Level c) (do
          stopCapture env
          placeBack env s.role fun _ => s.localReady : CoordinatorM A B T Unit) :=
        moves_level ((aside_stopCapture env).bind fun _ => aside_placeBack _ _)
      have hrest : Moves (Level c) (do
          (if s.role.isSending then do
            stopCapture env
            placeBack env s.role fun _ => s.localReady
          else pure ())
          setRole .local
          stopCapture env : CoordinatorM A B T Unit) :=
        (Moves.ite hback (.pure ())).bind fun _ => level_leave
      exact hrest.after h₄

theorem level_captureInput (event : InputEvent) :
    Moves (Level c) (captureInput env event : CoordinatorM A B T Unit) := by
  refine .get_bind fun s => ?_
  split
  · exact refl_of (Level c) s
  · exact (moves_level (aside_own _)).bind (fun _ => level_sendInput _) s
  · exact refl_of (Level c) s

theorem level_captureEnded [InputSink B] (reason : String) (h : ¬ c) :
    wp (captureEnded env reason) s (fun _ => Level c s) (fun _ => Level c s) := by
  rw [captureEnded, wp_bind, wp_get]
  refine wp_level_bind (refl_of (Level c) s) (level_endSession fun hc => absurd hc h)
    fun _ s₁ h₁ => ?_
  have hrest : Moves (Level c) (do
      setRole .local
      stopCapture env
      placeBack env s.role fun _ => s.localReady && reason == "escape"
      rearm env : CoordinatorM A B T Unit) :=
    level_local.bind fun _ => moves_level ((aside_stopCapture env).bind fun _ =>
      (aside_placeBack _ _).bind fun _ => aside_rearm env)
  exact hrest.after h₁

theorem level_mayEnter [ActivitySource A] (s : Coordinator A B T) :
    wp mayEnter s (fun accepted s' => Level c s s' ∧ (accepted = true → s.availableEdges ≠ []))
      (fun _ => Level c s) := by
  rw [mayEnter, wp_bind, wp_get, wp_ite]
  refine ⟨fun hmay => ?_, fun _ => ⟨refl_of (Level c) s, fun h => absurd h (by simp)⟩⟩
  rw [wp_bind]
  refine wp_mono sample_activity (fun _ s₁ h₁ => ?_) fun _ s₁ h₁ => ?_
  · obtain ⟨activity, rfl⟩ := h₁
    exact ⟨level_activity activity, fun _ => hmay.2.2.2.1⟩
  · obtain ⟨activity, rfl⟩ := h₁
    exact level_activity activity

theorem level_peerBegin [ActivitySource A] [InputSink B] (session : ℕ) (entry : EdgePosition)
    (s : Coordinator A B T) :
    wp (peerBegin env session entry) s (fun _ => Level c s) (fun _ => Level c s) := by
  have hmay : wp (if (s.entryEdge entry.edgeId).isSome then mayEnter else pure false) s
      (fun accepted s' => Level c s s' ∧ (accepted = true → s.availableEdges ≠ []))
      (fun _ => Level c s) := by
    split_ifs
    · exact level_mayEnter s
    · exact ⟨refl_of (Level c) s, fun h => absurd h (by simp)⟩
  rw [peerBegin, wp_bind, wp_get]
  dsimp only
  rw [wp_bind]
  refine wp_mono hmay (fun accepted s₁ h₁ => ?_) fun _ _ h => h
  obtain ⟨h₁, havailable⟩ := h₁
  split
  next edge _ =>
    refine wp_level_bind h₁ (moves_level (aside_onReceiver _) s₁) fun _ s₂ h₂ => ?_
    refine wp_level_bind h₂ (moves_level (aside_own _) s₂) fun _ s₃ h₃ => ?_
    refine wp_level_bind h₃ (moves_level (aside_place _ _) s₃) fun _ s₄ h₄ => ?_
    rw [setRole, wp_modify]
    exact { h₄ with session := fun _ => .inr (havailable rfl) }
  next => exact h₁
  next =>
    have hrefuse : Moves (Level c) (sendFrame env ⟨.end session none, false⟩ :
        CoordinatorM A B T Unit) := moves_level (aside_sendFrame rfl fun _ => by rintro ⟨⟩)
    exact hrefuse.after h₁

theorem level_peerInput [ActivitySource A] [InputSink B] (session sequence : ℕ) (event : InputEvent)
    (s : Coordinator A B T) :
    wp (peerInput env session sequence event) s (fun _ => Level c s) (fun _ => Level c s) := by
  rw [peerInput, wp_bind, wp_own]
  refine ⟨fun _ _ => ?_, fun _ _ => refl_of (Level c) s⟩
  rw [wp_bind, wp_get, wp_ite]
  refine ⟨fun hrole => ?_, fun _ => refl_of (Level c) s⟩
  rw [wp_bind]
  refine wp_mono sample_activity (fun physical s₁ h₁ => ?_) fun _ s₁ h₁ => ?_
  · obtain ⟨activity, rfl⟩ := h₁
    have h₁ : Level c s { s with activity := activity } := level_activity activity
    cases physical with
    | false =>
        simp only [Bool.false_eq_true, if_false]
        exact wp_level_bind h₁ (moves_level (aside_onReceiver _) _) fun _ _ h₂ => h₂
    | true =>
        simp only [if_true]
        rw [wp_bind]
        refine wp_mono (aside_onReceiver _ _) (fun _ s₂ h₂ => ?_) fun _ s₂ h₂ =>
          trans_of (Level c) h₁ h₂.level
        have hnot : c → s₂.role.isSending = false := fun _ => by
          rw [h₂.role]
          exact hrole ▸ rfl
        exact wp_level_bind (trans_of (Level c) h₁ h₂.level) (level_sendEnd hnot) fun _ s₃ h₃ =>
          level_leave.after h₃
  · obtain ⟨activity, rfl⟩ := h₁
    exact level_activity activity

theorem level_peerEnd [InputSink B] (session : ℕ) (exit : Option EdgePosition) :
    Moves (Level c) (peerEnd env session exit : CoordinatorM A B T Unit) := by
  refine .get_bind fun s => ?_
  rw [wp_ite]
  refine ⟨fun _ => ?_, fun _ => refl_of (Level c) s⟩
  have hrest : Moves (Level c) (do
      setRole .local
      rearm env : CoordinatorM A B T Unit) :=
    level_local.bind fun _ => moves_level (aside_rearm env)
  refine (moves_level (aside_onReceiver _)).bind (fun _ =>
    (moves_level (aside_stopCapture env)).bind fun _ => ?_) s
  cases s.role with
  | «local» | receiving => exact hrest
  | sending n k edge fraction =>
      exact .ite ((moves_level (aside_own _)).bind fun _ =>
        (moves_level (aside_place _ _)).bind fun _ => hrest) hrest

theorem aside_peerTouchpads [InputSink B] (devices : List Touchpad.Descriptor) :
    Moves Aside (peerTouchpads devices : CoordinatorM A B T Unit) := by
  refine .get_bind fun s => (aside_own _).bind (fun _ => (aside_onReceiver _).bind fun _ => ?_) s
  exact .modify fun _ => aside_of_eq rfl

/-- A message says nothing of edges, and unless the device gives up it ends no session of its
own. -/
theorem level_peerMessage [ActivitySource A] [InputSink B] {event : Event} {frame : Frame}
    (h : c → ¬ s.GivesUp F env event (some frame))
    (hdesktop : ∀ info, frame.message ≠ .desktop info) :
    wp (peerMessage F env frame.message) s (fun _ => Level c s) (fun _ => Level c s) := by
  obtain ⟨message, own⟩ := frame
  cases message with
  | desktop info => exact absurd rfl (hdesktop info)
  | layout message =>
      cases message with
      | prepare id edges revision => exact level_layoutPrepare id edges revision h
      | prepared id ok error => exact moves_level (aside_layoutPrepared id ok error) s
      | commit id => exact moves_level (aside_layoutCommit id) s
      | result id ok revision error => exact moves_level (aside_layoutResult id ok revision error) s
      | abort id => exact moves_level (aside_layoutAbort id) s
  | touchpads devices => exact moves_level (aside_peerTouchpads devices) s
  | hello hello => exact refl_of (Level c) s
  | ping nonce => exact moves_level (aside_send rfl rfl) s
  | pong nonce => exact refl_of (Level c) s
  | lockState locked => exact level_peerLockState locked h
  | «begin» session entry => exact level_peerBegin session entry s
  | input session sequence event => exact level_peerInput session sequence event s
  | «end» session exit => exact level_peerEnd session exit s

/-! ### The pointer crosses an edge -/

/-- What is said of the edge that the pointer has crossed: `index` is its place among the edges that
the capture was started with. -/
inductive Crossed (s : Coordinator A B T) (index : ℕ) (fraction : ℚ) : List Frame → Prop where
  | nothing : Crossed s index fraction []
  | starts {edge : ℕ} (hrole : s.role = .local) (hedge : s.captureEdges[index]? = some edge)
      (havailable : edge ∈ s.availableEdges) : Crossed s index fraction
        [⟨.begin s.nextSession ⟨(edgeAt s.config edge).id, fraction⟩, false⟩]
  | returns {edge session : ℕ} (hrole : s.role = .receiving session)
      (hedge : s.captureEdges[index]? = some edge) (havailable : edge ∈ s.availableEdges) :
      Crossed s index fraction [⟨.end session (some ⟨(edgeAt s.config edge).id, fraction⟩), false⟩]

/-- As if the frames `w` had been written before. -/
def Saying (c : Prop) (s : Coordinator A B T) (words : List Frame → Prop)
    (s' : Coordinator A B T) : Prop :=
  ∃ w, words w ∧ Level c { s with outbox := s.outbox ++ w } s'

/-- A part that says nothing of edges says none of these words. -/
theorem Level.saying {words : List Frame → Prop} (h : Level c s s') (hwords : words []) :
    Saying c s words s' := by
  refine ⟨[], hwords, ?_⟩
  have hsame : { s with outbox := s.outbox ++ [] } = s := by rw [List.append_nil]
  rw [hsame]
  exact h

theorem Saying.level {words : List Frame → Prop} {s'' : Coordinator A B T} (h : Saying c s words s')
    (h' : Level c s' s'') : Saying c s words s'' := by
  obtain ⟨w, hw, h⟩ := h
  exact ⟨w, hw, trans_of (Level c) h h'⟩

/-- A frame of the crossing is written. -/
theorem wp_saying_send {words : List Frame → Prop} {s₀ : Coordinator A B T} {frame : Frame}
    {f : Unit → CoordinatorM A B T Unit} (h : Level c s₀ s) (houtbox : s.outbox = s₀.outbox)
    (hnone : words []) (hwords : words [frame])
    (hf : ∀ s', Saying c s₀ words s' → s' = { s with outbox := s.outbox ++ [frame] } →
      wp (f ()) s' (fun _ => Saying c s₀ words) (fun _ => Saying c s₀ words)) :
    wp (sendFrame env frame >>= f) s (fun _ => Saying c s₀ words) (fun _ => Saying c s₀ words) := by
  have hsaid : Saying c s₀ words { s with outbox := s.outbox ++ [frame] } :=
    ⟨[frame], hwords,
      ⟨⟨h.config, h.desktop, h.peerDesktop, by rw [houtbox], fun _ _ => houtbox ▸ id⟩,
      h.available, h.captured, h.desktopEpoch, h.captureEpoch, h.capture, h.session⟩⟩
  rw [wp_bind]
  refine wp_mono (sendFrame_spec env frame s) (fun _ s' hs => hf s' (hs ▸ hsaid) hs)
    fun stop s' hs => ?_
  obtain ⟨-, rfl | rfl⟩ := hs
  · exact h.saying hnone
  · exact hsaid

theorem level_enterKeys (codes : List ℕ) :
    Moves (Level c) (enterKeys env codes : CoordinatorM A B T Unit) := by
  induction codes with
  | nil => exact .pure ()
  | cons code codes ih =>
      have hkey :
          Moves (Level c) (forwardKeyboard env (.key code true) : CoordinatorM A B T Bool) :=
        fun s => wp_mono (level_forwardKeyboard _ [] s) (fun _ _ h => h.1) fun _ _ h => h
      exact hkey.bind fun _ => ih

/-- A session that begins is announced on the edge that was crossed. -/
theorem startSession_spec [ActivitySource A] {index edge : ℕ} {fraction : ℚ} (s : Coordinator A B T)
    (hrole : s.role = .local) (hedge : s.captureEdges[index]? = some edge)
    (havailable : edge ∈ s.availableEdges) :
    wp (startSession env edge fraction) s (fun _ => Saying c s (Crossed s index fraction))
      (fun _ => Saying c s (Crossed s index fraction)) := by
  have hnone : ∀ {s'}, Level c s s' → Saying c s (Crossed s index fraction) s' :=
    fun h => h.saying .nothing
  have hactivity : ∀ activity, Level c s { s with activity := activity } := level_activity
  rw [startSession, wp_bind]
  refine wp_mono sample_activity (fun _ s₁ h₁ => ?_) fun _ s₁ h₁ => ?_
  · obtain ⟨activity, rfl⟩ := h₁
    rw [wp_bind, wp_get, takeKeyboardEvents, wp_bind, wp_bind, wp_get, wp_bind, wp_set,
      wp_pure, wp_ite]
    refine ⟨fun _ => ?_, fun _ => ?_⟩
    · have hrest : Moves (Level c) (do
          stopCapture env
          rearm env : CoordinatorM A B T Unit) :=
        moves_level ((aside_stopCapture env).bind fun _ => aside_rearm env)
      exact wp_mono (hrest.after (hactivity _)) (fun _ _ => hnone) fun _ _ => hnone
    · rw [wp_bind, wp_own]
      refine ⟨fun _ _ => ?_, fun _ _ => hnone (hactivity _)⟩
      rw [wp_bind, wp_modify]
      have hready :
          ∀ activity next, Level c s { s with activity := activity, nextSession := next } :=
        fun _ _ => ⟨⟨rfl, rfl, rfl, rfl, fun _ _ => id⟩, rfl, rfl, rfl, rfl, id, .inl⟩
      refine wp_saying_send (hready _ _) rfl .nothing (.starts hrole hedge havailable)
        fun s₂ h₂ hs₂ => ?_
      have hne : s₂.availableEdges ≠ [] := by
        rw [hs₂]
        exact List.ne_nil_of_mem havailable
      rw [wp_bind, wp_modify]
      have h₃ : Saying c s (Crossed s index fraction)
          { s₂ with role := .sending s.nextSession 0 edge fraction, sourceKeys := ∅ } :=
        h₂.level ⟨⟨rfl, rfl, rfl, rfl, fun _ _ => id⟩, rfl, rfl, rfl, rfl, id, fun _ => .inr hne⟩
      exact wp_mono (level_enterKeys _ _) (fun _ _ => h₃.level) fun _ _ => h₃.level
  · obtain ⟨activity, rfl⟩ := h₁
    exact hnone (hactivity activity)

/-- **The pointer has crossed an edge**: what is said is about that edge. -/
theorem captureStarted_spec [ActivitySource A] [InputSink B] (index : ℕ) (fraction : ℚ)
    (s : Coordinator A B T) :
    wp (captureStarted env index fraction) s (fun _ => Saying c s (Crossed s index fraction))
      (fun _ => Saying c s (Crossed s index fraction)) := by
  have hnone : ∀ {s'}, Level c s s' → Saying c s (Crossed s index fraction) s' :=
    fun h => h.saying .nothing
  have hstop := moves_level (c := c) (aside_stopCapture (A := A) (B := B) env) s
  rw [captureStarted, wp_bind, wp_get, wp_bind, wp_own]
  refine ⟨fun edge hedge => ?_, fun _ _ => hnone (refl_of (Level c) s)⟩
  rw [wp_bind, wp_own]
  refine ⟨fun _ havailable => ?_, fun _ _ => hnone (refl_of (Level c) s)⟩
  rw [orError_eq_ok] at hedge
  rw [ensure_eq_ok] at havailable
  -- a local device begins a session, one that receives returns the pointer
  cases hr : s.role with
  | «local» =>
      rw [wp_ite]
      exact ⟨fun _ => startSession_spec s hr hedge havailable,
        fun _ => wp_mono hstop (fun _ _ => hnone) fun _ _ => hnone⟩
  | sending => exact wp_mono hstop (fun _ _ => hnone) fun _ _ => hnone
  | receiving session =>
      have hkeeps : Keeps Coordinator.outbox (onReceiver (Receiver.end session) :
          CoordinatorM A B T Unit) := by
        intro s
        rw [wp_onReceiver]
        exact wp_mono (wp_true _ _) (fun _ _ _ => rfl) fun _ _ _ => rfl
      rw [wp_bind]
      refine wp_mono (wp_and (aside_onReceiver _ s) (hkeeps s)) (fun _ s₁ h₁ => ?_)
        fun _ _ h₁ => hnone h₁.1.level
      obtain ⟨h₁, houtbox⟩ := h₁
      have hown : s₁.role.isSending = false := by
        rw [h₁.role, hr]
        rfl
      rw [sendEnd, bind_assoc, wp_bind, wp_get, hown]
      refine wp_saying_send h₁.level houtbox .nothing (.returns hr hedge havailable)
        fun s₂ h₂ _ => ?_
      have hrest : Moves (Level c) (do
          setRole .local
          stopCapture env
          place env (edgeAt s.config edge) fraction
          rearm env : CoordinatorM A B T Unit) :=
        level_local.bind fun _ => moves_level ((aside_stopCapture env).bind fun _ =>
          (aside_place _ _).bind fun _ => aside_rearm env)
      exact wp_mono (hrest s₂) (fun _ _ => h₂.level) fun _ _ => h₂.level

end NiriBridge.Coordinator
