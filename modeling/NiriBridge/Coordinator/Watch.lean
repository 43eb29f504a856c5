import NiriBridge.Coordinator.Messages
import NiriBridge.Keys.Monitor

/-!
# Coordinator — Watch

What the parts of the loop have to do with the keys of the source.  Most of them leave the keys, the
devices, the role and the session messages alone (`Still`).  The others, but for those that read the
devices, are `Calm`: they may end a session, they may forward what is not a key, and a coordinator
without session stays silent.
-/

namespace NiriBridge.Coordinator

open Hoare Session

variable {B T D : Type} {α : Type} {F : Format T D} {env : Env T}

/-- A coordinator whose activity comes from evdev devices. -/
abbrev Watched (B T : Type) := Coordinator ActivityMonitor B T

/-- What a part of the loop has nothing to do with. -/
structure Still (s s' : Watched B T) : Prop where
  keys : s'.sourceKeys = s.sourceKeys
  activity : s'.activity = s.activity
  role : s'.role = s.role
  ready : s'.localReady = s.localReady ∧ s'.peerReady = s.peerReady
  signals : signals s'.outbox = signals s.outbox

/-- No key is read, and no session starts. -/
structure Calm (s s' : Watched B T) : Prop where
  keys : s'.sourceKeys = s.sourceKeys
  keyboard : s'.activity.keyboard = s.activity.keyboard
  sending : s'.role.isSending = true → s.role.isSending = true
  silent : s.role = .local → s'.role = .local ∧ signals s'.outbox = signals s.outbox
  begun : ∀ n, .begin n ∈ signals s'.outbox → .begin n ∈ signals s.outbox

instance : IsPreorder (Watched B T) Still where
  refl _ := ⟨rfl, rfl, rfl, ⟨rfl, rfl⟩, rfl⟩
  trans _ _ _ h h' := ⟨h'.keys.trans h.keys, h'.activity.trans h.activity, h'.role.trans h.role,
    ⟨h'.ready.1.trans h.ready.1, h'.ready.2.trans h.ready.2⟩, h'.signals.trans h.signals⟩

instance : IsPreorder (Watched B T) Calm where
  refl _ := ⟨rfl, rfl, id, fun h => ⟨h, rfl⟩, fun _ => id⟩
  trans _ _ _ h h' := ⟨h'.keys.trans h.keys, h'.keyboard.trans h.keyboard, h.sending ∘ h'.sending,
    fun hr => ⟨(h'.silent (h.silent hr).1).1, (h'.silent (h.silent hr).1).2.trans (h.silent hr).2⟩,
    fun n hn => h.begun n (h'.begun n hn)⟩

variable {s s' : Watched B T}

theorem Still.calm (h : Still s s') : Calm s s' :=
  ⟨h.keys, congrArg ActivityMonitor.keyboard h.activity, fun hs => h.role ▸ hs,
    fun hr => ⟨h.role.trans hr, h.signals⟩, fun _ hn => h.signals ▸ hn⟩

/-- A frame that begins no session adds no beginning. -/
theorem mem_signals_push {l : List Frame} {frame : Frame} {n : ℕ}
    (h : ∀ n, frame.signal ≠ some (.begin n)) (hn : .begin n ∈ signals (l ++ [frame])) :
    .begin n ∈ signals l := by
  rw [signals_append, List.mem_append] at hn
  refine hn.resolve_right fun hn => ?_
  obtain ⟨frame', hframe, hn⟩ := List.mem_filterMap.mp hn
  exact h n (List.mem_singleton.mp hframe ▸ hn)

/-- A message of a session that there is. -/
theorem calm_push {frame : Frame} (hrole : s.role ≠ .local)
    (h : ∀ n, frame.signal ≠ some (.begin n)) :
    Calm s { s with outbox := s.outbox ++ [frame] } :=
  ⟨rfl, rfl, id, fun hr => absurd hr hrole, fun _ => mem_signals_push h⟩

theorem moves_calm {m : CoordinatorM ActivityMonitor B T α} (h : Moves Still m) :
    Moves Calm m := fun s =>
  wp_mono (h s) (fun _ _ => Still.calm) fun _ _ => Still.calm

/-! ### What leaves everything alone -/

theorem still_own (r : Result α) : Moves Still (own r : CoordinatorM ActivityMonitor B T α) :=
  .lift r

theorem still_external (r : Result α) :
    Moves Still (external r : CoordinatorM ActivityMonitor B T α) :=
  .lift r

theorem still_onReceiver (m : ReceiverM B α) :
    Moves Still (onReceiver m : CoordinatorM ActivityMonitor B T α) :=
  .zoom (S := fun _ _ => True) (fun _ _ _ => ⟨rfl, rfl, rfl, ⟨rfl, rfl⟩, rfl⟩) fun r => wp_true m r

theorem still_onFiles (m : FilesM T α) :
    Moves Still (onFiles m : CoordinatorM ActivityMonitor B T (Except Error α)) := by
  intro s
  rw [wp_onFiles]
  exact wp_mono (wp_true m s.files) (fun _ _ _ => ⟨rfl, rfl, rfl, ⟨rfl, rfl⟩, rfl⟩)
    fun _ _ _ => ⟨rfl, rfl, rfl, ⟨rfl, rfl⟩, rfl⟩

theorem still_send {message : Message} (hm : (Frame.mk message false).signal = none) :
    Moves Still (send env message : CoordinatorM ActivityMonitor B T Unit) := by
  intro s
  have hsent : Still s { s with outbox := s.outbox ++ [⟨message, false⟩] } := by
    refine ⟨rfl, rfl, rfl, ⟨rfl, rfl⟩, ?_⟩
    simp [signals, hm]
  refine wp_mono (sendFrame_spec env _ s) (fun _ s' hs => hs ▸ hsent) fun stop s' hs => ?_
  obtain ⟨-, rfl | rfl⟩ := hs
  · exact refl_of Still s'
  · exact hsent

theorem still_stopCapture (env : Env T) :
    Moves Still (stopCapture env : CoordinatorM ActivityMonitor B T Unit) := by
  intro s
  exact wp_mono (stopCapture_spec env s) (fun _ s' hs => hs ▸ ⟨rfl, rfl, rfl, ⟨rfl, rfl⟩, rfl⟩)
    fun _ s' hs => hs.2 ▸ ⟨rfl, rfl, rfl, ⟨rfl, rfl⟩, rfl⟩

theorem still_rearm (env : Env T) :
    Moves Still (rearm env : CoordinatorM ActivityMonitor B T Unit) :=
  .modify fun _ => ⟨rfl, rfl, rfl, ⟨rfl, rfl⟩, rfl⟩

theorem still_answer (client : ℕ) (reply : Reply) :
    Moves Still (answer client reply : CoordinatorM ActivityMonitor B T Unit) :=
  .modify fun _ => ⟨rfl, rfl, rfl, ⟨rfl, rfl⟩, rfl⟩

theorem still_place [InputSink B] (edge : EdgeConfig) (fraction : ℚ) :
    Moves Still (place env edge fraction : CoordinatorM ActivityMonitor B T Unit) :=
  (still_external _).bind fun _ => (still_own _).bind fun _ => still_onReceiver _

theorem still_placeBack [InputSink B] (role : Role) (condition : ℕ → Bool) :
    Moves Still (placeBack env role condition : CoordinatorM ActivityMonitor B T Unit) := by
  refine .get_bind fun s => ?_
  cases role with
  | sending session sequence edge fraction =>
      exact Moves.ite (still_place _ _) (.pure ()) s
  | «local» | receiving => exact refl_of Still s

/-! ### The layout in scope -/

theorem still_dropPending (F : Format T D) (env : Env T) (pending : PendingLayout T) :
    Moves Still (dropPending F env pending : CoordinatorM ActivityMonitor B T Unit) := by
  refine (still_onFiles _).bind fun _ => ?_
  cases pending.reply with
  | none => exact .pure ()
  | some client => exact still_answer client _

theorem still_abandon (F : Format T D) (env : Env T) (pending : PendingLayout T) (code : String) :
    Moves Still (abandon F env pending code : CoordinatorM ActivityMonitor B T Unit) := by
  rw [abandon]
  cases pending.reply with
  | none => exact still_dropPending F env _
  | some client => exact (still_answer client _).bind fun _ => still_dropPending F env _

/-- A layout is pending while the part runs. -/
theorem moves_holding {R : Watched B T → Watched B T → Prop} [IsPreorder (Watched B T) R]
    (F : Format T D) (env : Env T) (hR : ∀ s s', Still s s' → R s s')
    {m : CoordinatorM ActivityMonitor B T α} (hm : Moves R m) (pending : PendingLayout T) :
    Moves R (holding F env pending m) := by
  intro s
  rw [holding, wp_bind, wp_attempt]
  refine wp_mono (hm s) (fun _ _ h => h) fun stop s₁ h => ?_
  rw [wp_bind]
  have hdrop : Moves R (dropPending F env pending : CoordinatorM ActivityMonitor B T Unit) :=
    fun s =>
    wp_mono (still_dropPending F env pending s) (fun _ => hR s) fun _ => hR s
  exact wp_mono (hdrop.after h) (fun _ _ => id) fun _ _ => id

/-- A layout is given up without the keys. -/
theorem still_expireLayout (F : Format T D) (env : Env T) :
    Moves Still (expireLayout F env : CoordinatorM ActivityMonitor B T Unit) := by
  refine .get_bind fun s => ?_
  cases s.pendingLayout with
  | none => exact refl_of Still s
  | some pending =>
      rw [wp_ite]
      refine ⟨fun _ => ?_, fun _ => refl_of Still s⟩
      rw [wp_bind, wp_set]
      have habort : Moves Still
          (send env (.layout (.abort pending.id)) : CoordinatorM ActivityMonitor B T Unit) :=
            still_send rfl
      have hrest := (moves_holding F env (fun _ _ h => h) habort pending).bind fun _ =>
        still_abandon F env pending "layout_unconfirmed"
      exact hrest.after ⟨rfl, rfl, rfl, ⟨rfl, rfl⟩, rfl⟩

theorem still_beat (env : Env T) :
    Moves Still (beat env : CoordinatorM ActivityMonitor B T Unit) := by
  refine .get_bind fun s => ?_
  refine Moves.ite (Moves.bind (still_send rfl) fun _ => ?_) (.pure ()) s
  exact .modify fun _ => ⟨rfl, rfl, rfl, ⟨rfl, rfl⟩, rfl⟩

/-! ### What ends a session -/

theorem calm_setRole : Moves Calm (setRole .local : CoordinatorM ActivityMonitor B T Unit) :=
  .modify fun _ => ⟨rfl, rfl, by rintro ⟨⟩, fun _ => ⟨rfl, rfl⟩, fun _ => id⟩

/-- The end of a session that there is. -/
theorem calm_sendEnd {session : ℕ} {exit : Option EdgePosition} (hrole : s.role ≠ .local) :
    wp (sendEnd env session exit) s (fun _ => Calm s) (fun _ => Calm s) := by
  rw [sendEnd, wp_bind, wp_get]
  refine wp_mono (sendFrame_spec env _ s) (fun _ s' hs => ?_) fun stop s' hs => ?_
  · rw [hs]
    exact calm_push hrole fun _ => by rintro ⟨⟩
  · obtain ⟨-, rfl | rfl⟩ := hs
    · exact refl_of Calm s'
    · exact calm_push hrole fun _ => by rintro ⟨⟩

/-- A role with a session is not local. -/
theorem role_ne_local {session : ℕ} (h : s.role.session = some session) : s.role ≠ .local := by
  intro hr
  rw [hr] at h
  cases h

theorem calm_endSession [InputSink B] (env : Env T) :
    Moves Calm (endSession env : CoordinatorM ActivityMonitor B T Unit) := by
  refine .get_bind fun s => ?_
  cases hs : s.role.session with
  | none => exact refl_of Calm s
  | some session =>
      have hrole := role_ne_local hs
      rw [wp_bind]
      refine wp_mono (still_onReceiver _ s) (fun _ s₁ h₁ => ?_) fun _ s₁ h₁ => h₁.calm
      have hrole₁ : s₁.role ≠ .local := h₁.role ▸ hrole
      exact wp_mono (calm_sendEnd hrole₁) (fun _ _ h₂ => trans_of Calm h₁.calm h₂)
        fun _ _ h₂ => trans_of Calm h₁.calm h₂

theorem calm_announceEnd (env : Env T) :
    Moves Calm (announceEnd env : CoordinatorM ActivityMonitor B T Unit) := by
  refine .get_bind fun s => ?_
  cases hs : s.role.session with
  | none => exact refl_of Calm s
  | some session => exact calm_sendEnd (role_ne_local hs)

theorem calm_makeRoom [InputSink B] (env : Env T) : Moves Calm (do
    endSession env
    stopCapture env
    setRole .local : CoordinatorM ActivityMonitor B T Unit) :=
  (calm_endSession env).bind fun _ =>
    (moves_calm (still_stopCapture env)).bind fun _ => calm_setRole

theorem calm_takeOver [InputSink B] (physical : Bool) :
    Moves Calm (takeOver env physical : CoordinatorM ActivityMonitor B T Unit) := by
  refine .get_bind fun s => ?_
  cases s.role with
  | «local» | sending => exact refl_of Calm s
  | receiving session =>
      have hend : Moves Calm (do
          onReceiver Receiver.physicalActivity
          announceEnd env
          setRole .local
          stopCapture env
          rearm env : CoordinatorM ActivityMonitor B T Unit) :=
        (moves_calm (still_onReceiver _)).bind fun _ => (calm_announceEnd env).bind fun _ =>
          calm_setRole.bind fun _ =>
            moves_calm ((still_stopCapture env).bind fun _ => still_rearm env)
      exact Moves.ite hend (.pure ()) s

theorem calm_reapCapture (env : Env T) :
    Moves Calm (reapCapture env : CoordinatorM ActivityMonitor B T Unit) := by
  refine .get_bind fun s => ?_
  rw [wp_ite]
  refine ⟨fun _ => ?_, fun _ => refl_of Calm s⟩
  rw [wp_bind]
  refine wp_mono (still_stopCapture env s) (fun _ s₁ h₁ => ?_) fun _ _ => Still.calm
  have hrearm := moves_calm (still_rearm (B := B) env)
  cases hr : s.role with
  | «local» | receiving => exact hrearm.after h₁.calm
  | sending session sequence edge fraction =>
      have hrole₁ : s₁.role ≠ .local := by
        rw [h₁.role, hr]
        nofun
      rw [wp_bind]
      refine wp_mono (calm_sendEnd hrole₁) (fun _ s₂ h₂ => ?_) fun _ s₂ h₂ =>
        trans_of Calm h₁.calm h₂
      have hlocal := calm_setRole.bind fun _ => hrearm
      exact hlocal.after (trans_of Calm h₁.calm h₂)

theorem calm_leaveOutdated [InputSink B] (env : Env T) :
    Moves Calm (leaveOutdated env : CoordinatorM ActivityMonitor B T Unit) := by
  refine .get_bind fun s => ?_
  have hend : Moves Calm (do
      endSession env
      stopCapture env
      placeBack env s.role fun edge =>
        s.localReady && s.desktop.outputs.containsKey (edgeAt s.config edge).output
      setRole .local
      modify fun s => { s with rearmAt := env.headNow + 150 } :
        CoordinatorM ActivityMonitor B T Unit) :=
    (calm_endSession env).bind fun _ => (moves_calm (still_stopCapture env)).bind fun _ =>
      (moves_calm (still_placeBack _ _)).bind fun _ => calm_setRole.bind fun _ =>
        .modify fun _ => ⟨rfl, rfl, id, fun hr => ⟨hr, rfl⟩, fun _ => id⟩
  exact Moves.ite hend (.pure ()) s

/-! ### What forwards inputs -/

theorem calm_sendInput (event : InputEvent) :
    Moves Calm (sendInput env event : CoordinatorM ActivityMonitor B T Unit) := by
  refine .get_bind fun s => ?_
  cases hr : s.role with
  | «local» | receiving => exact refl_of Calm s
  | sending session sequence edge fraction =>
      have hrole : s.role ≠ .local := by
        rw [hr]
        nofun
      have hsent :
          Calm s { s with outbox := s.outbox ++ [⟨.input session sequence event, false⟩] } :=
        calm_push hrole fun _ => by rintro ⟨⟩
      rw [wp_bind]
      refine wp_mono (sendFrame_spec env _ s) (fun _ s₁ hs₁ => ?_) fun stop s₁ hs₁ => ?_
      · rw [wp_bind, wp_own, hs₁]
        refine ⟨fun _ _ => ?_, fun _ _ => hsent⟩
        rw [setRole, wp_modify]
        exact ⟨rfl, rfl, fun _ => by rw [hr]; rfl, fun hr => absurd hr hrole, hsent.begun⟩
      · obtain ⟨-, rfl | rfl⟩ := hs₁
        · exact refl_of Calm s₁
        · exact hsent

theorem calm_sendInputs (events : List InputEvent) :
    Moves Calm (sendInputs env events : CoordinatorM ActivityMonitor B T Unit) := by
  induction events with
  | nil => exact .pure ()
  | cons event events ih => exact (calm_sendInput event).bind fun _ => ih

theorem calm_head [InputSink B] (env : Env T) :
    Moves Calm (head env : CoordinatorM ActivityMonitor B T Unit) := by
  have hedges : Moves Calm (modify fun s : Watched B T =>
      { s with availableEdges := activeEdges s.desktop s.peerDesktop } :
      CoordinatorM ActivityMonitor B T PUnit) :=
        .modify fun _ => ⟨rfl, rfl, id, fun hr => ⟨hr, rfl⟩, fun _ => id⟩
  have harm : Moves Calm (armCapture env : CoordinatorM ActivityMonitor B T Unit) := by
    refine .modify fun s => ?_
    split_ifs
    · exact ⟨rfl, rfl, id, fun hr => ⟨hr, rfl⟩, fun _ => id⟩
    · exact refl_of Calm s
  refine hedges.bind fun _ => (calm_leaveOutdated env).bind fun _ => .get_bind fun s => ?_
  rw [wp_bind, wp_onActivity]
  have hcalm : ∀ m : ActivityMonitor, m.keyboard = s.activity.keyboard →
      Calm s { s with activity := m } :=
    fun m hm => ⟨rfl, hm, id, fun hr => ⟨hr, rfl⟩, fun _ => id⟩
  refine wp_mono (ActivityMonitor.keeps_routeTouchpads s.role.isSending s.activity)
    (fun events m hm => ?_) fun _ m hm => hcalm m hm
  exact ((calm_sendInputs events).bind fun _ => harm).after (hcalm m hm)

/-! ### The branches that do not read the devices -/

theorem calm_outputsChanged (outputs : Outputs) :
    Moves Calm (outputsChanged env outputs : CoordinatorM ActivityMonitor B T Unit) := by
  refine moves_calm (.bind (.modify fun _ => ⟨rfl, rfl, rfl, ⟨rfl, rfl⟩, rfl⟩) fun _ => ?_)
  exact .get_bind fun s => still_send rfl s

theorem calm_releaseControl [InputSink B] (client : ℕ) :
    Moves Calm (releaseControl env client : CoordinatorM ActivityMonitor B T Unit) :=
  (calm_endSession env).bind fun _ => (moves_calm (still_stopCapture env)).bind fun _ =>
    .get_bind fun s => (moves_calm (still_placeBack _ _)).bind (fun _ => calm_setRole.bind fun _ =>
      moves_calm ((still_rearm env).bind fun _ => still_answer client _)) s

theorem still_prepareLayout (checked : Result Path) (revision : String) (edges : List EdgeConfig) :
    Moves Still (prepareLayout F env checked revision edges :
      CoordinatorM ActivityMonitor B T (Except Error (Prepared T))) := by
  cases checked with
  | error e => exact .pure (Except.error e)
  | ok path => exact still_onFiles _

theorem calm_applyLayout [InputSink B] (client : ℕ) (layout : LayoutRequest) :
    Moves Calm (applyLayout F env client layout : CoordinatorM ActivityMonitor B T Unit) := by
  refine .get_bind fun s => (moves_calm (still_prepareLayout _ _ _)).bind (fun r => ?_) s
  cases r with
  | error e => exact moves_calm (still_answer client _)
  | ok prepared =>
      have hroom : Moves Calm (do
          endSession env
          stopCapture env
          setRole .local
          external env.transactionId : CoordinatorM ActivityMonitor B T String) :=
        (calm_endSession env).bind fun _ => (moves_calm (still_stopCapture env)).bind fun _ =>
          calm_setRole.bind fun _ => moves_calm (still_external _)
      refine (moves_holding F env (fun _ _ => Still.calm) hroom _).bind fun id => moves_calm ?_
      exact .bind (.modify fun _ => ⟨rfl, rfl, rfl, ⟨rfl, rfl⟩, rfl⟩) fun _ => still_send rfl

theorem calm_layoutPrepare [InputSink B] (id : String) (edges : List EdgeConfig)
    (revision : String) :
    Moves Calm (layoutPrepare F env id edges revision : CoordinatorM ActivityMonitor B T Unit) := by
  refine .get_bind fun s => (moves_calm (still_prepareLayout _ _ _)).bind (fun r => ?_) s
  cases r with
  | error e => exact moves_calm (still_send rfl)
  | ok prepared =>
      refine (moves_holding F env (fun _ _ => Still.calm) (calm_makeRoom env) _).bind fun _ =>
        moves_calm ?_
      exact .bind (.modify fun _ => ⟨rfl, rfl, rfl, ⟨rfl, rfl⟩, rfl⟩) fun _ => still_send rfl

/-- The layout is taken out of its place. -/
theorem still_unpend (s : Watched B T) : Still s { s with pendingLayout := none } :=
  ⟨rfl, rfl, rfl, ⟨rfl, rfl⟩, rfl⟩

theorem still_layoutPrepared (id : String) (ok : Bool) (error : Option String) :
    Moves Still (layoutPrepared F env id ok error : CoordinatorM ActivityMonitor B T Unit) := by
  refine .get_bind fun s => ?_
  cases s.pendingWith id true with
  | none => exact refl_of Still s
  | some pending =>
      rw [wp_bind, wp_set]
      have habort : Moves Still
          (send env (.layout (.abort id)) : CoordinatorM ActivityMonitor B T Unit) := still_send rfl
      have hcommit : Moves Still (if ok then
          onFiles (pending.prepared.commit F (env.outputs.map OutputTable.logical) env.edit)
        else pure (.error [error.getD "operation_failed"]) :
          CoordinatorM ActivityMonitor B T (Except Error (Prepared T))) :=
        .ite (still_onFiles _) (.pure _)
      refine Moves.after (hcommit.bind fun r => ?_) (still_unpend s)
      cases r with
      | error e =>
          exact (moves_holding F env (fun _ _ h => h) habort pending).bind fun _ =>
            still_abandon F env pending _
      | ok prepared =>
          exact .bind (.modify fun _ => ⟨rfl, rfl, rfl, ⟨rfl, rfl⟩, rfl⟩) fun _ => still_send rfl

theorem still_layoutCommit (id : String) :
    Moves Still (layoutCommit F env id : CoordinatorM ActivityMonitor B T Unit) := by
  refine .get_bind fun s => ?_
  cases s.pendingWith id false with
  | none => exact refl_of Still s
  | some pending =>
      rw [wp_bind, wp_set]
      refine Moves.after ((still_onFiles _).bind fun r => ?_) (still_unpend s)
      cases r with
      | ok prepared =>
          exact (still_onFiles _).bind fun _ => (still_send rfl).bind fun _ s => refl_of Still s
      | error e =>
          have hresult :
            Moves Still (send env (.layout (.result id false none (some (errorCode e)))) :
            CoordinatorM ActivityMonitor B T Unit) := still_send rfl
          exact (moves_holding F env (fun _ _ h => h) hresult pending).bind fun _ =>
            still_dropPending F env pending

theorem still_layoutResult (id : String) (ok : Bool) (revision error : Option String) :
    Moves Still
      (layoutResult F env id ok revision error : CoordinatorM ActivityMonitor B T Unit) := by
  refine .get_bind fun s => ?_
  cases s.pendingWith id true with
  | none => exact refl_of Still s
  | some pending =>
      rw [wp_bind, wp_set]
      refine Moves.after (.ite ((still_onFiles _).bind fun _ => ?_) (still_abandon F env pending _))
        (still_unpend s)
      cases pending.reply with
      | none => exact fun s => refl_of Still s
      | some client => exact (still_answer client _).bind fun _ s => refl_of Still s

theorem still_layoutAbort (id : String) :
    Moves Still (layoutAbort F env id : CoordinatorM ActivityMonitor B T Unit) := by
  refine .get_bind fun s => ?_
  cases s.pendingLayout.filter (·.id == id) with
  | none => exact refl_of Still s
  | some pending =>
      rw [wp_bind, wp_set]
      exact (still_abandon F env pending _).after (still_unpend s)

theorem calm_layoutMessage [InputSink B] (message : LayoutMessage) :
    Moves Calm (layoutMessage F env message : CoordinatorM ActivityMonitor B T Unit) := by
  cases message with
  | prepare id edges revision => exact calm_layoutPrepare id edges revision
  | prepared id ok error => exact moves_calm (still_layoutPrepared id ok error)
  | commit id => exact moves_calm (still_layoutCommit id)
  | result id ok revision error => exact moves_calm (still_layoutResult id ok revision error)
  | abort id => exact moves_calm (still_layoutAbort id)

theorem calm_captureInput (event : InputEvent) :
    Moves Calm (captureInput env event : CoordinatorM ActivityMonitor B T Unit) := by
  refine .get_bind fun s => ?_
  split
  · exact refl_of Calm s
  · exact (moves_calm (still_own _)).bind (fun _ => calm_sendInput _) s
  · exact refl_of Calm s

theorem calm_captureEnded [InputSink B] (reason : String) :
    Moves Calm (captureEnded env reason : CoordinatorM ActivityMonitor B T Unit) :=
  .get_bind fun s => (calm_endSession env).bind (fun _ => calm_setRole.bind fun _ =>
    moves_calm ((still_stopCapture env).bind fun _ => (still_placeBack s.role _).bind fun _ =>
      still_rearm env)) s

theorem calm_peerTouchpads [InputSink B] (devices : List Touchpad.Descriptor) :
    Moves Calm (peerTouchpads devices : CoordinatorM ActivityMonitor B T Unit) := by
  refine .get_bind fun s => (moves_calm (still_own _)).bind (fun _ => ?_) s
  refine moves_calm ((still_onReceiver _).bind fun _ => ?_)
  exact .modify fun s => ⟨rfl, rfl, rfl, ⟨rfl, rfl⟩, rfl⟩

theorem calm_peerEnd [InputSink B] (session : ℕ) (exit : Option EdgePosition) :
    Moves Calm (peerEnd env session exit : CoordinatorM ActivityMonitor B T Unit) := by
  refine .get_bind fun s => ?_
  rw [wp_ite]
  refine ⟨fun _ => ?_, fun _ => refl_of Calm s⟩
  have hrest : Moves Calm (do
      setRole .local
      rearm env : CoordinatorM ActivityMonitor B T Unit) :=
    calm_setRole.bind fun _ => moves_calm (still_rearm env)
  refine (moves_calm (still_onReceiver _)).bind (fun _ =>
    (moves_calm (still_stopCapture env)).bind fun _ => ?_) s
  cases s.role with
  | «local» | receiving => exact hrest
  | sending n k edge fraction =>
      exact .ite ((moves_calm (still_own _)).bind fun _ =>
        (moves_calm (still_place _ _)).bind fun _ => hrest) hrest

end NiriBridge.Coordinator
