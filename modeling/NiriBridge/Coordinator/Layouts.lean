import NiriBridge.Coordinator.Relations
import NiriBridge.Manager.Prepared

/-!
# Coordinator — Layouts

What a pass of the loop has to do with layouts: the pending one, the configuration file, the answers
to control clients, and the messages about layouts that are written.  Only the branches for layouts
and `Request::Release` touch any of these; everything else keeps them (`Keeps desk`).

* `Half`, `Offer`: one half of a layout as it is prepared (`prepareEdges_offer`).
* `Undone`: what the file holds when a half is given up (`dropPending_hand`, `abandon_hand`).
* `holding_hand`: a part of the loop with a layout in scope drops it when it fails.
-/

namespace NiriBridge

open Hoare Session

variable {A B T D : Type} {α : Type}

/-- What a frame says about a layout. -/
def Frame.layout (frame : Frame) : Option LayoutMessage :=
  match frame.message with
  | .layout m => some m
  | _ => none

/-- What the frames say about layouts. -/
def layouts (frames : List Frame) : List LayoutMessage := frames.filterMap Frame.layout

theorem layouts_append (l l' : List Frame) : layouts (l ++ l') = layouts l ++ layouts l' :=
  List.filterMap_append ..

theorem layouts_push {frame : Frame} (l : List Frame) (h : frame.layout = none) :
    layouts (l ++ [frame]) = layouts l := by
  simp [layouts, h]

/-- What a device holds of layouts. -/
structure Hand (T : Type) where
  pending : Option (PendingLayout T)
  config : Option T
  replies : List (ℕ × Reply)

namespace Coordinator

variable {F : Format T D} {env : Env T} {s : Coordinator A B T}

/-- What a coordinator has in hand for a layout. -/
def hand (s : Coordinator A B T) : Hand T := ⟨s.pendingLayout, s.files.config, s.replies⟩

/-- What the parts of the loop that are not about layouts leave alone. -/
def desk (s : Coordinator A B T) : Hand T × List LayoutMessage := (s.hand, layouts s.outbox)

/-! ### What is not about layouts -/

theorem keeps_own (r : Result α) : Keeps desk (own r : CoordinatorM A B T α) := .lift r

theorem keeps_external (r : Result α) : Keeps desk (external r : CoordinatorM A B T α) := .lift r

theorem keeps_onReceiver (m : ReceiverM B α) :
    Keeps desk (onReceiver m : CoordinatorM A B T α) := by
  intro s
  rw [wp_onReceiver]
  exact wp_mono (wp_true m s.receiver) (fun _ _ _ => rfl) fun _ _ _ => rfl

theorem keeps_onActivity (m : EStateM Error A α) :
    Keeps desk (onActivity m : CoordinatorM A B T α) := by
  intro s
  rw [wp_onActivity]
  exact wp_mono (wp_true m s.activity) (fun _ _ _ => rfl) fun _ _ _ => rfl

theorem keeps_sendFrame {frame : Frame} (h : frame.layout = none) :
    Keeps desk (sendFrame env frame : CoordinatorM A B T Unit) := by
  intro s
  have hsent : desk { s with outbox := s.outbox ++ [frame] } = s.desk := by
    simp only [desk, hand, layouts_push _ h]
  refine wp_mono (sendFrame_spec env frame s) (fun _ s' hs => hs ▸ hsent) fun _ s' hs => ?_
  obtain ⟨-, rfl | rfl⟩ := hs
  · rfl
  · exact hsent

theorem keeps_setRole (role : Role) : Keeps desk (setRole role : CoordinatorM A B T Unit) :=
  .modify fun _ => rfl

theorem keeps_rearm (env : Env T) : Keeps desk (rearm env : CoordinatorM A B T Unit) :=
  .modify fun _ => rfl

theorem keeps_stopCapture (env : Env T) : Keeps desk (stopCapture env : CoordinatorM A B T Unit) :=
  fun s =>
  wp_mono (stopCapture_spec env s) (fun _ _ hs => hs ▸ rfl) fun _ _ hs => hs.2 ▸ rfl

theorem keeps_sendEnd (session : ℕ) (exit : Option EdgePosition) :
    Keeps desk (sendEnd env session exit : CoordinatorM A B T Unit) :=
  .bind .get fun _ => keeps_sendFrame rfl

theorem keeps_announceEnd (env : Env T) :
    Keeps desk (announceEnd env : CoordinatorM A B T Unit) := by
  refine .bind .get fun s => ?_
  cases s.role.session with
  | none => exact .pure ()
  | some session => exact keeps_sendEnd session none

theorem keeps_sendInput (event : InputEvent) :
    Keeps desk (sendInput env event : CoordinatorM A B T Unit) := by
  refine .bind .get fun s => ?_
  cases s.role with
  | «local» | receiving => exact .pure ()
  | sending session sequence edge fraction =>
      exact (keeps_sendFrame rfl).bind fun _ => (keeps_own _).bind fun _ => keeps_setRole _

theorem keeps_sendInputs (events : List InputEvent) :
    Keeps desk (sendInputs env events : CoordinatorM A B T Unit) := by
  induction events with
  | nil => exact .pure ()
  | cons event events ih => exact (keeps_sendInput event).bind fun _ => ih

theorem keeps_forwardKeyboard (event : InputEvent) :
    Keeps desk (forwardKeyboard env event : CoordinatorM A B T Bool) := by
  refine fun s => ?_
  rw [forwardKeyboard, wp_bind, wp_get]
  split
  next session sequence edge fraction code pressed _ =>
    rw [wp_bind, wp_set, wp_ite]
    refine ⟨fun _ => rfl, fun _ => ?_⟩
    exact ((keeps_sendInput (.key code pressed)).bind fun _ => .pure false) _
  next => exact rfl
  next => exact rfl

theorem keeps_enterKeys (codes : List ℕ) :
    Keeps desk (enterKeys env codes : CoordinatorM A B T Unit) := by
  induction codes with
  | nil => exact .pure ()
  | cons code codes ih => exact (keeps_forwardKeyboard _).bind fun _ => ih

theorem keeps_beat (env : Env T) : Keeps desk (beat env : CoordinatorM A B T Unit) :=
  .bind .get fun _ => .ite ((keeps_sendFrame rfl).bind fun _ => .modify fun _ => rfl) (.pure ())

theorem keeps_reapCapture (env : Env T) :
    Keeps desk (reapCapture env : CoordinatorM A B T Unit) := by
  refine .bind .get fun s => .ite ((keeps_stopCapture env).bind fun _ => ?_) (.pure ())
  cases s.role with
  | «local» | receiving => exact keeps_rearm env
  | sending session sequence edge fraction =>
      exact (keeps_sendEnd session none).bind fun _ =>
        (keeps_setRole _).bind fun _ => keeps_rearm env

theorem keeps_captureInput (event : InputEvent) :
    Keeps desk (captureInput env event : CoordinatorM A B T Unit) := by
  refine .bind .get fun s => ?_
  have hsend : Keeps desk (do
      own (ensure (env.elapsed < 200) "Input queue became too delayed; restoring local control")
      sendInput env event : CoordinatorM A B T Unit) :=
        (keeps_own _).bind fun _ => keeps_sendInput event
  split
  · exact .pure ()
  · exact hsend
  · exact .pure ()

section Activity
variable [ActivitySource A]

theorem keeps_suspend : Keeps desk (suspend : CoordinatorM A B T Unit) := .modify fun _ => rfl

theorem keeps_sample : Keeps desk (sample : CoordinatorM A B T Bool) := keeps_onActivity _

theorem keeps_takeKeyboardEvents : Keeps desk (takeKeyboardEvents : CoordinatorM A B T _) :=
  fun _ => rfl

theorem keeps_takeTouchpadEvents : Keeps desk (takeTouchpadEvents : CoordinatorM A B T _) :=
  fun _ => rfl

end Activity

section Devices
variable [InputSink B]

theorem keeps_endSession (env : Env T) : Keeps desk (endSession env : CoordinatorM A B T Unit) := by
  refine .bind .get fun s => ?_
  cases s.role.session with
  | none => exact .pure ()
  | some session => exact (keeps_onReceiver _).bind fun _ => keeps_sendEnd session none

theorem keeps_place (edge : EdgeConfig) (fraction : ℚ) :
    Keeps desk (place env edge fraction : CoordinatorM A B T Unit) :=
  (keeps_external _).bind fun _ => (keeps_own _).bind fun _ => keeps_onReceiver _

theorem keeps_placeBack (role : Role) (condition : ℕ → Bool) :
    Keeps desk (placeBack env role condition : CoordinatorM A B T Unit) := by
  refine .bind .get fun s => ?_
  cases role with
  | «local» | receiving => exact .pure ()
  | sending session sequence edge fraction => exact .ite (keeps_place _ _) (.pure ())

theorem keeps_makeRoom (env : Env T) : Keeps desk (do
    endSession env
    stopCapture env
    setRole .local : CoordinatorM A B T Unit) :=
  (keeps_endSession env).bind fun _ => (keeps_stopCapture env).bind fun _ => keeps_setRole _

theorem keeps_leaveOutdated (env : Env T) :
    Keeps desk (leaveOutdated env : CoordinatorM A B T Unit) :=
  .bind .get fun _ =>
    .ite ((keeps_endSession env).bind fun _ => (keeps_stopCapture env).bind fun _ =>
    (keeps_placeBack _ _).bind fun _ =>
      (keeps_setRole _).bind fun _ => .modify fun _ => rfl) (.pure ())

theorem keeps_takeOver (physical : Bool) :
    Keeps desk (takeOver env physical : CoordinatorM A B T Unit) := by
  refine .bind .get fun s => ?_
  cases s.role with
  | «local» | sending => exact .pure ()
  | receiving session =>
      exact .ite ((keeps_onReceiver _).bind fun _ => (keeps_announceEnd env).bind fun _ =>
        (keeps_setRole _).bind fun _ =>
          (keeps_stopCapture env).bind fun _ => keeps_rearm env) (.pure ())

theorem keeps_forwardKeys (events : List InputEvent) :
    Keeps desk (forwardKeys env events : CoordinatorM A B T Unit) := by
  induction events with
  | nil => exact .pure ()
  | cons event events ih =>
      refine (keeps_forwardKeyboard event).bind fun emergency => .ite (.bind .get fun s => ?_) ih
      have hend : Keeps desk (do
          modify fun s => { s with role := .local, sourceKeys := ∅ }
          rearm env : CoordinatorM A B T Unit) :=
            .bind (.modify fun _ => rfl) fun _ => keeps_rearm env
      cases s.role with
      | «local» | receiving => exact hend
      | sending session sequence edge fraction =>
          exact (keeps_sendEnd session none).bind fun _ => (keeps_stopCapture env).bind fun _ =>
            (keeps_place _ _).bind fun _ => hend

theorem keeps_captureEnded (reason : String) :
    Keeps desk (captureEnded env reason : CoordinatorM A B T Unit) :=
  .bind .get fun _ => (keeps_endSession env).bind fun _ => (keeps_setRole _).bind fun _ =>
    (keeps_stopCapture env).bind fun _ => (keeps_placeBack _ _).bind fun _ => keeps_rearm env

omit [InputSink B] in
theorem keeps_outputsChanged (outputs : Outputs) :
    Keeps desk (outputsChanged env outputs : CoordinatorM A B T Unit) :=
  .bind (.modify fun _ => rfl) fun _ => .bind .get fun _ => keeps_sendFrame rfl

theorem keeps_peerTouchpads (devices : List Touchpad.Descriptor) :
    Keeps desk (peerTouchpads devices : CoordinatorM A B T Unit) :=
  .bind .get fun _ =>
    (keeps_own _).bind fun _ => (keeps_onReceiver _).bind fun _ => .modify fun _ => rfl

theorem keeps_peerEnd (session : ℕ) (exit : Option EdgePosition) :
    Keeps desk (peerEnd env session exit : CoordinatorM A B T Unit) := by
  refine .bind .get fun s =>
    .ite ((keeps_onReceiver _).bind fun _ => (keeps_stopCapture env).bind fun _ => ?_)
    (.pure ())
  have hend : Keeps desk (do
      setRole .local
      rearm env : CoordinatorM A B T Unit) := (keeps_setRole _).bind fun _ => keeps_rearm env
  cases s.role with
  | «local» | receiving => exact hend
  | sending session' sequence edge fraction =>
      refine .ite ?_ hend
      exact (keeps_own _).bind fun _ => (keeps_place _ _).bind fun _ => hend

variable [ActivitySource A]

theorem keeps_head (env : Env T) : Keeps desk (head env : CoordinatorM A B T Unit) := by
  refine .bind (.modify fun _ => rfl) fun _ =>
    (keeps_leaveOutdated env).bind fun _ => .bind .get fun s =>
    (keeps_onActivity _).bind fun events =>
      (keeps_sendInputs events).bind fun _ => .modify fun s => ?_
  split_ifs <;> rfl

theorem keeps_statusChanged (unlocked : Result Bool) :
    Keeps desk (statusChanged env unlocked : CoordinatorM A B T Unit) :=
  (keeps_external _).bind fun _ =>
    .bind (.modify fun _ => rfl) fun _ => (keeps_onReceiver _).bind fun _ =>
    (keeps_sendFrame rfl).bind fun _ => .ite (.pure ()) (keeps_suspend.bind fun _ =>
      (keeps_announceEnd env).bind fun _ => (keeps_setRole _).bind fun _ => keeps_stopCapture env)

theorem keeps_open (env : Env T) : Keeps desk («open» env : CoordinatorM A B T Unit) :=
  .bind .get fun _ =>
    (keeps_own _).bind fun _ => (keeps_onActivity _).bind fun _ => .bind (.modify fun _ => rfl)
    fun _ =>
      (keeps_onReceiver _).bind fun _ =>
        (keeps_sendFrame rfl).bind fun _ => (keeps_sendFrame rfl).bind
      fun _ => (keeps_sendFrame rfl).bind fun _ => keeps_head env

omit [InputSink B] in
theorem keeps_startSession (edge : ℕ) (fraction : ℚ) :
    Keeps desk (startSession env edge fraction : CoordinatorM A B T Unit) := by
  refine keeps_sample.bind fun _ =>
    .bind .get fun s => keeps_takeKeyboardEvents.bind fun _ => .ite ?_ ?_
  · exact (keeps_stopCapture env).bind fun _ => keeps_rearm env
  · exact (keeps_own _).bind fun _ =>
      .bind (.modify fun _ => rfl) fun _ => (keeps_sendFrame rfl).bind fun _ =>
      .bind (.modify fun _ => rfl) fun _ => keeps_enterKeys _

theorem keeps_captureStarted (edge : ℕ) (fraction : ℚ) :
    Keeps desk (captureStarted env edge fraction : CoordinatorM A B T Unit) := by
  refine .bind .get fun s => (keeps_own _).bind fun edge => (keeps_own _).bind fun _ => ?_
  cases s.role with
  | «local» => exact .ite (keeps_startSession edge fraction) (keeps_stopCapture env)
  | sending => exact keeps_stopCapture env
  | receiving session =>
      exact (keeps_onReceiver _).bind fun _ =>
        (keeps_sendEnd _ _).bind fun _ => (keeps_setRole _).bind fun _ =>
        (keeps_stopCapture env).bind fun _ => (keeps_place _ _).bind fun _ => keeps_rearm env

theorem keeps_captureEvent (event : Option StreamEvent) :
    Keeps desk (captureEvent env event : CoordinatorM A B T Unit) := by
  refine (keeps_own _).bind fun event s => ?_
  rw [wp_bind, wp_get]
  cases s.capture with
  | none => exact rfl
  | some task =>
      rw [wp_ite]
      refine ⟨fun _ => rfl, fun _ => ?_⟩
      cases event.event with
      | started edge fraction =>
          rw [wp_bind, wp_set]
          exact keeps_captureStarted edge fraction _
      | input event => exact keeps_captureInput event s
      | finished reason => exact keeps_captureEnded reason s
      | armed | ready => exact rfl

theorem keeps_peerLockState (locked : Bool) :
    Keeps desk (peerLockState env locked : CoordinatorM A B T Unit) := by
  refine .bind .get fun s => (keeps_own _).bind fun _ => .bind (.modify fun _ => rfl) fun _ =>
    (keeps_onReceiver _).bind fun _ =>
      .ite (keeps_suspend.bind fun _ => (keeps_announceEnd env).bind fun _ => ?_)
      (.pure ())
  refine .bind (.ite ?_ (.pure ())) fun _ => (keeps_setRole _).bind fun _ => keeps_stopCapture env
  exact (keeps_stopCapture env).bind fun _ => keeps_placeBack _ _

theorem keeps_peerBegin (session : ℕ) (entry : EdgePosition) :
    Keeps desk (peerBegin env session entry : CoordinatorM A B T Unit) := by
  have henter : Keeps desk (mayEnter : CoordinatorM A B T Bool) :=
    .bind .get fun _ => .ite (keeps_sample.bind fun _ => .pure _) (.pure false)
  refine .bind .get fun s => .bind (.ite henter (.pure false)) fun accepted => ?_
  split
  · exact (keeps_onReceiver _).bind fun _ =>
      (keeps_own _).bind fun _ => (keeps_place _ _).bind fun _ =>
      keeps_setRole _
  · exact .throw _
  · exact keeps_sendFrame rfl

theorem keeps_peerInput (session sequence : ℕ) (event : InputEvent) :
    Keeps desk (peerInput env session sequence event : CoordinatorM A B T Unit) := by
  refine (keeps_own _).bind fun _ =>
    .bind .get fun s => .ite (keeps_sample.bind fun physical => .ite ?_ ?_)
    (.pure ())
  · exact (keeps_onReceiver _).bind fun _ =>
      (keeps_sendEnd _ _).bind fun _ => (keeps_setRole _).bind fun _ =>
      keeps_stopCapture env
  · exact (keeps_onReceiver _).bind fun _ => .pure ()

end Devices

/-! ### The file -/

/-- The text that `before` becomes with these edges. -/
def edited (F : Format T D) (edges : List EdgeConfig) (before : T) : Result T := do
  let doc ← F.parse before
  let doc ← Pairing.syncSelected F doc
  let doc ← Pairing.syncSelected F (Pairing.writeEdges F doc edges)
  return F.render doc

/-- An edit for these edges, made from a text of this revision. -/
structure Half (F : Format T D) (revision : String) (edges : List EdgeConfig)
    (p : Prepared T) : Prop where
  digest : F.digest p.before = revision
  edited : edited F edges p.before = .ok p.next
  afterRevision : p.afterRevision = F.digest p.next
  finished : p.finished = false

/-- Such an edit as it is prepared on the file. -/
structure Offer (F : Format T D) (revision : String) (edges : List EdgeConfig) (config : Option T)
    (p : Prepared T) : Prop extends Half F revision edges p where
  before : config = some p.before
  committed : p.committed = false

/-- What the file holds after an edit has been dropped: what it held, unless the edit was installed;
and what it held before the edit, if that can be written. -/
structure Undone (F : Format T D) (faults : Faults T) (p : Prepared T) (config config' : Option T) :
    Prop where
  either : config' = config ∨ p.committed = true ∧ config' = some p.before
  back : p.committed = true → p.finished = false → config = some p.next →
    p.afterRevision = F.digest p.next → faults.read = none → faults.replace = none →
    config' = some p.before

/-- An edit that was not installed leaves the file as it was. -/
theorem Undone.eq_of_not_committed {faults : Faults T} {p : Prepared T} {config config' : Option T}
    (h : Undone F faults p config config') (hp : p.committed = false) : config' = config :=
  h.either.resolve_right fun hback => absurd (hp.symm.trans hback.1) (by simp)

/-- What is staged is the text with the new edges. -/
theorem stage_edited (path : Path) (faults : Faults T) (revision : String) (edges : List EdgeConfig)
    (s : Files T) :
    wp (Prepared.stage F path faults revision fun doc => return Pairing.writeEdges F doc edges) s
      (fun p _ => edited F edges p.before = .ok p.next) (fun _ _ => True) := by
  rw [Prepared.stage, wp_bind]
  refine wp_mono (readConfig_spec faults s) (fun before s₁ _ => ?_) fun _ _ _ => trivial
  simp only [wp_bind, wp_check, wp_zoom]
  refine ⟨fun _ _ =>
    ⟨fun doc hdoc => ⟨fun doc₁ hdoc₁ => ?_, fun _ _ => trivial⟩, fun _ _ => trivial⟩,
    fun _ _ => trivial⟩
  refine ⟨fun doc₂ hdoc₂ => ⟨fun _ _ => ⟨fun _ _ => ?_, fun _ _ => trivial⟩, fun _ _ => trivial⟩,
    fun _ _ => trivial⟩
  rw [wp_pure, edited, bind_eq_ok]
  refine ⟨doc, context_eq_ok.mp hdoc,
    bind_eq_ok.mpr ⟨doc₁, hdoc₁, bind_eq_ok.mpr ⟨doc₂, hdoc₂, rfl⟩⟩⟩

/-- What is edited is the text with the new edges. -/
theorem edit_edited (path : Path) (faults : Faults T) (revision : String) (edges : List EdgeConfig)
    (s : Files T) :
    wp (Prepared.edit F path faults revision fun doc => return Pairing.writeEdges F doc edges) s
      (fun p _ => edited F edges p.before = .ok p.next) (fun _ _ => True) := by
  refine wp_bind_of_forall (fun _ s₁ => ?_) fun _ _ => trivial
  rw [wp_bind, wp_attempt]
  exact wp_mono (stage_edited path faults revision edges s₁) (fun _ _ h => h) fun _ _ _ => trivial

/-- New edges are prepared on the text in the file, which stays as it is. -/
theorem prepareEdges_offer (path : Path) (outputs : Result Outputs) (faults : Faults T)
    (revision : String) (edges : List EdgeConfig) (s : Files T) :
    wp (Manager.prepareEdges F path outputs faults revision edges) s
      (fun p s' => Offer F revision edges s.config p ∧ s'.config = s.config)
      (fun _ s' => s'.config = s.config) := by
  rw [Manager.prepareEdges, wp_bind, wp_check]
  refine ⟨fun _ _ => ?_, fun _ _ => rfl⟩
  rw [wp_bind, wp_check]
  refine ⟨fun outputs _ => ?_, fun _ _ => rfl⟩
  rw [wp_bind, wp_check]
  refine ⟨fun _ _ => ?_, fun _ _ => rfl⟩
  rw [wp_bind]
  refine wp_mono (wp_and (Prepared.edit_spec F path faults revision _ s)
    (edit_edited path faults revision edges s))
    (fun p s' h => ?_) fun _ _ h => h.1.1
  obtain ⟨⟨hfresh, hconfig, -⟩, hedited⟩ := h
  exact ⟨⟨⟨hfresh.digest, hedited, hfresh.afterRevision, hfresh.finished⟩, hfresh.before,
    hfresh.committed⟩, hconfig⟩

/-- An edit that is dropped is undone if it was installed. -/
theorem drop_undone (faults : Faults T) (p : Prepared T) (s : Files T) :
    wp (p.drop F faults) s (fun _ s' => Undone F faults p s.config s'.config)
    (fun _ _ => False) := by
  refine wp_mono (p.drop_spec F faults s) (fun _ s' h => ?_) fun _ _ h => h
  obtain ⟨-, ⟨hrolls, hconfig⟩ | ⟨hstays, hconfig⟩⟩ := h
  · exact ⟨.inr ⟨hrolls.1.1, hconfig⟩, fun _ _ _ _ _ _ => hconfig⟩
  · refine ⟨.inl hconfig, fun hcommitted hunfinished hnext hafter hread hreplace => ?_⟩
    exact absurd ⟨⟨hcommitted, hunfinished⟩, hread, hreplace, _, hnext, hafter.symm⟩ hstays

/-- What the client of a layout that is given up is told. -/
def told (pending : PendingLayout T) (code : String) : List (ℕ × Reply) :=
  (pending.reply.map fun client => (client, Reply.failure code)).toList

/-- A layout that is dropped is undone, and its client is told that it was not confirmed. -/
theorem dropPending_hand (pending : PendingLayout T) (s : Coordinator A B T) :
    wp (dropPending F env pending) s
      (fun _ s' => ∃ files, Undone F env.rollback pending.prepared s.files.config files.config ∧
        s' = { s with files := files, replies := s.replies ++ told pending "layout_unconfirmed" })
      (fun _ _ => False) := by
  rw [dropPending, wp_bind, wp_onFiles]
  refine wp_mono (drop_undone env.rollback pending.prepared s.files)
    (fun _ files h => ?_) fun _ _ => False.elim
  cases hreply : pending.reply with
  | none => exact ⟨files, h, by simp [told, hreply]⟩
  | some client => exact ⟨files, h, by simp [told, hreply]⟩

/-- A layout that is given up is undone, and its client is told why. -/
theorem abandon_hand (pending : PendingLayout T) (code : String) (s : Coordinator A B T) :
    wp (abandon F env pending code) s
      (fun _ s' => ∃ files, Undone F env.rollback pending.prepared s.files.config files.config ∧
        s' = { s with files := files, replies := s.replies ++ told pending code })
      (fun _ _ => False) := by
  rw [abandon]
  cases hreply : pending.reply with
  | none =>
      refine wp_mono (dropPending_hand { pending with reply := none } s)
        (fun _ s' h => ?_) fun _ _ => id
      obtain ⟨files, hfiles, rfl⟩ := h
      exact ⟨files, hfiles, by simp [told, hreply]⟩
  | some client =>
      refine wp_mono (dropPending_hand { pending with reply := none } _)
        (fun _ s' h => ?_) fun _ _ => id
      obtain ⟨files, hfiles, rfl⟩ := h
      exact ⟨files, hfiles, by simp [told, hreply]⟩

/-- A part of the loop with a layout in scope, which it drops when it fails. -/
theorem holding_hand {m : CoordinatorM A B T α} {Q : α → Coordinator A B T → Prop}
    {E E' : Stop → Coordinator A B T → Prop} (pending : PendingLayout T) (h : wp m s Q E)
    (hE : ∀ stop s₁,
      E stop s₁ → ∀ files, Undone F env.rollback pending.prepared s₁.files.config files.config →
      E' stop
        { s₁ with files := files, replies := s₁.replies ++ told pending "layout_unconfirmed" }) :
    wp (holding F env pending m) s Q E' := by
  rw [holding, wp_bind, wp_attempt]
  refine wp_mono h (fun _ _ ha => ha) fun stop s₁ hstop => ?_
  rw [wp_bind]
  refine wp_mono (dropPending_hand pending s₁) (fun _ s₂ h₂ => ?_) fun _ _ => False.elim
  obtain ⟨files, hfiles, rfl⟩ := h₂
  exact hE stop s₁ hstop files hfiles

end Coordinator

end NiriBridge
