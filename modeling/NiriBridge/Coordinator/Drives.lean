import NiriBridge.Coordinator.Messages
import NiriBridge.Receiver.Held

/-!
# Coordinator — Drives

A coordinator touches its receiver in one way only: it calls it.  And the keys it writes come from
the two places where keys are forwarded.  `Drives typing` is what every part of the loop does to
both: the receiver is left where some calls take it, and no key is written unless `typing`.

The touchpads of the source are asked at the head of the loop and at each tick; `PadsQuiet` says
that what they report is never a key.

* `drives_pass`, `close_stops`: what is proved of the runs of a receiver holds of that of a
  coordinator.
* `drives_message`, `drives_branch`: the messages of the peer, and most events, write no key.
-/

namespace NiriBridge

open Hoare

namespace InputEvent

/-- A key goes up or down. -/
def typed : InputEvent → Bool
  | .key .. => true
  | _ => false

end InputEvent

/-- The key that is written, with its session. -/
def Frame.typed (frame : Frame) : Option (ℕ × InputEvent) :=
  match frame.message with
  | .input session _ event => if event.typed then some (session, event) else none
  | _ => none

/-- The keys among the frames. -/
def typed (l : List Frame) : List (ℕ × InputEvent) := l.filterMap Frame.typed

theorem typed_append (l l' : List Frame) : typed (l ++ l') = typed l ++ typed l' :=
  List.filterMap_append

theorem typed_push {frame : Frame} (l : List Frame) (h : frame.typed = none) :
    typed (l ++ [frame]) = typed l := by
  rw [typed_append, show typed [frame] = [] from List.filterMap_cons_none h, List.append_nil]

/-- The touchpads report no keys. -/
structure PadsQuiet (A : Type) [ActivitySource A] : Prop where
  route : ∀ (remote : Bool) (a : A), wp (ActivitySource.routeTouchpads remote) a
    (fun events _ => ∀ e ∈ events, e.typed = false) (fun _ _ => True)
  take : ∀ a : A, ∀ e ∈ (ActivitySource.takeTouchpadEvents a).1, e.typed = false

namespace Coordinator

variable {A B T D : Type} {α : Type} {F : Format T D} {env : Env T} [InputSink B] {typing : Prop}

/-- The receiver has been called, and keys have been written only if that is allowed. -/
structure Drives (typing : Prop) (s s' : Coordinator A B T) : Prop where
  calls : ∃ calls, s'.receiver = Run.run Receiver.next s.receiver calls
  keyboard : s'.physicalKeyboard = s.physicalKeyboard
  silent : ¬ typing → typed s'.outbox = typed s.outbox

instance : IsPreorder (Coordinator A B T) (Drives typing) where
  refl _ := ⟨⟨[], rfl⟩, rfl, fun _ => rfl⟩
  trans _ _ _ h h' := by
    obtain ⟨calls, hcalls⟩ := h.calls
    obtain ⟨calls', hcalls'⟩ := h'.calls
    refine ⟨⟨calls ++ calls', ?_⟩, h'.keyboard.trans h.keyboard,
      fun hq => (h'.silent hq).trans (h.silent hq)⟩
    rw [Run.run_append, ← hcalls, hcalls']

/-! ### The receiver, and everything else -/

theorem drives_aside {s s' : Coordinator A B T} (hreceiver : s'.receiver = s.receiver)
    (hkeyboard : s'.physicalKeyboard = s.physicalKeyboard) (houtbox : s'.outbox = s.outbox) :
    Drives typing s s' := ⟨⟨[], hreceiver⟩, hkeyboard, fun _ => congrArg typed houtbox⟩

theorem drives_next {m : ReceiverM B α}
    (h : ∀ r, ∃ call, wp m r (fun _ r' => r' = Receiver.next r call)
      (fun _ r' => r' = Receiver.next r call)) :
    Moves (Drives typing) (onReceiver m : CoordinatorM A B T α) := by
  intro s
  obtain ⟨call, hcall⟩ := h s.receiver
  rw [wp_onReceiver]
  exact wp_mono hcall (fun _ r hr => ⟨⟨[call], hr⟩, rfl, fun _ => rfl⟩)
    fun _ r hr => ⟨⟨[call], hr⟩, rfl, fun _ => rfl⟩

/-- A call of the receiver. -/
theorem drives_call (call : Receiver.Call) :
    Moves (Drives typing) (onReceiver call.run : CoordinatorM A B T Unit) :=
  drives_next fun r => ⟨call, wp_mono (wp_self call.run r)
    (fun _ _ hm => by rw [Receiver.next, hm]) fun _ _ hm => by rw [Receiver.next, hm]⟩

/-- A call of the receiver that answers. -/
theorem drives_ask {m : ReceiverM B α} (call : Receiver.Call) (h : call.run = discard m) :
    Moves (Drives typing) (onReceiver m : CoordinatorM A B T α) := by
  refine drives_next fun r => ⟨call, ?_⟩
  have hrun :
      wp (discard m) r (fun _ r' => r' = Receiver.next r call)
        (fun _ r' => r' = Receiver.next r call) := by
    rw [← h]
    exact wp_mono (wp_self call.run r) (fun _ _ hm => by rw [Receiver.next, hm])
      fun _ _ hm => by rw [Receiver.next, hm]
  exact wp_map.mp hrun

theorem drives_own (r : Result α) : Moves (Drives typing) (own r : CoordinatorM A B T α) := .lift r

theorem drives_external (r : Result α) : Moves (Drives typing)
    (external r : CoordinatorM A B T α) := .lift r

theorem drives_onFiles (m : FilesM T α) :
    Moves (Drives typing) (onFiles m : CoordinatorM A B T (Except Error α)) := by
  intro s
  rw [wp_onFiles]
  exact wp_mono (wp_true m s.files) (fun _ _ _ => drives_aside rfl rfl rfl)
    fun _ _ _ => drives_aside rfl rfl rfl

theorem drives_onActivity (m : EStateM Error A α) :
    Moves (Drives typing) (onActivity m : CoordinatorM A B T α) := by
  intro s
  rw [wp_onActivity]
  exact wp_mono (wp_true m s.activity) (fun _ _ _ => drives_aside rfl rfl rfl)
    fun _ _ _ => drives_aside rfl rfl rfl

theorem drives_sendFrame {frame : Frame} (h : typing ∨ frame.typed = none) :
    Moves (Drives typing) (sendFrame env frame : CoordinatorM A B T Unit) := by
  intro s
  have hsent : Drives typing s { s with outbox := s.outbox ++ [frame] } :=
    ⟨⟨[], rfl⟩, rfl, fun hq => typed_push _ (h.resolve_left hq)⟩
  refine wp_mono (sendFrame_spec env frame s) (fun _ s' hs => hs ▸ hsent) fun _ s' hs => ?_
  obtain ⟨-, rfl | rfl⟩ := hs
  · exact refl_of (Drives typing) s'
  · exact hsent

theorem drives_send {message : Message} (h : (Frame.mk message false).typed = none) :
    Moves (Drives typing) (send env message : CoordinatorM A B T Unit) := drives_sendFrame (.inr h)

theorem drives_setRole (role : Role) : Moves (Drives typing)
    (setRole role : CoordinatorM A B T Unit) :=
  .modify fun _ => drives_aside rfl rfl rfl

theorem drives_rearm (env : Env T) : Moves (Drives typing) (rearm env : CoordinatorM A B T Unit) :=
  .modify fun _ => drives_aside rfl rfl rfl

theorem drives_answer (client : ℕ) (reply : Reply) :
    Moves (Drives typing) (answer client reply : CoordinatorM A B T Unit) :=
  .modify fun _ => drives_aside rfl rfl rfl

theorem drives_stopCapture (env : Env T) :
    Moves (Drives typing) (stopCapture env : CoordinatorM A B T Unit) := fun s =>
  wp_mono (stopCapture_spec env s) (fun _ _ hs => hs ▸ drives_aside rfl rfl rfl)
    fun _ _ hs => hs.2 ▸ drives_aside rfl rfl rfl

/-! ### Sessions -/

theorem drives_sendEnd (session : ℕ) (exit : Option EdgePosition) :
    Moves (Drives typing) (sendEnd env session exit : CoordinatorM A B T Unit) :=
  .get_bind fun s => drives_sendFrame (.inr rfl) s

theorem drives_announceEnd (env : Env T) :
    Moves (Drives typing) (announceEnd env : CoordinatorM A B T Unit) := by
  refine .get_bind fun s => ?_
  cases s.role.session with
  | none => exact refl_of (Drives typing) s
  | some session => exact drives_sendEnd session none s

theorem drives_endSession (env : Env T) :
    Moves (Drives typing) (endSession env : CoordinatorM A B T Unit) := by
  refine .get_bind fun s => ?_
  cases s.role.session with
  | none => exact refl_of (Drives typing) s
  | some session => exact (drives_call (.end session)).bind (fun _ => drives_sendEnd session none) s

theorem drives_place (edge : EdgeConfig) (fraction : ℚ) :
    Moves (Drives typing) (place env edge fraction : CoordinatorM A B T Unit) :=
  (drives_external _).bind fun _ =>
    (drives_own _).bind fun event => drives_call (.positionOn edge.output event)

theorem drives_placeBack (role : Role) (condition : ℕ → Bool) :
    Moves (Drives typing) (placeBack env role condition : CoordinatorM A B T Unit) := by
  refine .get_bind fun s => ?_
  cases role with
  | «local» | receiving => exact refl_of (Drives typing) s
  | sending session sequence edge fraction => exact Moves.ite (drives_place _ _) (.pure ()) s

theorem drives_makeRoom (env : Env T) : Moves (Drives typing) (do
    endSession env
    stopCapture env
    setRole .local : CoordinatorM A B T Unit) :=
  (drives_endSession env).bind fun _ => (drives_stopCapture env).bind fun _ => drives_setRole _

theorem drives_leaveOutdated (env : Env T) :
    Moves (Drives typing) (leaveOutdated env : CoordinatorM A B T Unit) := by
  refine .get_bind fun s =>
    Moves.ite ((drives_endSession env).bind fun _ => (drives_stopCapture env).bind
    fun _ => (drives_placeBack _ _).bind fun _ => (drives_setRole _).bind fun _ => ?_) (.pure ()) s
  exact .modify fun _ => drives_aside rfl rfl rfl

theorem drives_takeOver (physical : Bool) :
    Moves (Drives typing) (takeOver env physical : CoordinatorM A B T Unit) := by
  refine .get_bind fun s => ?_
  cases s.role with
  | «local» | sending => exact refl_of (Drives typing) s
  | receiving session =>
      exact Moves.ite ((drives_call .physicalActivity).bind fun _ =>
        (drives_announceEnd env).bind fun _ =>
        (drives_setRole _).bind fun _ =>
          (drives_stopCapture env).bind fun _ => drives_rearm env) (.pure ()) s

theorem drives_reapCapture (env : Env T) :
    Moves (Drives typing) (reapCapture env : CoordinatorM A B T Unit) := by
  refine .get_bind fun s => Moves.ite ((drives_stopCapture env).bind fun _ => ?_) (.pure ()) s
  cases s.role with
  | «local» | receiving => exact drives_rearm env
  | sending session sequence edge fraction =>
      exact (drives_sendEnd session none).bind fun _ =>
        (drives_setRole _).bind fun _ => drives_rearm env

theorem drives_beat (env : Env T) : Moves (Drives typing) (beat env : CoordinatorM A B T Unit) := by
  refine .get_bind fun s => Moves.ite ((drives_send rfl).bind fun _ => ?_) (.pure ()) s
  exact .modify fun _ => drives_aside rfl rfl rfl

/-! ### Inputs -/

theorem drives_sendInput {event : InputEvent} (h : typing ∨ event.typed = false) :
    Moves (Drives typing) (sendInput env event : CoordinatorM A B T Unit) := by
  refine .get_bind fun s => ?_
  cases s.role with
  | «local» | receiving => exact refl_of (Drives typing) s
  | sending session sequence edge fraction =>
      have hframe : typing ∨ (Frame.mk (.input session sequence event) false).typed = none :=
        h.imp_right fun h => by simp [Frame.typed, h]
      exact (drives_sendFrame hframe).bind
        (fun _ => (drives_own _).bind fun _ => drives_setRole _) s

theorem drives_sendInputs {events : List InputEvent} (h : typing ∨ ∀ e ∈ events, e.typed = false) :
    Moves (Drives typing) (sendInputs env events : CoordinatorM A B T Unit) := by
  induction events with
  | nil => exact .pure ()
  | cons event events ih =>
      refine (drives_sendInput (h.imp_right fun h => ?_)).bind fun _ =>
        ih (h.imp_right fun h e he => ?_)
      · exact h event List.mem_cons_self
      · exact h e (List.mem_cons_of_mem _ he)

theorem drives_forwardKeyboard (event : InputEvent) :
    Moves (Drives True) (forwardKeyboard env event : CoordinatorM A B T Bool) := by
  refine .get_bind fun s => ?_
  split
  · rw [wp_bind, wp_set, wp_ite]
    refine ⟨fun _ => drives_aside rfl rfl rfl, fun _ => ?_⟩
    exact ((drives_sendInput (.inl trivial)).bind fun _ =>
      .pure false).after (drives_aside rfl rfl rfl)
  · exact refl_of (Drives True) s
  · exact refl_of (Drives True) s

theorem drives_forwardKeys (events : List InputEvent) :
    Moves (Drives True) (forwardKeys env events : CoordinatorM A B T Unit) := by
  induction events with
  | nil => exact .pure ()
  | cons event events ih =>
      have hend : Moves (Drives True) (do
          modify fun s => { s with role := .local, sourceKeys := ∅ }
          rearm env : CoordinatorM A B T Unit) :=
        .bind (.modify fun _ => drives_aside rfl rfl rfl) fun _ => drives_rearm env
      refine (drives_forwardKeyboard event).bind fun emergency => .ite (.get_bind fun s => ?_) ih
      cases s.role with
      | «local» | receiving => exact hend s
      | sending session sequence edge fraction =>
          exact (drives_sendEnd session none).bind (fun _ => (drives_stopCapture env).bind fun _ =>
            (drives_place _ _).bind fun _ => hend) s

theorem drives_enterKeys (codes : List ℕ) :
    Moves (Drives True) (enterKeys env codes : CoordinatorM A B T Unit) := by
  induction codes with
  | nil => exact .pure ()
  | cons code codes ih => exact (drives_forwardKeyboard _).bind fun _ => ih

/-- A key that the capture reads is written only where the keyboards are not read. -/
theorem drives_captureInput (event : InputEvent) {s : Coordinator A B T}
    (h : typing ∨ s.physicalKeyboard = true) :
    wp (captureInput env event) s (fun _ => Drives typing s) (fun _ => Drives typing s) := by
  have hsend : typing ∨ event.typed = false → wp (do
      own (ensure (env.elapsed < 200) "Input queue became too delayed; restoring local control")
      sendInput env event) s (fun _ => Drives typing s) (fun _ => Drives typing s) :=
    fun h => ((drives_own _).bind fun _ => drives_sendInput h) s
  rw [captureInput, wp_bind, wp_get]
  split
  · exact refl_of (Drives typing) s
  · rename_i event _ _ _ _ _ _ _ _ hnot
    refine hsend (h.imp_right fun hkeyboard => ?_)
    cases event with
    | key code pressed => exact (hnot code pressed hkeyboard rfl).elim
    | _ => rfl
  · exact refl_of (Drives typing) s

theorem drives_captureEnded (reason : String) :
    Moves (Drives typing) (captureEnded env reason : CoordinatorM A B T Unit) :=
  .get_bind fun s => ((drives_endSession env).bind fun _ => (drives_setRole _).bind fun _ =>
    (drives_stopCapture env).bind fun _ => (drives_placeBack _ _).bind fun _ => drives_rearm env) s

/-! ### The pending layout -/

theorem drives_dropPending (F : Format T D) (env : Env T) (pending : PendingLayout T) :
    Moves (Drives typing) (dropPending F env pending : CoordinatorM A B T Unit) := by
  refine (drives_onFiles _).bind fun _ => ?_
  cases pending.reply with
  | none => exact .pure ()
  | some client => exact drives_answer client _

theorem drives_abandon (F : Format T D) (env : Env T) (pending : PendingLayout T) (code : String) :
    Moves (Drives typing) (abandon F env pending code : CoordinatorM A B T Unit) := by
  rw [abandon]
  cases pending.reply with
  | none => exact drives_dropPending F env _
  | some client => exact (drives_answer client _).bind fun _ => drives_dropPending F env _

theorem drives_holding (F : Format T D) {m : CoordinatorM A B T α} (hm : Moves (Drives typing) m)
    (pending : PendingLayout T) : Moves (Drives typing) (holding F env pending m) := by
  intro s
  rw [holding, wp_bind, wp_attempt]
  refine wp_mono (hm s) (fun _ _ h => h) fun stop s₁ h => ?_
  rw [wp_bind]
  exact wp_mono ((drives_dropPending F env pending).after h) (fun _ _ => id) fun _ _ => id

theorem drives_expireLayout (F : Format T D) (env : Env T) :
    Moves (Drives typing) (expireLayout F env : CoordinatorM A B T Unit) := by
  refine .get_bind fun s => ?_
  cases s.pendingLayout with
  | none => exact refl_of (Drives typing) s
  | some pending =>
      rw [wp_ite]
      refine ⟨fun _ => ?_, fun _ => refl_of (Drives typing) s⟩
      rw [wp_bind, wp_set]
      exact ((drives_holding F (drives_send rfl) pending).bind fun _ =>
        drives_abandon F env pending "layout_unconfirmed").after (drives_aside rfl rfl rfl)

theorem drives_prepareLayout (checked : Result Path) (revision : String) (edges : List EdgeConfig) :
    Moves (Drives typing) (prepareLayout F env checked revision edges : CoordinatorM A B T _) := by
  cases checked with
  | error e => exact .pure _
  | ok path => exact drives_onFiles _

theorem drives_applyLayout (client : ℕ) (layout : LayoutRequest) :
    Moves (Drives typing) (applyLayout F env client layout : CoordinatorM A B T Unit) := by
  refine .get_bind fun s => (drives_prepareLayout _ _ _).bind (fun prepared => ?_) s
  cases prepared with
  | error e => exact drives_answer client _
  | ok prepared =>
      have hroom : Moves (Drives typing) (do
          endSession env
          stopCapture env
          setRole .local
          external env.transactionId : CoordinatorM A B T String) :=
        (drives_endSession env).bind fun _ => (drives_stopCapture env).bind fun _ =>
          (drives_setRole _).bind fun _ => drives_external _
      refine (drives_holding F hroom _).bind fun id => .bind ?_ fun _ => drives_send rfl
      exact .modify fun _ => drives_aside rfl rfl rfl

theorem drives_layoutPrepare (id : String) (edges : List EdgeConfig) (revision : String) :
    Moves (Drives typing) (layoutPrepare F env id edges revision : CoordinatorM A B T Unit) := by
  refine .get_bind fun s => (drives_prepareLayout _ _ _).bind (fun prepared => ?_) s
  cases prepared with
  | error e => exact drives_send rfl
  | ok prepared =>
      refine (drives_holding F (drives_makeRoom env) _).bind fun _ =>
        .bind ?_ fun _ => drives_send rfl
      exact .modify fun _ => drives_aside rfl rfl rfl

theorem drives_layoutPrepared (id : String) (ok : Bool) (error : Option String) :
    Moves (Drives typing) (layoutPrepared F env id ok error : CoordinatorM A B T Unit) := by
  refine .get_bind fun s => ?_
  cases s.pendingWith id true with
  | none => exact refl_of (Drives typing) s
  | some pending =>
      rw [wp_bind, wp_set]
      have hcommit : Moves (Drives typing) (if ok = true then
            onFiles (pending.prepared.commit F (env.outputs.map OutputTable.logical) env.edit)
          else pure (.error [error.getD "operation_failed"]) :
          CoordinatorM A B T (Except Error (Prepared T))) := .ite (drives_onFiles _) (.pure _)
      refine (hcommit.bind fun committed => ?_).after (drives_aside rfl rfl rfl)
      cases committed with
      | error e =>
          exact (drives_holding F (drives_send rfl) pending).bind fun _ =>
            drives_abandon F env pending _
      | ok prepared =>
          exact .bind (.modify fun _ => drives_aside rfl rfl rfl) fun _ => drives_send rfl

theorem drives_layoutCommit (id : String) :
    Moves (Drives typing) (layoutCommit F env id : CoordinatorM A B T Unit) := by
  refine .get_bind fun s => ?_
  cases s.pendingWith id false with
  | none => exact refl_of (Drives typing) s
  | some pending =>
      rw [wp_bind, wp_set]
      refine ((drives_onFiles _).bind fun committed => ?_).after (drives_aside rfl rfl rfl)
      cases committed with
      | error e =>
          exact (drives_holding F (drives_send rfl) pending).bind fun _ =>
            drives_dropPending F env pending
      | ok prepared =>
          exact (drives_onFiles _).bind fun _ =>
            (drives_send rfl).bind fun _ => fun s => refl_of (Drives typing) s

theorem drives_layoutResult (id : String) (ok : Bool) (revision error : Option String) :
    Moves (Drives typing) (layoutResult F env id ok revision error : CoordinatorM A B T Unit) := by
  refine .get_bind fun s => ?_
  cases s.pendingWith id true with
  | none => exact refl_of (Drives typing) s
  | some pending =>
      rw [wp_bind, wp_set]
      have hreturn : Moves (Drives typing) (throw (.returned false) : CoordinatorM A B T Unit) :=
        fun s => refl_of (Drives typing) s
      refine Moves.after (.ite ((drives_onFiles _).bind fun _ =>
        ?_) (drives_abandon F env pending _))
        (drives_aside rfl rfl rfl)
      cases pending.reply with
      | none => exact hreturn
      | some client => exact (drives_answer client _).bind fun _ => hreturn

theorem drives_layoutAbort (id : String) :
    Moves (Drives typing) (layoutAbort F env id : CoordinatorM A B T Unit) := by
  refine .get_bind fun s => ?_
  cases s.pendingLayout.filter (·.id == id) with
  | none => exact refl_of (Drives typing) s
  | some pending =>
      rw [wp_bind, wp_set]
      exact (drives_abandon F env pending _).after (drives_aside rfl rfl rfl)

theorem drives_layoutMessage (message : LayoutMessage) :
    Moves (Drives typing) (layoutMessage F env message : CoordinatorM A B T Unit) := by
  cases message with
  | prepare id edges revision => exact drives_layoutPrepare id edges revision
  | prepared id ok error => exact drives_layoutPrepared id ok error
  | commit id => exact drives_layoutCommit id
  | result id ok revision error => exact drives_layoutResult id ok revision error
  | abort id => exact drives_layoutAbort id

/-! ### The branches -/

theorem drives_outputsChanged (outputs : Outputs) :
    Moves (Drives typing) (outputsChanged env outputs : CoordinatorM A B T Unit) := by
  refine .bind ?_ fun _ => .get_bind fun s => drives_send rfl s
  exact .modify fun _ => drives_aside rfl rfl rfl

theorem drives_releaseControl (client : ℕ) :
    Moves (Drives typing) (releaseControl env client : CoordinatorM A B T Unit) :=
  (drives_endSession env).bind fun _ => (drives_stopCapture env).bind fun _ => .get_bind fun s =>
    ((drives_placeBack _ _).bind fun _ =>
      (drives_setRole _).bind fun _ => (drives_rearm env).bind fun _ =>
      drives_answer client _) s

theorem drives_peerTouchpads (devices : List Touchpad.Descriptor) :
    Moves (Drives typing) (peerTouchpads devices : CoordinatorM A B T Unit) := by
  refine .get_bind fun s =>
    ((drives_own _).bind fun _ => (drives_call (.configureTouchpads devices)).bind
    fun _ => ?_) s
  exact .modify fun _ => drives_aside rfl rfl rfl

theorem drives_peerEnd (session : ℕ) (exit : Option EdgePosition) :
    Moves (Drives typing) (peerEnd env session exit : CoordinatorM A B T Unit) := by
  refine .get_bind fun s => Moves.ite ((drives_call (.end session)).bind fun _ =>
    (drives_stopCapture env).bind fun _ => ?_) (.pure ()) s
  have hend : Moves (Drives typing) (do
      setRole .local
      rearm env : CoordinatorM A B T Unit) := (drives_setRole _).bind fun _ => drives_rearm env
  cases s.role with
  | «local» | receiving => exact hend
  | sending session' sequence edge fraction =>
      exact .ite ((drives_own _).bind fun _ => (drives_place _ _).bind fun _ => hend) hend

variable [ActivitySource A]

theorem drives_suspend : Moves (Drives typing) (suspend : CoordinatorM A B T Unit) :=
  .modify fun _ => drives_aside rfl rfl rfl

theorem drives_sample : Moves (Drives typing) (sample : CoordinatorM A B T Bool) :=
  drives_onActivity _

theorem drives_takeKeyboardEvents : Moves (Drives typing)
    (takeKeyboardEvents : CoordinatorM A B T _) :=
  .get_bind fun _ => drives_aside rfl rfl rfl

theorem drives_takeTouchpadEvents : Moves (Drives typing)
    (takeTouchpadEvents : CoordinatorM A B T _) :=
  .get_bind fun _ => drives_aside rfl rfl rfl

omit [ActivitySource A] in
theorem drives_armCapture (env : Env T) :
    Moves (Drives typing) (armCapture env : CoordinatorM A B T Unit) := by
  refine .modify fun s => ?_
  dsimp only
  split_ifs
  · exact drives_aside rfl rfl rfl
  · exact refl_of (Drives typing) s

theorem drives_head (env : Env T) (h : typing ∨ PadsQuiet A) :
    Moves (Drives typing) (head env : CoordinatorM A B T Unit) := by
  refine .bind (.modify fun _ => drives_aside rfl rfl rfl) fun _ =>
    (drives_leaveOutdated env).bind fun _ =>
    .get_bind fun s => ?_
  rw [wp_bind, wp_onActivity]
  have hroute : wp (ActivitySource.routeTouchpads s.role.isSending) s.activity
      (fun events _ => typing ∨ ∀ e ∈ events, e.typed = false) (fun _ _ => True) := by
    rcases h with h | hpads
    · exact wp_mono (wp_true _ _) (fun _ _ _ => .inl h) fun _ _ _ => trivial
    · exact wp_mono (hpads.route _ _) (fun _ _ h => .inr h) fun _ _ _ => trivial
  refine wp_mono hroute (fun events m hevents => ?_) fun _ _ _ => drives_aside rfl rfl rfl
  exact ((drives_sendInputs hevents).bind fun _ =>
    drives_armCapture env).after (drives_aside rfl rfl rfl)

theorem drives_statusChanged (unlocked : Result Bool) :
    Moves (Drives typing) (statusChanged env unlocked : CoordinatorM A B T Unit) := by
  refine (drives_external _).bind fun unlocked =>
    .bind (.modify fun _ => drives_aside rfl rfl rfl) fun _ => ?_
  refine (drives_call (.localLock (!unlocked))).bind fun _ =>
    (drives_send rfl).bind fun _ => .ite (.pure ()) ?_
  exact drives_suspend.bind fun _ =>
    (drives_announceEnd env).bind fun _ => (drives_setRole _).bind fun _ =>
    drives_stopCapture env

theorem drives_peerLockState (locked : Bool) :
    Moves (Drives typing) (peerLockState env locked : CoordinatorM A B T Unit) := by
  refine .get_bind fun s => ((drives_own _).bind fun _ => .bind ?_ fun _ =>
    (drives_call (.peerLock locked)).bind fun _ => .ite ?_ (.pure ())) s
  · exact .modify fun _ => drives_aside rfl rfl rfl
  · refine drives_suspend.bind fun _ =>
      (drives_announceEnd env).bind fun _ => .bind (.ite ?_ (.pure ()))
      fun _ => (drives_setRole _).bind fun _ => drives_stopCapture env
    exact (drives_stopCapture env).bind fun _ => drives_placeBack _ _

theorem drives_mayEnter : Moves (Drives typing) (mayEnter : CoordinatorM A B T Bool) :=
  .get_bind fun s => Moves.ite (drives_sample.bind fun _ => .pure _) (.pure false) s

theorem drives_peerBegin (session : ℕ) (entry : EdgePosition) :
    Moves (Drives typing) (peerBegin env session entry : CoordinatorM A B T Unit) := by
  refine .get_bind fun s => (Moves.ite drives_mayEnter (.pure false)).bind (fun accepted => ?_) s
  split
  · exact (drives_ask (.begin session) rfl).bind fun _ => (drives_own _).bind fun _ =>
      (drives_place _ _).bind fun _ => drives_setRole _
  · exact fun s => refl_of (Drives typing) s
  · exact drives_sendFrame (.inr rfl)

theorem drives_peerInput (session sequence : ℕ) (event : InputEvent) :
    Moves (Drives typing) (peerInput env session sequence event : CoordinatorM A B T Unit) := by
  refine (drives_own _).bind fun _ =>
    .get_bind fun s => Moves.ite (drives_sample.bind fun physical =>
    .ite ?_ ?_) (.pure ()) s
  · exact (drives_call .physicalActivity).bind fun _ => (drives_sendEnd _ _).bind fun _ =>
      (drives_setRole _).bind fun _ => drives_stopCapture env
  · exact (drives_ask (.input session sequence event) rfl).bind fun _ => .pure ()

/-- **No message of the peer makes a coordinator write a key.** -/
theorem drives_message (message : Message) :
    Moves (Drives typing) (peerMessage F env message : CoordinatorM A B T Unit) := by
  cases message with
  | desktop info => exact .modify fun _ => drives_aside rfl rfl rfl
  | layout message => exact drives_layoutMessage message
  | touchpads devices => exact drives_peerTouchpads devices
  | hello hello => exact fun s => refl_of (Drives typing) s
  | ping nonce => exact drives_send rfl
  | pong nonce => exact .pure ()
  | lockState locked => exact drives_peerLockState locked
  | «begin» session entry => exact drives_peerBegin session entry
  | input session sequence event => exact drives_peerInput session sequence event
  | «end» session exit => exact drives_peerEnd session exit

/-- The events but for the tick and the reports of the capture write no key. -/
theorem drives_branch {event : Event} (htick : ∀ ready, event ≠ .tick ready)
    (hcapture : ∀ event', event ≠ .capture event') :
    Moves (Drives typing) (branch F env event : CoordinatorM A B T Unit) := by
  cases event with
  | exit | disconnected => exact fun s => refl_of (Drives typing) s
  | outputs outputs => exact drives_outputsChanged outputs
  | release client => exact drives_releaseControl client
  | applyLayout client layout => exact drives_applyLayout client layout
  | status unlocked => exact drives_statusChanged unlocked
  | tick ready => exact absurd rfl (htick ready)
  | capture event => exact absurd rfl (hcapture event)

theorem drives_tick (ready : Result Unit) :
    Moves (Drives True) (tick F env ready : CoordinatorM A B T Unit) := by
  refine (drives_external _).bind fun _ => (drives_call .poll).bind fun _ =>
    (drives_expireLayout F env).bind fun _ => .get_bind fun s => ?_
  refine (Moves.ite drives_sample (.pure false)).bind (fun physical => ?_) s
  refine drives_takeKeyboardEvents.bind fun keys => drives_takeTouchpadEvents.bind fun touches => ?_
  exact (drives_takeOver physical).bind fun _ => (drives_forwardKeys keys).bind fun _ =>
    (drives_sendInputs (.inl trivial)).bind fun _ =>
      (drives_reapCapture env).bind fun _ => drives_beat env

theorem drives_startSession (edge : ℕ) (fraction : ℚ) :
    Moves (Drives True) (startSession env edge fraction : CoordinatorM A B T Unit) := by
  refine drives_sample.bind fun _ =>
    .get_bind fun s => drives_takeKeyboardEvents.bind (fun _ => .ite ?_ ?_) s
  · exact (drives_stopCapture env).bind fun _ => drives_rearm env
  · refine (drives_own _).bind fun _ =>
      .bind (.modify fun _ => drives_aside rfl rfl rfl) fun _ => ?_
    exact (drives_send rfl).bind fun _ => .bind (.modify fun _ => drives_aside rfl rfl rfl) fun _ =>
      drives_enterKeys _

/-- The pointer has crossed an edge: keys are written only if a session starts. -/
theorem drives_captureStarted (edge : ℕ) (fraction : ℚ) {s : Coordinator A B T}
    (h : s.role = .local ∧ s.localReady = true ∧ s.peerReady = true → typing) :
    wp (captureStarted env edge fraction) s (fun _ => Drives typing s)
    (fun _ => Drives typing s) := by
  rw [captureStarted, wp_bind, wp_get]
  refine (drives_own _).bind (fun edge => (drives_own _).bind fun _ => ?_) s
  cases hr : s.role with
  | «local» =>
      by_cases hready : s.localReady = true ∧ s.peerReady = true
      · obtain rfl : typing = True := eq_true (h ⟨hr, hready⟩)
        exact .ite (drives_startSession edge fraction) (drives_stopCapture env)
      · rw [if_neg hready]
        exact drives_stopCapture env
  | sending => exact drives_stopCapture env
  | receiving session =>
      exact (drives_call (.end session)).bind fun _ => (drives_sendEnd _ _).bind fun _ =>
        (drives_setRole _).bind fun _ =>
          (drives_stopCapture env).bind fun _ => (drives_place _ _).bind fun _ =>
          drives_rearm env

theorem drives_captureEvent (event : Option StreamEvent) :
    Moves (Drives True) (captureEvent env event : CoordinatorM A B T Unit) := by
  refine (drives_own _).bind fun event => .get_bind fun s => ?_
  cases s.capture with
  | none => exact refl_of (Drives True) s
  | some task =>
      rw [wp_ite]
      refine ⟨fun _ => refl_of (Drives True) s, fun _ => ?_⟩
      cases event.event with
      | started edge fraction =>
          have hstarted : Drives True s { s with capture := some { task with started := true } } :=
            drives_aside rfl rfl rfl
          rw [wp_bind, wp_set]
          exact wp_mono (drives_captureStarted edge fraction fun _ => trivial)
            (fun _ _ h => trans_of (Drives True) hstarted h) fun _ _ h =>
              trans_of (Drives True) hstarted h
      | input event => exact drives_captureInput event (.inl trivial)
      | finished reason => exact drives_captureEnded reason s
      | armed | ready => exact refl_of (Drives True) s

/-- **A pass only calls the receiver.** -/
theorem drives_pass (event : Event) (frame : Option Frame) :
    Moves (Drives True) (pass F env event frame : CoordinatorM A B T Unit) := by
  have hhead : Moves (Drives True) (head env : CoordinatorM A B T Unit) :=
    drives_head env (.inl trivial)
  cases frame with
  | some frame => exact (drives_message frame.message).bind fun _ => hhead
  | none =>
      refine Moves.bind (m := branch F env event) ?_ fun _ => hhead
      cases event with
      | tick ready => exact drives_tick ready
      | capture event => exact drives_captureEvent event
      | exit | outputs | release | applyLayout | status | disconnected =>
          exact drives_branch (by simp) (by simp)

/-- Before the loop the source is asked whether it reads its keyboards. -/
theorem open_drives (env : Env T) (s : Coordinator A B T) (h : typing ∨ PadsQuiet A) :
    wp («open» env) s
      (fun _ s' => ∃ a, Drives typing { s with
        activity := a
        physicalKeyboard := (ActivitySource.keyboardState a).isSome } s')
      (fun _ s' => ∃ a k, Drives typing { s with activity := a, physicalKeyboard := k } s') := by
  rw [«open», wp_bind, wp_get, wp_bind, wp_own]
  refine ⟨fun _ _ => ?_, fun _ _ => ⟨s.activity, s.physicalKeyboard, refl_of (Drives typing) s⟩⟩
  rw [wp_bind, wp_onActivity]
  refine wp_mono (wp_true _ _) (fun touchpads a _ => ?_)
    fun _ a _ => ⟨a, s.physicalKeyboard, drives_aside rfl rfl rfl⟩
  rw [wp_bind, wp_modify]
  have hrest : Moves (Drives typing) (do
      onReceiver (Receiver.localLock (!s.localReady))
      send env (.desktop s.desktop)
      send env (.touchpads touchpads)
      send env (.lockState (!s.localReady))
      head env : CoordinatorM A B T Unit) :=
    (drives_call (.localLock (!s.localReady))).bind fun _ => (drives_send rfl).bind fun _ =>
      (drives_send rfl).bind fun _ => (drives_send rfl).bind fun _ => drives_head env h
  exact wp_mono (hrest _) (fun _ _ h => ⟨a, h⟩) fun _ _ h => ⟨a, _, h⟩

/-- After the loop the receiver is stopped, and nothing else is done to it. -/
theorem close_stops (F : Format T D) (env : Env T) (s : Coordinator A B T) :
    wp (close F env) s (fun _ s' => s'.receiver = Receiver.next s.receiver (.stop .disconnected))
      (fun _ _ => False) := by
  have hstop : wp (attempt (onReceiver (Receiver.stop .disconnected))) s
      (fun _ s₁ => s₁.receiver = Receiver.next s.receiver (.stop .disconnected))
      fun (_ : Stop) _ => False := by
    rw [wp_attempt, wp_onReceiver]
    exact wp_mono (wp_self (Receiver.Call.stop .disconnected).run s.receiver)
      (fun _ _ hm => by rw [Receiver.next, hm]) fun _ _ hm => by rw [Receiver.next, hm]
  refine wp_seq hstop fun _ s₁ h₁ => ?_
  rw [suspend, wp_bind, wp_modify]
  have hcapture : ∀ s₂ : Coordinator A B T, s₂.receiver = s₁.receiver →
      wp (attempt (stopCapture env)) s₂ (fun _ s₃ => s₃.receiver = s₁.receiver)
        fun (_ : Stop) _ => False := by
    intro s₂ h₂
    rw [wp_attempt]
    exact wp_mono (stopCapture_spec env s₂) (fun _ s₃ h₃ => h₃ ▸ h₂) fun stop s₃ h₃ => h₃.2 ▸ h₂
  refine wp_seq (hcapture _ rfl) fun _ s₃ h₃ => ?_
  rw [wp_bind, wp_get]
  cases s₃.pendingLayout with
  | none => exact h₃.trans h₁
  | some pending =>
      rw [wp_bind, wp_set]
      refine wp_mono (dropPending_spec F env pending _) (fun _ s₄ hs₄ => ?_) fun _ _ => id
      obtain ⟨files, replies, rfl⟩ := hs₄
      exact h₃.trans h₁

end Coordinator

end NiriBridge
