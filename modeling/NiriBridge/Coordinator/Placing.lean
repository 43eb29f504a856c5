import NiriBridge.Coordinator.Relations
import NiriBridge.Receiver.Clearing
import NiriBridge.Receiver.Outputs

/-!
# Coordinator — Placing

The pointer is only placed when the receiver has nothing to release and no session that has passed
input on.  Between its parts the loop is `Tidy`: nothing waits to be released, and a session of the
receiver is the one of the role.  A pointer is placed where the loop is `Vacant`, with no session at
all, or at the start of one.

`Stop.Allowed` says of the way the loop ends that it is no refusal of a placement; of the errors
about edges it leaves open only those that `fault` explains.
-/

namespace NiriBridge

open Hoare

/-- The errors with which the loop may fail. -/
def Stop.Allowed (B : Type) [InputSink B] (fault : Prop) : Stop → Prop
  | .failed e => Receiver.Allowed B fault e
  | .returned _ | .external _ => True

namespace Coordinator

variable {A B T D : Type} {α β : Type} {fault : Prop} {s s' : Coordinator A B T} {F : Format T D}
  {env : Env T}

/-! ### Tidy and vacant -/

/-- Nothing waits to be released, and a session of the receiver is the one of the role. -/
structure Tidy (s : Coordinator A B T) : Prop where
  cleared : s.receiver.Cleared
  session : ∀ n, s.receiver.session = some n → s.role = .receiving n

/-- Nothing waits to be released, and there is no session. -/
structure Vacant (s : Coordinator A B T) : Prop where
  cleared : s.receiver.Cleared
  session : s.receiver.session = none

theorem Vacant.tidy (h : Vacant s) : Tidy s :=
  ⟨h.cleared, fun _ hn => absurd (h.session.symm.trans hn) (by simp)⟩

/-- Only a role that receives has a session. -/
theorem Tidy.vacant (h : Tidy s) (hrole : ∀ n, s.role ≠ .receiving n) : Vacant s := by
  refine ⟨h.cleared, ?_⟩
  cases hs : s.receiver.session with
  | none => rfl
  | some n => exact absurd (h.session n hs) (hrole n)

/-- The receiver and the session it may have. -/
def reception (s : Coordinator A B T) : Receiver B × Option ℕ :=
  (s.receiver, if s.role.isSending then none else s.role.session)

/-- The role is that of a receiver of the session. -/
theorem receiving_iff {n : ℕ} :
    s.role = .receiving n ↔ (if s.role.isSending then none else s.role.session) = some n := by
  cases s.role <;> simp [Role.isSending, Role.session]

theorem Tidy.of_reception (h : Tidy s) (hs : s'.reception = s.reception) : Tidy s' := by
  obtain ⟨hreceiver, hrole⟩ := Prod.mk.inj hs
  refine ⟨hreceiver ▸ h.cleared, fun n hn => ?_⟩
  rw [hreceiver] at hn
  rw [receiving_iff, hrole, ← receiving_iff]
  exact h.session n hn

theorem Vacant.of_reception (h : Vacant s) (hs : s'.reception = s.reception) : Vacant s' := by
  have hreceiver : s'.receiver = s.receiver := congrArg Prod.fst hs
  exact ⟨hreceiver ▸ h.cleared, hreceiver ▸ h.session⟩

variable [InputSink B]

/-! ### Parts that leave the receiver alone -/

/-- The part leaves the receiver alone, and the session it may have; it fails as is allowed. -/
def Steady (fault : Prop) (m : CoordinatorM A B T α) : Prop :=
  ∀ s, wp m s (fun _ s' => s'.reception = s.reception) (fun stop _ => stop.Allowed B fault)

theorem steady_pure (a : α) : Steady fault (pure a : CoordinatorM A B T α) := fun _ => rfl

theorem steady_bind {m : CoordinatorM A B T α} {k : α → CoordinatorM A B T β} (hm : Steady fault m)
    (hk : ∀ a, Steady fault (k a)) : Steady fault (m >>= k) := fun s =>
  wp_seq (hm s) fun a s₁ h₁ => wp_mono (hk a s₁) (fun _ _ h₂ => h₂.trans h₁) fun _ _ => id

theorem steady_get {k : Coordinator A B T → CoordinatorM A B T α} (hk : ∀ s, Steady fault (k s)) :
    Steady fault (get >>= k) := fun s => hk s s

/-- The state is put back but for what `reception` does not see. -/
theorem steady_set {k : PUnit → CoordinatorM A B T α} (hs : s'.reception = s.reception)
    (hk : ∀ u, Steady fault (k u)) :
    wp (set s' >>= k) s (fun _ s'' => s''.reception = s.reception)
    (fun stop _ => stop.Allowed B fault) :=
  wp_mono (hk ⟨⟩ s') (fun _ _ h => h.trans hs) fun _ _ => id

theorem steady_modify {f : Coordinator A B T → Coordinator A B T}
    (h : ∀ s, (f s).reception = s.reception) : Steady fault (modify f) := h

theorem steady_own {r : Result α} (h : ∀ e, r = .error e → Receiver.Allowed B fault e) :
    Steady fault (own r : CoordinatorM A B T α) := fun _ => wp_own.mpr ⟨fun _ _ => rfl, h⟩

theorem steady_external (r : Result α) : Steady fault (external r : CoordinatorM A B T α) :=
  fun _ =>
  wp_external.mpr ⟨fun _ _ => rfl, fun _ _ => trivial⟩

theorem steady_ite {c : Prop} [Decidable c] {m m' : CoordinatorM A B T α} (hm : Steady fault m)
    (hm' : Steady fault m') : Steady fault (if c then m else m') := by
  split_ifs
  · exact hm
  · exact hm'

theorem steady_onActivity (m : EStateM Error A α) :
    Steady fault (onActivity m : CoordinatorM A B T α) := fun s =>
  wp_onActivity.mpr (wp_mono (wp_true m s.activity) (fun _ _ _ => rfl) fun _ _ _ => trivial)

theorem steady_suspend [ActivitySource A] : Steady fault (suspend : CoordinatorM A B T Unit) :=
  fun _ => rfl

theorem steady_onFiles (m : FilesM T α) : Steady fault (onFiles m : CoordinatorM A B T _) :=
  fun s =>
  wp_onFiles.mpr (wp_mono (wp_true m s.files) (fun _ _ _ => rfl) fun _ _ _ => rfl)

theorem steady_sendFrame (frame : Frame) :
    Steady fault (sendFrame env frame : CoordinatorM A B T Unit) := fun s =>
  wp_mono (sendFrame_spec env frame s) (fun _ _ h => h ▸ rfl) fun stop _ h => by
    obtain ⟨⟨e, rfl⟩, -⟩ := h
    trivial

theorem steady_send (message : Message) :
    Steady fault (send env message : CoordinatorM A B T Unit) :=
  steady_sendFrame _

theorem steady_sendEnd (session : ℕ) (exit : Option EdgePosition) :
    Steady fault (sendEnd env session exit : CoordinatorM A B T Unit) :=
  steady_get fun _ => steady_sendFrame _

theorem steady_announceEnd : Steady fault (announceEnd env : CoordinatorM A B T Unit) := by
  refine steady_get fun s => ?_
  cases s.role.session with
  | none => exact steady_pure _
  | some session => exact steady_sendEnd session none

theorem steady_stopCapture : Steady fault (stopCapture env : CoordinatorM A B T Unit) := fun s =>
  wp_mono (stopCapture_spec env s) (fun _ _ h => h ▸ rfl) fun stop _ h => by
    obtain ⟨⟨e, rfl⟩, -⟩ := h
    trivial

/-- Leaving the scope of a layout changes nothing of this. -/
theorem steady_dropPending (pending : PendingLayout T) :
    Steady fault (dropPending F env pending : CoordinatorM A B T Unit) := fun s =>
  wp_mono (dropPending_spec F env pending s) (fun _ _ ⟨_, _, h⟩ => h ▸ rfl) fun _ _ => False.elim

theorem steady_abandon (pending : PendingLayout T) (code : String) :
    Steady fault (abandon F env pending code : CoordinatorM A B T Unit) := fun s =>
  wp_mono (abandon_spec F env pending code s) (fun _ _ ⟨_, _, h⟩ => h ▸ rfl) fun _ _ => False.elim

/-- The frames of a session that is sent, and its next number. -/
theorem steady_sendInput (event : InputEvent) :
    Steady fault (sendInput env event : CoordinatorM A B T Unit) := by
  intro s
  rw [sendInput, wp_bind, wp_get]
  cases hrole : s.role with
  | «local» | receiving => exact rfl
  | sending session sequence edge fraction =>
      refine wp_seq (steady_send _ s) fun _ s₁ h₁ => ?_
      rw [wp_bind, wp_own]
      refine ⟨fun _ _ => ?_, fun e he => Receiver.allowed_ensure he (by decide)⟩
      have hreceiver : s₁.receiver = s.receiver := congrArg Prod.fst h₁
      rw [setRole, wp_modify]
      simp [reception, hrole, hreceiver, Role.isSending]

theorem steady_sendInputs (events : List InputEvent) :
    Steady fault (sendInputs env events : CoordinatorM A B T Unit) := by
  induction events with
  | nil => exact steady_pure _
  | cons event events ih => exact steady_bind (steady_sendInput event) fun _ => ih

theorem steady_forwardKeyboard (event : InputEvent) :
    Steady fault (forwardKeyboard env event : CoordinatorM A B T Bool) := by
  intro s
  rw [forwardKeyboard, wp_bind, wp_get]
  cases hrole : s.role with
  | «local» | receiving => exact rfl
  | sending =>
      cases event with
      | key code pressed =>
          rw [wp_bind, wp_set, wp_ite]
          refine ⟨fun _ => by simp [reception, hrole], fun _ => ?_⟩
          refine wp_seq (steady_sendInput _ _) fun _ s₁ h₁ => h₁.trans ?_
          simp [reception, hrole]
      | _ => exact .inr (.inl (by decide))

theorem steady_enterKeys (codes : List ℕ) :
    Steady fault (enterKeys env codes : CoordinatorM A B T Unit) := by
  induction codes with
  | nil => exact steady_pure _
  | cons code codes ih => exact steady_bind (steady_forwardKeyboard _) fun _ => ih

/-- A part after which a pending layout is out of scope. -/
theorem steady_holding {pending : PendingLayout T} {m : CoordinatorM A B T α} (h : Steady fault m) :
    Steady fault (holding F env pending m) := by
  intro s
  rw [holding, wp_bind, wp_attempt]
  refine wp_mono (h s) (fun _ _ => id) fun stop s₁ hstop => ?_
  rw [wp_bind]
  exact wp_mono (dropPending_spec F env pending s₁) (fun _ _ _ => hstop) fun _ _ => False.elim

theorem steady_prepareLayout (checked : Result Path) (revision : String) (edges : List EdgeConfig) :
    Steady fault (prepareLayout F env checked revision edges : CoordinatorM A B T _) := by
  cases checked with
  | error e => exact steady_pure _
  | ok path => exact steady_onFiles _

theorem steady_answer (client : ℕ) (reply : Reply) :
    Steady fault (answer client reply : CoordinatorM A B T Unit) := steady_modify fun _ => rfl

theorem steady_expireLayout : Steady fault (expireLayout F env : CoordinatorM A B T Unit) := by
  intro s
  rw [expireLayout, wp_bind, wp_get]
  cases s.pendingLayout with
  | none => rfl
  | some pending =>
      refine wp_ite.mpr ⟨fun _ => ?_, fun _ => rfl⟩
      refine steady_set rfl fun _ => ?_
      exact steady_bind (steady_holding (steady_send _)) fun _ => steady_abandon _ _

theorem steady_beat : Steady fault (beat env : CoordinatorM A B T Unit) := by
  refine steady_get fun s => steady_ite ?_ (steady_pure _)
  exact steady_bind (steady_send _) fun _ => steady_modify fun _ => rfl

theorem steady_outputsChanged (outputs : Outputs) :
    Steady fault (outputsChanged env outputs : CoordinatorM A B T Unit) :=
  steady_bind (steady_modify fun _ => rfl) fun _ => steady_get fun _ => steady_send _

theorem steady_armCapture : Steady fault (armCapture env : CoordinatorM A B T Unit) := by
  refine steady_modify fun s => ?_
  split_ifs <;> rfl

theorem steady_layoutPrepared (id : String) (ok : Bool) (error : Option String) :
    Steady fault (layoutPrepared F env id ok error : CoordinatorM A B T Unit) := by
  intro s
  rw [layoutPrepared, wp_bind, wp_get]
  cases s.pendingWith id true with
  | none => rfl
  | some pending =>
      refine steady_set rfl fun _ => ?_
      refine steady_bind (steady_ite (steady_onFiles _) (steady_pure _)) fun committed => ?_
      cases committed with
      | error e => exact steady_bind (steady_holding (steady_send _)) fun _ => steady_abandon _ _
      | ok prepared => exact steady_bind (steady_modify fun _ => rfl) fun _ => steady_send _

theorem steady_layoutCommit (id : String) :
    Steady fault (layoutCommit F env id : CoordinatorM A B T Unit) := by
  intro s
  rw [layoutCommit, wp_bind, wp_get]
  cases s.pendingWith id false with
  | none => rfl
  | some pending =>
      refine steady_set rfl fun _ => steady_bind (steady_onFiles _) fun committed => ?_
      cases committed with
      | error e => exact steady_bind (steady_holding (steady_send _)) fun _ => steady_dropPending _
      | ok prepared =>
          refine steady_bind (steady_onFiles _) fun _ => steady_bind (steady_send _) fun _ => ?_
          exact fun _ => trivial

theorem steady_layoutResult (id : String) (ok : Bool) (revision error : Option String) :
    Steady fault (layoutResult F env id ok revision error : CoordinatorM A B T Unit) := by
  intro s
  rw [layoutResult, wp_bind, wp_get]
  cases s.pendingWith id true with
  | none => rfl
  | some pending =>
      refine steady_set rfl fun _ => steady_ite ?_ (steady_abandon _ _)
      refine steady_bind (steady_onFiles _) fun _ => ?_
      cases pending.reply with
      | none => exact fun _ => trivial
      | some client => exact steady_bind (steady_answer _ _) fun _ _ => trivial

theorem steady_layoutAbort (id : String) :
    Steady fault (layoutAbort F env id : CoordinatorM A B T Unit) := by
  intro s
  rw [layoutAbort, wp_bind, wp_get]
  cases s.pendingLayout.filter (·.id == id) with
  | none => rfl
  | some pending => exact steady_set rfl fun _ => steady_abandon _ _

theorem steady_captureInput (event : InputEvent) :
    Steady fault (captureInput env event : CoordinatorM A B T Unit) := by
  refine steady_get fun s => ?_
  have hsend : Steady fault (do
      own (ensure (env.elapsed < 200) "Input queue became too delayed; restoring local control")
      sendInput env event : CoordinatorM A B T Unit) :=
    steady_bind (steady_own fun _ he => Receiver.allowed_ensure he (by decide))
      fun _ => steady_sendInput _
  cases s.role with
  | «local» | receiving => cases s.physicalKeyboard <;> cases event <;> exact steady_pure _
  | sending =>
      cases s.physicalKeyboard with
      | false => cases event <;> exact hsend
      | true =>
          cases event with
          | key => exact steady_pure _
          | _ => exact hsend

/-! ### Parts between tidy states -/

theorem Steady.tidy {m : CoordinatorM A B T α} (h : Steady fault m) :
    Triple Tidy m Tidy (Stop.Allowed B fault) := fun s hs =>
  wp_mono (h s) (fun _ _ => hs.of_reception) fun _ _ => id

theorem Steady.vacant {m : CoordinatorM A B T α} (h : Steady fault m) :
    Triple Vacant m Vacant (Stop.Allowed B fault) := fun s hs =>
  wp_mono (h s) (fun _ _ => hs.of_reception) fun _ _ => id

/-- Without a session any role may be taken. -/
theorem setRole_vacant (role : Role) :
    Triple Vacant (setRole role : CoordinatorM A B T Unit) Vacant (Stop.Allowed B fault) :=
  .modify fun _ hs => ⟨hs.cleared, hs.session⟩

/-- The placement at the start of a session. -/
theorem place_clears (edge : EdgeConfig) (fraction : ℚ) (h : s.receiver.Cleared)
    (hs : s.receiver.session = none ∨ s.receiver.expectedSequence = 0) :
    wp (place env edge fraction) s
      (fun _ s' => s'.receiver.Cleared ∧ s'.receiver.session = s.receiver.session)
      (fun stop _ => stop.Allowed B fault) := by
  rw [place, wp_bind, wp_external]
  refine ⟨fun outputs _ => ?_, fun _ _ => trivial⟩
  rw [wp_bind, wp_own]
  refine ⟨fun event _ =>
    ?_, fun e he => Receiver.allowed_of_mem (mem_placementErrors he) (by decide)⟩
  rw [wp_onReceiver]
  exact Receiver.positionOn_clears _ _ h hs

/-- The pointer may be placed without a session. -/
theorem place_vacant (edge : EdgeConfig) (fraction : ℚ) :
    Triple Vacant (place env edge fraction : CoordinatorM A B T Unit) Vacant
      (Stop.Allowed B fault) :=
  fun _ hs => wp_mono (place_clears edge fraction hs.cleared (.inl hs.session))
    (fun _ _ h' => ⟨h'.1, h'.2.trans hs.session⟩) fun _ _ => id

/-- And placed back. -/
theorem placeBack_vacant (role : Role) (condition : ℕ → Bool) :
    Triple Vacant (placeBack env role condition : CoordinatorM A B T Unit) Vacant
      (Stop.Allowed B fault) := by
  refine .get_bind fun _ hs => ?_
  cases role with
  | «local» | receiving => exact hs
  | sending => exact wp_ite.mpr ⟨fun _ => place_vacant _ _ _ hs, fun _ => hs⟩

/-- The receiver ends the session of the role. -/
theorem receiverEnd_vacant {session : ℕ} (h : Tidy s) (hs : s.role.session = some session) :
    wp (onReceiver (Receiver.end session)) s (fun _ => Vacant)
    (fun stop _ => stop.Allowed B fault) := by
  rw [wp_onReceiver]
  refine wp_mono (Receiver.end_clears h.cleared fun n hn => ?_) (fun _ _ h' => ⟨h'.1, h'.2⟩)
    fun _ _ => id
  rw [h.session n hn] at hs
  exact Option.some.inj hs

/-- A session that is ended leaves nothing to be released. -/
theorem endSession_vacant :
    Triple Tidy (endSession env : CoordinatorM A B T Unit) Vacant (Stop.Allowed B fault) := by
  refine .get_bind fun s hs => ?_
  cases hsession : s.role.session with
  | none =>
      refine hs.vacant fun n hn => ?_
      rw [hn] at hsession
      cases hsession
  | some session =>
      exact wp_seq (receiverEnd_vacant hs hsession) fun _ s₁ h₁ =>
        (steady_sendEnd session none).vacant s₁ h₁

/-! ### The head of the loop -/

/-- A session on edges that are gone is left. -/
theorem leaveOutdated_tidy :
    Triple Tidy (leaveOutdated env : CoordinatorM A B T Unit) Tidy (Stop.Allowed B fault) := by
  refine .get_bind fun s hs => ?_
  refine wp_ite.mpr ⟨fun _ => ?_, fun _ => hs⟩
  refine wp_seq (endSession_vacant s hs) fun _ s₁ h₁ => ?_
  refine wp_seq (steady_stopCapture.vacant s₁ h₁) fun _ s₂ h₂ => ?_
  refine wp_seq (placeBack_vacant _ _ s₂ h₂) fun _ s₃ h₃ => ?_
  refine wp_seq (setRole_vacant .local s₃ h₃) fun _ s₄ h₄ => ?_
  exact Vacant.tidy ⟨h₄.cleared, h₄.session⟩

/-- The head of the loop keeps the state tidy. -/
theorem head_tidy [ActivitySource A] :
    Triple Tidy (head env : CoordinatorM A B T Unit) Tidy (Stop.Allowed B fault) := by
  have hrest : Triple Tidy (do
      let s ← get
      let events ← onActivity (ActivitySource.routeTouchpads s.role.isSending)
      sendInputs env events
      armCapture env : CoordinatorM A B T Unit) Tidy (Stop.Allowed B fault) := by
    refine Steady.tidy (steady_get fun s => steady_bind (steady_onActivity _) fun events => ?_)
    exact steady_bind (steady_sendInputs events) fun _ => steady_armCapture
  exact .bind (Steady.tidy (steady_modify fun _ => rfl)) fun _ =>
    .bind leaveOutdated_tidy fun _ => hrest

/-! ### The branches -/

/-- Control is released once the session has ended. -/
theorem releaseControl_tidy (client : ℕ) :
    Triple Tidy (releaseControl env client : CoordinatorM A B T Unit) Tidy
      (Stop.Allowed B fault) := by
  refine .bind endSession_vacant fun _ => .bind steady_stopCapture.vacant fun _ => ?_
  refine .get_bind fun s hs => ?_
  refine wp_seq (placeBack_vacant _ _ s hs) fun _ s₁ h₁ => ?_
  refine wp_seq (setRole_vacant .local s₁ h₁) fun _ s₂ h₂ => ?_
  exact Vacant.tidy ⟨h₂.cleared, h₂.session⟩

/-- The session ends before the edit is certain. -/
theorem leave_vacant (pending : PendingLayout T) {m : CoordinatorM A B T α} (hm : Steady fault m) :
    Triple Tidy (holding F env pending do
        endSession env
        stopCapture env
        setRole .local
        m) Vacant (Stop.Allowed B fault) := by
  intro s hs
  rw [holding, wp_bind, wp_attempt]
  have hend : Triple Tidy (do
      endSession env
      stopCapture env
      setRole .local
      m : CoordinatorM A B T α) Vacant (Stop.Allowed B fault) :=
    .bind endSession_vacant fun _ => .bind steady_stopCapture.vacant fun _ =>
      .bind (setRole_vacant .local) fun _ => hm.vacant
  refine wp_mono (hend s hs) (fun _ _ => id) fun stop s₁ hstop => ?_
  rw [wp_bind]
  exact wp_mono (dropPending_spec F env pending s₁) (fun _ _ _ => hstop) fun _ _ => False.elim

/-- A layout is applied without the receiver. -/
theorem applyLayout_tidy (client : ℕ) (layout : LayoutRequest) :
    Triple Tidy (applyLayout F env client layout : CoordinatorM A B T Unit) Tidy
      (Stop.Allowed B fault) := by
  refine .get_bind fun s hs =>
    wp_seq ((steady_prepareLayout _ _ _).tidy s hs) fun prepared s₁ h₁ => ?_
  cases prepared with
  | error e => exact (steady_answer _ _).tidy s₁ h₁
  | ok prepared =>
      refine wp_seq (leave_vacant _ (steady_external _) s₁ h₁) fun id s₂ h₂ => ?_
      rw [wp_bind, wp_modify]
      exact (steady_send _).tidy _ (Vacant.tidy ⟨h₂.cleared, h₂.session⟩)

theorem layoutPrepare_tidy (id : String) (edges : List EdgeConfig) (revision : String) :
    Triple Tidy (layoutPrepare F env id edges revision : CoordinatorM A B T Unit) Tidy
      (Stop.Allowed B fault) := by
  refine .get_bind fun s hs =>
    wp_seq ((steady_prepareLayout _ _ _).tidy s hs) fun prepared s₁ h₁ => ?_
  cases prepared with
  | error e => exact (steady_send _).tidy s₁ h₁
  | ok prepared =>
      refine wp_seq (leave_vacant _ (steady_pure ()) s₁ h₁) fun _ s₂ h₂ => ?_
      rw [wp_bind, wp_modify]
      exact (steady_send _).tidy _ (Vacant.tidy ⟨h₂.cleared, h₂.session⟩)

/-- A vacant device suspends, says so and stops its capture. -/
theorem vacate_tidy [ActivitySource A] :
    Triple Vacant (do
        suspend
        announceEnd env
        setRole .local
        stopCapture env : CoordinatorM A B T Unit) Tidy (Stop.Allowed B fault) := by
  refine .bind steady_suspend.vacant fun _ => ?_
  refine .bind steady_announceEnd.vacant fun _ => .bind (setRole_vacant .local) fun _ => ?_
  exact steady_stopCapture.vacant.mono (fun _ => id) fun _ => Vacant.tidy

/-- A locked desktop is left tidy. -/
theorem statusChanged_tidy [ActivitySource A] (unlocked : Result Bool) :
    Triple Tidy (statusChanged env unlocked : CoordinatorM A B T Unit) Tidy
      (Stop.Allowed B fault) := by
  refine .bind (steady_external unlocked).tidy fun unlocked s hs => ?_
  rw [wp_bind, wp_modify, wp_bind, wp_onReceiver]
  refine wp_mono (Receiver.localLock_clears _ hs.cleared) (fun _ r hr => ?_) fun _ _ => id
  have htidy : Tidy { s with localReady := unlocked, receiver := r } :=
    ⟨hr.cleared, fun n hn => hs.session n (hr.session n hn)⟩
  cases unlocked with
  | true => exact wp_seq ((steady_send _).tidy _ htidy) fun _ _ h => h
  | false =>
      have hvacant : Vacant { s with localReady := false, receiver := r } :=
        ⟨hr.cleared, hr.locked rfl⟩
      exact wp_seq ((steady_send _).vacant _ hvacant) fun _ s₁ h₁ => vacate_tidy s₁ h₁

/-- Physical input takes back the desktop. -/
theorem takeOver_tidy (physical : Bool) :
    Triple Tidy (takeOver env physical : CoordinatorM A B T Unit) Tidy (Stop.Allowed B fault) := by
  refine .get_bind fun s hs => ?_
  cases s.role with
  | «local» | sending => exact hs
  | receiving =>
      refine wp_ite.mpr ⟨fun _ => ?_, fun _ => hs⟩
      rw [wp_bind, wp_onReceiver]
      refine wp_mono (Receiver.physicalActivity_clears hs.cleared) (fun _ r hr => ?_) fun _ _ => id
      have hvacant : Vacant { s with receiver := r } := ⟨hr.1, hr.2⟩
      refine wp_seq (steady_announceEnd.vacant _ hvacant) fun _ s₁ h₁ => ?_
      refine wp_seq (setRole_vacant .local s₁ h₁) fun _ s₂ h₂ => ?_
      refine wp_seq (steady_stopCapture.vacant s₂ h₂) fun _ s₃ h₃ => ?_
      exact Vacant.tidy ⟨h₃.cleared, h₃.session⟩

/-- Only a session that is sent has an emergency chord. -/
theorem forwardKeyboard_chord (event : InputEvent) (s : Coordinator A B T) :
    wp (forwardKeyboard env event) s
      (fun chord s' => s'.reception = s.reception ∧ (chord = true → s'.role.isSending = true))
      (fun stop _ => stop.Allowed B fault) := by
  have hsending : wp (forwardKeyboard env event) s
      (fun chord s' => chord = true → s'.role.isSending = true) (fun _ _ => True) := by
    rw [forwardKeyboard, wp_bind, wp_get]
    cases s.role with
    | «local» | receiving => simp
    | sending =>
        cases event with
        | key code pressed =>
            rw [wp_bind, wp_set, wp_ite]
            refine ⟨fun _ _ => rfl, fun _ => ?_⟩
            exact wp_bind.mpr (wp_mono (wp_true _ _) (fun _ _ _ => by simp) fun _ _ => id)
        | _ => trivial
  exact wp_mono (wp_and (steady_forwardKeyboard event s) hsending)
    (fun _ _ => id) fun _ _ => And.left

/-- The chord ends a session that is sent, and places the pointer back. -/
theorem forwardKeys_tidy (events : List InputEvent) :
    Triple Tidy (forwardKeys env events : CoordinatorM A B T Unit) Tidy (Stop.Allowed B fault) := by
  induction events with
  | nil => exact .pure _
  | cons event events ih =>
      intro s hs
      rw [forwardKeys]
      refine wp_seq (forwardKeyboard_chord event s) fun chord s₁ ⟨h₁, hsending⟩ => ?_
      have htidy : Tidy s₁ := hs.of_reception h₁
      refine wp_ite.mpr ⟨fun hchord => ?_, fun _ => ih s₁ htidy⟩
      have hvacant : Vacant s₁ := htidy.vacant fun n hn => by
        have h := hsending hchord
        rw [hn] at h
        cases h
      rw [wp_bind, wp_get]
      have hend : ∀ s₂, Vacant s₂ → wp (do
          modify fun s => { s with role := .local, sourceKeys := ∅ }
          rearm env :
          CoordinatorM A B T Unit) s₂ (fun _ => Tidy) (fun stop _ => stop.Allowed B fault) :=
        fun s₂ h₂ => Vacant.tidy ⟨h₂.cleared, h₂.session⟩
      cases s₁.role with
      | «local» | receiving => exact hend s₁ hvacant
      | sending session sequence edge fraction =>
          refine wp_seq ((steady_sendEnd _ _).vacant s₁ hvacant) fun _ s₂ h₂ => ?_
          refine wp_seq (steady_stopCapture.vacant s₂ h₂) fun _ s₃ h₃ => ?_
          exact wp_seq (place_vacant _ _ s₃ h₃) fun _ s₄ h₄ => hend s₄ h₄

/-- A capture that is gone leaves no session. -/
theorem reapCapture_tidy :
    Triple Tidy (reapCapture env : CoordinatorM A B T Unit) Tidy (Stop.Allowed B fault) := by
  refine .get_bind fun s hs => wp_ite.mpr ⟨fun _ => ?_, fun _ => hs⟩
  have hrest : ∀ s₁ : Coordinator A B T, Tidy s₁ →
      wp (rearm env) s₁ (fun _ => Tidy) (fun stop _ => stop.Allowed B fault) := fun s₁ h₁ =>
    ⟨h₁.cleared, h₁.session⟩
  cases hrole : s.role with
  | «local» | receiving => exact wp_seq (steady_stopCapture.tidy s hs) fun _ s₁ h₁ => hrest s₁ h₁
  | sending session sequence edge fraction =>
      have hvacant : Vacant s := hs.vacant fun n hn => absurd (hrole.symm.trans hn) (by simp)
      refine wp_seq (steady_stopCapture.vacant s hvacant) fun _ s₁ h₁ => ?_
      refine wp_seq ((steady_sendEnd _ _).vacant s₁ h₁) fun _ s₂ h₂ => ?_
      exact wp_seq (setRole_vacant .local s₂ h₂) fun _ s₃ h₃ => hrest s₃ h₃.tidy

/-- A tick keeps the state tidy. -/
theorem tick_tidy [ActivitySource A] (ready : Result Unit) :
    Triple Tidy (tick F env ready : CoordinatorM A B T Unit) Tidy (Stop.Allowed B fault) := by
  have hpoll : Triple Tidy (onReceiver Receiver.poll : CoordinatorM A B T Unit) Tidy
      (Stop.Allowed B fault) := by
    intro s hs
    rw [wp_onReceiver]
    refine wp_mono (Receiver.poll_clears hs.cleared) (fun _ r hr => ?_) fun _ _ => id
    exact ⟨hr.1, fun n hn => hs.session n (hr.2 ▸ hn)⟩
  refine .bind (steady_external ready).tidy fun _ => .bind hpoll fun _ => ?_
  refine .bind steady_expireLayout.tidy fun _ => .get_bind fun s hs => ?_
  have htaken : Triple Tidy (do
      let physical ← (if s.localReady ∧ s.peerReady then sample else pure false)
      let keyboardEvents ← takeKeyboardEvents
      let touchpadEvents ← takeTouchpadEvents
      takeOver env physical
      forwardKeys env keyboardEvents
      sendInputs env touchpadEvents
      reapCapture env
      beat env : CoordinatorM A B T Unit) Tidy (Stop.Allowed B fault) := by
    refine .bind (Steady.tidy (steady_ite (steady_onActivity _) (steady_pure _))) fun physical => ?_
    refine .bind (Steady.tidy fun _ => rfl) fun keys =>
      .bind (Steady.tidy fun _ => rfl) fun pads => ?_
    refine .bind (takeOver_tidy physical) fun _ => .bind (forwardKeys_tidy keys) fun _ => ?_
    refine .bind (steady_sendInputs pads).tidy fun _ => .bind reapCapture_tidy fun _ => ?_
    exact steady_beat.tidy
  exact htaken s hs

/-- The keys that are down go with the session. -/
theorem startSession_tidy [ActivitySource A] (edge : ℕ) (fraction : ℚ) :
    Triple Vacant (startSession env edge fraction : CoordinatorM A B T Unit) Tidy
      (Stop.Allowed B fault) := by
  refine .bind (steady_onActivity _).vacant fun _ => .get_bind fun s hs => ?_
  have htaken : Triple Vacant (do
      let _ ← takeKeyboardEvents
      let initialKeys := (ActivitySource.keyboardState s.activity).getD ∅
      if 1 ∈ initialKeys ∧ emergencyModifiers initialKeys then
        stopCapture env
        rearm env
      else
        let session := s.nextSession
        own (ensure (session + 1 < 2 ^ 64) "Session identifiers exhausted")
        modify fun s => { s with nextSession := session + 1 }
        send env (.begin session ⟨(edgeAt s.config edge).id, fraction⟩)
        modify fun s => { s with role := .sending session 0 edge fraction, sourceKeys := ∅ }
        enterKeys env initialKeys.toList :
        CoordinatorM A B T Unit) Tidy (Stop.Allowed B fault) := by
    refine .bind (Steady.vacant fun _ => rfl) fun _ => .mono ?_ (fun _ => id) fun _ => Vacant.tidy
    refine .ite (fun _ => ?_) fun _ => ?_
    · exact .bind steady_stopCapture.vacant fun _ => Steady.vacant fun _ => rfl
    refine .bind (Steady.vacant (steady_own fun _ he => Receiver.allowed_ensure he (by decide)))
      fun _ => ?_
    refine .bind (Steady.vacant fun _ => rfl) fun _ => .bind (steady_send _).vacant fun _ => ?_
    exact .bind (.modify fun s hs => ⟨hs.cleared, hs.session⟩) fun _ => (steady_enterKeys _).vacant
  exact htaken s hs

/-- The checks of `Event::Started` are not met. -/
def UnknownCrossing (s : Coordinator A B T) (edge : ℕ) : Prop :=
  ∀ e, s.captureEdges[edge]? = some e → e ∉ s.availableEdges

/-- A capture fails over an edge only if it reports one the device does not know. -/
theorem captureStarted_tidy [ActivitySource A] {edge : ℕ} (fraction : ℚ) (h : Tidy s)
    (hfault : UnknownCrossing s edge → fault) :
    wp (captureStarted env edge fraction) s (fun _ => Tidy)
    (fun stop _ => stop.Allowed B fault) := by
  have hunknown : UnknownCrossing s edge → ∀ e ∈ edgeErrors, Receiver.Allowed B fault e :=
    fun hu e he => .inr (.inr ⟨hfault hu, he⟩)
  rw [captureStarted, wp_bind, wp_get, wp_bind, wp_own]
  refine ⟨fun edge' hedge => ?_, fun e he => ?_⟩
  swap
  · have hnone : s.captureEdges[edge]? = none := by
      cases hget : s.captureEdges[edge]? with
      | none => rfl
      | some a => rw [hget] at he; cases he
    refine hunknown (fun e' he' => absurd (hnone.symm.trans he') (by simp)) e ?_
    rw [eq_of_orError he]
    decide
  rw [wp_bind, wp_own]
  refine ⟨fun _ _ => ?_, fun e he => ?_⟩
  swap
  · obtain ⟨hne, rfl⟩ := ensure_eq_error.mp he
    refine hunknown (fun e' he' => ?_) _ (by decide)
    obtain rfl : edge' = e' := Option.some.inj ((orError_eq_ok.mp hedge).symm.trans he')
    exact hne
  cases hrole : s.role with
  | «local» =>
      have hvacant : Vacant s := h.vacant fun n hn => absurd (hrole.symm.trans hn) (by simp)
      refine wp_ite.mpr ⟨fun _ => startSession_tidy _ _ s hvacant, fun _ => ?_⟩
      exact steady_stopCapture.tidy s h
  | receiving session =>
      have hsession : s.role.session = some session := by rw [hrole]; rfl
      refine wp_seq (receiverEnd_vacant h hsession) fun _ s₁ h₁ => ?_
      refine wp_seq ((steady_sendEnd _ _).vacant s₁ h₁) fun _ s₂ h₂ => ?_
      refine wp_seq (setRole_vacant .local s₂ h₂) fun _ s₃ h₃ => ?_
      refine wp_seq (steady_stopCapture.vacant s₃ h₃) fun _ s₄ h₄ => ?_
      refine wp_seq (place_vacant _ _ s₄ h₄) fun _ s₅ h₅ => ?_
      exact Vacant.tidy ⟨h₅.cleared, h₅.session⟩
  | sending => exact steady_stopCapture.tidy s h

theorem captureEnded_tidy (reason : String) :
    Triple Tidy (captureEnded env reason : CoordinatorM A B T Unit) Tidy
      (Stop.Allowed B fault) := by
  refine .get_bind fun s hs => ?_
  refine wp_seq (endSession_vacant s hs) fun _ s₁ h₁ => ?_
  refine wp_seq (setRole_vacant .local s₁ h₁) fun _ s₂ h₂ => ?_
  refine wp_seq (steady_stopCapture.vacant s₂ h₂) fun _ s₃ h₃ => ?_
  refine wp_seq (placeBack_vacant _ _ s₃ h₃) fun _ s₄ h₄ => ?_
  exact Vacant.tidy ⟨h₄.cleared, h₄.session⟩

/-- The crossing that a pass finds, of the current capture. -/
def captureCrossing (s : Coordinator A B T) (event : Option StreamEvent) : Option ℕ :=
  match event with
  | some ⟨generation, .started edge _⟩ =>
      if s.capture.isSome ∧ generation = s.generation then some edge else none
  | _ => none

/-- Only an unknown edge makes an event of the capture fail. -/
theorem captureEvent_tidy [ActivitySource A] {event : Option StreamEvent} (h : Tidy s)
    (hfault : ∀ edge, s.captureCrossing event = some edge → UnknownCrossing s edge → fault) :
    wp (captureEvent env event) s (fun _ => Tidy) (fun stop _ => stop.Allowed B fault) := by
  rw [captureEvent, wp_bind, wp_own]
  refine ⟨fun event' hevent => ?_, fun e he => ?_⟩
  swap
  · rw [eq_of_orError he]
    exact .inr (.inl (by decide))
  obtain rfl : event = some event' := by
    cases event with
    | none => cases hevent
    | some a => cases hevent; rfl
  rw [wp_bind, wp_get]
  cases hcapture : s.capture with
  | none => exact h
  | some task =>
      refine wp_ite.mpr ⟨fun _ => h, fun hgeneration => ?_⟩
      obtain ⟨generation, capture⟩ := event'
      cases capture with
      | started edge fraction =>
          rw [wp_bind, wp_set]
          have hmarked : Tidy { s with capture := some { task with started := true } } :=
            ⟨h.cleared, h.session⟩
          refine captureStarted_tidy fraction hmarked fun hu => hfault edge ?_ hu
          have hsome : s.capture.isSome = true := by rw [hcapture]; rfl
          exact if_pos ⟨hsome, not_not.mp hgeneration⟩
      | input event => exact (steady_captureInput event).tidy s h
      | finished reason => exact captureEnded_tidy reason s h
      | armed | ready => exact h

/-! ### The peer's messages -/

theorem peerTouchpads_tidy (devices : List Touchpad.Descriptor) :
    Triple Tidy (peerTouchpads devices : CoordinatorM A B T Unit) Tidy (Stop.Allowed B fault) := by
  refine .get_bind fun s hs => ?_
  have htwice : Steady fault (own (ensure (s.peerTouchpadsConfigured = false)
      "Touchpad negotiation was repeated") : CoordinatorM A B T Unit) :=
    steady_own fun _ he => Receiver.allowed_ensure he (by decide)
  refine wp_seq (htwice.tidy s hs) fun _ s₁ h₁ => ?_
  rw [wp_bind, wp_onReceiver]
  refine wp_mono (Receiver.configureTouchpads_clears devices h₁.cleared)
    (fun _ r hr => ?_) fun _ _ => id
  exact ⟨hr.1, fun n hn => h₁.session n (hr.2 ▸ hn)⟩

/-- A locked peer is left tidy. -/
theorem peerLockState_tidy [ActivitySource A] (locked : Bool) :
    Triple Tidy (peerLockState env locked : CoordinatorM A B T Unit) Tidy
      (Stop.Allowed B fault) := by
  refine .get_bind fun s hs => ?_
  rw [wp_bind, wp_own]
  refine ⟨fun _ _ => ?_, fun _ he => Receiver.allowed_ensure he (by decide)⟩
  rw [wp_bind, wp_modify, wp_bind, wp_onReceiver]
  refine wp_mono (Receiver.peerLock_clears locked hs.cleared) (fun _ r hr => ?_) fun _ _ => id
  cases locked with
  | false => exact ⟨hr.cleared, fun n hn => hs.session n (hr.session n hn)⟩
  | true =>
      have hvacant : Vacant { s with peerReady := false, receiver := r } :=
        ⟨hr.cleared, hr.locked rfl⟩
      have hback : Triple Vacant (if s.role.isSending then do
            stopCapture env
            placeBack env s.role fun _ => s.localReady
          else pure () : CoordinatorM A B T Unit) Vacant (Stop.Allowed B fault) :=
        .ite (fun _ => .bind steady_stopCapture.vacant fun _ => placeBack_vacant _ _)
          fun _ => .pure _
      refine wp_seq (steady_suspend.vacant _ hvacant) fun _ s₁ h₁ => ?_
      refine wp_seq (steady_announceEnd.vacant s₁ h₁) fun _ s₂ h₂ => ?_
      refine wp_seq (hback s₂ h₂) fun _ s₃ h₃ => ?_
      refine wp_seq (setRole_vacant .local s₃ h₃) fun _ s₄ h₄ => ?_
      exact wp_mono (steady_stopCapture.vacant s₄ h₄) (fun _ _ => Vacant.tidy) fun _ _ => id

/-- A session that begins has passed nothing on. -/
theorem peerBegin_tidy [ActivitySource A] (session : ℕ) (entry : EdgePosition) :
    Triple Tidy (peerBegin env session entry : CoordinatorM A B T Unit) Tidy
      (Stop.Allowed B fault) := by
  refine .get_bind fun s hs => ?_
  have hask : Steady fault (if (s.entryEdge entry.edgeId).isSome then mayEnter else pure false :
      CoordinatorM A B T Bool) := by
    refine steady_ite (steady_get fun s' => steady_ite ?_ (steady_pure _)) (steady_pure _)
    exact steady_bind (steady_onActivity _) fun physical => steady_pure _
  refine wp_seq (hask.tidy s hs) fun accepted s₁ h₁ => ?_
  have hsend : Steady fault (sendFrame env ⟨.end session none, false⟩ : CoordinatorM A B T Unit) :=
    steady_sendFrame _
  have hrefuse := hsend.tidy s₁ h₁
  have hoverlap : Stop.Allowed B fault (.failed ["Unexpected overlapping input session"]) :=
    .inr (.inl (by decide))
  -- refused, the role and the receiver stay as they are
  cases accepted with
  | false =>
      cases s.entryEdge entry.edgeId <;> cases s.role <;> first | exact hrefuse | exact hoverlap
  | true =>
      cases s.entryEdge entry.edgeId with
      | none => cases s.role <;> first | exact hrefuse | exact hoverlap
      | some edge =>
          rw [wp_bind, wp_onReceiver]
          refine wp_mono (Receiver.begin_clears session h₁.cleared)
            (fun started r hr => ?_) fun _ _ => id
          rw [wp_bind, wp_own]
          refine ⟨fun _ hstarted => ?_, fun _ he => Receiver.allowed_ensure he (by decide)⟩
          obtain ⟨hcleared, hsession⟩ := hr
          have hstarted : started = true := ensure_eq_ok.mp hstarted
          rw [if_pos hstarted] at hsession
          refine wp_seq (place_clears _ _ hcleared (.inr hsession.2)) fun _ s₂ h₂ => ?_
          refine ⟨h₂.1, fun n hn => ?_⟩
          have hn' : some session = some n := (h₂.2.trans hsession.1).symm.trans hn
          rw [Option.some.inj hn']

/-- An input of the peer keeps the state tidy. -/
theorem peerInput_tidy [ActivitySource A] (session sequence : ℕ) (event : InputEvent) :
    Triple Tidy (peerInput env session sequence event : CoordinatorM A B T Unit) Tidy
      (Stop.Allowed B fault) := by
  refine .bind (Steady.tidy (steady_own fun _ he => Receiver.allowed_ensure he (by decide)))
    fun _ => ?_
  refine .get_bind fun s hs => wp_ite.mpr ⟨fun _ => ?_, fun _ => hs⟩
  have hsample : Steady fault (sample : CoordinatorM A B T Bool) := steady_onActivity _
  refine wp_seq (hsample.tidy s hs) fun physical s₁ h₁ => wp_ite.mpr ⟨fun _ => ?_, fun _ => ?_⟩
  · rw [wp_bind, wp_onReceiver]
    refine wp_mono (Receiver.physicalActivity_clears h₁.cleared) (fun _ r hr => ?_) fun _ _ => id
    have hvacant : Vacant { s₁ with receiver := r } := ⟨hr.1, hr.2⟩
    refine wp_seq ((steady_sendEnd _ _).vacant _ hvacant) fun _ s₂ h₂ => ?_
    refine wp_seq (setRole_vacant .local s₂ h₂) fun _ s₃ h₃ => ?_
    exact wp_mono (steady_stopCapture.vacant s₃ h₃) (fun _ _ => Vacant.tidy) fun _ _ => id
  · rw [wp_bind, wp_onReceiver]
    refine wp_mono (Receiver.input_clears session sequence event h₁.cleared) (fun _ r hr => ?_)
      fun _ _ => id
    exact ⟨hr.1, fun n hn => h₁.session n (hr.2 n hn)⟩

/-- The peer has ended a session of this device at a position this device does not know. -/
def UnknownReturn (s : Coordinator A B T) (exit : Option EdgePosition) : Prop :=
  ∃ session sequence edge fraction e, s.role = .sending session sequence edge fraction ∧
    s.returnEdge edge fraction exit = .error e

omit [InputSink B] in
/-- The errors of the edge to return to are errors about edges. -/
theorem mem_edgeErrors_of_returnEdge {edge : ℕ} {fraction : ℚ}
    {exit : Option EdgePosition} {e : Error} (h : s.returnEdge edge fraction exit = .error e) :
    e ∈ edgeErrors := by
  cases exit with
  | none => cases h
  | some exit =>
      simp only [returnEdge, bind_eq_error] at h
      rcases h with h | ⟨⟨edge, index⟩, -, h | ⟨-, -, h⟩⟩
      · rw [eq_of_orError h]
        decide
      · rw [(ensure_eq_error.mp h).2]
        decide
      · cases h

/-- An end fails over an edge only if it names a position the device does not know. -/
theorem peerEnd_tidy (session : ℕ) (exit : Option EdgePosition) (h : Tidy s)
    (hfault : s.role.session = some session → UnknownReturn s exit → fault) :
    wp (peerEnd env session exit) s (fun _ => Tidy) (fun stop _ => stop.Allowed B fault) := by
  rw [peerEnd, wp_bind, wp_get, wp_ite]
  refine ⟨fun hsession => ?_, fun _ => h⟩
  refine wp_seq (receiverEnd_vacant h hsession) fun _ s₁ h₁ => ?_
  refine wp_seq (steady_stopCapture.vacant s₁ h₁) fun _ s₂ h₂ => ?_
  have hend : ∀ s₃, Vacant s₃ → wp (do setRole .local; rearm env : CoordinatorM A B T Unit) s₃
      (fun _ => Tidy) (fun stop _ => stop.Allowed B fault) := fun s₃ h₃ =>
    Vacant.tidy ⟨h₃.cleared, h₃.session⟩
  cases hrole : s.role with
  | «local» | receiving => exact hend s₂ h₂
  | sending n k edge fraction =>
      refine wp_ite.mpr ⟨fun _ => ?_, fun _ => hend s₂ h₂⟩
      rw [wp_bind, wp_own]
      refine ⟨fun x _ => ?_, fun e he => ?_⟩
      · exact wp_seq (place_vacant _ _ s₂ h₂) fun _ s₃ h₃ => hend s₃ h₃
      · have hunknown : UnknownReturn s exit := ⟨n, k, edge, fraction, e, hrole, he⟩
        exact .inr (.inr ⟨hfault hsession hunknown, mem_edgeErrors_of_returnEdge he⟩)

/-- The layout messages leave the receiver alone. -/
theorem layoutMessage_tidy (message : LayoutMessage) :
    Triple Tidy (layoutMessage F env message : CoordinatorM A B T Unit) Tidy
      (Stop.Allowed B fault) := by
  cases message with
  | prepare id edges revision => exact layoutPrepare_tidy id edges revision
  | prepared id ok error => exact (steady_layoutPrepared id ok error).tidy
  | commit id => exact (steady_layoutCommit id).tidy
  | result id ok revision error => exact (steady_layoutResult id ok revision error).tidy
  | abort id => exact (steady_layoutAbort id).tidy

/-- The end that a message is, of a session of this device that the message knows. -/
def Misdirected (s : Coordinator A B T) : Message → Prop
  | .end session exit => s.role.session = some session ∧ UnknownReturn s exit
  | _ => False

/-- Only a misdirected message makes the loop fail over an edge. -/
theorem peerMessage_tidy [ActivitySource A] {message : Message} (h : Tidy s)
    (hfault : Misdirected s message → fault) :
    wp (peerMessage F env message) s (fun _ => Tidy) (fun stop _ => stop.Allowed B fault) := by
  cases message with
  | desktop info => exact ⟨h.cleared, h.session⟩
  | layout message => exact layoutMessage_tidy message s h
  | touchpads devices => exact peerTouchpads_tidy devices s h
  | hello version => exact .inr (.inl (by decide))
  | ping nonce => exact (steady_send _).tidy s h
  | pong nonce => exact h
  | lockState locked => exact peerLockState_tidy locked s h
  | «begin» session entry => exact peerBegin_tidy session entry s h
  | input session sequence event => exact peerInput_tidy session sequence event s h
  | «end» session exit => exact peerEnd_tidy session exit h fun hs hu => hfault ⟨hs, hu⟩

/-! ### Passes -/

/-- What the errors about edges of a pass come from: a crossing of the capture that this device does
not know, or an end at a position it does not know. -/
def Misrouted (s : Coordinator A B T) (event : Event) : Option Frame → Prop
  | some frame => Misdirected s frame.message
  | none => ∃ report edge, event = .capture report ∧ s.captureCrossing report = some edge ∧
      UnknownCrossing s edge

/-- Only what is misrouted makes a branch fail over an edge. -/
theorem branch_tidy [ActivitySource A] {event : Event} (h : Tidy s)
    (hfault : s.Misrouted event none → fault) :
    wp (branch F env event) s (fun _ => Tidy) (fun stop _ => stop.Allowed B fault) := by
  cases event with
  | exit => trivial
  | outputs outputs => exact (steady_outputsChanged outputs).tidy s h
  | release client => exact releaseControl_tidy client s h
  | applyLayout client layout => exact applyLayout_tidy client layout s h
  | status unlocked => exact statusChanged_tidy unlocked s h
  | tick ready => exact tick_tidy ready s h
  | capture report =>
      exact captureEvent_tidy h fun edge hedge hu => hfault ⟨report, edge, rfl, hedge, hu⟩
  | disconnected => exact .inr (.inl (by decide))

/-- **A pass** between tidy states refuses no placement, and no edge but for the reasons of
`Misrouted`. -/
theorem pass_tidy [ActivitySource A] {event : Event} {frame : Option Frame} (h : Tidy s)
    (hfault : s.Misrouted event frame → fault) :
    wp (pass F env event frame) s (fun _ => Tidy) (fun stop _ => stop.Allowed B fault) := by
  cases frame with
  | some frame => exact wp_seq (peerMessage_tidy h hfault) fun _ s₁ h₁ => head_tidy s₁ h₁
  | none => exact wp_seq (branch_tidy h hfault) fun _ s₁ h₁ => head_tidy s₁ h₁

/-- A coordinator that has opened its connection is tidy. -/
theorem open_tidy [ActivitySource A] (config : Config) (desktop : Desktop) (sink : B) (activity : A)
    (unlocked : Bool) (now : ℕ) (files : Files T) :
    wp («open» env) (Coordinator.new config desktop sink activity unlocked now files)
    (fun _ => Tidy)
      (fun stop _ => stop.Allowed B fault) := by
  have hnew : Tidy (Coordinator.new config desktop sink activity unlocked now files) :=
    ⟨⟨Receiver.inv_new sink, rfl⟩, by intros; contradiction⟩
  rw [«open», wp_bind, wp_get, wp_bind, wp_own]
  refine ⟨fun _ _ => ?_, fun e he => Receiver.allowed_of_mem (mem_layoutErrors he) (by decide)⟩
  refine wp_seq ((steady_onActivity _).tidy _ hnew) fun touchpads s₁ h₁ => ?_
  rw [wp_bind, wp_modify, wp_bind, wp_onReceiver]
  refine wp_mono (Receiver.localLock_clears _ h₁.cleared) (fun _ r hr => ?_) fun _ _ => id
  have h₂ : Tidy { s₁ with
      physicalKeyboard := (ActivitySource.keyboardState s₁.activity).isSome
      receiver := r } := ⟨hr.cleared, fun n hn => h₁.session n (hr.session n hn)⟩
  refine wp_seq ((steady_send _).tidy _ h₂) fun _ s₃ h₃ => ?_
  refine wp_seq ((steady_send _).tidy s₃ h₃) fun _ s₄ h₄ => ?_
  exact wp_seq ((steady_send _).tidy s₄ h₄) fun _ s₅ h₅ => head_tidy s₅ h₅

end Coordinator

namespace Node

open Coordinator Receiver

variable {A B T D : Type} [ActivitySource A] [InputSink B] {n : Node A B T}

/-- The node waits in a tidy state, or has stopped in a way that is allowed. -/
structure Placed (fault : Prop) (n : Node A B T) : Prop where
  tidy : n.stopped = none → n.coordinator.Tidy
  allowed : ∀ stop, n.stopped = some stop → stop.Allowed B fault

/-- The state after a pass that ends tidy, or fails as is allowed. -/
theorem placed_after {F : Format T D} {fault : Prop} {env : Env T} {m : CoordinatorM A B T Unit}
    {s : Coordinator A B T}
    (h : wp m { s with outbox := [] } (fun _ => Tidy) (fun stop _ => stop.Allowed B fault)) :
    Placed fault (after F env m s).1 := by
  unfold after
  cases hm : m { s with outbox := [] } with
  | ok _ s' => exact ⟨fun _ => wp_of_ok h hm, by simp⟩
  | error stop s' =>
      have hstop := wp_of_error h hm
      cases hclose : (Coordinator.close F env).run s' <;> simp only [hclose] <;>
        exact ⟨by simp, fun stop' h' => Option.some.inj h' ▸ hstop⟩

/-- A step keeps the node placed, unless it is misrouted. -/
theorem placed_next (F : Format T D) {fault : Prop} (h : Placed fault n)
    (l : (Coordinator.Event × Env T) × Option Frame)
    (hfault : n.stopped = none → n.coordinator.Misrouted l.1.1 l.2 → fault) :
    Placed fault (next F n l) := by
  cases hn : n.stopped with
  | some stop =>
      have hsame : next F n l = n := by
        rw [next, step, hn]
      rw [hsame]
      exact h
  | none =>
      have hstep : n.step F l.1 l.2 = after F l.1.2 (pass F l.1.2 l.1.1 l.2) n.coordinator := by
        rw [step, hn]
      rw [next, hstep]
      have htidy := h.tidy hn
      have hempty : Tidy { n.coordinator with outbox := [] } := ⟨htidy.cleared, htidy.session⟩
      exact placed_after (pass_tidy hempty (hfault hn))

/-- **The output changes with nothing down**, and the loop never asks for it too early.  On a
receiver whose backend had nothing down, after every sequence of calls and whatever failed:
`position_on` asks the backend for the output while nothing is down, or it fails and leaves the
backend alone.  In every run of a device nothing waits to be released, and no session that has
passed input on is there, where the loop places the pointer: the loop does not end with the refusal
of a placement, unless the backend has said the same. -/
theorem outputs_switch_released (law : SinkLaw B) {sink : Watched B}
    (hsink : ∀ c, ¬ law.down sink.sink c) (calls : List Call) (output : String) (event : InputEvent)
    (F : Format T D) (config : Config) (desktop : Desktop) (backend : B) (activity : A)
    (unlocked : Bool) (now : ℕ) (files : Files T) (env : Env T)
    (ls : List ((Coordinator.Event × Env T) × Option Frame)) :
    let r := Run.run Receiver.next (Receiver.new sink) calls
    let start :=
      (connect F env (Coordinator.new config desktop backend activity unlocked now files)).1
    let n := Run.run (next F) start ls
    (((∀ c, ¬ law.down r.sink.sink c) ∧
      Receiver.Selected output r (r.next (.positionOn output event))) ∨
        ∃ e, positionOn output event r = .error e r) ∧
      (n.stopped = none → n.coordinator.receiver.pendingReleases = ∅) ∧
      (n.stopped = some (.failed placementRefused) → BackendError B placementRefused) := by
  intro r start n
  have hstart : Placed True start :=
    placed_after (open_tidy config desktop backend activity unlocked now files)
  have hplaced : Placed True n :=
    Run.run_invariant_of_step (I := Placed True)
      (fun n l h => placed_next F h l fun _ _ => trivial) hstart
  refine ⟨select_released law hsink calls output event, fun hn => (hplaced.tidy hn).cleared.pending,
    fun hn => ?_⟩
  -- the refusal is no error about edges, so only the backend is left
  rcases hplaced.allowed _ hn with hbackend | hother | ⟨-, hedge⟩
  · exact hbackend
  · exact absurd List.mem_cons_self hother
  · exact absurd hedge (by decide)

open Sample in
/-- A key that may still be down keeps the pointer on its output. -/
theorem outputs_switch_released_failing :
    let r := Run.run Receiver.next (Receiver.new (⟨Scripted.failing, []⟩ : Watched Scripted))
      [.begin 1, .input 1 0 (.key 30 true)]
    ∃ e, positionOn "screen" (.absolute 0 0 1920 1080) r = .error e r := by
  intro r
  have hsink : ∀ c, ¬ Scripted.sinkLaw.down (⟨Scripted.failing, []⟩ : Watched Scripted).sink c :=
    fun c => SortedSet.not_mem_empty c
  have h := outputs_switch_released Scripted.sinkLaw hsink [.begin 1,
    .input 1 0 (.key 30 true)] "screen"
    (.absolute 0 0 1920 1080) format (config .top) (desktop .top) Scripted.failing
    (monitor fun _ => absent) true 0 files (env 0) (greeting .bottom ++ [crossing 1])
  have hdown : 30 ∈ r.sink.sink.down := by decide
  exact h.1.resolve_left fun hreleased => hreleased.1 30 hdown

end Node

end NiriBridge
