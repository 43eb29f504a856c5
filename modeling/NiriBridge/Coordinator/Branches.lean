import NiriBridge.Coordinator.Calls

/-!
# Coordinator — Branches

Every branch of the loop that is not about a message of a session, and the head of the loop, restore
the relations between the variables: from `Settled` to `Settled`, or the pass fails in `Halt`.
-/

namespace NiriBridge.Coordinator

open Hoare Session

variable {A B T D : Type} {α : Type} {once : Prop} {p₀ p : Party InputEvent}
  {t : List (Signal InputEvent)} {c : Core} {s s' : Coordinator A B T}
  {F : Format T D} {env : Env T}

/-! ### The layout in scope -/

/-- Giving up a layout changes the file and answers clients. -/
theorem dropPending_spec (F : Format T D) (env : Env T) (pending : PendingLayout T)
    (s : Coordinator A B T) :
    wp (dropPending F env pending) s
      (fun _ s' => ∃ files replies, s' = { s with files := files, replies := replies })
      (fun _ _ => False) := by
  rw [dropPending, wp_bind, wp_onFiles]
  cases pending.reply with
  | none => exact wp_mono (wp_true _ _) (fun x files _ => ⟨files, s.replies, rfl⟩) fun e files _ =>
      ⟨files, s.replies, rfl⟩
  | some client => exact wp_mono (wp_true _ _) (fun x files _ => ⟨files, _, rfl⟩) fun e files _ =>
      ⟨files, _, rfl⟩

/-- A layout that is given up touches the files and answers its client. -/
theorem abandon_spec (F : Format T D) (env : Env T) (pending : PendingLayout T) (code : String)
    (s : Coordinator A B T) :
    wp (abandon F env pending code) s
      (fun _ s' => ∃ files replies, s' = { s with files := files, replies := replies })
      (fun _ _ => False) := by
  rw [abandon]
  cases pending.reply with
  | none => exact dropPending_spec F env _ s
  | some client =>
      exact wp_mono (dropPending_spec F env _ _)
        (fun _ _ ⟨files, replies, h⟩ => ⟨files, replies, h⟩)
        fun _ _ => id

/-- Leaving the scope of a layout does not change how a part of the loop fails. -/
theorem holding_halt [InputSink B] {m : CoordinatorM A B T α} {Q : α → Coordinator A B T → Prop}
    {pending : PendingLayout T} (h : wp m s Q (Halt p₀ t)) :
    wp (holding F env pending m) s Q (Halt p₀ t) := by
  rw [holding, wp_bind, wp_attempt]
  refine wp_mono h (fun a s₁ ha => ha) fun stop s₁ hstop => ?_
  rw [wp_bind]
  refine wp_mono (dropPending_spec F env pending s₁) (fun _ s₂ hs₂ => ?_) fun _ _ => False.elim
  obtain ⟨files, replies, rfl⟩ := hs₂
  exact hstop

namespace Settled

/-- The layout is taken out of its place. -/
theorem unpend (h : Settled once p₀ t s) : Settled once p₀ t { s with pendingLayout := none } :=
  ⟨⟨h.on.receiver, rfl, h.on.pass, rfl, rfl, rfl⟩, h.inv.unpend⟩

/-- A layout is put in its place. -/
theorem pend (pending : PendingLayout T) (h : Settled once p₀ t s) (hrole : s.role = .local)
    (hcapture : s.capture = none) : Settled once p₀ t { s with pendingLayout := some pending } := by
  refine ⟨⟨h.on.receiver, rfl, h.on.pass, rfl, rfl, rfl⟩, ?_⟩
  have hsession : s.core.session = none := h.inv.no_session fun n => by
    rw [show s.core.role = .local from hrole]
    nofun
  exact Core.inv_idle hrole hsession hcapture h.inv.localLock h.inv.peerLock h.inv.fresh

variable [InputSink B]

/-- Giving up a layout keeps the relations. -/
theorem abandon (pending : PendingLayout T) (code : String) (h : Settled once p₀ t s) :
    wp (Coordinator.abandon F env pending code) s (fun _ => Settled once p₀ t) (Halt p₀ t) := by
  refine wp_mono (abandon_spec F env pending code s) (fun _ s₁ hs₁ => ?_) fun _ _ => False.elim
  obtain ⟨files, replies, rfl⟩ := hs₁
  exact h.same rfl rfl rfl

/-- What becomes of the configuration file is none of the core's business. -/
theorem onFiles {β : Type} {m : FilesM T α} {f : Except Error α → CoordinatorM A B T β}
    {Q : β → Coordinator A B T → Prop} (h : Settled once p₀ t s)
    (hf : ∀ r files, Settled once p₀ t { s with files := files } →
      wp (f r) { s with files := files } Q (Halt p₀ t)) :
    wp (Coordinator.onFiles m >>= f) s Q (Halt p₀ t) := by
  rw [wp_bind, wp_onFiles]
  exact wp_mono (wp_true _ _) (fun a files _ => hf (.ok a) files (h.same rfl rfl rfl))
    fun e files _ => hf (.error e) files (h.same rfl rfl rfl)

/-- A session is ended for a layout. -/
theorem makeRoom (h : Settled once p₀ t s) :
    wp (do endSession env; stopCapture env; setRole .local : CoordinatorM A B T Unit) s
      (fun _ s' => Settled once p₀ t s' ∧ s'.role = .local ∧ s'.capture = none) (Halt p₀ t) := by
  refine wp_seq (h.on.endSession h.inv) fun _ s₁ ⟨q, hq, h₁⟩ => ?_
  refine wp_seq h₁.stopCapture fun _ s₂ h₂ => ?_
  refine wp_mono (h₂.setRole .local) (fun _ s₃ h₃ => ?_) fun _ _ => id
  exact ⟨h₃.settle hq rfl h.inv.local, congrArg Core.role h₃.core, congrArg Core.capture h₃.core⟩

/-! ### Control requests -/

/-- New outputs keep the relations: the capture is started again. -/
theorem outputsChanged (outputs : Outputs) (h : Settled once p₀ t s) :
    wp (Coordinator.outputsChanged env outputs) s (fun _ => Settled once p₀ t) (Halt p₀ t) := by
  rw [Coordinator.outputsChanged, wp_bind, wp_modify, wp_bind, wp_get]
  exact send (h.same rfl rfl rfl) rfl

/-- The session is ended before control is released. -/
theorem releaseControl (client : ℕ) (h : Settled once p₀ t s) :
    wp (Coordinator.releaseControl env client) s (fun _ => Settled once p₀ t) (Halt p₀ t) := by
  refine wp_seq (h.on.endSession h.inv) fun _ s₁ ⟨q, hq, h₁⟩ => ?_
  refine wp_seq h₁.stopCapture fun _ s₂ h₂ => ?_
  rw [wp_bind, wp_get]
  refine wp_seq (h₂.placeBack s₂.role _) fun _ s₃ h₃ => ?_
  refine wp_seq (h₃.setRole .local) fun _ s₄ h₄ => ?_
  rw [rearm, wp_bind, wp_modify, answer, wp_modify]
  exact (h₄.settle hq rfl h.inv.local).same rfl rfl rfl

/-- Preparing a layout changes the configuration file at most. -/
theorem prepareLayout {β : Type} {f : Except Error (Prepared T) → CoordinatorM A B T β}
    {Q : β → Coordinator A B T → Prop} {checked : Result Path} {revision : String}
    {edges : List EdgeConfig} (h : Settled once p₀ t s)
    (hf : ∀ r files, Settled once p₀ t { s with files := files } →
      wp (f r) { s with files := files } Q (Halt p₀ t)) :
    wp (Coordinator.prepareLayout F env checked revision edges >>= f) s Q (Halt p₀ t) := by
  cases checked with
  | error e => exact hf (.error e) s.files h
  | ok path => exact h.onFiles hf

/-- A layout is only taken up where there is no session. -/
theorem applyLayout (client : ℕ) (layout : LayoutRequest) (h : Settled once p₀ t s) :
    wp (Coordinator.applyLayout F env client layout) s (fun _ => Settled once p₀ t)
      (Halt p₀ t) := by
  rw [Coordinator.applyLayout, wp_bind, wp_get]
  refine h.prepareLayout fun r files h₁ => ?_
  cases r with
  | error e => exact h₁.same rfl rfl rfl
  | ok prepared =>
      have hroom :
        wp (do endSession env; stopCapture env; setRole .local; external env.transactionId)
          { s with files := files }
          (fun _ s' => Settled once p₀ t s' ∧ s'.role = .local ∧ s'.capture = none)
          (Halt p₀ t) := by
        have hassoc :
          (do endSession env; stopCapture env; setRole .local; external env.transactionId :
            CoordinatorM A B T String) = (do
              (do endSession env; stopCapture env; setRole .local)
              external env.transactionId) := by
          simp only [bind_assoc]
        rw [hassoc]
        refine wp_seq h₁.makeRoom fun _ s₂ h₂ => ?_
        rw [wp_external]
        exact ⟨fun id _ => h₂, fun e _ => h₂.1.halt trivial⟩
      refine wp_seq (holding_halt hroom) fun id s₂ h₂ => ?_
      rw [wp_bind, wp_modify]
      exact send (h₂.1.pend _ h₂.2.1 h₂.2.2) rfl

/-! ### Locks -/

omit [InputSink B] in
/-- Both desktops are unlocked, or nothing goes on; so a lock that goes changes nothing else. -/
theorem unlocked {s' : Coordinator A B T} (h : Settled once p₀ t s)
    (h' : On p₀ t s.core.party c s')
    (hc : c =
      { s.core with localReady := c.localReady, peerReady := c.peerReady, locks := c.locks })
    (hinv : c.locks.1 = (!c.localReady) ∧ (c.peerReady = true → c.locks.2 = false))
    (hready : s.localReady = true ∧ s.peerReady = true →
      c.localReady = true ∧ c.peerReady = true ∧ c.locks = s.core.locks) :
      Settled once p₀ t s' := by
  have hparty : c.party = s.core.party := by
    rw [hc]
    rfl
  have hcore := h'.core
  refine ⟨by rw [hcore, hparty]; exact h', ?_⟩
  rw [hcore]
  by_cases hr : s.localReady = true ∧ s.peerReady = true
  · obtain ⟨hl, hp, hlocks⟩ := hready hr
    have hsame : c = s.core := by
      rw [hc, hl.trans hr.1.symm, hp.trans hr.2.symm, hlocks]
      rfl
    exact hsame ▸ h.inv
  · have hidle : s.core.localReady = false ∨ s.core.peerReady = false := by
      rcases not_and_or.mp hr with hl | hp
      · exact .inl (Bool.eq_false_iff.mpr hl)
      · exact .inr (Bool.eq_false_iff.mpr hp)
    obtain ⟨hrole, hsession, hcapture⟩ := h.inv.unready hidle
    refine Core.inv_idle ?_ ?_ ?_ hinv.1 hinv.2 ?_ <;> rw [hc]
    exacts [hrole, hsession, hcapture, h.inv.fresh]

omit [InputSink B] in
/-- The receiver has been told that this desktop is locked, or not. -/
theorem relocked_local {r : Receiver B} {unlocked : Bool} (h : Settled once p₀ t s)
    (hr : Receiver.Relocked (s.receiver.state.localLocked == !unlocked)
      (!unlocked, s.receiver.state.peerLocked) s.receiver r) :
    On p₀ t s.core.party { s.core with
        localReady := unlocked
        locks := (!unlocked, s.receiver.state.peerLocked)
        session := if unlocked then s.core.session else none }
      { s with localReady := unlocked, receiver := r } := by
  refine ⟨hr.inv, ?_, h.on.pass, rfl, rfl, rfl⟩
  have hlock : s.receiver.state.localLocked = !s.localReady := h.inv.localLock
  have hidle : s.localReady = false → s.core.session = none := fun hl =>
    (h.inv.unready (.inl hl)).2.1
  have hlocks := hr.locks
  have hpassed := hr.passed
  cases unlocked <;> cases hl : s.localReady <;>
    simp_all [core, hr.session, hr.expectedSequence]

omit [InputSink B] in
/-- The receiver has been told that the desktop of the peer is locked, or not. -/
theorem relocked_peer {r : Receiver B} {locked : Bool} (h : Settled once p₀ t s)
    (hr : Receiver.Relocked (s.receiver.state.peerLocked == locked)
      (s.receiver.state.localLocked, locked) s.receiver r) :
    On p₀ t s.core.party { s.core with
        peerReady := !locked
        locks := (s.receiver.state.localLocked, locked)
        session := if locked then none else s.core.session }
      { s with peerReady := !locked, receiver := r } := by
  refine ⟨hr.inv, ?_, h.on.pass, rfl, rfl, rfl⟩
  have hidle : s.peerReady = false → s.core.session = none := fun hp =>
    (h.inv.unready (.inr hp)).2.1
  have hlock : s.peerReady = true → s.receiver.state.peerLocked = false := h.inv.peerLock
  have hlocks := hr.locks
  have hpassed := hr.passed
  cases locked <;> cases hp : s.peerReady <;> cases hl : s.receiver.state.peerLocked <;>
    simp_all [core, hr.session, hr.expectedSequence]

variable [ActivitySource A]

/-- A locked desktop ends the session and stops the capture. -/
theorem statusChanged (unlocked : Result Bool) (h : Settled once p₀ t s) :
    wp (Coordinator.statusChanged env unlocked) s (fun _ => Settled once p₀ t) (Halt p₀ t) := by
  rw [Coordinator.statusChanged, wp_bind, wp_external]
  refine ⟨fun unlocked _ => ?_, fun e _ => h.halt trivial⟩
  rw [wp_bind, wp_modify, wp_bind, wp_onReceiver]
  refine wp_mono (Receiver.localLock_spec _ h.on.receiver) (fun _ r hr => ?_) fun e r hr => ?_
  swap
  · exact (h.relocked_local hr.1).halt hr.2
  have h₁ := h.relocked_local hr
  refine wp_seq (h₁.send rfl) fun _ s₂ h₂ => ?_
  cases unlocked with
  | true =>
      refine h.unlocked h₂ rfl ⟨rfl, h.inv.peerLock⟩ fun hready => ⟨rfl, hready.2, ?_⟩
      have hlock : s.receiver.state.localLocked = !s.localReady := h.inv.localLock
      simp [core, Receiver.locks, hlock, hready.1]
  | false =>
      simp only [suspend, Bool.false_eq_true, if_false]
      rw [wp_bind, wp_modify]
      refine wp_seq (On.announceEnd (h₂.same rfl rfl rfl) rfl) fun _ s₄ hs₄ => ?_
      obtain ⟨q, hq, h₄⟩ := hs₄
      refine wp_seq (h₄.setRole .local) fun _ s₅ h₅ => ?_
      refine wp_mono h₅.stopCapture (fun _ s₆ h₆ => ?_) fun _ _ => id
      exact h₆.settle hq rfl (Core.inv_idle rfl rfl rfl rfl h.inv.peerLock h.inv.fresh)

/-- So does a locked peer. -/
theorem peerLockState (locked : Bool) (h : Settled once p₀ t s) :
    wp (Coordinator.peerLockState env locked) s (fun _ => Settled once p₀ t) (Halt p₀ t) := by
  rw [Coordinator.peerLockState, wp_bind, wp_get, wp_bind, wp_own]
  refine ⟨fun _ _ => ?_, fun e he => h.halt (ordinary_ensure he (by decide))⟩
  rw [wp_bind, wp_modify, wp_bind, wp_onReceiver]
  refine wp_mono (Receiver.peerLock_spec _ h.on.receiver) (fun _ r hr => ?_) fun e r hr => ?_
  swap
  · exact (h.relocked_peer hr.1).halt hr.2
  have h₁ := h.relocked_peer hr
  have hlock : s.receiver.state.localLocked = !s.localReady := h.inv.localLock
  cases locked with
  | false =>
      refine h.unlocked h₁ rfl ⟨hlock, fun _ => rfl⟩ fun hready => ⟨hready.1, rfl, ?_⟩
      have hpeer : s.receiver.state.peerLocked = false := h.inv.peerLock hready.2
      simp [core, Receiver.locks, hpeer]
  | true =>
      simp only [suspend, if_true]
      rw [wp_bind, wp_modify]
      refine wp_seq (On.announceEnd (h₁.same rfl rfl rfl) rfl) fun _ s₄ hs₄ => ?_
      obtain ⟨q, hq, h₄⟩ := hs₄
      have hend : ∀ s₅ c, On p₀ t q c s₅ →
          c.session = none ∧ c.locks.1 = (!c.localReady) ∧ c.peerReady = false ∧ 0 < c.nextSession →
          wp (do setRole .local; stopCapture env : CoordinatorM A B T Unit) s₅
            (fun _ => Settled once p₀ t) (Halt p₀ t) := by
        rintro s₅ c h₅ ⟨hsession, hl, hp, hfresh⟩
        refine wp_seq (h₅.setRole .local) fun _ s₆ h₆ => ?_
        refine wp_mono h₆.stopCapture (fun _ s₇ h₇ => ?_) fun _ _ => id
        refine h₇.settle hq rfl (Core.inv_idle rfl hsession rfl hl (fun hp' => ?_) hfresh)
        exact absurd (hp.symm.trans hp') (by simp)
      split_ifs
      · refine wp_seq (wp_seq h₄.stopCapture fun _ s₅ h₅ => h₅.placeBack _ _) fun _ s₆ h₆ => ?_
        exact hend s₆ _ h₆ ⟨rfl, hlock, rfl, h.inv.fresh⟩
      · exact hend s₄ _ h₄ ⟨rfl, hlock, rfl, h.inv.fresh⟩

/-! ### The timer -/

omit [ActivitySource A] in
/-- A layout is given up after its time. -/
theorem expireLayout (h : Settled once p₀ t s) :
    wp (Coordinator.expireLayout F env) s (fun _ => Settled once p₀ t) (Halt p₀ t) := by
  rw [Coordinator.expireLayout, wp_bind, wp_get]
  cases s.pendingLayout with
  | none => exact h
  | some pending =>
      rw [wp_ite]
      refine ⟨fun _ => ?_, fun _ => h⟩
      rw [wp_bind, wp_set]
      exact wp_seq (holding_halt (h.unpend.send rfl)) fun _ s₁ h₁ => h₁.abandon pending _

omit [ActivitySource A] in
/-- Physical input ends a session of the peer. -/
theorem takeOver (physical : Bool) (h : Settled once p₀ t s) :
    wp (Coordinator.takeOver env physical) s (fun _ => Settled once p₀ t) (Halt p₀ t) := by
  rw [Coordinator.takeOver, wp_bind, wp_get]
  split
  · rw [wp_ite]
    refine ⟨fun _ => ?_, fun _ => h⟩
    rw [wp_bind, wp_onReceiver]
    refine wp_mono (Receiver.physicalActivity_spec h.on.receiver)
      (fun _ r hr => ?_) fun e r hr => ?_
    · refine wp_seq ((h.on.idle hr).announceEnd rfl) fun _ s₁ ⟨q, hq, h₁⟩ => ?_
      refine wp_seq (h₁.setRole .local) fun _ s₂ h₂ => ?_
      refine wp_seq h₂.stopCapture fun _ s₃ h₃ => ?_
      rw [rearm, wp_modify]
      exact (h₃.settle hq rfl h.inv.local).same rfl rfl rfl
    · exact (h.on.idle hr.1).halt hr.2
  · exact h

omit [ActivitySource A] in
/-- The keys go to the peer, up to the emergency chord. -/
theorem forwardKeys (events : List InputEvent) (h : Settled once p₀ t s) :
    wp (Coordinator.forwardKeys env events) s (fun _ => Settled once p₀ t) (Halt p₀ t) := by
  induction events generalizing s with
  | nil => exact h
  | cons event events ih =>
      refine wp_seq (h.forwardKeyboard event) fun emergency s₁ h₁ => ?_
      cases emergency with
      | false => exact ih h₁.1
      | true =>
          simp only [if_true]
          rw [wp_bind, wp_get]
          cases hr : s₁.role with
          | «local» | receiving => simp [hr, Role.isSending] at h₁
          | sending session sequence edge fraction =>
              have hs : s₁.core.role.session = some session := congrArg Role.session hr
              have hsession : s₁.core.session = none :=
                h₁.1.inv.no_session fun n => by simp [core, hr]
              refine wp_seq (h₁.1.on.sendEnd rfl hs) fun _ s₂ h₂ => ?_
              refine wp_seq h₂.stopCapture fun _ s₃ h₃ => ?_
              refine wp_seq (h₃.place _ _) fun _ s₄ h₄ => ?_
              rw [wp_bind, wp_modify, rearm, wp_modify]
              refine ((h₄.withRole .local).settle rfl rfl ?_).same rfl rfl rfl
              exact Core.inv_idle rfl hsession rfl h₁.1.inv.localLock h₁.1.inv.peerLock
                h₁.1.inv.fresh

omit [ActivitySource A] in
/-- A capture worker that is gone is not waited for. -/
theorem reapCapture (h : Settled once p₀ t s) :
    wp (Coordinator.reapCapture env) s (fun _ => Settled once p₀ t) (Halt p₀ t) := by
  rw [Coordinator.reapCapture, wp_bind, wp_get, wp_ite]
  refine ⟨fun _ => ?_, fun _ => h⟩
  refine wp_seq h.on.stopCapture fun _ s₁ h₁ => ?_
  have hrole : s₁.role = s.role := congrArg Core.role h₁.core
  cases hr : s.role with
  | sending session sequence edge fraction =>
      have hs : s.core.role.session = some session := congrArg Role.session hr
      have hsession : s.core.session = none := h.inv.no_session fun n => by simp [core, hr]
      refine wp_seq (h₁.sendEnd rfl hs) fun _ s₂ h₂ => ?_
      refine wp_seq (h₂.setRole .local) fun _ s₃ h₃ => ?_
      rw [rearm, wp_modify]
      refine (h₃.settle rfl rfl ?_).same rfl rfl rfl
      exact Core.inv_idle rfl hsession rfl h.inv.localLock h.inv.peerLock h.inv.fresh
  | «local» | receiving =>
      rw [rearm, wp_modify]
      have hinv : ({ s.core with capture := none } : Core).Inv once :=
        h.inv.stop fun _ => by simp [core, hr, Role.isSending]
      have h₂ : Settled once p₀ t s₁ := h₁.settled hinv
      exact h₂.same rfl rfl rfl

omit [ActivitySource A] in
theorem beat (h : Settled once p₀ t s) :
    wp (Coordinator.beat env) s (fun _ => Settled once p₀ t) (Halt p₀ t) := by
  rw [Coordinator.beat, wp_bind, wp_get, wp_ite]
  refine ⟨fun _ => ?_, fun _ => h⟩
  exact wp_seq (h.send rfl) fun _ s₁ h₁ => h₁.same rfl rfl rfl

theorem sample (h : Settled once p₀ t s) :
    wp Coordinator.sample s (fun _ => Settled once p₀ t) (Halt p₀ t) := by
  exact wp_mono h.on.sample (fun _ s₁ h₁ => h₁.settled h.inv) fun _ _ => id

theorem tick (ready : Result Unit) (h : Settled once p₀ t s) :
    wp (Coordinator.tick F env ready) s (fun _ => Settled once p₀ t) (Halt p₀ t) := by
  rw [Coordinator.tick, wp_bind, wp_external]
  refine ⟨fun _ _ => ?_, fun e _ => h.halt trivial⟩
  rw [wp_bind, wp_onReceiver]
  refine wp_mono (Receiver.poll_spec s.receiver) (fun _ r hr => ?_)
    fun e r hr => (h.on.framed hr.1.framed).halt hr.2
  have hpolled : Settled once p₀ t { s with receiver := r } := (h.on.framed hr.framed).settled h.inv
  refine wp_seq hpolled.expireLayout fun _ s₁ h₁ => ?_
  rw [wp_bind, wp_get]
  have htail : ∀ physical s₂, Settled once p₀ t s₂ →
      wp (do
        let keyboardEvents ← takeKeyboardEvents
        let touchpadEvents ← takeTouchpadEvents
        Coordinator.takeOver env physical
        Coordinator.forwardKeys env keyboardEvents
        Coordinator.sendInputs env touchpadEvents
        Coordinator.reapCapture env
        Coordinator.beat env :
        CoordinatorM A B T Unit) s₂ (fun _ => Settled once p₀ t) (Halt p₀ t) := by
    intro physical s₂ h₂
    rw [takeKeyboardEvents, wp_bind, wp_bind, wp_get, wp_bind, wp_set, wp_pure]
    rw [takeTouchpadEvents, wp_bind, wp_bind, wp_get, wp_bind, wp_set, wp_pure]
    refine wp_seq (takeOver physical (h₂.same rfl rfl rfl)) fun _ s₃ h₃ => ?_
    refine wp_seq (h₃.forwardKeys _) fun _ s₄ h₄ => ?_
    refine wp_seq (h₄.sendInputs _) fun _ s₅ h₅ => ?_
    refine wp_seq h₅.reapCapture fun _ s₆ h₆ => ?_
    exact h₆.beat
  split_ifs
  · exact wp_seq h₁.sample fun physical s₂ h₂ => htail physical s₂ h₂
  · exact htail false s₁ h₁

/-! ### Captures -/

omit [ActivitySource A] in
/-- A capture that is given up while the coordinator does not send, or has reported twice. -/
theorem dismissCapture (h : Settled once p₀ t s) (hs : once → s.role.isSending = false) :
    wp (stopCapture env) s (fun _ => Settled once p₀ t) (Halt p₀ t) :=
  wp_mono h.on.stopCapture (fun _ _ h₁ => h₁.settled (h.inv.stop hs)) fun _ _ => id

/-- The pointer has crossed an edge: a session starts, and the keys that are down are pressed. -/
theorem startSession (edge : ℕ) (fraction : ℚ) (h : Settled once p₀ t s) (hrole : s.role = .local)
    (hcapture : ∃ task, s.capture = some task ∧ task.started = true) :
    wp (Coordinator.startSession env edge fraction) s (fun _ => Settled once p₀ t) (Halt p₀ t) := by
  rw [Coordinator.startSession]
  refine wp_seq h.on.sample fun _ s₁ h₁ => ?_
  rw [wp_bind, wp_get, takeKeyboardEvents, wp_bind, wp_bind, wp_get, wp_bind, wp_set,
    wp_pure, wp_ite]
  have h₂ : Settled once p₀ t s₁ := h₁.settled h.inv
  have hrole₁ : s₁.core.role = .local := (congrArg Core.role h₁.core).trans hrole
  refine ⟨fun _ => ?_, fun _ => ?_⟩
  · refine wp_seq (dismissCapture (h₂.same rfl rfl rfl) fun _ => ?_) fun _ s₃ h₃ => ?_
    · exact congrArg Role.isSending hrole₁
    · rw [rearm, wp_modify]
      exact h₃.same rfl rfl rfl
  · rw [wp_bind, wp_own]
    refine ⟨fun _ _ => ?_, fun e he => (h₂.same rfl rfl rfl).halt (ordinary_ensure he (by decide))⟩
    have hidle : s₁.core.party.part = .idle := by simp [Core.party, hrole₁, Role.part]
    rw [wp_bind, wp_modify, Coordinator.send]
    refine wp_seq (sendMove h₂.on.pass rfl rfl rfl (.start rfl hidle) rfl rfl) fun _ s₃ hs₃ => ?_
    obtain ⟨rfl, hpass⟩ := hs₃
    rw [wp_bind, wp_modify]
    have hcapture₁ : ∃ task, s₁.core.capture = some task ∧ task.started = true := by
      rw [h₁.core]
      exact hcapture
    exact enterKeys _ ⟨⟨h₂.on.receiver, rfl, hpass, rfl, rfl, rfl⟩, h₂.inv.start hrole₁ hcapture₁⟩

/-- The worker has reported that the pointer has crossed an edge, for the first time if `once`. -/
theorem captureStarted (edge : ℕ) (fraction : ℚ) (h : Settled once p₀ t s)
    (hcapture : ∃ task, s.capture = some task ∧ task.started = true)
    (hfirst : once → s.role.isSending = false) :
    wp (Coordinator.captureStarted env edge fraction) s (fun _ => Settled once p₀ t)
      (Halt p₀ t) := by
  rw [Coordinator.captureStarted, wp_bind, wp_get, wp_bind, wp_own]
  refine ⟨fun edge _ => ?_, fun e he => h.halt (ordinary_orError he (by decide))⟩
  rw [wp_bind, wp_own]
  refine ⟨fun _ _ => ?_, fun e he => h.halt (ordinary_ensure he (by decide))⟩
  cases hr : s.role with
  | «local» =>
      rw [wp_ite]
      exact ⟨fun _ => h.startSession edge fraction hr hcapture, fun _ => h.dismissCapture hfirst⟩
  | sending => exact h.dismissCapture hfirst
  | receiving session =>
      have hs : s.core.role.session = some session := congrArg Role.session hr
      refine wp_seq (h.on.receiverEnd h.inv hs) fun _ s₁ h₁ => ?_
      refine wp_seq (h₁.sendEnd rfl hs) fun _ s₂ h₂ => ?_
      refine wp_seq (h₂.setRole .local) fun _ s₃ h₃ => ?_
      refine wp_seq h₃.stopCapture fun _ s₄ h₄ => ?_
      refine wp_seq (h₄.place _ fraction) fun _ s₅ h₅ => ?_
      rw [rearm, wp_modify]
      exact (h₅.settle rfl rfl h.inv.local).same rfl rfl rfl

omit [ActivitySource A] in
/-- Input of the compositor is sent in the session, or not at all. -/
theorem captureInput (event : InputEvent) (h : Settled once p₀ t s) :
    wp (Coordinator.captureInput env event) s (fun _ => Settled once p₀ t) (Halt p₀ t) := by
  rw [Coordinator.captureInput, wp_bind, wp_get]
  split
  next => exact h
  next =>
    rw [wp_bind, wp_own]
    exact ⟨fun _ _ => h.sendInput _, fun e he => h.halt (ordinary_ensure he (by decide))⟩
  next => exact h

omit [ActivitySource A] in
/-- The session ends with its capture. -/
theorem captureEnded (reason : String) (h : Settled once p₀ t s) :
    wp (Coordinator.captureEnded env reason) s (fun _ => Settled once p₀ t) (Halt p₀ t) := by
  rw [Coordinator.captureEnded, wp_bind, wp_get]
  refine wp_seq (h.on.endSession h.inv) fun _ s₁ ⟨q, hq, h₁⟩ => ?_
  refine wp_seq (h₁.setRole .local) fun _ s₂ h₂ => ?_
  refine wp_seq h₂.stopCapture fun _ s₃ h₃ => ?_
  refine wp_seq (h₃.placeBack s.role _) fun _ s₄ h₄ => ?_
  rw [rearm, wp_modify]
  exact (h₄.settle hq rfl h.inv.local).same rfl rfl rfl

end Settled

/-- The worker of the current capture task has not reported before that the pointer crossed an
edge. -/
def StartedOnce (s : Coordinator A B T) (event : Event) : Prop :=
  ∀ generation edge fraction task, event = .capture (some ⟨generation, .started edge fraction⟩) →
    s.capture = some task → task.generation = generation → task.started = false

namespace Settled

variable [ActivitySource A] [InputSink B]

/-- A capture that starts a session starts it once. -/
theorem captureEvent (event : Option StreamEvent) (h : Settled once p₀ t s)
    (honce : once → s.StartedOnce (.capture event)) :
    wp (Coordinator.captureEvent env event) s (fun _ => Settled once p₀ t) (Halt p₀ t) := by
  rw [Coordinator.captureEvent, wp_bind, wp_own]
  refine ⟨fun event he => ?_, fun e he => h.halt (ordinary_orError he (by decide))⟩
  obtain rfl := orError_eq_ok.mp he
  rw [wp_bind, wp_get]
  cases hc : s.capture with
  | none => exact h
  | some task =>
      simp only [wp_ite]
      refine ⟨fun _ => h, fun hgeneration => ?_⟩
      have hcurrent : task.generation = event.generation :=
        (h.inv.current task hc).trans (not_not.mp hgeneration).symm
      cases hevent : event.event with
      | armed | ready => exact h
      | input event => exact h.captureInput event
      | finished reason => exact h.captureEnded reason
      | started edge fraction =>
          have hmarked : Settled once p₀ t
              { s with capture := some { task with started := true } } :=
            ⟨⟨h.on.receiver, rfl, h.on.pass, rfl, rfl, rfl⟩, h.inv.mark hc⟩
          rw [wp_bind, wp_set]
          refine hmarked.captureStarted edge fraction ⟨_, rfl, rfl⟩ fun ho => ?_
          -- a coordinator that sends has had the report of its worker
          by_contra hs
          obtain ⟨task', ht, hstarted⟩ := h.inv.sending ho (eq_true_of_ne_false hs)
          obtain rfl : task = task' := Option.some.inj (hc.symm.trans ht)
          have hfirst := honce ho event.generation edge fraction task (by rw [← hevent]) hc hcurrent
          exact absurd (hfirst.symm.trans hstarted) (by simp)

/-! ### Touchpads -/

omit [ActivitySource A] in
theorem peerTouchpads (devices : List Touchpad.Descriptor) (h : Settled once p₀ t s) :
    wp (Coordinator.peerTouchpads devices) s (fun _ => Settled once p₀ t) (Halt p₀ t) := by
  rw [Coordinator.peerTouchpads, wp_bind, wp_get, wp_bind, wp_own]
  refine ⟨fun _ _ => ?_, fun e he => h.halt (ordinary_ensure he (by decide))⟩
  rw [wp_bind, wp_onReceiver]
  refine wp_mono (Receiver.configureTouchpads_spec devices s.receiver) (fun _ r hr => ?_)
    fun e r hr => (h.on.framed hr.1.framed).halt hr.2
  have h₁ : Settled once p₀ t { s with receiver := r } := (h.on.framed hr.framed).settled h.inv
  exact h₁.same rfl rfl rfl

/-! ### Layout messages -/

omit [ActivitySource A] in
theorem layoutPrepare (id : String) (edges : List EdgeConfig) (revision : String)
    (h : Settled once p₀ t s) :
    wp (Coordinator.layoutPrepare F env id edges revision) s (fun _ => Settled once p₀ t)
      (Halt p₀ t) := by
  rw [Coordinator.layoutPrepare, wp_bind, wp_get]
  refine h.prepareLayout fun r files h₁ => ?_
  cases r with
  | error e => exact h₁.send rfl
  | ok prepared =>
      refine wp_seq (holding_halt h₁.makeRoom) fun _ s₂ h₂ => ?_
      rw [wp_bind, wp_modify]
      exact send (h₂.1.pend _ h₂.2.1 h₂.2.2) rfl

omit [InputSink B] [ActivitySource A] in
theorem pendingWith_eq {id : String} {initiated : Bool} {pending : PendingLayout T}
    (h : s.pendingWith id initiated = some pending) : s.pendingLayout = some pending :=
  (Option.filter_eq_some_iff.mp h).1

omit [ActivitySource A] in
theorem layoutPrepared (id : String) (ok : Bool) (error : Option String) (h : Settled once p₀ t s) :
    wp (Coordinator.layoutPrepared F env id ok error) s (fun _ => Settled once p₀ t)
      (Halt p₀ t) := by
  rw [Coordinator.layoutPrepared, wp_bind, wp_get]
  cases hp : s.pendingWith id true with
  | none => exact h
  | some pending =>
      have hpending := pendingWith_eq hp
      rw [wp_bind, wp_set]
      have hfailed : ∀ s₁ e, Settled once p₀ t s₁ → wp (do
          holding F env pending (Coordinator.send env (.layout (.abort id)))
          Coordinator.abandon F env pending (errorCode e) : CoordinatorM A B T Unit) s₁
          (fun _ => Settled once p₀ t) (Halt p₀ t) := fun s₁ e h₁ =>
        wp_seq (holding_halt (h₁.send rfl)) fun _ s₂ h₂ => h₂.abandon pending _
      cases ok with
      | false => exact hfailed _ _ h.unpend
      | true =>
          simp only [if_true]
          refine h.unpend.onFiles fun r files h₁ => ?_
          cases r with
          | error e => exact hfailed _ e h₁
          | ok prepared =>
              rw [wp_bind, wp_modify]
              -- of a pending layout the relations only see that there is one
              exact send (h.same rfl (by simp [core, hpending]) rfl) rfl

omit [ActivitySource A] in
theorem layoutCommit (id : String) (h : Settled once p₀ t s) :
    wp (Coordinator.layoutCommit F env id) s (fun _ => Settled once p₀ t) (Halt p₀ t) := by
  rw [Coordinator.layoutCommit, wp_bind, wp_get]
  cases s.pendingWith id false with
  | none => exact h
  | some pending =>
      rw [wp_bind, wp_set]
      refine h.unpend.onFiles fun r files h₁ => ?_
      cases r with
      | ok prepared =>
          refine h₁.onFiles fun r files h₂ => ?_
          exact wp_seq (h₂.send rfl) fun _ s₃ h₃ => h₃.halt trivial
      | error e =>
          refine wp_seq (holding_halt (h₁.send rfl)) fun _ s₂ h₂ => ?_
          refine wp_mono (dropPending_spec F env pending s₂)
            (fun _ s₃ hs₃ => ?_) fun _ _ => False.elim
          obtain ⟨files, replies, rfl⟩ := hs₃
          exact h₂.same rfl rfl rfl

omit [ActivitySource A] in
theorem layoutResult (id : String) (ok : Bool) (revision error : Option String)
    (h : Settled once p₀ t s) :
    wp (Coordinator.layoutResult F env id ok revision error) s (fun _ => Settled once p₀ t)
      (Halt p₀ t) := by
  rw [Coordinator.layoutResult, wp_bind, wp_get]
  cases s.pendingWith id true with
  | none => exact h
  | some pending =>
      rw [wp_bind, wp_set, wp_ite]
      refine ⟨fun _ => ?_, fun _ => h.unpend.abandon pending _⟩
      refine h.unpend.onFiles fun r files h₁ => ?_
      cases pending.reply with
      | none => exact h₁.halt trivial
      | some client => exact halt (h₁.same rfl rfl rfl) trivial

omit [ActivitySource A] in
theorem layoutAbort (id : String) (h : Settled once p₀ t s) :
    wp (Coordinator.layoutAbort F env id) s (fun _ => Settled once p₀ t) (Halt p₀ t) := by
  rw [Coordinator.layoutAbort, wp_bind, wp_get]
  cases s.pendingLayout.filter (·.id == id) with
  | none => exact h
  | some pending =>
      rw [wp_bind, wp_set]
      exact h.unpend.abandon pending _

omit [ActivitySource A] in
theorem layoutMessage (message : LayoutMessage) (h : Settled once p₀ t s) :
    wp (Coordinator.layoutMessage F env message) s (fun _ => Settled once p₀ t) (Halt p₀ t) := by
  cases message with
  | prepare id edges revision => exact h.layoutPrepare id edges revision
  | prepared id ok error => exact h.layoutPrepared id ok error
  | commit id => exact h.layoutCommit id
  | result id ok revision error => exact h.layoutResult id ok revision error
  | abort id => exact h.layoutAbort id

/-! ### Passes -/

/-- Every branch of the loop keeps the relations. -/
theorem branch (event : Event) (h : Settled once p₀ t s) (honce : once → s.StartedOnce event) :
    wp (Coordinator.branch F env event) s (fun _ => Settled once p₀ t) (Halt p₀ t) := by
  cases event with
  | exit => exact h.halt trivial
  | outputs outputs => exact h.outputsChanged outputs
  | release client => exact h.releaseControl client
  | applyLayout client layout => exact h.applyLayout client layout
  | status unlocked => exact h.statusChanged unlocked
  | tick ready => exact h.tick ready
  | capture event => exact h.captureEvent event honce
  | disconnected => exact h.halt (.inr (by decide))

omit [ActivitySource A] in
/-- A session or a capture that the layout no longer allows is given up. -/
theorem leaveOutdated (h : Settled once p₀ t s) :
    wp (Coordinator.leaveOutdated env) s (fun _ => Settled once p₀ t) (Halt p₀ t) := by
  rw [Coordinator.leaveOutdated, wp_bind, wp_get, wp_ite]
  refine ⟨fun _ => ?_, fun _ => h⟩
  refine wp_seq (h.on.endSession h.inv) fun _ s₁ ⟨q, hq, h₁⟩ => ?_
  refine wp_seq h₁.stopCapture fun _ s₂ h₂ => ?_
  refine wp_seq (h₂.placeBack s.role _) fun _ s₃ h₃ => ?_
  refine wp_seq (h₃.setRole .local) fun _ s₄ h₄ => ?_
  rw [wp_modify]
  exact (h₄.settle hq rfl h.inv.local).same rfl rfl rfl

omit [ActivitySource A] in
/-- A capture task starts when both desktops are ready and no layout is pending. -/
theorem armCapture (h : Settled once p₀ t s) :
    wp (Coordinator.armCapture env) s (fun _ => Settled once p₀ t) (Halt p₀ t) := by
  rw [Coordinator.armCapture, wp_modify]
  split_ifs with hcan
  · simp only [canCapture, Bool.and_eq_true, Option.isNone_iff_eq_none] at hcan
    obtain ⟨⟨⟨⟨⟨hl, hp⟩, -⟩, hpending⟩, hcapture⟩, -⟩ := hcan
    have hpending : s.core.pending = false := by simp [core, hpending]
    exact ⟨⟨h.on.receiver, rfl, h.on.pass, rfl, rfl, rfl⟩, h.inv.arm ⟨hl, hp⟩ hpending hcapture _⟩
  · exact h

/-- The head of the loop keeps the relations. -/
theorem head (h : Settled once p₀ t s) :
    wp (Coordinator.head env) s (fun _ => Settled once p₀ t) (Halt p₀ t) := by
  rw [Coordinator.head, wp_bind, wp_modify]
  refine wp_seq (leaveOutdated (h.same rfl rfl rfl)) fun _ s₁ h₁ => ?_
  rw [wp_bind, wp_get, wp_bind, wp_onActivity]
  refine wp_mono (wp_true _ _) (fun events a _ => ?_) fun e a _ =>
    halt (h₁.same rfl rfl rfl) trivial
  exact wp_seq (sendInputs events (h₁.same rfl rfl rfl)) fun _ s₂ h₂ => h₂.armCapture

end Settled

end NiriBridge.Coordinator
