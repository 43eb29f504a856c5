import NiriBridge.Coordinator.Core

/-!
# Coordinator — Calls

What the helpers of the loop do in the middle of a pass.  Most of them are calm: they change neither
the core nor the party.  The others say how they change it: `endSession` ends the receiver's session
and writes the farewell, `announceEnd` only writes it, `stopCapture` leaves no capture task.

`On.settle` closes a branch that has ended the session of the coordinator.
-/

namespace NiriBridge.Coordinator

open Hoare Session

variable {A B T D : Type} {α : Type}

section Errors
variable [InputSink B]

/-- A failed check with a message of its own is no session error. -/
theorem ordinary_ensure {q : Prop} [Decidable q] {message : String} {e : Error}
    (h : ensure q message = .error e) (hm : [message] ∉ Receiver.sessionErrors) :
    Receiver.Ordinary B e := Receiver.ordinary_of_ensure h hm

/-- A missing value gives the message. -/
theorem eq_of_orError {message : String} {o : Option α} {e : Error}
    (h : orError message o = .error e) : e = [message] := by
  cases o with
  | none => exact (Except.error.inj h).symm
  | some a => cases h

/-- A missing value with a message of its own is no session error. -/
theorem ordinary_orError {message : String} {o : Option α} {e : Error}
    (h : orError message o = .error e) (hm : [message] ∉ Receiver.sessionErrors) :
    Receiver.Ordinary B e := .inr (eq_of_orError h ▸ hm)

/-- What a placement is refused with. -/
def placementErrors : List Error :=
  [["Boundary output disappeared"], ["Boundary output is disabled"],
    ["Boundary span must satisfy 0 <= start < end <= 1"],
    ["Screen dimensions must be at least one logical pixel"],
    ["Boundary fraction must be between zero and one"], ["Entry inset must be finite and positive"]]

/-- The errors of a point on a boundary. -/
theorem mem_placementErrors_of_pointAt {b : Boundary} {rect : Rect} {fraction inset : ℚ} {e : Error}
    (h : b.pointAt rect fraction inset = .error e) : e ∈ placementErrors := by
  simp only [Boundary.pointAt, Boundary.validate, Rect.validate, bind_eq_error, ensure_eq_error]
    at h
  rcases h with ⟨-, rfl⟩ | ⟨-, -, ⟨-, rfl⟩ | ⟨-, -, ⟨-, rfl⟩ | ⟨-, -, ⟨-, rfl⟩ | ⟨-, -, h⟩⟩⟩⟩
  · decide
  · decide
  · decide
  · decide
  · cases h

/-- The errors of a placement. -/
theorem mem_placementErrors {outputs : OutputTable} {edge : EdgeConfig} {fraction : ℚ} {e : Error}
    (h : placement outputs edge fraction = .error e) : e ∈ placementErrors := by
  simp only [placement, bind_eq_error] at h
  rcases h with h | ⟨output, -, h | ⟨logical, -, h | ⟨⟨x, y⟩, -, h⟩⟩⟩
  · rw [eq_of_orError h]
    decide
  · rw [eq_of_orError h]
    decide
  · exact mem_placementErrors_of_pointAt h
  · cases h

/-- A placement fails with no session error. -/
theorem placement_ordinary {outputs : OutputTable} {edge : EdgeConfig} {fraction : ℚ} {e : Error}
    (h : placement outputs edge fraction = .error e) : Receiver.Ordinary B e := by
  have hapart : ∀ e ∈ placementErrors, e ∉ Receiver.sessionErrors := by decide
  exact .inr (hapart e (mem_placementErrors h))

/-- The edge to return to is missing, or it fails with no session error. -/
theorem returnEdge_ordinary {s : Coordinator A B T} {edge : ℕ} {fraction : ℚ}
    {exit : Option EdgePosition} {e : Error} (h : s.returnEdge edge fraction exit = .error e) :
    Receiver.Ordinary B e := by
  cases exit with
  | none => cases h
  | some exit =>
      simp only [returnEdge, bind_eq_error] at h
      rcases h with h | ⟨⟨edge, index⟩, -, h | ⟨-, -, h⟩⟩
      · exact ordinary_orError h (by decide)
      · exact ordinary_ensure h (by decide)
      · cases h

end Errors

variable {once : Prop} {p₀ p : Party InputEvent} {t : List (Signal InputEvent)} {c : Core}
  {s s' : Coordinator A B T} {env : Env T}

namespace Core

/-- A coordinator without session and without capture only has to know which desktops are locked. -/
theorem inv_idle (hrole : c.role = .local) (hsession : c.session = none)
    (hcapture : c.capture = none) (hl : c.locks.1 = !c.localReady)
    (hp : c.peerReady = true → c.locks.2 = false) (hfresh : 0 < c.nextSession) : c.Inv once where
  receiving n := by simp [hrole, hsession]
  active hne := absurd hrole hne
  sending _ hs := by simp [hrole, Role.isSending] at hs
  pending _ := ⟨hrole, hcapture⟩
  capturing hne := absurd hcapture hne
  current task ht := by simp [hcapture] at ht
  localLock := hl
  peerLock := hp
  fresh := hfresh

/-- Without a receiving role the receiver has no session. -/
theorem Inv.no_session (h : c.Inv once) (hrole : ∀ session, c.role ≠ .receiving session) :
    c.session = none := by
  cases hs : c.session with
  | none => rfl
  | some x => exact absurd ((h.receiving x.1).mpr (by simp [hs])) (hrole x.1)

/-- While a desktop is locked nothing goes on. -/
theorem Inv.unready (h : c.Inv once) (hr : c.localReady = false ∨ c.peerReady = false) :
    c.role = .local ∧ c.session = none ∧ c.capture = none := by
  have hrole : c.role = .local := by
    by_contra hne
    obtain ⟨hl, hp, -⟩ := h.active hne
    simp [hl, hp] at hr
  refine ⟨hrole, h.no_session fun session => by simp [hrole], ?_⟩
  by_contra hne
  obtain ⟨hl, hp⟩ := h.capturing hne
  simp [hl, hp] at hr

/-- A session that ends with its capture. -/
theorem Inv.local (h : c.Inv once) :
    ({ c with role := .local, session := none, capture := none } : Core).Inv once :=
  inv_idle rfl rfl rfl h.localLock h.peerLock h.fresh

/-- The relations do not need the pending layout. -/
theorem Inv.unpend (h : c.Inv once) : ({ c with pending := false } : Core).Inv once :=
  { h with
    active := fun hne => ⟨(h.active hne).1, (h.active hne).2.1, rfl⟩
    pending := by simp }

/-- The capture may be stopped unless the device sends. -/
theorem Inv.stop (h : c.Inv once) (hs : once → c.role.isSending = false) :
    ({ c with capture := none } : Core).Inv once :=
  { h with
    sending := fun ho hsending => absurd ((hs ho).symm.trans hsending) (by simp)
    pending := fun hp => ⟨(h.pending hp).1, rfl⟩
    capturing := fun hne => absurd rfl hne
    current := by simp }

/-- A capture task keeps a layout out. -/
theorem Inv.not_pending (h : c.Inv once) (hcapture : c.capture ≠ none) : c.pending = false := by
  by_contra hp
  exact hcapture (h.pending (by simpa using hp)).2

/-- A local device with a started capture may begin a session. -/
theorem Inv.start {session edge : ℕ} {fraction : ℚ} (h : c.Inv once) (hrole : c.role = .local)
    (hcapture : ∃ task, c.capture = some task ∧ task.started = true) :
    ({ c with
      nextSession := c.nextSession + 1
      role := .sending session 0 edge fraction } : Core).Inv once := by
  have hsome : c.capture ≠ none := by
    obtain ⟨task, ht, -⟩ := hcapture
    simp [ht]
  have hsession : c.session = none := h.no_session fun n => by simp [hrole]
  have hpending : c.pending = false := h.not_pending hsome
  exact { h with
    receiving := fun n => by simp [hsession]
    active := fun _ => ⟨(h.capturing hsome).1, (h.capturing hsome).2, hpending⟩
    sending := fun _ _ => hcapture
    pending := fun hp => absurd (hpending.symm.trans hp) (by simp)
    fresh := Nat.succ_pos _ }

/-- A capture may be started where both desktops are ready and no layout is pending. -/
theorem Inv.arm (h : c.Inv once) (hready : c.localReady = true ∧ c.peerReady = true)
    (hpending : c.pending = false) (hcapture : c.capture = none) (generation : ℕ) :
    ({ c with generation := generation, capture := some ⟨generation, false⟩ } : Core).Inv once :=
  { h with
    sending := fun ho hs => by
      obtain ⟨task, ht, -⟩ := h.sending ho hs
      exact absurd (hcapture.symm.trans ht) (by simp)
    pending := fun hp => absurd (hpending.symm.trans hp) (by simp)
    capturing := fun _ => hready
    current := fun task ht => by
      cases ht
      rfl }

/-- A session of the peer enters. -/
theorem Inv.enter {session : ℕ} (h : c.Inv once) (hready : c.localReady = true ∧ c.peerReady = true)
    (hpending : c.pending = false) :
    ({ c with role := .receiving session, session := some (session, 0) } : Core).Inv once :=
  { h with
    receiving := fun n => by simp
    active := fun _ => ⟨hready.1, hready.2, hpending⟩
    sending := fun _ hs => by simp [Role.isSending] at hs
    pending := fun hp => absurd (hpending.symm.trans hp) (by simp) }

/-- The worker of the capture task has reported. -/
theorem Inv.mark {task : CaptureTask} (h : c.Inv once) (ht : c.capture = some task) :
    ({ c with capture := some { task with started := true } } : Core).Inv once := by
  have hsome : c.capture ≠ none := by simp [ht]
  exact { h with
    sending := fun _ _ => ⟨_, rfl, rfl⟩
    pending := fun hp => absurd (h.pending hp).2 hsome
    capturing := fun _ => h.capturing hsome
    current := fun task' ht' => by
      cases ht'
      exact h.current task ht }

/-- The sequence number of the session that is sent plays no part in the relations. -/
theorem Inv.advance {session sequence edge : ℕ} {fraction : ℚ} (h : c.Inv once)
    (hr : c.role = .sending session sequence edge fraction) :
    ({ c with role := .sending session (sequence + 1) edge fraction } : Core).Inv once where
  receiving n := by simpa [hr] using h.receiving n
  active _ := h.active (by simp [hr])
  sending ho _ := h.sending ho (by simp [hr, Role.isSending])
  pending hp := absurd (h.pending hp).1 (by simp [hr])
  capturing := h.capturing
  current := h.current
  localLock := h.localLock
  peerLock := h.peerLock
  fresh := h.fresh

end Core

/-- A frame with which the party moves. -/
theorem sendMove [InputSink B] {frame : Frame} {q : Party InputEvent} {signal : Signal InputEvent}
    (hpass : Pass p₀ t p (signals s.outbox)) (hpassed : p.passed = s.receiver.passed)
    (hup : p.up = true) (hm : frame.signal = some signal) (hmove : Move p q [signal])
    (hpassed' : q.passed = p.passed) (hup' : q.up = true) :
    wp (sendFrame env frame) s
      (fun _ s' => s' = { s with outbox := s.outbox ++ [frame] } ∧ Pass p₀ t q (signals s'.outbox))
      (Halt p₀ t) := by
  have hsignals : signals (s.outbox ++ [frame]) = signals s.outbox ++ [signal] := by
    simp [signals, hm]
  have hsent : Pass p₀ t q (signals (s.outbox ++ [frame])) := hsignals ▸ hpass.move hmove
  refine wp_mono (sendFrame_spec env _ s) (fun _ s' hs => ?_) fun stop s' hs => ?_
  · subst hs
    exact ⟨rfl, hsent⟩
  obtain ⟨⟨e, rfl⟩, rfl | rfl⟩ := hs
  · exact ⟨⟨p.failed, by simpa using hpass.move (.fail hup), hpassed, rfl⟩, .inl trivial⟩
  · exact ⟨⟨q.failed, by simpa using hsent.move (.fail hup'), hpassed'.trans hpassed, rfl⟩,
      .inl trivial⟩

namespace On

/-- The middle of a pass depends on the receiver, the core and the outbox alone. -/
theorem same {s' : Coordinator A B T} (h : On p₀ t p c s) (hr : s'.receiver = s.receiver)
    (hc : s'.core = s.core) (ho : s'.outbox = s.outbox) : On p₀ t p c s' :=
  ⟨hr ▸ h.receiver, hc.trans h.core, ho ▸ h.pass, h.passed, h.next, h.up⟩

section
variable [InputSink B]

/-- The middle of a pass may fail. -/
theorem halt (h : On p₀ t p c s) {stop : Stop} (hstop : stop.Ordinary B) : Halt p₀ t stop s := by
  refine ⟨⟨p.failed, ?_, ?_, rfl⟩, .inl hstop⟩
  · simpa using h.pass.move (.fail h.up)
  · rw [Party.failed, h.passed, ← h.core]
    rfl

end

/-- Only the backend of the receiver has changed. -/
theorem framed {r : Receiver B} (h : On p₀ t p c s) (hr : Receiver.Framed s.receiver r) :
    On p₀ t p c { s with receiver := r } := by
  refine ⟨h.receiver.of_framed hr, ?_, h.pass, h.passed, h.next, h.up⟩
  simp [← h.core, Coordinator.core, hr.session, hr.expectedSequence, hr.passed, Receiver.locks,
    hr.state]

/-- The receiver has ended its session. -/
theorem idle {r : Receiver B} (h : On p₀ t p c s) (hr : Receiver.Idle s.receiver r) :
    On p₀ t p { c with session := none } { s with receiver := r } := by
  refine ⟨hr.inv, ?_, h.pass, h.passed, h.next, h.up⟩
  simp [← h.core, Coordinator.core, hr.session, hr.passed, hr.locks]

/-- The role may change in the middle of a pass. -/
theorem withRole (role : Role) (h : On p₀ t p c s) :
    On p₀ t p { c with role := role } { s with role := role } :=
  ⟨h.receiver, by simp [← h.core, Coordinator.core], h.pass, h.passed, h.next, h.up⟩

/-- The pass has restored the relations once the party is the one of its core. -/
theorem settled (h : On p₀ t c.party c s) (hinv : c.Inv once) : Settled once p₀ t s := by
  have hcore := h.core
  exact ⟨hcore.symm ▸ h, hcore.symm ▸ hinv⟩

/-- A session has ended, and the role says so. -/
theorem settle (h : On p₀ t p c s) (hpart : p.part = .idle) (hrole : c.role = .local)
    (hinv : c.Inv once) : Settled once p₀ t s := by
  have hparty : p = c.party := by
    have hpassed := h.passed
    have hnext := h.next
    have hup := h.up
    cases p
    simp_all [Core.party, Role.part]
  exact settled (hparty ▸ h) hinv

variable [InputSink B]

/-! ### Frames -/

/-- A frame that is no message of a session. -/
theorem send {message : Message} (h : On p₀ t p c s)
    (hm : (Frame.mk message false).signal = none) :
    wp (Coordinator.send env message) s (fun _ => On p₀ t p c) (Halt p₀ t) := by
  have hsent : On p₀ t p c { s with outbox := s.outbox ++ [⟨message, false⟩] } := by
    refine ⟨h.receiver, h.core, ?_, h.passed, h.next, h.up⟩
    have hsignals : signals (s.outbox ++ [⟨message, false⟩]) = signals s.outbox := by
      simp [signals, hm]
    exact hsignals ▸ h.pass
  refine wp_mono (sendFrame_spec env _ s) (fun _ s' hs => hs ▸ hsent) fun stop s' hs => ?_
  obtain ⟨⟨e, rfl⟩, rfl | rfl⟩ := hs
  · exact h.halt trivial
  · exact hsent.halt trivial

/-- The end of the session of the role. -/
theorem sendEnd {k session : ℕ} {exit : Option EdgePosition} (h : On p₀ t p c s)
    (hpart : p.part = c.role.part k) (hs : c.role.session = some session) :
    wp (Coordinator.sendEnd env session exit) s (fun _ => On p₀ t p.retired c) (Halt p₀ t) := by
  have hrole : s.role = c.role := congrArg Core.role h.core
  have hfarewell : p.farewell = [.end session c.role.isSending] := by
    rw [Party.farewell, hpart]
    cases hr : c.role <;> simp_all [Role.part, Role.session, Role.isSending]
  have hmove : Move p p.retired [.end session s.role.isSending] := by
    rw [hrole, ← hfarewell]
    exact .leave h.up
  rw [Coordinator.sendEnd, wp_bind, wp_get]
  have hpassed : p.passed = s.receiver.passed := h.passed.trans (congrArg Core.passed h.core).symm
  refine wp_mono (sendMove h.pass hpassed h.up rfl hmove rfl h.up) (fun _ s' hs => ?_) fun _ _ => id
  obtain ⟨rfl, hpass⟩ := hs
  exact ⟨h.receiver, h.core, hpass, h.passed, h.next, h.up⟩

/-- The end of a session is said to the peer, and the party is idle after it. -/
theorem announceEnd {k : ℕ} (h : On p₀ t p c s) (hpart : p.part = c.role.part k) :
    wp (Coordinator.announceEnd env) s
      (fun _ s' => ∃ q, q.part = .idle ∧ On p₀ t q c s') (Halt p₀ t) := by
  have hrole : s.role = c.role := congrArg Core.role h.core
  rw [Coordinator.announceEnd, wp_bind, wp_get, hrole]
  cases hs : c.role.session with
  | none =>
      refine ⟨p, ?_, h⟩
      rw [hpart]
      cases hr : c.role <;> simp_all [Role.part, Role.session]
  | some session =>
      exact wp_mono (h.sendEnd hpart hs) (fun _ s' h' => ⟨p.retired, rfl, h'⟩) fun _ _ => id

/-- The receiver ends its session if it is the one of the role; it has no other. -/
theorem receiverEnd {session : ℕ} (h : On p₀ t p c s) (hinv : c.Inv once)
    (hs : c.role.session = some session) :
    wp (onReceiver (Receiver.end session)) s (fun _ => On p₀ t p { c with session := none })
      (Halt p₀ t) := by
  rw [wp_onReceiver]
  refine wp_mono (Receiver.end_spec session s.receiver) (fun _ r hr => ?_) fun e r hr => ?_
  · by_cases hreceiver : s.receiver.session = some session
    · rw [if_pos hreceiver] at hr
      exact h.idle hr
    · rw [if_neg hreceiver] at hr
      subst hr
      have hsession : c.session.map Prod.fst = s.receiver.session := by
        rw [← h.core]
        cases hx : s.receiver.session <;> simp [Coordinator.core, hx]
      have hnone : c.session = none := by
        refine hinv.no_session fun n hn => hreceiver ?_
        have hn' : c.role.session = some n := by rw [hn]; rfl
        rw [← hsession, ← hs, hn', (hinv.receiving n).mp hn]
      have hsame : { c with session := none } = c := by rw [← hnone]
      exact hsame ▸ h
  · exact (h.idle hr.2.1).halt hr.2.2

/-- `endSession` leaves the receiver without session and writes the end, if there is one to
write. -/
theorem endSession (h : On p₀ t c.party c s) (hinv : c.Inv once) :
    wp (Coordinator.endSession env) s
      (fun _ s' => ∃ q, q.part = .idle ∧ On p₀ t q { c with session := none } s')
      (Halt p₀ t) := by
  have hrole : s.role = c.role := congrArg Core.role h.core
  rw [Coordinator.endSession, wp_bind, wp_get, hrole]
  cases hs : c.role.session with
  | none =>
      have hlocal : c.role = .local := by
        cases hr : c.role <;> simp_all [Role.session]
      have hnone : c.session = none := hinv.no_session fun n => by simp [hlocal]
      have hsame : { c with session := none } = c := by rw [← hnone]
      exact ⟨c.party, by simp [Core.party, hlocal, Role.part], hsame ▸ h⟩
  | some session =>
      refine wp_seq (h.receiverEnd hinv hs) fun _ s₁ h₁ => ?_
      exact wp_mono (h₁.sendEnd rfl hs) (fun _ s' h' => ⟨c.party.retired, rfl, h'⟩) fun _ _ => id

/-! ### Captures, roles and placements -/

/-- The capture is stopped in the middle of a pass. -/
theorem stopCapture (h : On p₀ t p c s) :
    wp (Coordinator.stopCapture env) s (fun _ => On p₀ t p { c with capture := none })
      (Halt p₀ t) := by
  have hstopped : On p₀ t p { c with capture := none } { s with capture := none } :=
    ⟨h.receiver, by simp [← h.core, Coordinator.core], h.pass, h.passed, h.next, h.up⟩
  refine wp_mono (stopCapture_spec env s) (fun _ s' hs => hs ▸ hstopped) fun stop s' hs => ?_
  obtain ⟨⟨e, rfl⟩, rfl⟩ := hs
  exact hstopped.halt trivial

/-- The role is set in the middle of a pass. -/
theorem setRole (role : Role) (h : On p₀ t p c s) :
    wp (Coordinator.setRole role) s (fun _ => On p₀ t p { c with role := role }) (Halt p₀ t) := by
  rw [Coordinator.setRole, wp_modify]
  exact h.withRole role

theorem place (edge : EdgeConfig) (fraction : ℚ) (h : On p₀ t p c s) :
    wp (Coordinator.place env edge fraction) s (fun _ => On p₀ t p c) (Halt p₀ t) := by
  rw [Coordinator.place, wp_bind, wp_external]
  refine ⟨fun outputs _ => ?_, fun e _ => h.halt trivial⟩
  rw [wp_bind, wp_own]
  refine ⟨fun event _ => ?_, fun e he => h.halt (placement_ordinary he)⟩
  rw [wp_onReceiver]
  exact wp_mono (Receiver.positionOn_spec _ _ _) (fun _ r hr => h.framed hr.framed)
    fun e r hr => (h.framed hr.1.framed).halt hr.2

theorem placeBack (role : Role) (condition : ℕ → Bool) (h : On p₀ t p c s) :
    wp (Coordinator.placeBack env role condition) s (fun _ => On p₀ t p c) (Halt p₀ t) := by
  rw [Coordinator.placeBack, wp_bind, wp_get]
  cases role with
  | sending session sequence edge fraction =>
      rw [wp_ite]
      exact ⟨fun _ => h.place _ _, fun _ => h⟩
  | «local» | receiving => exact h

/-! ### Physical devices -/

theorem sample [ActivitySource A] (h : On p₀ t p c s) :
    wp Coordinator.sample s (fun _ => On p₀ t p c) (Halt p₀ t) := by
  rw [Coordinator.sample, wp_onActivity]
  exact wp_mono (wp_true _ _) (fun _ a _ => h.same rfl rfl rfl)
    fun e a _ => (h.same rfl rfl rfl).halt trivial

end On

namespace Settled

/-- A settled pass depends on the receiver, the core and the outbox alone. -/
theorem same (h : Settled once p₀ t s) (hr : s'.receiver = s.receiver) (hc : s'.core = s.core)
    (ho : s'.outbox = s.outbox) : Settled once p₀ t s' := by
  refine ⟨?_, hc ▸ h.inv⟩
  rw [hc]
  exact h.on.same hr hc ho

variable [InputSink B]

/-- A settled pass may fail. -/
theorem halt (h : Settled once p₀ t s) {stop : Stop} (hstop : stop.Ordinary B) : Halt p₀ t stop s :=
  h.on.halt hstop

/-- A message without a signal keeps the relations. -/
theorem send {message : Message} (h : Settled once p₀ t s)
    (hm : (Frame.mk message false).signal = none) :
    wp (Coordinator.send env message) s (fun _ => Settled once p₀ t) (Halt p₀ t) := by
  exact wp_mono (h.on.send hm) (fun _ s' h' => h'.settled h.inv) fun _ _ => id

/-- An input of the session that is sent. -/
theorem sendInput (event : InputEvent) (h : Settled once p₀ t s) :
    wp (Coordinator.sendInput env event) s (fun _ => Settled once p₀ t) (Halt p₀ t) := by
  rw [Coordinator.sendInput, wp_bind, wp_get]
  cases hr : s.role with
  | «local» | receiving => exact h
  | sending session sequence edge fraction =>
      have hpart : s.core.party.part = .sending session sequence := by
        simp [Core.party, Coordinator.core, hr, Role.part]
      refine wp_seq (sendMove h.on.pass rfl rfl rfl (.write rfl hpart event) rfl rfl)
        fun _ s₁ ⟨hs₁, hpass⟩ => ?_
      subst hs₁
      rw [wp_bind, wp_own]
      refine ⟨fun _ _ => ?_, fun e he => ?_⟩
      · rw [setRole, wp_modify]
        exact ⟨⟨h.on.receiver, rfl, hpass, rfl, rfl, rfl⟩, h.inv.advance hr⟩
      · refine ⟨⟨_, by simpa using hpass.move (.fail rfl), rfl, rfl⟩, .inl ?_⟩
        exact ordinary_ensure he (by decide)

/-- The inputs of the devices are sent in the session. -/
theorem sendInputs (events : List InputEvent) (h : Settled once p₀ t s) :
    wp (Coordinator.sendInputs env events) s (fun _ => Settled once p₀ t) (Halt p₀ t) := by
  induction events generalizing s with
  | nil => exact h
  | cons event events ih => exact wp_seq (h.sendInput event) fun _ s₁ h₁ => ih h₁

/-- The emergency chord is only recognised while the coordinator sends. -/
theorem forwardKeyboard (event : InputEvent) (h : Settled once p₀ t s) :
    wp (Coordinator.forwardKeyboard env event) s
      (fun emergency s' => Settled once p₀ t s' ∧ (emergency = true → s'.role.isSending = true))
      (Halt p₀ t) := by
  rw [Coordinator.forwardKeyboard, wp_bind, wp_get]
  split
  next session sequence edge fraction code pressed hrole =>
    rw [wp_bind, wp_set]
    have hsame : ∀ keys, Settled once p₀ t { s with sourceKeys := keys } := fun keys =>
      h.same rfl rfl rfl
    rw [wp_ite]
    refine ⟨fun _ => ⟨hsame _, fun _ => ?_⟩, fun _ => ?_⟩
    · simp [hrole, Role.isSending]
    · exact wp_seq ((hsame _).sendInput _) fun _ s₁ h₁ => ⟨h₁, by simp⟩
  next => exact h.halt (.inr (by decide))
  next => exact ⟨h, by simp⟩

/-- The keys that are held are sent when a session begins. -/
theorem enterKeys (codes : List ℕ) (h : Settled once p₀ t s) :
    wp (Coordinator.enterKeys env codes) s (fun _ => Settled once p₀ t) (Halt p₀ t) := by
  induction codes generalizing s with
  | nil => exact h
  | cons code codes ih => exact wp_seq (h.forwardKeyboard _) fun _ s₁ h₁ => ih h₁.1

end Settled

end NiriBridge.Coordinator
