import NiriBridge.Coordinator.Branches

/-!
# Coordinator — Messages

What a coordinator does with a message of its peer, and a whole pass.  A pass begins in `Begun`: the
outbox is empty, and the coordinator is the party `p₀`.  With a message of a session it does what
`Take` says, or it fails; `Take.lost` accounts for a message that is taken by a coordinator that
fails.
-/

namespace NiriBridge.Coordinator

open Hoare Session

variable {A B T D : Type} {α : Type} {once : Prop} {p₀ : Party InputEvent} {c : Core}
  {s s' : Coordinator A B T} {F : Format T D} {env : Env T} {signal : Signal InputEvent}

/-- The beginning of a pass. -/
structure Begun (once : Prop) (p₀ : Party InputEvent) (s : Coordinator A B T) : Prop where
  receiver : s.receiver.Inv
  party : s.core.party = p₀
  inv : s.core.Inv once
  outbox : s.outbox = []

namespace Begun

/-- The beginning of a pass depends on the receiver, the core and the outbox alone. -/
theorem same (h : Begun once p₀ s) (hr : s'.receiver = s.receiver) (hc : s'.core = s.core)
    (ho : s'.outbox = s.outbox) : Begun once p₀ s' :=
  ⟨hr ▸ h.receiver, hc ▸ h.party, hc ▸ h.inv, ho.trans h.outbox⟩

theorem sends_iff {n : ℕ} (h : Begun once p₀ s) :
    p₀.sends = some n ↔ s.role.session = some n ∧ s.role.isSending = true := by
  rw [← h.party]
  cases hr : s.role <;>
    simp [Party.sends, Core.party, core, hr, Role.part, Role.session, Role.isSending]

theorem serves_iff {n : ℕ} (h : Begun once p₀ s) : p₀.serves = some n ↔ s.role = .receiving n := by
  rw [← h.party]
  cases hr : s.role <;> simp [Party.serves, Core.party, core, hr, Role.part]

/-- No message of a session has been taken. -/
theorem settled (h : Begun once p₀ s) : Settled once p₀ [] s := by
  obtain ⟨hreceiver, rfl, hinv, houtbox⟩ := h
  refine ⟨⟨hreceiver, rfl, ?_, rfl, rfl, rfl⟩, hinv⟩
  rw [houtbox]
  exact .start

/-- A message has been taken; what the party does with it is still to be done. -/
theorem take {q : Party InputEvent} (h : Begun once p₀ s) (ht : Take p₀ signal q [])
    (hpassed : q.passed = p₀.passed) (hnext : q.next = p₀.next) (hup : q.up = p₀.up) :
    On p₀ [signal] q s.core s := by
  obtain ⟨hreceiver, rfl, hinv, houtbox⟩ := h
  refine ⟨hreceiver, rfl, ?_, hpassed, hnext, hup⟩
  rw [houtbox]
  exact .take rfl ht

variable [InputSink B]

/-- The pass fails with the message. -/
theorem lost {stop : Stop} (h : Begun once p₀ s) (hpassed : s'.receiver.passed = s.receiver.passed)
    (houtbox : s'.outbox = []) (hstop : stop.Ordinary B ∨ Clash p₀ [signal] stop) :
    Halt p₀ [signal] stop s' := by
  obtain ⟨hreceiver, rfl, hinv, -⟩ := h
  refine ⟨⟨s.core.party.failed, ?_, hpassed.symm, rfl⟩, hstop⟩
  rw [houtbox]
  exact .take rfl (.lost signal)

/-- The devices may be read at the beginning of a pass. -/
theorem sample [ActivitySource A] (h : Begun once p₀ s) :
    wp Coordinator.sample s (fun _ s' => Begun once p₀ s' ∧ s'.core = s.core)
      (Halt p₀ [signal]) := by
  rw [Coordinator.sample, wp_onActivity]
  exact wp_mono (wp_true _ _) (fun _ a _ => ⟨h.same rfl rfl rfl, rfl⟩)
    fun e a _ => h.lost rfl h.outbox (.inl trivial)

/-! ### Ends -/

/-- The end of a session, whichever side it comes from. -/
theorem peerEnd (session : ℕ) (exit : Option EdgePosition) (own : Bool) (h : Begun once p₀ s) :
    wp (Coordinator.peerEnd env session exit) s (fun _ => Settled once p₀ [.end session own])
      (Halt p₀ [.end session own]) := by
  have hparty := h.party
  rw [Coordinator.peerEnd, wp_bind, wp_get, wp_ite]
  refine ⟨fun hs => ?_, fun hs => ?_⟩
  · -- the session of the role has ended
    have hclose : Take p₀ (.end session own) p₀.retired [] := by
      rw [← h.party]
      refine .close ?_
      rw [h.party, h.sends_iff, h.serves_iff]
      cases hr : s.role <;> simp_all [Role.session, Role.isSending]
    have hcore : s.core.role.session = some session := hs
    have h₀ := h.take hclose rfl rfl rfl
    refine wp_seq (h₀.receiverEnd h.inv hcore) fun _ s₁ h₁ => ?_
    refine wp_seq h₁.stopCapture fun _ s₂ h₂ => ?_
    have hend : ∀ s₃, On p₀ [.end session own] p₀.retired
          { s.core with session := none, capture := none } s₃ →
        wp (do setRole .local; rearm env : CoordinatorM A B T Unit) s₃
          (fun _ => Settled once p₀ [.end session own]) (Halt p₀ [.end session own]) := by
      intro s₃ h₃
      refine wp_seq (h₃.setRole .local) fun _ s₄ h₄ => ?_
      rw [rearm, wp_modify]
      exact (h₄.settle rfl rfl h.inv.local).same rfl rfl rfl
    cases s.role with
    | «local» | receiving => exact hend s₂ h₂
    | sending n k edge fraction =>
        simp only [wp_ite]
        refine ⟨fun _ => ?_, fun _ => hend s₂ h₂⟩
        rw [wp_bind, wp_own]
        refine ⟨fun x _ => ?_, fun e he => h₂.halt (returnEdge_ordinary he)⟩
        exact wp_seq (h₂.place _ _) fun _ s₃ h₃ => hend s₃ h₃
  · -- an end that comes late is about no session of this device
    have hignore : Take p₀ (.end session own) p₀ [] := by
      refine .ignore (fun hsends => hs (h.sends_iff.mp hsends).1) fun hserves => hs ?_
      rw [h.serves_iff.mp hserves]
      rfl
    have h₀ := h.take hignore rfl rfl rfl
    exact On.settled (hparty ▸ h₀) h.inv

/-! ### Inputs -/

omit [InputSink B] in
/-- The receiver's session is the one of the role, and the party expects its next input. -/
theorem receiving {session : ℕ} (h : Begun once p₀ s) (hr : s.role = .receiving session) :
    s.receiver.session = some session ∧
      p₀.part = .receiving session s.receiver.expectedSequence := by
  have hsession : s.receiver.session = some session := by
    have hs := (h.inv.receiving session).mp hr
    cases hx : s.receiver.session <;> simp_all [core]
  refine ⟨hsession, ?_⟩
  rw [← h.party]
  simp [Core.party, core, Core.expected, hr, hsession, Role.part]

/-- Physical input takes the desktop back from the session of the input. -/
theorem interrupted {session sequence : ℕ} {event : InputEvent} {r : Receiver B}
    (h : Begun once p₀ s) (hrole : s.role = .receiving session) (hr : Receiver.Idle s.receiver r) :
    wp (do sendEnd env session none; setRole .local; stopCapture env : CoordinatorM A B T Unit)
      { s with receiver := r } (fun _ => Settled once p₀ [.input session sequence event])
      (Halt p₀ [.input session sequence event]) := by
  have hserves : p₀.serves = some session := h.serves_iff.mpr hrole
  have hsending : s.role.isSending = false := congrArg Role.isSending hrole
  have hpassed : p₀.passed = s.receiver.passed := by rw [← h.party]; rfl
  have hup : p₀.up = true := by rw [← h.party]; rfl
  have hinterrupt : Pass p₀ [.input session sequence event] p₀.retired [.end session false] :=
    .take hup (.interrupt hserves)
  rw [sendEnd, wp_bind, wp_bind, wp_get, hsending]
  refine wp_mono (sendFrame_spec env _ _) (fun _ s₁ hs₁ => ?_) fun stop s₁ hs₁ => ?_
  · subst hs₁
    have h₁ : On p₀ [.input session sequence event] p₀.retired { s.core with session := none }
        { s with receiver := r, outbox := s.outbox ++ [⟨.end session none, false⟩] } := by
      have hsame : On p₀ [] p₀ s.core s := by
        have hon := h.settled.on
        rwa [h.party] at hon
      obtain ⟨hreceiver, hcore, -, hpassed', hnext, -⟩ := hsame.idle hr
      refine ⟨hreceiver, hcore, ?_, hpassed', hnext, hup⟩
      rw [h.outbox]
      exact hinterrupt
    refine wp_seq (h₁.setRole .local) fun _ s₂ h₂ => ?_
    exact wp_mono h₂.stopCapture (fun _ s₃ h₃ => h₃.settle rfl rfl h.inv.local) fun _ _ => id
  · obtain ⟨⟨e, rfl⟩, rfl | rfl⟩ := hs₁
    · exact h.lost hr.passed h.outbox (.inl trivial)
    · refine ⟨⟨p₀.retired.failed, ?_, hpassed.trans hr.passed.symm, rfl⟩, .inl trivial⟩
      simpa [h.outbox, signals, Frame.signal] using hinterrupt.move (.fail hup)

omit [InputSink B] in
/-- The receiver has passed the input on. -/
theorem passed {session sequence : ℕ} {event : InputEvent} {r : Receiver B}
    (h : Begun once p₀ s) (hrole : s.role = .receiving session)
    (hr : Receiver.Passed session sequence event s.receiver r)
    (hpass : Pass p₀ [.input session sequence event]
      { p₀ with
        part := .receiving session (sequence + 1)
        passed := s.receiver.passed ++ [(session, sequence, event)] } []) :
    Settled once p₀ [.input session sequence event] { s with receiver := r } := by
  obtain ⟨hreceiver, rfl, hinv, houtbox⟩ := h
  have hs : s.core.session = some (session, s.receiver.expectedSequence) := by
    simp [core, hr.active]
  refine On.settled (c := { s.core with
    session := some (session, sequence + 1)
    passed := s.receiver.passed ++ [(session, sequence, event)] })
    ⟨hr.inv, ?_, ?_, rfl, rfl, rfl⟩ ?_
  · simp [core, hr.stays, hr.expectedSequence, hr.inOrder, hr.passed, hr.locks]
  · rw [houtbox]
    have hparty : Core.party { s.core with
        session := some (session, sequence + 1)
        passed := s.receiver.passed ++ [(session, sequence, event)] } =
        { s.core.party with
          part := .receiving session (sequence + 1)
          passed := s.receiver.passed ++ [(session, sequence, event)] } := by
      simp [Core.party, Core.expected, core, hrole, Role.part]
    rw [hparty]
    exact hpass
  · exact { hinv with receiving := fun n => by simpa [hs] using hinv.receiving n }

/-- An input goes to the receiver in its session, and is dropped when it is late. -/
theorem peerInput [ActivitySource A] (session sequence : ℕ) (event : InputEvent)
    (h : Begun once p₀ s) :
    wp (Coordinator.peerInput env session sequence event) s
      (fun _ => Settled once p₀ [.input session sequence event])
      (Halt p₀ [.input session sequence event]) := by
  have hparty := h.party
  rw [Coordinator.peerInput, wp_bind, wp_own]
  refine ⟨fun _ _ => ?_, fun e he => h.lost rfl h.outbox (.inl (ordinary_ensure he (by decide)))⟩
  rw [wp_bind, wp_get, wp_ite]
  refine ⟨fun hrole => ?_, fun hrole => ?_⟩
  · refine wp_seq h.sample fun physical s₁ ⟨h₁, hcore⟩ => ?_
    have hrole₁ : s₁.role = .receiving session := (congrArg Core.role hcore).trans hrole
    obtain ⟨hsession, hpart⟩ := h₁.receiving hrole₁
    -- input at the device itself comes before that of the peer
    cases physical with
    | true =>
        simp only [if_true]
        rw [wp_bind, wp_onReceiver]
        exact wp_mono (Receiver.physicalActivity_spec h₁.receiver)
          (fun _ r hr => h₁.interrupted hrole₁ hr)
          fun e r hr => h₁.lost hr.1.passed h₁.outbox (.inl hr.2)
    | false =>
        simp only [Bool.false_eq_true, if_false]
        rw [wp_bind, wp_onReceiver]
        have hpassed : p₀.passed = s₁.receiver.passed := by rw [← h₁.party]; rfl
        have hup : p₀.up = true := by rw [← hparty]; rfl
        -- an input in its turn is passed on, and the next number is expected
        have hpass : sequence = s₁.receiver.expectedSequence →
            Pass p₀ [.input session sequence event]
              { p₀ with
                part := .receiving session (sequence + 1)
                passed := s₁.receiver.passed ++ [(session, sequence, event)] } [] := by
          rintro rfl
          rw [← hpassed]
          exact .take hup (.pass hpart)
        refine wp_mono (Receiver.input_spec session sequence event h₁.receiver)
          (fun taken r hr => ?_)
          fun e r hr => ?_
        · cases taken with
          | false => exact absurd hsession hr.2
          | true =>
              have hr : Receiver.Passed session sequence event s₁.receiver r := hr
              exact h₁.passed hrole₁ hr (hpass hr.inOrder)
        · have herror : Stop.Ordinary B (.failed e) ∨
              Clash p₀ [.input session sequence event] (.failed e) :=
            hr.error.imp id fun hne => .gap hpart hne
          rcases hr.passed with hsame | ⟨hseq, happended⟩
          · exact h₁.lost hsame h₁.outbox herror
          · have hfail := (hpass hseq).move (.fail hup)
            have hout : signals s₁.outbox = [] ++ [] := by rw [h₁.outbox]; rfl
            exact ⟨⟨_, hout ▸ hfail, happended.symm, rfl⟩, herror⟩
  · -- the session is over, or another one is on
    have hskip : Take p₀ (.input session sequence event) p₀ [] := by
      exact .skip (mt h.serves_iff.mp hrole)
    have h₀ := h.take hskip rfl rfl rfl
    exact On.settled (hparty ▸ h₀) h.inv

/-! ### Begins -/

omit [InputSink B] in
/-- The peer may enter a local device that is ready and has no layout pending. -/
theorem mayEnter [ActivitySource A] [InputSink B] (h : Begun once p₀ s) :
    wp Coordinator.mayEnter s (fun enters s' => Begun once p₀ s' ∧ s'.core = s.core ∧
        (enters = true → s.role = .local ∧ s.localReady = true ∧ s.peerReady = true ∧
          s.core.pending = false)) (Halt p₀ [signal]) := by
  rw [Coordinator.mayEnter, wp_bind, wp_get, wp_ite]
  refine ⟨fun hmay => ?_, fun _ => ⟨h, rfl, by simp⟩⟩
  obtain ⟨hrole, hl, hp, -, hpending⟩ := hmay
  refine wp_seq h.sample fun physical s₁ h₁ => ⟨h₁.1, h₁.2, fun _ => ⟨hrole, hl, hp, ?_⟩⟩
  simpa [core] using hpending

/-- A session of the peer enters. -/
theorem enter {session : ℕ} {entry : EdgePosition} {edge : EdgeConfig} (h : Begun once p₀ s)
    (hrole : s.role = .local) (hready : s.localReady = true ∧ s.peerReady = true)
    (hpending : s.core.pending = false) :
    wp (do
        let started ← onReceiver (Receiver.begin session)
        own (ensure started "Receiver is busy")
        place env edge entry.fraction
        setRole (.receiving session)) s
      (fun _ => Settled once p₀ [.begin session]) (Halt p₀ [.begin session]) := by
  have hidle : p₀.part = .idle := by
    rw [← h.party]
    simp [Core.party, core, hrole, Role.part]
  have haccept : Take p₀ (.begin session) { p₀ with part := .receiving session 0 } [] :=
    .accept hidle
  have h₀ := h.take haccept rfl rfl rfl
  rw [wp_bind, wp_onReceiver]
  refine wp_mono (Receiver.begin_spec session h.receiver) (fun started r hr => ?_) fun e r hr => ?_
  · obtain ⟨hinv, hlocks, hpassed, -, hstarted⟩ := hr
    -- the receiver is idle and neither desktop locked, so it does begin
    have hstart : started = true := by
      by_contra hne
      rw [if_neg hne] at hstarted
      have hnone := h.inv.no_session fun n => by simp [core, hrole]
      have hlocal : s.receiver.state.localLocked = !s.localReady := h.inv.localLock
      have hpeer : s.receiver.state.peerLocked = false := h.inv.peerLock hready.2
      simp_all [core]
    subst hstart
    obtain ⟨hsession, hexpected⟩ := hstarted
    have h₁ : On p₀ [.begin session] { p₀ with part := .receiving session 0 }
        { s.core with session := some (session, 0) } { s with receiver := r } := by
      refine ⟨hinv, ?_, h₀.pass, h₀.passed, h₀.next, h₀.up⟩
      simp [core, hsession, hexpected, hpassed, hlocks]
    rw [wp_bind, wp_own]
    refine ⟨fun _ _ => ?_, fun e he => absurd rfl (ensure_eq_error.mp he).1⟩
    refine wp_seq (h₁.place edge _) fun _ s₂ h₂ => ?_
    refine wp_mono (h₂.setRole (.receiving session)) (fun _ s₃ h₃ => ?_) fun _ _ => id
    refine On.settled (c := { s.core with
      role := .receiving session, session := some (session, 0) }) ?_
      (h.inv.enter hready hpending)
    rw [← h.party] at h₃ ⊢
    exact h₃
  · exact h.lost (congrArg Receiver.passed hr.1) h.outbox (.inl hr.2.1)

/-- A begin that is refused is answered with its end. -/
theorem refuse {session : ℕ} (h : Begun once p₀ s) (hserves : p₀.serves = none) :
    wp (sendFrame env ⟨.end session none, false⟩) s (fun _ => Settled once p₀ [.begin session])
      (Halt p₀ [.begin session]) := by
  obtain ⟨hreceiver, rfl, hinv, houtbox⟩ := h
  have hrefuse : Pass s.core.party [.begin session] s.core.party
      (signals (s.outbox ++ [⟨.end session none, false⟩])) := by
    rw [houtbox]
    exact .take rfl (.refuse hserves)
  refine wp_mono (sendFrame_spec env _ s) (fun _ s₁ hs₁ => ?_) fun stop s₁ hs₁ => ?_
  · subst hs₁
    exact ⟨⟨hreceiver, rfl, hrefuse, rfl, rfl, rfl⟩, hinv⟩
  · obtain ⟨⟨e, rfl⟩, rfl | rfl⟩ := hs₁
    · exact lost ⟨hreceiver, rfl, hinv, houtbox⟩ rfl houtbox (.inl trivial)
    · exact ⟨⟨_, by simpa using hrefuse.move (.fail rfl), rfl, rfl⟩, .inl trivial⟩

/-- A session of the peer begins where it may, and is refused where not. -/
theorem peerBegin [ActivitySource A] (session : ℕ) (entry : EdgePosition) (h : Begun once p₀ s) :
    wp (Coordinator.peerBegin env session entry) s (fun _ => Settled once p₀ [.begin session])
      (Halt p₀ [.begin session]) := by
  have hparty := h.party
  have hmay : wp (if (s.entryEdge entry.edgeId).isSome then Coordinator.mayEnter else pure false) s
      (fun enters s' => Begun once p₀ s' ∧ s'.core = s.core ∧
        (enters = true → s.role = .local ∧ s.localReady = true ∧ s.peerReady = true ∧
          s.core.pending = false)) (Halt p₀ [.begin session]) := by
    rw [wp_ite]
    exact ⟨fun _ => h.mayEnter, fun _ => ⟨h, rfl, by intros; contradiction⟩⟩
  rw [Coordinator.peerBegin, wp_bind, wp_get]
  refine wp_seq hmay fun accepted s₁ ⟨h₁, hcore, henters⟩ => ?_
  split
  next edge _ =>
    obtain ⟨hrole, hl, hp, hpending⟩ := henters rfl
    have hrole₁ : s₁.role = .local := (congrArg Core.role hcore).trans hrole
    have hready₁ : s₁.localReady = true ∧ s₁.peerReady = true :=
      ⟨(congrArg Core.localReady hcore).trans hl, (congrArg Core.peerReady hcore).trans hp⟩
    exact h₁.enter hrole₁ hready₁ (hcore ▸ hpending)
  · rename_i hrole _ _
    refine h₁.lost rfl h₁.outbox (.inr (.overlap ?_))
    rw [h.serves_iff.mpr hrole]
    nofun
  · rename_i hrole
    refine h₁.refuse (Option.eq_none_iff_forall_ne_some.mpr fun n hn => ?_)
    exact hrole n (h.serves_iff.mp hn)

end Begun

/-! ### Passes -/

/-- A frame of the peer, and what it is to the session protocol. -/
theorem Begun.peerMessage [ActivitySource A] [InputSink B] (frame : Frame) (h : Begun once p₀ s) :
    wp (Coordinator.peerMessage F env frame.message) s
      (fun _ => Settled once p₀ (signals [frame])) (Halt p₀ (signals [frame])) := by
  obtain ⟨message, own⟩ := frame
  cases message with
  | desktop info => exact h.settled.same rfl rfl rfl
  | layout message => exact h.settled.layoutMessage message
  | touchpads devices => exact h.settled.peerTouchpads devices
  | hello version => exact h.settled.halt (.inr (by decide))
  | ping nonce => exact h.settled.send rfl
  | pong nonce => exact h.settled
  | lockState locked => exact h.settled.peerLockState locked
  | «begin» session entry => exact h.peerBegin session entry
  | input session sequence event => exact h.peerInput session sequence event
  | «end» session exit => exact h.peerEnd session exit own

/-- **A pass restores the relations**, and to the peer it is a pass of the session protocol. -/
theorem pass_spec [ActivitySource A] [InputSink B] (F : Format T D) (env : Env T) (event : Event)
    (frame : Option Frame) (h : Begun once p₀ s)
    (honce : once → frame = none → s.StartedOnce event) :
    wp (pass F env event frame) s (fun _ => Settled once p₀ (signals frame.toList))
      (Halt p₀ (signals frame.toList)) := by
  cases frame with
  | some frame => exact wp_seq (h.peerMessage frame) fun _ s₁ h₁ => h₁.head
  | none =>
      exact wp_seq (h.settled.branch event fun ho => honce ho rfl) fun _ s₁ h₁ => h₁.head

end NiriBridge.Coordinator
