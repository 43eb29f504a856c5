import NiriBridge.Coordinator.Crossing

/-!
# Coordinator — Waiting

Where the loop waits, the edges are those of both displays (`Current`): a session has one, and a
capture is one of these edges.  The head of the loop makes them so, and gives up what belongs to
other displays.

* `pass_edges`: what one pass says of displays and edges, and of the ends of its own sessions.
* `open_edges`: what a connection opens with.
-/

namespace NiriBridge.Coordinator

open Hoare Session

variable {A B T D : Type} {α : Type} {F : Format T D} {env : Env T} {c : Prop}
  {s s' : Coordinator A B T}

/-! ### The head of the loop -/

/-- The edges are those that both displays allow. -/
structure Current (s : Coordinator A B T) : Prop where
  available : s.availableEdges = activeEdges s.desktop s.peerDesktop
  session : s.role.session.isSome = true → s.availableEdges ≠ []
  capture : s.capture.isSome = true →
    s.captureEpoch = s.desktopEpoch ∧ s.captureEdges = s.availableEdges

theorem Current.level (h : Current s) (h' : Level c s s') : Current s' where
  available := by rw [h'.available, h'.desktop, h'.peerDesktop, h.available]
  session hs := h'.available ▸ (h'.session hs).elim h.session id
  capture hs := by
    rw [h'.captureEpoch, h'.desktopEpoch, h'.captured, h'.available]
    exact h.capture (h'.capture hs)

/-- The coordinator with the edges that the head finds. -/
def refreshed (s : Coordinator A B T) : Coordinator A B T :=
  { s with availableEdges := activeEdges s.desktop s.peerDesktop }

theorem Current.refreshed (h : Current s) : s.refreshed = s := by
  rw [Coordinator.refreshed, ← h.available]

theorem Current.not_outdated (h : Current s) : s.outdated = false := by
  rw [outdated, Bool.or_eq_false_iff]
  constructor
  · cases hs : s.role.session.isSome with
    | false => rw [Bool.and_false]
    | true => simpa using h.session hs
  · cases hs : s.capture.isSome with
    | false => rfl
    | true => simpa using (h.capture hs).1

/-- The capture, if it is of the current displays, is one of the current edges. -/
def Recent (s : Coordinator A B T) : Prop :=
  s.capture.isSome = true → s.captureEpoch = s.desktopEpoch →
    s.captureEdges = activeEdges s.desktop s.peerDesktop

theorem Current.recent (h : Current s) : Recent s :=
  fun hs _ => (h.capture hs).2.trans h.available

/-- What is not outdated is current. -/
theorem Recent.current (h : Recent s) (hnot : s.refreshed.outdated = false) :
    Current s.refreshed := by
  rw [outdated, Bool.or_eq_false_iff] at hnot
  refine ⟨rfl, fun hs hnil => ?_, fun hs => ?_⟩
  · simp only [hs, hnil, List.isEmpty_nil] at hnot
    exact absurd hnot.1 (by simp)
  · have hepoch : s.captureEpoch = s.desktopEpoch := by
      have hcapture : s.capture.isSome = true := hs
      simpa [Coordinator.refreshed, hcapture] using hnot.2
    exact ⟨hepoch, h hs hepoch⟩

/-- What is outdated is given up. -/
theorem leaveOutdated_spec [InputSink B] (hc : c → s.outdated = false) :
    wp (leaveOutdated env) s
      (fun _ s' => Level c s s' ∧ (s.outdated = false → s' = s) ∧
        (s.outdated = true → s'.role = .local ∧ s'.capture = none))
      (fun _ => Level c s) := by
  rw [leaveOutdated, wp_bind, wp_get, wp_ite]
  refine ⟨fun hout => ?_, fun hnot => ⟨refl_of (Level c) s, fun _ => rfl, fun h => absurd h hnot⟩⟩
  have hend : c → s.role.isSending = false := fun h => absurd (hout.symm.trans (hc h)) (by simp)
  rw [wp_bind]
  refine wp_mono (level_endSession hend) (fun _ s₁ h₁ => ?_) fun _ _ h => h
  rw [wp_bind]
  refine wp_mono (stopCapture_spec env s₁) (fun _ s₂ hs₂ => ?_) fun stop s₂ hs₂ => ?_
  · have h₂ : Level c s₁ s₂ :=
      hs₂ ▸ ⟨⟨rfl, rfl, rfl, rfl, fun _ _ => id⟩, rfl, rfl, rfl, rfl, by simp, .inl⟩
    have hcapture : s₂.capture.isSome = false := by
      rw [hs₂]
      rfl
    have h₂ := trans_of (Level c) h₁ h₂
    rw [wp_bind]
    refine wp_mono (aside_placeBack _ _ s₂) (fun _ s₃ h₃ => ?_) fun _ _ h₃ =>
      trans_of (Level c) h₂ h₃.level
    rw [setRole, wp_bind, wp_modify, wp_modify]
    have hnone : s₃.capture = none := by
      cases hs₃ : s₃.capture with
      | none => rfl
      | some task => exact absurd (hcapture.symm.trans (h₃.capture (hs₃ ▸ rfl))) (by simp)
    refine ⟨?_, fun h => absurd (hout.symm.trans h) (by simp), fun _ => ⟨rfl, hnone⟩⟩
    have h₃ : Level c s s₃ := trans_of (Level c) h₂ h₃.level
    exact { h₃ with session := by rintro ⟨⟩ }
  · exact trans_of (Level c) h₁
      (hs₂.2 ▸ ⟨⟨rfl, rfl, rfl, rfl, fun _ _ => id⟩, rfl, rfl, rfl, rfl, by simp, .inl⟩)

/-- A coordinator without session sends no inputs. -/
theorem sendInputs_local (events : List InputEvent) (h : s.role = .local) :
    wp (sendInputs env events) s (fun _ s' => s' = s) (fun _ _ => False) := by
  induction events with
  | nil => exact rfl
  | cons event events ih =>
      have hnothing : wp (sendInput env event) s (fun _ s' => s' = s) (fun _ _ => False) := by
        rw [sendInput, wp_bind, wp_get, h]
        exact rfl
      exact wp_seq hnothing fun _ s' hs => hs ▸ ih

/-- A capture is started with the current edges. -/
theorem current_armCapture (c : Prop) (env : Env T) (h : Current s) :
    wp (armCapture env) s (fun _ s' => Told c s s' ∧ Current s' ∧ s'.role = s.role)
    (fun _ _ => False) := by
  rw [armCapture, wp_modify]
  split_ifs
  · exact ⟨⟨rfl, rfl, rfl, rfl, fun _ _ => id⟩, ⟨h.available, h.session, fun _ => ⟨rfl, rfl⟩⟩, rfl⟩
  · exact ⟨⟨rfl, rfl, rfl, rfl, fun _ _ => id⟩, h, rfl⟩

/-- **The head makes the edges current**, and gives up what is outdated. -/
theorem head_current [ActivitySource A] [InputSink B] (h : Recent s)
    (hc : c → s.refreshed.outdated = false) :
    wp (head env) s
      (fun _ s' => Told c s s' ∧ Current s' ∧ (s.refreshed.outdated = true → s'.role = .local))
      (fun _ => Told c s) := by
  have hrefreshed : Told c s s.refreshed := ⟨rfl, rfl, rfl, rfl, fun _ _ => id⟩
  rw [head, wp_bind, wp_modify]
  show wp _ s.refreshed _ _
  rw [wp_bind]
  refine wp_mono (leaveOutdated_spec hc) (fun _ s₁ h₁ => ?_) fun _ _ h₁ =>
    hrefreshed.trans h₁.toTold
  obtain ⟨h₁, hstays, hleaves⟩ := h₁
  -- the edges have not changed, or what depends on them has been given up
  have hcurrent : Current s₁ := by
    cases hout : s.refreshed.outdated with
    | false => exact hstays hout ▸ h.current hout
    | true =>
        obtain ⟨hrole, hcapture⟩ := hleaves hout
        refine ⟨?_, fun hs => ?_, fun hs => ?_⟩
        · rw [h₁.available, h₁.desktop, h₁.peerDesktop]
          rfl
        · rw [hrole] at hs
          cases hs
        · rw [hcapture] at hs
          cases hs
  have h₁ := hrefreshed.trans h₁.toTold
  rw [wp_bind, wp_get, wp_bind, wp_onActivity]
  have hactivity : ∀ activity, Level c s₁ { s₁ with activity := activity } := level_activity
  refine wp_mono (wp_true _ _) (fun events activity _ => ?_) fun _ activity _ =>
    h₁.trans (hactivity activity).toTold
  have hlocal : s.refreshed.outdated = true →
    wp (sendInputs env events) { s₁ with activity := activity }
      (fun _ s' => s'.role = .local) (fun _ _ => False) := fun hout =>
    wp_mono (sendInputs_local events (hleaves hout).1)
      (fun _ s' hs => hs ▸ (hleaves hout).1) fun _ _ => id
  -- the inputs that wait are sent, and none where the session was given up
  have hsends : wp (sendInputs env events) { s₁ with activity := activity }
      (fun _ s' => Level c s₁ s' ∧ (s.refreshed.outdated = true → s'.role = .local))
      (fun _ s' => Level c s₁ s') := by
    have hlevel : wp (sendInputs env events) { s₁ with activity := activity } (fun _ => Level c s₁)
        (fun _ => Level c s₁) := (level_sendInputs events).after (hactivity activity)
    cases hout : s.refreshed.outdated with
    | false =>
        exact wp_mono hlevel (fun _ _ h₂ => ⟨h₂, fun h => absurd h (by simp)⟩) fun _ _ h₂ => h₂
    | true =>
        exact wp_mono (wp_and hlevel (hlocal hout))
          (fun _ _ h₂ => ⟨h₂.1, fun _ => h₂.2⟩) fun _ _ h₂ => h₂.1
  rw [wp_bind]
  refine wp_mono hsends (fun _ s₂ h₂ => ?_) fun _ _ h₂ => h₁.trans h₂.toTold
  have harm := current_armCapture c env (hcurrent.level h₂.1)
  refine wp_mono harm (fun _ s₃ h₃ => ?_) fun _ _ => False.elim
  exact ⟨(h₁.trans h₂.1.toTold).trans h₃.1, h₃.2.1, fun hout => h₃.2.2.trans (h₂.2 hout)⟩

/-! ### Passes -/

/-- The displays of the device after a pass. -/
def nextDesktop (s : Coordinator A B T) (event : Event) : Option Frame → Desktop
  | some _ => s.desktop
  | none =>
      match event with
      | .outputs outputs => { s.desktop with outputs := outputs }
      | _ => s.desktop

/-- The displays of the peer after a pass. -/
def nextPeerDesktop (s : Coordinator A B T) : Option Frame → Option Desktop
  | some ⟨.desktop info, _⟩ => some info
  | _ => s.peerDesktop

/-- What a pass says of displays and of edges. -/
inductive Says (s : Coordinator A B T) : Event → Option Frame → List Frame → Prop where
  | nothing {event : Event} {frame : Option Frame} : Says s event frame []
  | outputs (outputs : Outputs) :
      Says s (.outputs outputs) none [⟨.desktop { s.desktop with outputs := outputs }, false⟩]
  | crossed {index : ℕ} {fraction : ℚ} {w : List Frame} (hcapture : s.capture.isSome = true)
      (h : Crossed s index fraction w) :
      Says s (.capture (some ⟨s.generation, .started index fraction⟩)) none w

/-- The pass has changed the displays. -/
def Redisplays (event : Event) (frame : Option Frame) : Prop :=
  (frame = none ∧ ∃ outputs, event = .outputs outputs) ∨
  ∃ info own, frame = some ⟨.desktop info, own⟩

/-- What a pass has written. -/
structure Wrote [ActivitySource A] (F : Format T D) (env : Env T) (s : Coordinator A B T)
    (event : Event) (frame : Option Frame) (s' : Coordinator A B T) : Prop where
  config : s'.config = s.config
  located : ∃ w, Says s event frame w ∧ located s'.outbox = located s.outbox ++ w
  ended : ¬ s.GivesUp F env event frame →
    ∀ n, .end n true ∈ signals s'.outbox → .end n true ∈ signals s.outbox

/-- Where a pass leaves the loop waiting. -/
structure Waits (s : Coordinator A B T) (event : Event) (frame : Option Frame)
    (s' : Coordinator A B T) : Prop where
  current : Current s'
  desktop : s'.desktop = s.nextDesktop event frame
  peerDesktop : s'.peerDesktop = s.nextPeerDesktop frame
  told : s'.desktop ≠ s.desktop →
    located s'.outbox = located s.outbox ++ [⟨.desktop s'.desktop, false⟩]
  -- a capture does not outlive the displays, nor does the session that needs it
  outdated : s.capture.isSome = true → Redisplays event frame → s'.role = .local

/-- A pass says nothing of the end of a session among its words. -/
theorem Says.no_end {event : Event} {frame : Option Frame} {w : List Frame}
    (h : Says s event frame w) (n : ℕ) : .end n true ∉ signals w := by
  cases h with
  | nothing => exact List.not_mem_nil
  | outputs outputs => exact List.not_mem_nil
  | crossed hcapture hcrossed => cases hcrossed <;> simp [signals, Frame.signal]

/-- All that a pass says is about displays and edges. -/
theorem Says.located {event : Event} {frame : Option Frame} {w : List Frame}
    (h : Says s event frame w) :
    located w = w := by
  cases h with
  | nothing => rfl
  | outputs outputs => rfl
  | crossed hcapture hcrossed => cases hcrossed <;> rfl

section Pass

variable [ActivitySource A] {event : Event} {frame : Option Frame}

/-- What a pass has written, from what it says. -/
theorem wrote_of_saying {w : List Frame} (hw : Says s event frame w)
    (hconfig : s'.config = s.config) (hlocated : located s'.outbox = located (s.outbox ++ w))
    (hended : ¬ s.GivesUp F env event frame →
      ∀ n, .end n true ∈ signals s'.outbox → .end n true ∈ signals (s.outbox ++ w)) :
    Wrote F env s event frame s' := by
  refine ⟨hconfig, ⟨w, hw, ?_⟩, fun hc n hn => ?_⟩
  · rw [hlocated, located_append, hw.located]
  · have hn := hended hc n hn
    rw [signals_append, List.mem_append] at hn
    exact hn.resolve_right (hw.no_end n)

/-- A pass whose branch leaves the displays alone. -/
theorem wp_pass_of_saying [InputSink B] {m : CoordinatorM A B T Unit} (h : Current s)
    (hdesktop : s.nextDesktop event frame = s.desktop)
    (hpeer : s.nextPeerDesktop frame = s.peerDesktop) (hnot : ¬ Redisplays event frame)
    (hm : wp m s (fun _ => Saying (¬ s.GivesUp F env event frame) s (Says s event frame))
      (fun _ => Saying (¬ s.GivesUp F env event frame) s (Says s event frame))) :
    wp (m >>= fun _ => head env) s
      (fun _ s' => Wrote F env s event frame s' ∧ Waits s event frame s')
      (fun _ => Wrote F env s event frame) := by
  rw [wp_bind]
  have hwrote : ∀ {w s'}, Says s event frame w →
      Told (¬ s.GivesUp F env event frame) { s with outbox := s.outbox ++ w } s' →
      Wrote F env s event frame s' := fun hw h => wrote_of_saying hw h.config h.located h.ended
  refine wp_mono hm (fun _ s₁ ⟨w, hw, h₁⟩ => ?_) fun _ s₁ ⟨w, hw, h₁⟩ => hwrote hw h₁.toTold
  have hs : Current { s with outbox := s.outbox ++ w } := ⟨h.available, h.session, h.capture⟩
  have hcurrent := hs.level h₁
  have hc : ¬ s.GivesUp F env event frame → s₁.refreshed.outdated = false := fun _ => by
    rw [hcurrent.refreshed]
    exact hcurrent.not_outdated
  refine wp_mono (head_current hcurrent.recent hc) (fun _ s₂ h₂ => ?_)
    fun _ s₂ h₂ => hwrote hw (h₁.toTold.trans h₂)
  obtain ⟨h₂, hcurrent₂, -⟩ := h₂
  have h₂ := h₁.toTold.trans h₂
  have hsame : s₂.desktop = s.desktop := h₂.desktop
  exact ⟨hwrote hw h₂, hcurrent₂, hsame.trans hdesktop.symm, h₂.peerDesktop.trans hpeer.symm,
    fun hne => absurd hsame hne, fun _ hr => absurd hr hnot⟩

/-- A pass whose branch has to do with neither displays nor edges. -/
theorem wp_pass_of_level [InputSink B] {m : CoordinatorM A B T Unit} (h : Current s)
    (hdesktop : s.nextDesktop event frame = s.desktop)
    (hpeer : s.nextPeerDesktop frame = s.peerDesktop) (hnot : ¬ Redisplays event frame)
    (hm : wp m s (fun _ => Level (¬ s.GivesUp F env event frame) s)
      (fun _ => Level (¬ s.GivesUp F env event frame) s)) :
    wp (m >>= fun _ => head env) s
      (fun _ s' => Wrote F env s event frame s' ∧ Waits s event frame s')
      (fun _ => Wrote F env s event frame) :=
  wp_pass_of_saying h hdesktop hpeer hnot
    (wp_mono hm (fun _ _ h₁ => h₁.saying .nothing) fun _ _ h₁ => h₁.saying .nothing)

/-- After the displays have changed: a capture is one of other displays. -/
theorem wp_head_of_redisplayed [InputSink B] {s₁ : Coordinator A B T} {w : List Frame}
    (hw : Says s event frame w) (h₁ : Told (¬ s.GivesUp F env event frame)
      { s with outbox := s.outbox ++ w, desktop := s₁.desktop, peerDesktop := s₁.peerDesktop } s₁)
    (hdesktop : s₁.desktop = s.nextDesktop event frame)
    (hpeer : s₁.peerDesktop = s.nextPeerDesktop frame)
    (htold : s₁.desktop ≠ s.desktop → w = [⟨.desktop s₁.desktop, false⟩])
    (hcapture : s₁.capture = s.capture) (hepoch : s.capture.isSome = true →
      s₁.captureEpoch ≠ s₁.desktopEpoch)
    (hc : ¬ s.GivesUp F env event frame →
      ¬ (s.capture.isSome = true ∨ activeEdges s₁.desktop s₁.peerDesktop = [])) :
    wp (head env) s₁ (fun _ s' => Wrote F env s event frame s' ∧ Waits s event frame s')
      (fun _ => Wrote F env s event frame) := by
  have hrecent : Recent s₁ := fun hs hsame => absurd hsame (hepoch (hcapture ▸ hs))
  have hc' : ¬ s.GivesUp F env event frame → s₁.refreshed.outdated = false := by
    intro hgives
    obtain ⟨hnone, hedges⟩ := not_or.mp (hc hgives)
    have hempty : (activeEdges s₁.desktop s₁.peerDesktop).isEmpty = false := by simpa using hedges
    have hnone₁ : s₁.capture.isSome = false := by simpa [hcapture] using hnone
    rw [outdated, Coordinator.refreshed, hempty, hnone₁]
    rfl
  have hwrote :
      ∀ {s₂}, Told (¬ s.GivesUp F env event frame) s₁ s₂ → Wrote F env s event frame s₂ := by
    intro s₂ h₂
    have h₂ := h₁.trans h₂
    exact wrote_of_saying hw h₂.config h₂.located h₂.ended
  refine wp_mono (head_current hrecent hc') (fun _ s₂ h₂ => ?_) fun _ _ => hwrote
  obtain ⟨h₂, hcurrent, hleft⟩ := h₂
  refine ⟨hwrote h₂, hcurrent, h₂.desktop.trans hdesktop, h₂.peerDesktop.trans hpeer, fun hne => ?_,
    fun hs _ => hleft ?_⟩
  · rw [h₂.desktop] at hne ⊢
    rw [h₂.located, h₁.located, located_append, hw.located, htold hne]
  · have hne : (s₁.captureEpoch != s₁.desktopEpoch) = true := by simpa using hepoch hs
    have hs₁ : s₁.capture.isSome = true := hcapture ▸ hs
    rw [outdated, Coordinator.refreshed, hs₁, hne, Bool.and_true, Bool.or_true]

/-- The outputs of the device have changed. -/
theorem pass_outputs [InputSink B] (outputs : Outputs) (h : Current s) :
    wp (outputsChanged env outputs >>= fun _ => head env) s
      (fun _ s' => Wrote F env s (.outputs outputs) none s' ∧ Waits s (.outputs outputs) none s')
      (fun _ => Wrote F env s (.outputs outputs) none) := by
  rw [outputsChanged, wp_bind, wp_bind, wp_modify, wp_bind, wp_get]
  refine wp_mono (sendFrame_spec env _ _) (fun _ s₁ hs₁ => ?_) fun stop s₁ hs₁ => ?_
  · subst hs₁
    refine wp_head_of_redisplayed (.outputs outputs) ⟨rfl, rfl, rfl, rfl, fun _ _ => id⟩ rfl rfl
      (fun _ => rfl) rfl (fun hs heq => ?_) id
    have hepoch := (h.capture hs).1
    simp only [hepoch] at heq
    omega
  · obtain ⟨-, rfl | rfl⟩ := hs₁
    · refine wrote_of_saying .nothing rfl ?_ fun _ n hn => ?_
      · rw [List.append_nil]
      · rwa [List.append_nil]
    · exact wrote_of_saying (.outputs outputs) rfl rfl fun _ _ => id

/-- A report of the capture worker. -/
theorem captureEvent_spec [InputSink B] (event : Option StreamEvent) :
    wp (captureEvent env event) s
      (fun _ => Saying (¬ s.GivesUp F env (.capture event) none) s (Says s (.capture event) none))
      (fun _ =>
        Saying (¬ s.GivesUp F env (.capture event) none) s (Says s (.capture event) none)) := by
  have hnone : ∀ {s'}, Level (¬ s.GivesUp F env (.capture event) none) s s' →
      Saying (¬ s.GivesUp F env (.capture event) none) s (Says s (.capture event) none) s' :=
    fun h => h.saying .nothing
  have hlevel : ∀ {m : CoordinatorM A B T Unit}, wp m s
      (fun _ => Level (¬ s.GivesUp F env (.capture event) none) s)
      (fun _ => Level (¬ s.GivesUp F env (.capture event) none) s) → wp m s
      (fun _ => Saying (¬ s.GivesUp F env (.capture event) none) s (Says s (.capture event) none))
      (fun _ =>
        Saying (¬ s.GivesUp F env (.capture event) none) s (Says s (.capture event) none)) :=
    fun hm => wp_mono hm (fun _ _ => hnone) fun _ _ => hnone
  rw [captureEvent, wp_bind, wp_own]
  refine ⟨fun report hreport => ?_, fun _ _ => hnone (refl_of (Level _) s)⟩
  rw [orError_eq_ok] at hreport
  subst hreport
  rw [wp_bind, wp_get]
  cases htask : s.capture with
  | none => exact hnone (refl_of (Level _) s)
  | some task =>
      have hcapture : s.capture.isSome = true := by rw [htask]; rfl
      simp only [wp_ite]
      refine ⟨fun _ => hnone (refl_of (Level _) s), fun hgeneration => ?_⟩
      obtain ⟨generation, event⟩ := report
      obtain rfl : generation = s.generation := not_not.mp hgeneration
      cases event with
      | armed | ready => exact hnone (refl_of (Level _) s)
      | input event => exact hlevel (level_captureInput event s)
      | finished reason => exact hlevel (level_captureEnded reason fun hc => hc ⟨hcapture, rfl⟩)
      | started index fraction =>
          rw [wp_bind, wp_set]
          have hsaying : ∀ {s'}, Saying (¬ s.GivesUp F env
                (.capture (some ⟨s.generation, .started index fraction⟩)) none)
                { s with capture := some { task with started := true } }
                (Crossed { s with capture := some { task with started := true } } index fraction)
                  s' →
              Saying
                (¬ s.GivesUp F env (.capture (some ⟨s.generation, .started index fraction⟩)) none) s
                (Says s (.capture (some ⟨s.generation, .started index fraction⟩)) none) s' := by
            rintro s' ⟨w, hw, h⟩
            refine ⟨w, .crossed hcapture ?_, { h with capture := fun _ => hcapture }⟩
            cases hw with
            | nothing => exact .nothing
            | starts hrole hedge havailable => exact .starts hrole hedge havailable
            | returns hrole hedge havailable => exact .returns hrole hedge havailable
          exact wp_mono (captureStarted_spec index fraction _)
            (fun _ _ => hsaying) fun _ _ => hsaying

/-- **What a pass says of displays and edges**, and of the ends of its own sessions. -/
theorem pass_edges [InputSink B] (F : Format T D) (env : Env T) (event : Event)
    (frame : Option Frame) (h : Current s) :
    wp (pass F env event frame) s
      (fun _ s' => Wrote F env s event frame s' ∧ Waits s event frame s')
      (fun _ => Wrote F env s event frame) := by
  have hnone :
      ∀ {s'}, Level (¬ s.GivesUp F env event frame) s s' → Wrote F env s event frame s' := by
    intro s' h'
    have hsame : s.outbox ++ [] = s.outbox := List.append_nil _
    exact wrote_of_saying .nothing h'.config (hsame.symm ▸ h'.located) (hsame.symm ▸ h'.ended)
  cases frame with
  | some frame =>
      rw [pass]
      obtain ⟨message, own⟩ := frame
      -- only a desktop message of the peer changes the edges
      by_cases hdesktop : ∃ info, message = .desktop info
      · obtain ⟨info, rfl⟩ := hdesktop
        rw [peerMessage, wp_bind, wp_modify]
        refine wp_head_of_redisplayed .nothing ⟨rfl, rfl, rfl, ?_, ?_⟩ rfl rfl
          (fun h => absurd rfl h) rfl
          (fun hs heq => ?_) id
        · rw [List.append_nil]
        · intro _ n hn
          rwa [List.append_nil]
        · have hepoch := (h.capture hs).1
          simp only [hepoch] at heq
          omega
      · have hne : ∀ info, message ≠ .desktop info := fun info heq => hdesktop ⟨info, heq⟩
        refine wp_pass_of_level h rfl ?_ ?_ (level_peerMessage id hne)
        · cases message with
          | desktop info => exact absurd rfl (hne info)
          | _ => rfl
        · rintro (⟨hframe, -⟩ | ⟨info, own, hframe⟩)
          · cases hframe
          · cases hframe
            exact hne info rfl
  | none =>
      rw [pass]
      have hcalm : (∀ outputs, event ≠ .outputs outputs) → ¬ Redisplays event none := by
        rintro hne (⟨-, outputs, heq⟩ | ⟨info, own, hframe⟩)
        · exact hne outputs heq
        · cases hframe
      -- of the events only new outputs do
      cases event with
      | outputs outputs => exact pass_outputs outputs h
      | capture event =>
          exact wp_pass_of_saying h rfl rfl (hcalm (by simp)) (captureEvent_spec event)
      | tick ready =>
          refine wp_pass_of_level h rfl rfl (hcalm (by simp)) (level_tick ready ?_ ?_)
          · intro hc hs
            by_contra hchord
            exact hc (.inl ⟨hs, eq_true_of_ne_false hchord⟩)
          · exact fun hc hreaps => hc (.inr hreaps)
      | exit | disconnected => exact hnone (refl_of (Level _) s)
      | release client =>
          exact wp_pass_of_level h rfl rfl (hcalm (by simp)) (level_releaseControl client
            fun hc => hc trivial)
      | applyLayout client layout =>
          exact wp_pass_of_level h rfl rfl (hcalm (by simp)) (level_applyLayout client layout id)
      | status unlocked =>
          exact wp_pass_of_level h rfl rfl (hcalm (by simp)) (level_statusChanged unlocked id)

end Pass

/-! ### The opening -/

/-- A connection opens with the outputs of the device. -/
theorem open_edges [ActivitySource A] [InputSink B] (config : Config) (desktop : Desktop) (sink : B)
    (activity : A) (unlocked : Bool) (now : ℕ) (files : Files T) (env : Env T) :
    let s : Coordinator A B T := new config desktop sink activity unlocked now files
    wp («open» env) s
      (fun _ s' => Told True { s with outbox := [⟨.desktop desktop, false⟩] } s' ∧ Current s')
      (fun _ s' =>
        Told True s s' ∨ Told True { s with outbox := [⟨.desktop desktop, false⟩] } s') := by
  intro s
  have hsame : Told True s s := (refl_of (Level True) s).toTold
  rw [«open», wp_bind, wp_get, wp_bind, wp_own]
  refine ⟨fun _ _ => ?_, fun _ _ => .inl hsame⟩
  rw [wp_bind, wp_onActivity]
  refine wp_mono (wp_true _ _) (fun touchpads activity _ => ?_) fun _ activity _ =>
    .inl (level_activity activity).toTold
  rw [wp_bind, wp_modify, wp_bind, wp_onReceiver]
  have hopened : ∀ physical receiver, Level True s
      { s with activity := activity, physicalKeyboard := physical, receiver := receiver } :=
    fun _ _ => ⟨⟨rfl, rfl, rfl, rfl, fun _ _ => id⟩, rfl, rfl, rfl, rfl, id, .inl⟩
  refine wp_mono (wp_true _ _) (fun _ receiver _ => ?_) fun _ receiver _ =>
    .inl (hopened _ receiver).toTold
  rw [wp_bind]
  refine wp_mono (sendFrame_spec env _ _) (fun _ s₂ hs₂ => ?_) fun stop s₂ hs₂ => ?_
  · have h₂ : Level True { s with outbox := [⟨.desktop desktop, false⟩] } s₂ := hs₂ ▸
      ⟨⟨rfl, rfl, rfl, rfl, fun _ _ => id⟩, rfl, rfl, rfl, rfl, id, .inl⟩
    have hgreet : Moves Aside (do
        send env (.touchpads touchpads)
        send env (.lockState (!s.localReady)) : CoordinatorM A B T Unit) :=
      (aside_send rfl rfl).bind fun _ => aside_send rfl rfl
    rw [← bind_assoc, wp_bind]
    refine wp_mono (hgreet s₂) (fun _ s₃ h₃ => ?_) fun _ s₃ h₃ => .inr (h₂.toTold.trans h₃.toTold)
    have h₃ := trans_of (Level True) h₂ h₃.level
    -- there is nothing yet that could be outdated
    have hcapture : s₃.capture.isSome = false :=
      Bool.eq_false_iff.mpr fun hs => absurd (h₃.capture hs) (by rintro ⟨⟩)
    have hsession : s₃.role.session.isSome = false := by
      refine Bool.eq_false_iff.mpr fun hs => ?_
      rcases h₃.session hs with hs | hne
      · cases hs
      · exact hne rfl
    have houtdated : s₃.refreshed.outdated = false := by
      rw [outdated, Coordinator.refreshed, hcapture, hsession, Bool.and_false]
      rfl
    have hrecent : Recent s₃ := fun hs => absurd (hcapture.symm.trans hs) (by simp)
    refine wp_mono (head_current hrecent fun _ => houtdated)
      (fun _ s₄ h₄ => ⟨h₃.toTold.trans h₄.1, h₄.2.1⟩) fun _ s₄ h₄ => .inr (h₃.toTold.trans h₄)
  · obtain ⟨-, rfl | rfl⟩ := hs₂
    · exact .inl (hopened _ receiver).toTold
    · exact .inr ⟨rfl, rfl, rfl, rfl, fun _ _ => id⟩

end NiriBridge.Coordinator
