import NiriBridge.Coordinator.Messages
import NiriBridge.Support.Run

/-!
# Coordinator — Relations

Runs of one device, whatever its peer sends.  `Node.Good` is the invariant of a run: a device that
runs meets the relations with an empty outbox to come, and `Node.after_spec` says what one pass
makes of it.

`relations_hold` is the result: at every point where the loop waits, role, receiver, capture task,
locks and pending layout agree.
-/

namespace NiriBridge

open Hoare Session

variable {A B T D : Type}

namespace Coordinator

/-! ### Before the loop and after it -/

/-- What a list of edges is refused with. -/
def layoutErrors : List Error :=
  [["layout_count_invalid"], ["layout_ids_invalid"], ["layout_invalid"],
    ["layout_invalid", "Boundary span must satisfy 0 <= start < end <= 1"], ["layout_overlap"]]

/-- The errors of a list of edges after others. -/
theorem mem_layoutErrors_of_from {previous edges : List EdgeConfig} {e : Error}
    (h : validateEdgesFrom previous edges = .error e) : e ∈ layoutErrors := by
  induction edges generalizing previous with
  | nil => cases h
  | cons edge edges ih =>
      simp only [validateEdgesFrom, bind_eq_error] at h
      rcases h with h | ⟨-, -, h⟩
      · simp only [validateEdge, bind_eq_error] at h
        rcases h with h | ⟨-, -, h | ⟨-, -, h | ⟨-, -, h⟩⟩⟩
        · rw [(ensure_eq_error.mp h).2]
          decide
        · rw [(ensure_eq_error.mp h).2]
          decide
        · cases hb : edge.boundary.validate with
          | ok a => simp [hb, context] at h
          | error e' =>
              obtain ⟨-, rfl⟩ := ensure_eq_error.mp hb
              rw [hb] at h
              cases h
              decide
        · obtain ⟨x, -, hx⟩ := forEach_eq_error h
          rw [(ensure_eq_error.mp hx).2]
          decide
      · exact ih h

/-- The errors of a list of edges. -/
theorem mem_layoutErrors {edges : List EdgeConfig} {e : Error}
    (h : validateEdges edges = .error e) :
    e ∈ layoutErrors := by
  simp only [validateEdges, bind_eq_error] at h
  rcases h with h | ⟨-, -, h⟩
  · rw [(ensure_eq_error.mp h).2]
    decide
  · exact mem_layoutErrors_of_from h

/-- A list of edges is refused with no session error. -/
theorem validateEdges_ordinary [InputSink B] {edges : List EdgeConfig} {e : Error}
    (h : validateEdges edges = .error e) : Receiver.Ordinary B e := by
  have hapart : ∀ e ∈ layoutErrors, e ∉ Receiver.sessionErrors := by decide
  exact .inr (hapart e (mem_layoutErrors h))

/-- A coordinator that has opened its connection meets the relations. -/
theorem open_spec [ActivitySource A] [InputSink B] {once : Prop} (config : Config)
    (desktop : Desktop) (sink : B) (activity : A) (unlocked : Bool) (now : ℕ) (files : Files T)
    (env : Env T) :
    wp («open» env) (new config desktop sink activity unlocked now files)
      (fun _ => Settled once ⟨.idle, 1, [], true⟩ []) (Halt ⟨.idle, 1, [], true⟩ []) := by
  have h : On ⟨.idle, 1, [], true⟩ [] ⟨.idle, 1, [], true⟩ _
      (new config desktop sink activity unlocked now files) :=
    ⟨Receiver.inv_new sink, rfl, .start, rfl, rfl, rfl⟩
  rw [«open», wp_bind, wp_get, wp_bind, wp_own]
  refine ⟨fun _ _ => ?_, fun e he => h.halt (validateEdges_ordinary he)⟩
  rw [wp_bind, wp_onActivity]
  refine wp_mono (wp_true _ _) (fun touchpads a _ => ?_)
    fun e a _ => On.halt (h.same rfl rfl rfl) trivial
  rw [wp_bind, wp_modify, wp_bind, wp_onReceiver]
  have hopened : ∀ r : Receiver B, Receiver.Relocked (false == !unlocked) (!unlocked, false)
      (Receiver.new sink) r → On ⟨.idle, 1, [], true⟩ [] ⟨.idle, 1, [], true⟩
      ⟨.local, none, 0, 1, unlocked, false, false, none, [], (!unlocked, false)⟩
      { new config desktop sink activity unlocked now files with
        activity := a
        physicalKeyboard := (ActivitySource.keyboardState a).isSome
        receiver := r } := by
    intro r hr
    refine ⟨hr.inv, ?_, .start, rfl, rfl, rfl⟩
    have hsession : r.session = none := by
      rw [hr.session]
      split_ifs <;> rfl
    have hlocks : r.locks = (!unlocked, false) := hr.locks
    have hpassed : r.passed = [] := hr.passed
    simp [core, new, hsession, hlocks, hpassed]
  refine wp_mono (Receiver.localLock_spec _ (Receiver.inv_new sink)) (fun _ r hr => ?_)
    fun e r hr => (hopened r hr.1).halt hr.2
  have hinv : Core.Inv once
      ⟨.local, none, 0, 1, unlocked, false, false, none, [], (!unlocked, false)⟩ :=
    Core.inv_idle rfl rfl rfl rfl (by simp) Nat.one_pos
  have h₁ := (hopened r hr).settled hinv
  refine wp_seq (h₁.send rfl) fun _ s₂ h₂ => ?_
  refine wp_seq (h₂.send rfl) fun _ s₃ h₃ => ?_
  refine wp_seq (h₃.send rfl) fun _ s₄ h₄ => ?_
  exact h₄.head

/-- What comes after the loop passes nothing on, and does not fail. -/
theorem close_spec [ActivitySource A] [InputSink B] (F : Format T D) (env : Env T)
    (s : Coordinator A B T) :
    wp (close F env) s (fun _ s' => s'.receiver.passed = s.receiver.passed) (fun _ _ => False) := by
  have hstop : wp (attempt (onReceiver (Receiver.stop .disconnected))) s
      (fun _ s₁ => s₁.receiver.passed = s.receiver.passed) fun (_ : Stop) _ => False := by
    rw [wp_attempt, wp_onReceiver]
    exact wp_mono (Receiver.stop_idle _ s.receiver)
      (fun _ r hr => hr.passed) fun e r hr => hr.1.passed
  refine wp_seq hstop fun _ s₁ h₁ => ?_
  rw [suspend, wp_bind, wp_modify]
  have hcapture : ∀ s₂ : Coordinator A B T, s₂.receiver = s₁.receiver →
      wp (attempt (stopCapture env)) s₂ (fun _ s₃ => s₃.receiver = s₁.receiver)
        fun (_ : Stop) _ => False := by
    intro s₂ h₂
    rw [wp_attempt]
    exact wp_mono (stopCapture_spec env s₂) (fun _ s₃ h₃ => h₃ ▸ h₂) fun stop s₃ h₃ => h₃.2 ▸ h₂
  refine wp_seq (hcapture _ rfl) fun _ s₃ h₃ => ?_
  rw [wp_bind, wp_get]
  have hpassed : s₃.receiver.passed = s.receiver.passed := (congrArg Receiver.passed h₃).trans h₁
  cases s₃.pendingLayout with
  | none => exact hpassed
  | some pending =>
      rw [wp_bind, wp_set]
      refine wp_mono (dropPending_spec F env pending _) (fun _ s₄ hs₄ => ?_) fun _ _ => id
      obtain ⟨files, replies, rfl⟩ := hs₄
      exact hpassed

end Coordinator

/-! ### Passes of a device -/

namespace Node

variable [ActivitySource A] [InputSink B] (F : Format T D) (env : Env T) {s : Coordinator A B T}

/-- A pass ends with the device running, or with a stopped device that has passed nothing more
on. -/
theorem after_spec {m : CoordinatorM A B T Unit} {Q : Unit → Coordinator A B T → Prop}
    {E : Stop → Coordinator A B T → Prop} (h : wp m { s with outbox := [] } Q E) :
    let r := after F env m s
    (r.1.stopped = none ∧ Q () r.1.coordinator ∧ r.2 = r.1.coordinator.outbox) ∨
      ∃ stop s', r.1.stopped = some stop ∧ E stop s' ∧ r.2 = s'.outbox ∧
        r.1.coordinator.receiver.passed = s'.receiver.passed := by
  unfold after
  cases hm : m { s with outbox := [] } with
  | ok a s' => exact .inl ⟨rfl, wp_of_ok h hm, rfl⟩
  | error stop s' =>
      refine .inr ⟨stop, s', ?_⟩
      cases hc : (Coordinator.close F env).run s' with
      | ok a s'' =>
          have hpassed := wp_of_ok (Coordinator.close_spec F env s') hc
          simp only [hc]
          exact ⟨trivial, wp_of_error h hm, trivial, hpassed⟩
      | error e s'' => exact (wp_of_error (Coordinator.close_spec F env s') hc).elim

/-- One pass of a device, with what it waits for, what it finds, and a frame if there is one. -/
def next (F : Format T D) (n : Node A B T) (l : (Coordinator.Event × Env T) × Option Frame) :
    Node A B T := (n.step F l.1 l.2).1

/-- A device that runs meets the relations. -/
structure Good (once : Prop) (n : Node A B T) : Prop where
  receiver : n.stopped = none → n.coordinator.receiver.Inv
  relations : n.stopped = none → n.coordinator.core.Inv once

variable {once : Prop}

omit [ActivitySource A] [InputSink B] in
theorem Good.begun {n : Node A B T} (h : Good once n) (hn : n.stopped = none) :
    Coordinator.Begun once n.coordinator.core.party { n.coordinator with outbox := [] } :=
  ⟨h.receiver hn, rfl, h.relations hn, rfl⟩

/-- A pass that settles leaves the device good. -/
theorem good_after {m : CoordinatorM A B T Unit} {p₀ : Party InputEvent}
    {t : List (Signal InputEvent)} (h : wp m { s with outbox := [] }
      (fun _ => Coordinator.Settled once p₀ t) (Coordinator.Halt p₀ t)) :
    Good once (after F env m s).1 := by
  rcases after_spec F env h with ⟨-, hsettled, -⟩ | ⟨stop, s', hstop, -⟩
  · exact ⟨fun _ => hsettled.on.receiver, fun _ => hsettled.inv⟩
  · have hne : (after F env m s).1.stopped ≠ none :=
      fun hn => absurd (hstop.symm.trans hn) (by simp)
    exact ⟨fun hn => absurd hn hne, fun hn => absurd hn hne⟩

/-- A device that has connected is good. -/
theorem good_connect (config : Config) (desktop : Desktop) (sink : B) (activity : A)
    (unlocked : Bool) (now : ℕ) (files : Files T) : Good once
      (connect F env (Coordinator.new config desktop sink activity unlocked now files)).1 :=
  good_after F env (Coordinator.open_spec config desktop sink activity unlocked now files env)

/-- A pass restores the relations; for those of a sending device its capture worker reports once. -/
theorem good_next {n : Node A B T} {l : (Coordinator.Event × Env T) × Option Frame}
    (h : Good once n)
    (honce : once → n.stopped = none → l.2 = none → n.coordinator.StartedOnce l.1.1) :
    Good once (next F n l) := by
  unfold next step
  cases hn : n.stopped with
  | some stop => exact h
  | none =>
      exact good_after F l.1.2 (Coordinator.pass_spec F l.1.2 l.1.1 l.2 (h.begun hn)
        fun ho hl => honce ho hn hl)

end Node

/-! ### The relations -/

namespace Coordinator

/-- What holds wherever the loop waits. -/
structure Related (s : Coordinator A B T) : Prop where
  receiving : ∀ session, s.role = .receiving session ↔
    s.receiver.session = some session ∧ s.receiver.state.mode = .receiving
  active : s.role ≠ .local →
    s.localReady = true ∧ s.peerReady = true ∧ s.pendingLayout.isNone = true
  pending : s.pendingLayout.isSome = true → s.role = .local ∧ s.capture = none
  capturing : s.capture ≠ none → s.localReady = true ∧ s.peerReady = true

/-- A device that sends has a capture task of the current generation. -/
def CapturesWhatItSends (s : Coordinator A B T) : Prop :=
  s.role.isSending = true → ∃ task, s.capture = some task ∧ task.generation = s.generation

/-- The relations give what holds wherever the loop waits. -/
theorem Core.Inv.related {s : Coordinator A B T} {once : Prop} (h : s.core.Inv once)
    (hr : s.receiver.Inv) : s.Related where
  receiving session := by
    have hsession : s.core.session.map Prod.fst = s.receiver.session := by
      cases hs : s.receiver.session <;> simp [core, hs]
    rw [← hsession]
    refine (h.receiving session).trans ⟨fun hs => ⟨hs, ?_⟩, And.left⟩
    rw [hr.receiving_iff, ← hsession, hs]
    rfl
  active hrole := by simpa [core] using h.active hrole
  pending := h.pending
  capturing := h.capturing

end Coordinator

/-- A device that is not receiving passes nothing on. -/
theorem Session.Pass.passed_eq {E : Type} {p₀ p : Party E} {t w : List (Signal E)}
    (h : Pass p₀ t p w) (hp : p₀.serves = none) : p.passed = p₀.passed := by
  induction h with
  | start => rfl
  | take _ ht =>
      cases ht with
      | pass hpart => simp [Party.serves, hpart] at hp
      | _ => rfl
  | move _ hm ih =>
      rw [← ih]
      cases hm <;> rfl

namespace Node

variable [ActivitySource A] [InputSink B]

open Coordinator

/-- While a desktop is locked the next pass passes no input on. -/
theorem next_passed_eq {F : Format T D} {n : Node A B T}
    (h : Good False n) (hn : n.stopped = none) (hrole : n.coordinator.role = .local)
    (l : (Coordinator.Event × Env T) × Option Frame) :
    (next F n l).coordinator.receiver.passed = n.coordinator.receiver.passed := by
  have hserves : n.coordinator.core.party.serves = none := by
    simp [Party.serves, Core.party, core, hrole, Role.part]
  have hpass := pass_spec F l.1.2 l.1.1 l.2 (h.begun hn) False.elim
  have hstep : n.step F l.1 l.2 = after F l.1.2 (pass F l.1.2 l.1.1 l.2) n.coordinator := by
    rw [step, hn]
  rw [next, hstep]
  rcases after_spec F l.1.2 hpass with ⟨-, hsettled, -⟩ | ⟨stop, s', -, hhalt, -, hs'⟩
  · exact hsettled.on.pass.passed_eq hserves
  · obtain ⟨⟨p, hp, hpassed, -⟩, -⟩ := hhalt
    rw [hs', ← hpassed]
    exact hp.passed_eq hserves

/-- **The relations hold** wherever the loop waits: role and receiver agree, a session needs two
unlocked desktops and no pending layout, a pending layout leaves no session and no capture, and a
capture needs two unlocked desktops.  A device that sends captures, if no capture worker reports
twice that the pointer has crossed an edge.  While a desktop is locked nothing is captured, and the
next pass injects nothing. -/
theorem relations_hold (F : Format T D) (config : Config) (desktop : Desktop) (sink : B)
    (activity : A) (unlocked : Bool) (now : ℕ) (files : Files T) (env : Env T)
    (ls : List ((Coordinator.Event × Env T) × Option Frame)) :
    let start := (connect F env (Coordinator.new config desktop sink activity unlocked now files)).1
    let n := Run.run (next F) start ls
    n.stopped = none →
      n.coordinator.Related ∧
      (Run.Along (next F) (fun n l => n.stopped = none → l.2 = none →
        n.coordinator.StartedOnce l.1.1) start ls → n.coordinator.CapturesWhatItSends) ∧
      (n.coordinator.localReady = false ∨ n.coordinator.peerReady = false →
        n.coordinator.capture = none ∧ n.coordinator.receiver.session = none ∧
        ∀ l, (next F n l).coordinator.receiver.passed = n.coordinator.receiver.passed) := by
  intro start n hn
  have hstart : ∀ once, Good once start := fun once =>
    good_connect F env config desktop sink activity unlocked now files
  have hgood : Good False n :=
    Run.run_invariant_of_step (fun n l h => good_next F h False.elim) (hstart False)
  have hinv := hgood.relations hn
  have hrelated := hinv.related (hgood.receiver hn)
  refine ⟨hrelated, fun honce hsending => ?_, fun hlocked => ?_⟩
  · have hgood' : Good True n :=
      Run.run_invariant (fun n l h hl => good_next F h fun _ => hl) (hstart True) honce
    obtain ⟨task, ht, -⟩ := (hgood'.relations hn).sending trivial hsending
    exact ⟨task, ht, (hgood'.relations hn).current task ht⟩
  · obtain ⟨hrole, hsession, hcapture⟩ := hinv.unready hlocked
    have hnone : n.coordinator.receiver.session = none := by simpa [core] using hsession
    exact ⟨hcapture, hnone, next_passed_eq hgood hn hrole⟩

end Node

/-! ### Two sample devices -/

namespace Sample

open Coordinator

/-- One connection, along a whole side. -/
def edges (edge : Edge) : List EdgeConfig := [⟨"default", "screen", ⟨edge, 0, 1⟩⟩]

/-- A desktop of one screen. -/
def desktop (edge : Edge) : Desktop :=
  ⟨edges edge, "", [("screen", ⟨0, 0, 1920, 1080, 1, .normal⟩)]⟩

/-- A configuration of one device and one connection. -/
def config (edge : Edge) : Config where
  certificate := default
  privateKey := default
  peerCertificate := default
  peerName := "desktop"
  pairedDevices := []
  connection := .listen "0.0.0.0:42420"
  edges := edges edge
  activityDevices := []
  nativeTouchpads := false
  sourcePath := none

/-- One device that is read at each call, and no touchpads. -/
def hardware (readings : ℕ → DeviceReading) (call : ℕ) : Hardware where
  touchpads := .error ["No touchpad"]
  pads _ := ⟨.ok [], .ok [], .ok (), .ok (), ⟨.ok [], .ok [], fun _ => none⟩, .ok (),
    ⟨0, 0, .ok ()⟩⟩
  ticks _ := ⟨0, 0, .ok ()⟩
  devices _ := readings call

/-- A monitor of one device with these readings. -/
def monitor (readings : ℕ → DeviceReading) : ActivityMonitor where
  slots := [false]
  keyboard := default
  nativeTouchpads := false
  touchpads := none
  touchpadProfiles := none
  hardware := hardware readings
  calls := 0

/-- A backend that never fails. -/
structure Sink where
deriving DecidableEq

instance : InputSink Sink where
  poll b := (.ok (), b)
  emit _ b := (.ok (), b)
  selectOutput _ b := (.ok (), b)
  configureTouchpads _ b := (.ok (), b)
  resetTouchpads b := (.ok (), b)

/-- Files that are not there. -/
def files : Files Unit := ⟨none, none, false, ⟨none, fun _ => none⟩⟩

/-- A format that reads every text as one configuration. -/
def format : Format Unit Unit :=
  ⟨fun _ => "", fun _ => .ok (), fun _ => (), fun _ => .ok (config .top), fun _ _ => ()⟩

/-- Nothing fails. -/
def env (now : ℕ) : Env Unit where
  now := now
  headNow := now
  fault _ := none
  outputs := .ok [("screen", some ⟨0, 0, 1920, 1080, 1, .normal⟩)]
  stopCapture := none
  captureFinished := false
  captureEventsEmpty := true
  elapsed := 0
  transactionId := .ok "00000000000000000000000000000000"
  edit := {}
  rollback := {}

/-- A device that is missing. -/
def absent : DeviceReading := ⟨.missing, .wouldBlock⟩

/-- What a pass of these devices takes. -/
abbrev Label := (Event × Env Unit) × Option Frame

/-- A message of the peer. -/
def message (message : Message) (own : Bool) : Label := ((.exit, env 0), some ⟨message, own⟩)

/-- The peer tells that it is there and unlocked. -/
def greeting (edge : Edge) : List Label :=
  [message (.desktop (desktop edge)) false, message (.touchpads []) false,
    message (.lockState false) false]

/-- The pointer crosses the edge half-way. -/
def crossing (generation : ℕ) : Label :=
  ((.capture (some ⟨generation, .started 0 (1 / 2)⟩), env 0), none)

end Sample

namespace Node

open Sample in
/-- A pointer that crosses an edge starts a session, and the device that sends captures. -/
theorem relations_hold_crossing :
    let start := (connect format (env 0) (Coordinator.new (config .top) (desktop .top) (⟨⟩ : Sink)
      (monitor fun _ => absent) true 0 files)).1
    let n := Run.run (next format) start (greeting .bottom ++ [crossing 1])
    n.coordinator.role = .sending 1 0 0 (1 / 2) ∧ n.coordinator.Related ∧
      n.coordinator.CapturesWhatItSends := by
  intro start n
  have hrunning : n.stopped.isNone = true := by decide +kernel
  have h := relations_hold format (config .top) (desktop .top) (⟨⟩ : Sink) (monitor fun _ => absent)
    true 0 files (env 0) (greeting .bottom ++ [crossing 1]) (Option.isNone_iff_eq_none.mp hrunning)
  refine ⟨by decide +kernel, h.1, h.2.1 ?_⟩
  have hgreeting : ∀ n : Node ActivityMonitor Sink Unit,
      Run.Along (next format) (fun n l => n.stopped = none → l.2 = none →
        n.coordinator.StartedOnce l.1.1) n (greeting .bottom) := fun n =>
    ⟨fun _ h => (nomatch h), fun _ h => (nomatch h), fun _ h => (nomatch h), trivial⟩
  have hfirst : (Run.run (next format) (connect format (env 0) (Coordinator.new (config .top)
      (desktop .top) (⟨⟩ : Sink) (monitor fun _ => absent) true 0 files)).1
      (greeting .bottom)).coordinator.capture.map CaptureTask.started = some false := by
    decide +kernel
  refine Run.along_append.mpr ⟨hgreeting _, fun _ _ => ?_, trivial⟩
  intro generation edge fraction task _ htask _
  rw [htask] at hfirst
  exact Option.some.inj hfirst

end Node

end NiriBridge
