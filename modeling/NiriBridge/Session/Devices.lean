import NiriBridge.Coordinator.Relations
import NiriBridge.Session.Accord
import NiriBridge.Session.Stream
import NiriBridge.Support.Duplex

/-!
# Session — Devices

Two devices joined by two channels.  A device that runs plays the party that its coordinator is; one
that has stopped plays a party that takes no part.  Every step of a device is a `Pass` of its party
(`Node.step_plays`), so what holds between parties holds between devices: `Flows` is the law of
conservation of both streams, and it holds in every run.
-/

namespace NiriBridge

open Hoare Session Duplex

variable {A B T D : Type}

/-! ### One device -/

namespace Node

/-- The device is the party. -/
structure Plays (n : Node A B T) (p : Party InputEvent) : Prop where
  good : Good False n
  running : n.stopped = none → p = n.coordinator.core.party
  stopped : n.stopped ≠ none → p.up = false
  passed : p.passed = n.coordinator.receiver.passed

/-- A device that runs takes part. -/
theorem Plays.up {n : Node A B T} {p : Party InputEvent} (h : n.Plays p) (hn : n.stopped = none) :
    p.up = true := by
  rw [h.running hn]
  rfl

variable [ActivitySource A] [InputSink B] (F : Format T D) (env : Env T) {s : Coordinator A B T}

/-- What the loop guarantees of a pass holds of the device after it. -/
theorem after_plays {m : CoordinatorM A B T Unit} {p₀ : Party InputEvent}
    {t : List (Signal InputEvent)} (h : wp m { s with outbox := [] }
      (fun _ => Coordinator.Settled False p₀ t) (Coordinator.Halt p₀ t)) :
    ∃ p, (after F env m s).1.Plays p ∧ Pass p₀ t p (signals (after F env m s).2) ∧
      ∀ stop, (after F env m s).1.stopped = some stop → stop.Ordinary B ∨ Clash p₀ t stop := by
  have hgood := good_after F env h
  rcases after_spec F env h with ⟨hn, hsettled, hout⟩ | ⟨stop, s', hn, hhalt, hout, hs'⟩
  · refine ⟨_, ⟨hgood, fun _ => rfl, fun h => absurd hn h, rfl⟩, hout ▸ hsettled.on.pass, ?_⟩
    exact fun stop hstop => absurd (hn.symm.trans hstop) (by simp)
  · obtain ⟨⟨p, hpass, hpassed, hup⟩, hstop⟩ := hhalt
    have hrunning : (after F env m s).1.stopped ≠ none :=
      fun h => absurd (hn.symm.trans h) (by simp)
    refine ⟨p, ⟨hgood, fun h => absurd h hrunning, fun _ => hup, hpassed.trans hs'.symm⟩,
      hout ▸ hpass, fun stop' hstop' => ?_⟩
    obtain rfl : stop = stop' := Option.some.inj (hn.symm.trans hstop')
    exact hstop

/-- **A step of a device is a pass of its party**; a device that has stopped takes frames and does
nothing. -/
theorem step_plays {n : Node A B T} {p : Party InputEvent} (h : n.Plays p)
    (input : Coordinator.Event × Env T) (frame : Option Frame) :
    (n.stopped = none ∧ ∃ q, (n.step F input frame).1.Plays q ∧
      Pass p (signals frame.toList) q (signals (n.step F input frame).2) ∧
      ∀ stop, (n.step F input frame).1.stopped = some stop →
        stop.Ordinary B ∨ Clash p (signals frame.toList) stop) ∨
    (n.stopped ≠ none ∧ n.step F input frame = (n, [])) := by
  cases hn : n.stopped with
  | some stop =>
      refine .inr ⟨by simp, ?_⟩
      rw [step, hn]
  | none =>
      refine .inl ⟨rfl, ?_⟩
      rw [step, hn, h.running hn]
      exact after_plays F input.2
        (Coordinator.pass_spec F input.2 input.1 frame (h.good.begun hn) False.elim)

end Node

/-! ### Two devices -/

/-- What a device starts with. -/
structure Setup (A B T : Type) where
  config : Config
  desktop : Desktop
  sink : B
  activity : A
  unlocked : Bool
  now : ℕ
  files : Files T
  env : Env T

namespace Devices

/-- The world of two devices. -/
abbrev World (A B T : Type) := Duplex.State (Node A B T) Frame

/-- One device waits for an event, and takes a frame or not. -/
abbrev Step (T : Type) := Duplex.Label (Coordinator.Event × Env T)

variable [ActivitySource A] [InputSink B]

/-- The device that has opened its connection. -/
def opened (F : Format T D) (x : Setup A B T) : Node A B T × List Frame :=
  Node.connect F x.env
    (Coordinator.new x.config x.desktop x.sink x.activity x.unlocked x.now x.files)

/-- Both devices have opened their connection. -/
def start (F : Format T D) (x : Side → Setup A B T) : World A B T where
  node s := (opened F (x s)).1
  chan s := (opened F (x s.other)).2
  sent s := (opened F (x s)).2

/-- What a step does to the two devices and the channels between them. -/
def next (F : Format T D) : World A B T → Step T → World A B T := Duplex.next (Node.step F)

/-- The law of conservation between the devices, with the parties they play. -/
structure Flows (d : World A B T) (a : Side → Party InputEvent) : Prop where
  plays : ∀ s, (d.node s).Plays (a s)
  stream : ∀ s, Stream (a s) (a s.other) (signals (d.chan s.other)) (signals (d.sent s))
  stop : ∀ s stop, (d.node s).stopped = some stop →
    stop.Ordinary B ∨ stop = .failed ["Unexpected overlapping input session"]

variable (F : Format T D) {d : World A B T} {a : Side → Party InputEvent}

/-- What a step makes of the world: one device has moved, with a frame if it has taken one. -/
theorem next_eq (h : ∀ s, (d.node s).Plays (a s)) (l : Step T) :
    next F d l = d ∨ ∃ (frame : Option Frame) (rest out : List Frame) (n : Node A B T),
      d.chan l.side = frame.toList ++ rest ∧ next F d l = d.move l.side n rest out ∧
      (((d.node l.side).stopped = none ∧ ∃ p, n.Plays p ∧
          Pass (a l.side) (signals frame.toList) p (signals out) ∧
          ∀ stop, n.stopped = some stop →
            stop.Ordinary B ∨ Clash (a l.side) (signals frame.toList) stop) ∨
        ((d.node l.side).stopped ≠ none ∧ n = d.node l.side ∧ out = [])) := by
  rcases Duplex.next_cases (Node.step F) d l with hsame | ⟨frame, rest, -, hchan, hmove⟩
  · exact .inl hsame
  · refine .inr ⟨frame, rest, _, _, hchan, hmove, ?_⟩
    rcases Node.step_plays F (h l.side) l.input frame with hrun | ⟨hn, hstep⟩
    · exact .inl hrun
    · exact .inr ⟨hn, by rw [hstep], by rw [hstep]⟩

/-! ### The streams -/

omit [ActivitySource A] in
/-- A device that runs takes part. -/
theorem Flows.running {s : Side} (h : Flows d a) (hn : (d.node s).stopped = none) :
    (a s).up = true :=
  (h.plays s).up hn

omit [ActivitySource A] in
/-- The numbers of the stream leave one way in which the devices may disagree. -/
theorem Flows.clash {s : Side} {frame : Option Frame} {rest : List Frame} {stop : Stop}
    (h : Flows d a) (hchan : d.chan s = frame.toList ++ rest) (hn : (d.node s).stopped = none)
    (hclash : Clash (a s) (signals frame.toList) stop) :
    stop = .failed ["Unexpected overlapping input session"] ∧ (a s).serves ≠ none ∧
      ∃ n, signals frame.toList = [.begin n] := by
  have hstream := h.stream s.other
  rw [Side.other_other, hchan, signals_append] at hstream
  generalize signals frame.toList = t at hclash hstream
  cases hclash with
  | @overlap n hserves => exact ⟨rfl, hserves, n, rfl⟩
  | gap hpart hne => exact absurd (hstream.in_step (h.running hn) hpart) hne

omit [ActivitySource A] in
/-- A running device makes a pass of its party. -/
theorem Flows.pass {s : Side} {frame : Option Frame} {rest out : List Frame} {n : Node A B T}
    {p : Party InputEvent} (h : Flows d a) (hchan : d.chan s = frame.toList ++ rest)
    (hn : (d.node s).stopped = none) (hplays : n.Plays p)
    (hpass : Pass (a s) (signals frame.toList) p (signals out))
    (hstop : ∀ stop, n.stopped = some stop →
      stop.Ordinary B ∨ Clash (a s) (signals frame.toList) stop) :
    Flows (d.move s n rest out) (Function.update a s p) := by
  have hchan' : signals (d.chan s) = signals frame.toList ++ signals rest := by
    rw [hchan, signals_append]
  have hother : Function.update a s p s.other = a s.other := Function.update_of_ne s.other_ne ..
  refine ⟨fun t => ?_, fun t => ?_, fun t stop ht => ?_⟩
  · rcases Side.eq_or_eq_other t s with rfl | rfl
    · simpa using hplays
    · rw [move_node_other, hother]
      exact h.plays s.other
  · rcases Side.eq_or_eq_other t s with rfl | rfl
    · rw [move_chan_other, move_sent, Function.update_self, hother, signals_append, signals_append]
      exact (h.stream t).sender_pass hpass
    · have hstream := h.stream s.other
      rw [Side.other_other, hchan'] at hstream
      rw [Side.other_other, move_chan, move_sent_other, hother, Function.update_self]
      exact hstream.receiver_pass hpass
  · rcases Side.eq_or_eq_other t s with rfl | rfl
    · rw [move_node] at ht
      exact (hstop stop ht).imp_right fun hclash => (h.clash hchan hn hclash).1
    · rw [move_node_other] at ht
      exact h.stop s.other stop ht

omit [ActivitySource A] in
/-- A device that has stopped loses its frames. -/
theorem Flows.lose {s : Side} {frame : Option Frame} {rest : List Frame} (h : Flows d a)
    (hchan : d.chan s = frame.toList ++ rest) (hn : (d.node s).stopped ≠ none) :
    Flows (d.move s (d.node s) rest []) a := by
  have hchan' : signals (d.chan s) = signals frame.toList ++ signals rest := by
    rw [hchan, signals_append]
  have hup := (h.plays s).stopped hn
  have hnode : ∀ t, (d.move s (d.node s) rest []).node t = d.node t := by
    intro t
    rcases Side.eq_or_eq_other t s with rfl | rfl <;> simp
  refine ⟨fun t => (hnode t).symm ▸ h.plays t, fun t => ?_, fun t stop ht => ?_⟩
  · rcases Side.eq_or_eq_other t s with rfl | rfl
    · simpa using h.stream t
    · have hstream := h.stream s.other
      rw [Side.other_other, hchan'] at hstream
      rw [Side.other_other, move_chan, move_sent_other]
      cases frame with
      | none => exact hstream
      | some frame =>
          cases hsignal : frame.signal with
          | none => simpa [signals, hsignal] using hstream
          | some signal =>
              have hcons : signals (Option.toList (some frame)) ++ signals rest =
                  signal :: signals rest := by simp [signals, hsignal]
              exact (hcons ▸ hstream).lost hup
  · rw [hnode] at ht
    exact h.stop t stop ht

/-- A step keeps the flow of the messages. -/
theorem flows_next (h : Flows d a) (l : Step T) : ∃ a', Flows (next F d l) a' := by
  rcases next_eq F h.plays l with hsame | ⟨frame, rest, out, n, hchan, hmove, hcase⟩
  · rw [hsame]
    exact ⟨a, h⟩
  · rw [hmove]
    rcases hcase with ⟨hn, p, hplays, hpass, hstop⟩ | ⟨hn, rfl, rfl⟩
    · exact ⟨_, h.pass hchan hn hplays hpass hstop⟩
    · exact ⟨a, h.lose hchan hn⟩

/-! ### The start -/

/-- The party before anything is said. -/
def stranger : Party InputEvent := ⟨.idle, 1, [], true⟩

theorem stream_stranger : Stream stranger stranger [] [] := by
  constructor <;> simp [stranger, inputsOf, passedOf]

theorem accords_stranger : Accords stranger stranger [] [] := by
  constructor <;> constructor <;> simp [stranger, Party.sends, Party.serves]

/-- A coordinator that has said nothing about sessions, and has no part in one. -/
structure Quiet (s : Coordinator A B T) : Prop where
  role : s.role = .local
  capture : s.capture = none
  silent : signals s.outbox = []

omit [ActivitySource A] [InputSink B] in
/-- A message that is about no session is quiet. -/
theorem Quiet.send {s : Coordinator A B T} {env : Env T} {message : Message} (h : Quiet s)
    (hm : (Frame.mk message false).signal = none) :
    wp (Coordinator.send env message) s (fun _ => Quiet) (fun _ s => signals s.outbox = []) := by
  have hsignals : signals (s.outbox ++ [⟨message, false⟩]) = [] := by
    rw [signals_append, h.silent]
    simp [signals, hm]
  refine wp_mono (Coordinator.sendFrame_spec env _ s) (fun _ s' hs => ?_) fun stop s' hs => ?_
  · subst hs
    exact ⟨h.role, h.capture, hsignals⟩
  · obtain ⟨-, rfl | rfl⟩ := hs
    · exact h.silent
    · exact hsignals

omit [ActivitySource A] [InputSink B] in
/-- Nothing is sent of a session that there is not. -/
theorem Quiet.sendInputs {s : Coordinator A B T} {env : Env T} (h : Quiet s)
    (events : List InputEvent) :
    wp (Coordinator.sendInputs env events) s (fun _ => Quiet)
    (fun _ s => signals s.outbox = []) := by
  induction events with
  | nil => exact h
  | cons event events ih =>
      have hnothing : wp (Coordinator.sendInput env event) s (fun _ s' => s' = s)
          (fun _ s => signals s.outbox = []) := by
        rw [Coordinator.sendInput, wp_bind, wp_get, h.role]
        exact rfl
      exact wp_seq hnothing fun _ s' hs => hs ▸ ih

/-- The head of the loop says nothing of sessions at the start. -/
theorem Quiet.head {s : Coordinator A B T} {env : Env T} (h : Quiet s) :
    wp (Coordinator.head env) s (fun _ s => signals s.outbox = [])
      (fun _ s => signals s.outbox = []) := by
  rw [Coordinator.head, wp_bind, wp_modify]
  have hedges :
      Quiet { s with availableEdges := Coordinator.activeEdges s.desktop s.peerDesktop } :=
    ⟨h.role, h.capture, h.silent⟩
  generalize { s with availableEdges := Coordinator.activeEdges s.desktop s.peerDesktop } = s₁
    at hedges
  have houtdated : s₁.outdated = false := by
    simp [Coordinator.outdated, hedges.role, hedges.capture, Role.session]
  have hstays : wp (Coordinator.leaveOutdated env) s₁ (fun _ s' => s' = s₁)
      (fun _ s => signals s.outbox = []) := by
    rw [Coordinator.leaveOutdated, wp_bind, wp_get, houtdated]
    exact rfl
  refine wp_seq hstays fun _ s' hs => ?_
  subst hs
  rw [wp_bind, wp_get, wp_bind, Coordinator.wp_onActivity]
  refine wp_mono (wp_true _ _) (fun events a _ => ?_) fun _ _ _ => hedges.silent
  have hsampled : Quiet { s' with activity := a } := ⟨hedges.role, hedges.capture, hedges.silent⟩
  refine wp_seq (hsampled.sendInputs events) fun _ s₂ h₂ => ?_
  rw [Coordinator.armCapture, wp_modify]
  split
  · exact h₂.silent
  · exact h₂.silent

/-- Opening a connection says nothing about sessions. -/
theorem open_signals (x : Setup A B T) :
    wp (Coordinator.open x.env)
      (Coordinator.new x.config x.desktop x.sink x.activity x.unlocked x.now x.files)
      (fun _ s => signals s.outbox = []) (fun _ s => signals s.outbox = []) := by
  have hnew : Quiet
      (Coordinator.new x.config x.desktop x.sink x.activity x.unlocked x.now x.files) :=
    ⟨rfl, rfl, rfl⟩
  generalize Coordinator.new x.config x.desktop x.sink x.activity x.unlocked x.now x.files = s
    at hnew
  rw [Coordinator.open, wp_bind, wp_get, wp_bind, Coordinator.wp_own]
  refine ⟨fun _ _ => ?_, fun _ _ => hnew.silent⟩
  rw [wp_bind, Coordinator.wp_onActivity]
  refine wp_mono (wp_true _ _) (fun touchpads a _ => ?_) fun _ _ _ => hnew.silent
  rw [wp_bind, wp_modify, wp_bind, Coordinator.wp_onReceiver]
  refine wp_mono (wp_true _ _) (fun _ r _ => ?_) fun _ _ _ => hnew.silent
  dsimp only
  generalize hs' : ({ s with
    activity := a
    physicalKeyboard := (ActivitySource.keyboardState a).isSome
    receiver := r } : Coordinator A B T) = s'
  have hready : Quiet s' := hs' ▸ ⟨hnew.role, hnew.capture, hnew.silent⟩
  refine wp_seq (hready.send rfl) fun _ s₁ h₁ => ?_
  refine wp_seq (h₁.send rfl) fun _ s₂ h₂ => ?_
  exact wp_seq (h₂.send rfl) fun _ s₃ h₃ => h₃.head

/-- A connection that is opened is a party that has said nothing yet. -/
theorem opened_plays (F : Format T D) (x : Setup A B T) :
    ∃ p, (opened F x).1.Plays p ∧ Pass stranger [] p [] ∧ signals (opened F x).2 = [] ∧
      ∀ stop, (opened F x).1.stopped = some stop → stop.Ordinary B := by
  let s := Coordinator.new x.config x.desktop x.sink x.activity x.unlocked x.now x.files
  obtain ⟨p, hplays, hpass, hstop⟩ := Node.after_plays F x.env (s := s)
    (Coordinator.open_spec x.config x.desktop x.sink x.activity x.unlocked x.now x.files x.env)
  have hsignals : signals (opened F x).2 = [] := by
    rcases Node.after_spec F x.env (s := s) (open_signals x) with ⟨-, hs, hout⟩ |
      ⟨_, _, -, hs, hout, -⟩
    · exact (congrArg signals hout).trans hs
    · exact (congrArg signals hout).trans hs
  refine ⟨p, hplays, ?_, hsignals, fun stop h => (hstop stop h).resolve_right (by rintro ⟨⟩)⟩
  have hpass' : Pass stranger [] p (signals (opened F x).2) := hpass
  rwa [hsignals] at hpass'

theorem signals_start {x : Side → Setup A B T}
    (h : ∀ s, signals (opened F (x s)).2 = [])
    (s : Side) : signals ((start F x).chan s) = [] := h s.other

/-- Two devices that have opened their connection are in flow. -/
theorem flows_opened {x : Side → Setup A B T} (hplays : ∀ s, (opened F (x s)).1.Plays (a s))
    (hpass : ∀ s, Pass stranger [] (a s) []) (hsignals : ∀ s, signals (opened F (x s)).2 = [])
    (hstop : ∀ s stop, (opened F (x s)).1.stopped = some stop → stop.Ordinary B) :
    Flows (start F x) a := by
  refine ⟨hplays, fun s => ?_, fun s stop h => .inl (hstop s stop h)⟩
  have hsent : signals ((start F x).sent s) = [] := hsignals s
  rw [signals_start F hsignals, hsent]
  exact (stream_stranger.sender_pass (hpass s)).receiver_pass (hpass s.other)

/-- The messages flow at the start. -/
theorem flows_start (F : Format T D) (x : Side → Setup A B T) :
    ∃ a, Flows (start F x) a := by
  choose a hplays hpass hsignals hstop using fun s => opened_plays F (x s)
  exact ⟨a, flows_opened F hplays hpass hsignals hstop⟩

end Devices

end NiriBridge
