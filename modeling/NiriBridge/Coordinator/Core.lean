import NiriBridge.Model.Coordinator
import NiriBridge.Receiver.Calls
import NiriBridge.Session.Protocol

/-!
# Coordinator — Core

What a coordinator is to its peer and to the relations between its parts.  `Core` collects the
variables that these relations are about, `Core.Inv` states them, and `Core.party` is the
coordinator as a party of the session protocol.

`On p₀ t p c s` describes the middle of a pass: the core is `c`, and the party `p₀` with which the
pass began has, with the message `t`, become `p` by writing the frames of the outbox.  Between the
end of a session and the assignment of the role `p` is not yet the party of `c`; `Settled` says that
it is, and that the relations hold.  `Halt` is what is left when the pass fails.
-/

namespace NiriBridge

open Hoare Session

/-- The session message of a frame. -/
def Frame.signal (frame : Frame) : Option (Signal InputEvent) :=
  match frame.message with
  | .begin session _ => some (.begin session)
  | .input session sequence event => some (.input session sequence event)
  | .end session _ => some (.end session frame.own)
  | _ => none

/-- What the frames say about sessions. -/
def signals (frames : List Frame) : List (Signal InputEvent) := frames.filterMap Frame.signal

theorem signals_append (l l' : List Frame) : signals (l ++ l') = signals l ++ signals l' :=
  List.filterMap_append ..

/-- The part a role plays, with the number of the next input. -/
def Role.part (role : Role) (expected : ℕ) : Part :=
  match role with
  | .local => .idle
  | .sending session sequence _ _ => .sending session sequence
  | .receiving session => .receiving session expected

namespace Coordinator

/-- The variables that depend on each other. -/
structure Core where
  role : Role
  capture : Option CaptureTask
  generation : ℕ
  nextSession : ℕ
  localReady : Bool
  peerReady : Bool
  pending : Bool
  /-- The receiver's session with the number of its next input. -/
  session : Option (ℕ × ℕ)
  passed : List (ℕ × ℕ × InputEvent)
  locks : Bool × Bool

variable {A B T D : Type}

/-- The core of a coordinator. -/
def core (s : Coordinator A B T) : Core where
  role := s.role
  capture := s.capture
  generation := s.generation
  nextSession := s.nextSession
  localReady := s.localReady
  peerReady := s.peerReady
  pending := s.pendingLayout.isSome
  session := s.receiver.session.map fun session => (session, s.receiver.expectedSequence)
  passed := s.receiver.passed
  locks := s.receiver.locks

/-- The input that the receiver expects next. -/
def Core.expected (c : Core) : ℕ := (c.session.map Prod.snd).getD 0

/-- A core as a party of the session protocol. -/
def Core.party (c : Core) : Party InputEvent :=
  ⟨c.role.part c.expected, c.nextSession, c.passed, true⟩

/-- **The relations between the variables of a coordinator.**  `once` says that a capture worker
reports at most once that the pointer has crossed an edge. -/
structure Core.Inv (once : Prop) (c : Core) : Prop where
  receiving : ∀ session, c.role = .receiving session ↔ c.session.map Prod.fst = some session
  active : c.role ≠ .local → c.localReady = true ∧ c.peerReady = true ∧ c.pending = false
  sending : once → c.role.isSending = true → ∃ task, c.capture = some task ∧ task.started = true
  pending : c.pending = true → c.role = .local ∧ c.capture = none
  capturing : c.capture ≠ none → c.localReady = true ∧ c.peerReady = true
  current : ∀ task, c.capture = some task → task.generation = c.generation
  localLock : c.locks.1 = !c.localReady
  peerLock : c.peerReady = true → c.locks.2 = false
  fresh : 0 < c.nextSession

end Coordinator

/-! ### Errors -/

/-- The loop has not failed with an error that says the two ends disagree about the session. -/
def Stop.Ordinary (B : Type) [InputSink B] : Stop → Prop
  | .failed e => Receiver.Ordinary B e
  | .returned _ | .external _ => True

/-- The messages that make a coordinator fail with such an error. -/
inductive Clash (p₀ : Party InputEvent) : List (Signal InputEvent) → Stop → Prop where
  | overlap {n : ℕ} (h : p₀.serves ≠ none) :
      Clash p₀ [.begin n] (.failed ["Unexpected overlapping input session"])
  | gap {n j k : ℕ} {event : InputEvent} {stop : Stop} (h : p₀.part = .receiving n j)
      (hne : k ≠ j) :
      Clash p₀ [.input n k event] stop

namespace Coordinator

variable {A B T D : Type}

/-- The middle of a pass. -/
structure On (p₀ : Party InputEvent) (t : List (Signal InputEvent))
    (p : Party InputEvent) (c : Core) (s : Coordinator A B T) : Prop where
  receiver : s.receiver.Inv
  core : s.core = c
  pass : Pass p₀ t p (signals s.outbox)
  passed : p.passed = c.passed
  next : p.next = c.nextSession
  up : p.up = true

/-- A pass that has failed. -/
def Halt [InputSink B] (p₀ : Party InputEvent) (t : List (Signal InputEvent)) (stop : Stop)
    (s : Coordinator A B T) : Prop :=
  (∃ p, Pass p₀ t p (signals s.outbox) ∧ p.passed = s.receiver.passed ∧ p.up = false) ∧
    (stop.Ordinary B ∨ Clash p₀ t stop)

/-- A pass, or a part of one, that has restored the relations. -/
structure Settled (once : Prop) (p₀ : Party InputEvent) (t : List (Signal InputEvent))
    (s : Coordinator A B T) : Prop where
  on : On p₀ t s.core.party s.core s
  inv : s.core.Inv once

variable {α : Type} {once : Prop} {p₀ p : Party InputEvent}
  {t : List (Signal InputEvent)} {c : Core} {s : Coordinator A B T}

/-! ### Calls -/

/-- The loop fails with an error of its own. -/
theorem wp_own {r : Result α} {Q : α → Coordinator A B T → Prop}
    {E : Stop → Coordinator A B T → Prop} :
    wp (own r) s Q E ↔ (∀ a, r = .ok a → Q a s) ∧ ∀ e, r = .error e → E (.failed e) s := wp_lift

/-- The loop fails with an error of another part. -/
theorem wp_external {r : Result α} {Q : α → Coordinator A B T → Prop}
    {E : Stop → Coordinator A B T → Prop} :
    wp (external r) s Q E ↔ (∀ a, r = .ok a → Q a s) ∧ ∀ e, r = .error e → E (.external e) s :=
      wp_lift

/-- The loop calls the receiver. -/
theorem wp_onReceiver {m : ReceiverM B α} {Q : α → Coordinator A B T → Prop}
    {E : Stop → Coordinator A B T → Prop} :
    wp (onReceiver m) s Q E ↔ wp m s.receiver (fun a r => Q a { s with receiver := r })
      (fun e r => E (.failed e) { s with receiver := r }) := wp_zoom

/-- The loop calls the activity monitor. -/
theorem wp_onActivity {m : EStateM Error A α} {Q : α → Coordinator A B T → Prop}
    {E : Stop → Coordinator A B T → Prop} :
    wp (onActivity m) s Q E ↔ wp m s.activity (fun a x => Q a { s with activity := x })
      (fun e x => E (.external e) { s with activity := x }) := wp_zoom

/-- The loop calls the manager, and its errors are kept. -/
theorem wp_onFiles {m : FilesM T α} {Q : Except Error α → Coordinator A B T → Prop}
    {E : Stop → Coordinator A B T → Prop} :
    wp (onFiles m) s Q E ↔ wp m s.files (fun a files => Q (.ok a) { s with files := files })
      (fun e files => Q (.error e) { s with files := files }) := by
  rw [onFiles, wp_bind, wp_get]
  unfold wp
  cases m s.files <;> rfl

/-- A frame is written, or it is not and the loop ends. -/
theorem sendFrame_spec (env : Env T) (frame : Frame) (s : Coordinator A B T) :
    wp (sendFrame env frame) s (fun _ s' => s' = { s with outbox := s.outbox ++ [frame] })
      (fun stop s' => (∃ e, stop = .external e) ∧
        (s' = s ∨ s' = { s with outbox := s.outbox ++ [frame] })) := by
  rw [sendFrame, wp_bind, wp_external]
  refine ⟨fun _ _ => ?_, fun e _ => ⟨⟨e, rfl⟩, .inl rfl⟩⟩
  rw [wp_bind, wp_get]
  cases env.fault s.outbox.length with
  | none => exact rfl
  | some fault =>
      obtain ⟨written, e⟩ := fault
      cases written
      · exact ⟨⟨e, rfl⟩, .inl rfl⟩
      · exact ⟨⟨e, rfl⟩, .inr rfl⟩

/-- Stopping the capture leaves no task, also when it fails. -/
theorem stopCapture_spec (env : Env T) (s : Coordinator A B T) :
    wp (stopCapture env) s (fun _ s' => s' = { s with capture := none })
      (fun stop s' => (∃ e, stop = .external e) ∧ s' = { s with capture := none }) := by
  rw [stopCapture, wp_bind, wp_get]
  cases hc : s.capture with
  | none =>
      have hs : s = { s with capture := none } := by
        cases s
        subst hc
        rfl
      exact hs
  | some task =>
      rw [wp_bind, wp_set, wp_external]
      exact ⟨fun _ _ => rfl, fun e _ => ⟨⟨e, rfl⟩, rfl⟩⟩

end Coordinator

end NiriBridge
