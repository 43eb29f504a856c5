import NiriBridge.Model.Receiver
import NiriBridge.Model.Activity
import NiriBridge.Model.Manager

/-!
# Model — Coordinator

`bridge::coordinate_with_control`: the loop of one device.  A pass of the loop is one branch of its
`select!` followed by the head of the loop, up to where it waits again.  `Env` is what the pass
finds: the clock, which frames can be written, what the desktop, the capture worker and the file
system answer.

A frame carries a history variable, whether an `End` is about a session of the device that sends it,
and a capture task another, whether its worker has reported that the pointer crossed an edge.
Nothing reads them.
-/

namespace NiriBridge

open Hoare

/-- `Role`: what a device is in the current session, if it is in one. -/
inductive Role where
  | «local»
  | sending (session sequence edge : ℕ) (fraction : ℚ)
  | receiving (session : ℕ)
deriving DecidableEq, Repr

/-- `Role::session`. -/
def Role.session : Role → Option ℕ
  | .local => none
  | .sending session _ _ _ | .receiving session => some session

/-- Whether the device sends. -/
def Role.isSending : Role → Bool
  | .sending .. => true
  | _ => false

/-- `capture_probe::Event`. -/
inductive CaptureEvent where
  | armed
  | started (edge : ℕ) (fraction : ℚ)
  | ready
  | input (event : InputEvent)
  | finished (reason : String)

/-- `StreamEvent`: what a capture worker says, with the generation of its task. -/
structure StreamEvent where
  generation : ℕ
  event : CaptureEvent

/-- A capture task. -/
structure CaptureTask where
  generation : ℕ
  started : Bool

/-- `PendingLayout`: a prepared edit that waits for the other device. -/
structure PendingLayout (T : Type) where
  id : String
  prepared : Prepared T
  /-- The control client that waits, if this device has started the save. -/
  reply : Option ℕ
  deadline : ℕ

/-- A frame in the outbox; `own` is for an `End` of a session that this device has begun. -/
structure Frame where
  message : Message
  own : Bool
deriving DecidableEq

/-- What an error is about, and whether the loop has returned. -/
inductive Stop where
  | returned (exit : Bool)
  | failed (e : Error)
  /-- An error of the network, the desktop, the activity source or the capture worker. -/
  | external (e : Error)

/-- The variables of `run_connection` between two passes of its loop. -/
structure Coordinator (A B T : Type) where
  config : Config
  desktop : Desktop
  peerDesktop : Option Desktop
  pendingLayout : Option (PendingLayout T)
  receiver : Receiver B
  activity : A
  physicalKeyboard : Bool
  sourceKeys : SortedSet ℕ
  capture : Option CaptureTask
  captureEdges : List ℕ
  desktopEpoch : ℕ
  captureEpoch : ℕ
  generation : ℕ
  nextSession : ℕ
  role : Role
  localReady : Bool
  peerReady : Bool
  peerTouchpadsConfigured : Bool
  lastHeartbeat : ℕ
  heartbeat : ℕ
  rearmAt : ℕ
  /-- `available_edges` of the current pass. -/
  availableEdges : List ℕ
  /-- The configuration file. -/
  files : Files T
  /-- The frames written in the current pass. -/
  outbox : List Frame
  /-- The answers given to control clients. -/
  replies : List (ℕ × Reply)

/-- What one pass finds. -/
structure Env (T : Type) where
  now : ℕ
  /-- The clock at the head of the loop. -/
  headNow : ℕ
  /-- How writing the frame with this number in the pass fails, and whether it reaches the peer. -/
  fault : ℕ → Option (Bool × Error)
  outputs : Result OutputTable
  stopCapture : Option Error
  captureFinished : Bool
  captureEventsEmpty : Bool
  /-- How long ago the frame was received, or the capture event captured. -/
  elapsed : ℕ
  transactionId : Result String
  edit : Faults T
  rollback : Faults T

variable {A B T D : Type}

/-- What the loop does: it changes the variables, or stops. -/
abbrev CoordinatorM (A B T : Type) := EStateM Stop (Coordinator A B T)

namespace Coordinator

/-! ### Frames and parts -/

/-- A result of the program's own. -/
def own {α : Type} (r : Result α) : CoordinatorM A B T α := lift .failed r

/-- A result of the world around the program. -/
def external {α : Type} (r : Result α) : CoordinatorM A B T α := lift .external r

/-- `protocol::write_frame` within its time limit. -/
def sendFrame (env : Env T) (frame : Frame) : CoordinatorM A B T Unit := do
  external frame.message.validate
  let s ← get
  match env.fault s.outbox.length with
  | none => set { s with outbox := s.outbox ++ [frame] }
  | some (written, e) =>
      (if written then set { s with outbox := s.outbox ++ [frame] } else pure ())
      throw (.external e)

/-- `send`: a frame that ends no session of this device. -/
def send (env : Env T) (message : Message) : CoordinatorM A B T Unit :=
  sendFrame env ⟨message, false⟩

/-- A call of the receiver, whose error ends the loop. -/
def onReceiver {α : Type} (m : ReceiverM B α) : CoordinatorM A B T α :=
  zoom Coordinator.receiver (fun s receiver => { s with receiver := receiver }) .failed m

/-- A call of the activity monitor. -/
def onActivity {α : Type} (m : EStateM Error A α) : CoordinatorM A B T α :=
  zoom Coordinator.activity (fun s activity => { s with activity := activity }) .external m

/-- An operation on the configuration file; its failure is a value. -/
def onFiles {α : Type} (m : FilesM T α) : CoordinatorM A B T (Except Error α) := do
  let s ← get
  match m s.files with
  | .ok a files =>
      set { s with files := files }
      return .ok a
  | .error e files =>
      set { s with files := files }
      return .error e

/-- `activity.suspend()`. -/
def suspend [ActivitySource A] : CoordinatorM A B T Unit :=
  modify fun s => { s with activity := ActivitySource.suspend s.activity }

/-- `activity.sample()`. -/
def sample [ActivitySource A] : CoordinatorM A B T Bool := onActivity ActivitySource.sample

/-- `activity.take_keyboard_events()`. -/
def takeKeyboardEvents [ActivitySource A] : CoordinatorM A B T (List InputEvent) := do
  let s ← get
  let (events, activity) := ActivitySource.takeKeyboardEvents s.activity
  set { s with activity := activity }
  return events

/-- `activity.take_touchpad_events()`. -/
def takeTouchpadEvents [ActivitySource A] : CoordinatorM A B T (List InputEvent) := do
  let s ← get
  let (events, activity) := ActivitySource.takeTouchpadEvents s.activity
  set { s with activity := activity }
  return events

/-- `role = …`. -/
def setRole (role : Role) : CoordinatorM A B T Unit := modify fun s => { s with role := role }

/-- `rearm_at = Instant::now() + 150 ms`. -/
def rearm (env : Env T) : CoordinatorM A B T Unit :=
  modify fun s => { s with rearmAt := env.now + 150 }

/-- An answer to a control client. -/
def answer (client : ℕ) (reply : Reply) : CoordinatorM A B T Unit :=
  modify fun s => { s with replies := s.replies ++ [(client, reply)] }

/-- `Instant::now() + 6 s`. -/
def layoutDeadline (env : Env T) : ℕ := env.now + 6000

/-! ### Sessions -/

/-- `stop_capture`. -/
def stopCapture (env : Env T) : CoordinatorM A B T Unit := do
  let s ← get
  match s.capture with
  | none => return ()
  | some _ =>
      set { s with capture := none }
      external (io env.stopCapture)

/-- `send(End { session, exit })` for the session of the current role. -/
def sendEnd (env : Env T) (session : ℕ) (exit : Option EdgePosition) : CoordinatorM A B T Unit := do
  let s ← get
  sendFrame env ⟨.end session exit, s.role.isSending⟩

/-- `if let Some(session) = role.session() { receiver.end(session)?; send(End { session, exit: None
}) }`. -/
def endSession [InputSink B] (env : Env T) : CoordinatorM A B T Unit := do
  let s ← get
  match s.role.session with
  | none => return ()
  | some session =>
      onReceiver (Receiver.end session)
      sendEnd env session none

/-- `if let Some(session) = role.session() { send(End { session, exit: None }) }`. -/
def announceEnd (env : Env T) : CoordinatorM A B T Unit := do
  let s ← get
  match s.role.session with
  | none => return ()
  | some session => sendEnd env session none

/-- The edge with this index. -/
def edgeAt (config : Config) (index : ℕ) : EdgeConfig :=
  config.edges.getD index ⟨"", "", ⟨.top, 0, 0⟩⟩

/-- Where the pointer is placed at an edge: a position on its output. -/
def placement (outputs : OutputTable) (edge : EdgeConfig) (fraction : ℚ) : Result InputEvent := do
  let output ← orError "Boundary output disappeared" (outputs.lookup edge.output)
  let logical ← orError "Boundary output is disabled" output
  let rect : Rect := ⟨0, 0, logical.width, logical.height⟩
  let (x, y) ← edge.boundary.pointAt rect fraction 4
  return .absolute x.floor.toNat y.floor.toNat logical.width logical.height

/-- `place`: the pointer appears at an edge. -/
def place [InputSink B] (env : Env T) (edge : EdgeConfig) (fraction : ℚ) :
    CoordinatorM A B T Unit := do
  let outputs ← external env.outputs
  let event ← own (placement outputs edge fraction)
  onReceiver (Receiver.positionOn edge.output event)

/-- `if let Role::Sending { edge, fraction, .. } = role { place(…) }`, if `condition` holds as
well. -/
def placeBack [InputSink B] (env : Env T) (role : Role) (condition : ℕ → Bool) :
    CoordinatorM A B T Unit := do
  let s ← get
  match role with
  | .sending _ _ edge fraction =>
      if condition edge then place env (edgeAt s.config edge) fraction else return ()
  | _ => return ()

/-- Sends an input of the session and advances its sequence; nothing unless the role is
`Sending`. -/
def sendInput (env : Env T) (event : InputEvent) : CoordinatorM A B T Unit := do
  let s ← get
  match s.role with
  | .sending session sequence edge fraction =>
      send env (.input session sequence event)
      own (ensure (sequence + 1 < 2 ^ 64) "Input sequence exhausted")
      setRole (.sending session (sequence + 1) edge fraction)
  | _ => return ()

/-- Sends the inputs one after the other. -/
def sendInputs (env : Env T) : List InputEvent → CoordinatorM A B T Unit
  | [] => pure ()
  | event :: events => do
      sendInput env event
      sendInputs env events

/-- Returns true when the source's emergency chord must stop sharing immediately. -/
def forwardKeyboard (env : Env T) (event : InputEvent) : CoordinatorM A B T Bool := do
  let s ← get
  match s.role, event with
  | .sending .., .key code pressed =>
      let held := if pressed then s.sourceKeys.insert code else s.sourceKeys.erase code
      set { s with sourceKeys := held }
      if code = 1 ∧ pressed ∧ emergencyModifiers held then return true
      else
        sendInput env (.key code pressed)
        return false
  | .sending .., _ => throw (.failed ["Physical keyboard returned a non-key event"])
  | _, _ => return false

/-- Whether a connection has an output on both devices. -/
def isAvailable (local_ : Desktop) (peer : Desktop) (edge : EdgeConfig) : Bool :=
  local_.outputs.containsKey edge.output &&
    peer.edges.any fun other => other.id == edge.id && peer.outputs.containsKey other.output

/-- `active_edges`: the indices of the edges both devices can use. -/
def activeEdges (local_ : Desktop) (peer : Option Desktop) : List ℕ :=
  match peer with
  | none => []
  | some peer => (local_.edges.zipIdx.filter fun p => isAvailable local_ peer p.1).map Prod.snd

/-! ### The pending layout -/

/-- A pending layout goes out of scope: the edit is rolled back unless it was finished, and a client
that has not been answered is told that nothing is certain. -/
def dropPending (F : Format T D) (env : Env T) (pending : PendingLayout T) :
    CoordinatorM A B T Unit := do
  let _ ← onFiles (pending.prepared.drop F env.rollback)
  match pending.reply with
  | some client => answer client (.failure "layout_unconfirmed")
  | none => return ()

/-- `m` while a pending layout is in scope; it is dropped when `m` fails. -/
def holding {α : Type} (F : Format T D) (env : Env T) (pending : PendingLayout T)
    (m : CoordinatorM A B T α) : CoordinatorM A B T α := do
  match ← attempt m with
  | .ok a => return a
  | .error stop =>
      dropPending F env pending
      throw stop

/-- A pending layout that is given up: its client is told `code`. -/
def abandon (F : Format T D) (env : Env T) (pending : PendingLayout T) (code : String) :
    CoordinatorM A B T Unit := do
  match pending.reply with
  | some client => answer client (.failure code)
  | none => pure ()
  dropPending F env { pending with reply := none }

/-! ### The head of the loop -/

/-- The edges are not the ones the session or the capture was started with. -/
def outdated (s : Coordinator A B T) : Bool :=
  (s.availableEdges.isEmpty && s.role.session.isSome) ||
    (s.capture.isSome && s.captureEpoch != s.desktopEpoch)

/-- The head of the loop gives up a session or a capture whose displays have changed. -/
def leaveOutdated [InputSink B] (env : Env T) : CoordinatorM A B T Unit := do
  let s ← get
  if s.outdated then
    endSession env
    stopCapture env
    placeBack env s.role fun edge =>
      s.localReady && s.desktop.outputs.containsKey (edgeAt s.config edge).output
    setRole .local
    modify fun s => { s with rearmAt := env.headNow + 150 }
  else return ()

/-- Everything that a capture task needs is there. -/
def canCapture (env : Env T) (s : Coordinator A B T) : Bool :=
  s.localReady && s.peerReady && !s.availableEdges.isEmpty && s.pendingLayout.isNone &&
    s.capture.isNone && decide (s.rearmAt ≤ env.headNow)

/-- The head of the loop starts a capture task, if there may be one. -/
def armCapture (env : Env T) : CoordinatorM A B T Unit := modify fun s =>
  if s.canCapture env then
    let generation := (s.generation + 1) % 2 ^ 64
    { s with
      generation := generation
      captureEdges := s.availableEdges
      captureEpoch := s.desktopEpoch
      capture := some ⟨generation, false⟩ }
  else s

/-- The head of the loop, up to the `select!`. -/
def head [ActivitySource A] [InputSink B] (env : Env T) : CoordinatorM A B T Unit := do
  modify fun s => { s with availableEdges := activeEdges s.desktop s.peerDesktop }
  leaveOutdated env
  let s ← get
  let events ← onActivity (ActivitySource.routeTouchpads s.role.isSending)
  sendInputs env events
  armCapture env

/-! ### The branches -/

/-- `control.next_outputs()`. -/
def outputsChanged (env : Env T) (outputs : Outputs) : CoordinatorM A B T Unit := do
  modify fun s => { s with
    desktopEpoch := (s.desktopEpoch + 1) % 2 ^ 64
    desktop := { s.desktop with outputs := outputs } }
  let s ← get
  send env (.desktop s.desktop)

/-- `Request::Release`. -/
def releaseControl [InputSink B] (env : Env T) (client : ℕ) : CoordinatorM A B T Unit := do
  endSession env
  stopCapture env
  let s ← get
  placeBack env s.role fun _ => true
  setRole .local
  rearm env
  answer client (.success [])

/-- What a layout request is checked for before anything is prepared. -/
def checkRequest (s : Coordinator A B T) (layout : LayoutRequest) : Result Path := do
  ensure s.pendingLayout.isNone "settings_busy"
  ensure (s.localReady ∧ s.peerReady) "session_locked"
  layout.validate
  let peer ← orError "peer_offline" s.peerDesktop
  ensure (peer.revision = layout.peerRevision) "settings_conflict"
  orError "config_invalid" s.config.sourcePath

/-- The edit of this device's configuration for a layout. -/
def prepareLayout (F : Format T D) (env : Env T) (checked : Result Path) (revision : String)
    (edges : List EdgeConfig) : CoordinatorM A B T (Except Error (Prepared T)) := do
  match checked with
  | .error e => return .error e
  | .ok path =>
      onFiles
        (Manager.prepareEdges F path (env.outputs.map OutputTable.logical) env.edit revision edges)

/-- `Request::ApplyLayout`. -/
def applyLayout [InputSink B] (F : Format T D) (env : Env T) (client : ℕ) (layout : LayoutRequest) :
    CoordinatorM A B T Unit := do
  let s ← get
  match ← prepareLayout F env (s.checkRequest layout) layout.localRevision layout.localEdges with
  | .error e => answer client (.failure (errorCode e))
  | .ok prepared =>
      let id ← holding F env ⟨"", prepared, some client, 0⟩ do
        endSession env
        stopCapture env
        setRole .local
        external env.transactionId
      modify fun s => { s with
        pendingLayout := some ⟨id, prepared, some client, layoutDeadline env⟩ }
      send env (.layout (.prepare id layout.peerEdges layout.peerRevision))

/-- `status.changed()`. -/
def statusChanged [ActivitySource A] [InputSink B] (env : Env T) (unlocked : Result Bool) :
    CoordinatorM A B T Unit := do
  let unlocked ← external unlocked
  modify fun s => { s with localReady := unlocked }
  onReceiver (Receiver.localLock (!unlocked))
  send env (.lockState (!unlocked))
  if unlocked then return ()
  else
    suspend
    announceEnd env
    setRole .local
    stopCapture env

/-- A pending layout whose deadline has passed. -/
def expireLayout (F : Format T D) (env : Env T) : CoordinatorM A B T Unit := do
  let s ← get
  match s.pendingLayout with
  | none => return ()
  | some pending =>
      if pending.deadline ≤ env.now then
        set { s with pendingLayout := none }
        holding F env pending (send env (.layout (.abort pending.id)))
        abandon F env pending "layout_unconfirmed"
      else return ()

/-- Physical input takes back a desktop the peer controls. -/
def takeOver [InputSink B] (env : Env T) (physical : Bool) : CoordinatorM A B T Unit := do
  let s ← get
  match s.role with
  | .receiving _ =>
      if physical then
        onReceiver Receiver.physicalActivity
        announceEnd env
        setRole .local
        stopCapture env
        rearm env
      else return ()
  | _ => return ()

/-- The loop over the keyboard events, with the emergency chord. -/
def forwardKeys [InputSink B] (env : Env T) : List InputEvent → CoordinatorM A B T Unit
  | [] => pure ()
  | event :: events => do
      if ← forwardKeyboard env event then
        let s ← get
        match s.role with
        | .sending session _ edge fraction =>
            sendEnd env session none
            stopCapture env
            place env (edgeAt s.config edge) fraction
        | _ => pure ()
        modify fun s => { s with role := .local, sourceKeys := ∅ }
        rearm env
      else forwardKeys env events

/-- A capture worker that has ended. -/
def reapCapture (env : Env T) : CoordinatorM A B T Unit := do
  let s ← get
  if s.capture.isSome ∧ env.captureFinished ∧ env.captureEventsEmpty then
    stopCapture env
    match s.role with
    | .sending session _ _ _ =>
        sendEnd env session none
        setRole .local
    | _ => pure ()
    rearm env
  else return ()

/-- The heartbeat, once in 200 ms. -/
def beat (env : Env T) : CoordinatorM A B T Unit := do
  let s ← get
  if s.lastHeartbeat + 200 ≤ env.now then
    send env (.ping s.heartbeat)
    modify fun s => { s with heartbeat := (s.heartbeat + 1) % 2 ^ 64, lastHeartbeat := env.now }
  else return ()

/-- The branch of the timer and of the physical devices. -/
def tick [ActivitySource A] [InputSink B] (F : Format T D) (env : Env T) (ready : Result Unit) :
    CoordinatorM A B T Unit := do
  external ready
  onReceiver Receiver.poll
  expireLayout F env
  let s ← get
  let physical ← (if s.localReady ∧ s.peerReady then sample else pure false)
  let keyboardEvents ← takeKeyboardEvents
  let touchpadEvents ← takeTouchpadEvents
  takeOver env physical
  forwardKeys env keyboardEvents
  sendInputs env touchpadEvents
  reapCapture env
  beat env

/-- The keys that are down when a session starts. -/
def enterKeys (env : Env T) : List ℕ → CoordinatorM A B T Unit
  | [] => pure ()
  | code :: codes => do
      let _ ← forwardKeyboard env (.key code true)
      enterKeys env codes

/-- `Event::Started` while the role is `Local` and both desktops are unlocked. -/
def startSession [ActivitySource A] (env : Env T) (edge : ℕ) (fraction : ℚ) :
    CoordinatorM A B T Unit := do
  let _ ← sample
  let s ← get
  let initialKeys := (ActivitySource.keyboardState s.activity).getD ∅
  let _ ← takeKeyboardEvents
  if 1 ∈ initialKeys ∧ emergencyModifiers initialKeys then
    stopCapture env
    rearm env
  else
    let session := s.nextSession
    own (ensure (session + 1 < 2 ^ 64) "Session identifiers exhausted")
    modify fun s => { s with nextSession := session + 1 }
    send env (.begin session ⟨(edgeAt s.config edge).id, fraction⟩)
    modify fun s => { s with role := .sending session 0 edge fraction, sourceKeys := ∅ }
    enterKeys env initialKeys.toList

/-- `Event::Started`: the pointer has crossed an edge. -/
def captureStarted [ActivitySource A] [InputSink B] (env : Env T) (edge : ℕ) (fraction : ℚ) :
    CoordinatorM A B T Unit := do
  let s ← get
  let edge ← own (orError "Capture selected an unknown edge" (s.captureEdges[edge]?))
  own (ensure (edge ∈ s.availableEdges) "Capture edge is no longer available")
  match s.role with
  | .local => if s.localReady ∧ s.peerReady then startSession env edge fraction else stopCapture env
  | .receiving session =>
      let selected := edgeAt s.config edge
      onReceiver (Receiver.end session)
      sendEnd env session (some ⟨selected.id, fraction⟩)
      setRole .local
      stopCapture env
      place env selected fraction
      rearm env
  | .sending .. => stopCapture env

/-- `Event::Input`: what the capture has read of the pointer. -/
def captureInput (env : Env T) (event : InputEvent) : CoordinatorM A B T Unit := do
  let s ← get
  match s.physicalKeyboard, event, s.role with
  | true, .key .., _ => return ()
  | _, _, .sending .. =>
      own (ensure (env.elapsed < 200) "Input queue became too delayed; restoring local control")
      sendInput env event
  | _, _, _ => return ()

/-- `Event::Finished`. -/
def captureEnded [InputSink B] (env : Env T) (reason : String) : CoordinatorM A B T Unit := do
  let s ← get
  endSession env
  setRole .local
  stopCapture env
  placeBack env s.role fun _ => s.localReady && reason == "escape"
  rearm env

/-- `capture_events.recv()`.  The worker's report is noted on its task. -/
def captureEvent [ActivitySource A] [InputSink B] (env : Env T) (event : Option StreamEvent) :
    CoordinatorM A B T Unit := do
  let event ← own (orError "Capture event channel closed" event)
  let s ← get
  match s.capture with
  | none => return ()
  | some task =>
      if event.generation ≠ s.generation then return ()
      else
        match event.event with
        | .started edge fraction =>
            set { s with capture := some { task with started := true } }
            captureStarted env edge fraction
        | .input event => captureInput env event
        | .finished reason => captureEnded env reason
        | .armed | .ready => return ()

/-! ### The peer's messages -/

/-- `LayoutMessage::Prepare`. -/
def layoutPrepare [InputSink B] (F : Format T D) (env : Env T) (id : String)
    (edges : List EdgeConfig) (revision : String) : CoordinatorM A B T Unit := do
  let s ← get
  let checked : Result Path := do
    ensure s.pendingLayout.isNone "settings_busy"
    ensure (s.localReady ∧ s.peerReady) "session_locked"
    orError "config_invalid" s.config.sourcePath
  match ← prepareLayout F env checked revision edges with
  | .error e => send env (.layout (.prepared id false (some (errorCode e))))
  | .ok prepared =>
      holding F env ⟨id, prepared, none, 0⟩ do
        endSession env
        stopCapture env
        setRole .local
      modify fun s => { s with pendingLayout := some ⟨id, prepared, none, layoutDeadline env⟩ }
      send env (.layout (.prepared id true none))

/-- The pending layout with this id, if this device has started it (`initiated`) or not. -/
def pendingWith (s : Coordinator A B T) (id : String) (initiated : Bool) :
    Option (PendingLayout T) :=
  s.pendingLayout.filter fun p => p.id == id && p.reply.isSome == initiated

/-- `LayoutMessage::Prepared`. -/
def layoutPrepared (F : Format T D) (env : Env T) (id : String) (ok : Bool)
    (error : Option String) :
    CoordinatorM A B T Unit := do
  let s ← get
  match s.pendingWith id true with
  | none => return ()
  | some pending =>
      set { s with pendingLayout := none }
      let committed ← (if ok then
          onFiles (pending.prepared.commit F (env.outputs.map OutputTable.logical) env.edit)
        else pure (.error [error.getD "operation_failed"]))
      match committed with
      | .error e =>
          holding F env pending (send env (.layout (.abort id)))
          abandon F env pending (errorCode e)
      | .ok prepared =>
          modify fun s => { s with pendingLayout := some { pending with prepared := prepared } }
          send env (.layout (.commit id))

/-- `LayoutMessage::Commit`. -/
def layoutCommit (F : Format T D) (env : Env T) (id : String) : CoordinatorM A B T Unit := do
  let s ← get
  match s.pendingWith id false with
  | none => return ()
  | some pending =>
      set { s with pendingLayout := none }
      match ← onFiles
        (pending.prepared.commit F (env.outputs.map OutputTable.logical) env.edit) with
      | .ok prepared =>
          let _ ← onFiles (prepared.finish F)
          send env (.layout (.result id true (some prepared.afterRevision) none))
          throw (.returned false)
      | .error e =>
          holding F env pending (send env (.layout (.result id false none (some (errorCode e)))))
          dropPending F env pending

/-- `LayoutMessage::Result`. -/
def layoutResult (F : Format T D) (env : Env T) (id : String) (ok : Bool)
    (revision error : Option String) : CoordinatorM A B T Unit := do
  let s ← get
  match s.pendingWith id true with
  | none => return ()
  | some pending =>
      set { s with pendingLayout := none }
      if ok then
        let _ ← onFiles (pending.prepared.finish F)
        match pending.reply with
        | some client =>
            answer client (.success [("local_revision", some pending.prepared.afterRevision),
              ("peer_revision", revision), ("reconnecting", some "true")])
        | none => pure ()
        throw (.returned false)
      else abandon F env pending (error.getD "operation_failed")

/-- `LayoutMessage::Abort`. -/
def layoutAbort (F : Format T D) (env : Env T) (id : String) : CoordinatorM A B T Unit := do
  let s ← get
  match s.pendingLayout.filter (·.id == id) with
  | none => return ()
  | some pending =>
      set { s with pendingLayout := none }
      abandon F env pending "layout_unconfirmed"

/-- `Message::Layout`. -/
def layoutMessage [InputSink B] (F : Format T D) (env : Env T) :
    LayoutMessage → CoordinatorM A B T Unit
  | .prepare id edges revision => layoutPrepare F env id edges revision
  | .prepared id ok error => layoutPrepared F env id ok error
  | .commit id => layoutCommit F env id
  | .result id ok revision error => layoutResult F env id ok revision error
  | .abort id => layoutAbort F env id

/-- `Message::Touchpads`. -/
def peerTouchpads [InputSink B] (devices : List Touchpad.Descriptor) : CoordinatorM A B T Unit := do
  let s ← get
  own (ensure (s.peerTouchpadsConfigured = false) "Touchpad negotiation was repeated")
  onReceiver (Receiver.configureTouchpads devices)
  modify fun s => { s with peerTouchpadsConfigured := true }

/-- `Message::LockState`. -/
def peerLockState [ActivitySource A] [InputSink B] (env : Env T) (locked : Bool) :
    CoordinatorM A B T Unit := do
  let s ← get
  own (ensure s.peerTouchpadsConfigured "Touchpad negotiation is incomplete")
  modify fun s => { s with peerReady := !locked }
  onReceiver (Receiver.peerLock locked)
  if locked then
    suspend
    announceEnd env
    (if s.role.isSending then do
      stopCapture env
      placeBack env s.role fun _ => s.localReady
    else pure ())
    setRole .local
    stopCapture env
  else return ()

/-- The edge a session may enter by. -/
def entryEdge (s : Coordinator A B T) (id : String) : Option EdgeConfig :=
  (s.config.edges.zipIdx.find? fun p =>
    p.1.id == id && decide (p.2 ∈ s.availableEdges)).map Prod.fst

/-- The session may enter; the physical devices are only asked when everything else allows it. -/
def mayEnter [ActivitySource A] : CoordinatorM A B T Bool := do
  let s ← get
  if s.role = .local ∧ s.localReady ∧ s.peerReady ∧ s.availableEdges ≠ [] ∧
      s.pendingLayout.isNone then
    let physical ← sample
    return !physical
  else return false

/-- `Message::Begin`. -/
def peerBegin [ActivitySource A] [InputSink B] (env : Env T) (session : ℕ) (entry : EdgePosition) :
    CoordinatorM A B T Unit := do
  let s ← get
  let edge := s.entryEdge entry.edgeId
  let accepted ← (if edge.isSome then mayEnter else pure false)
  match accepted, edge, s.role with
  | true, some edge, _ =>
      let started ← onReceiver (Receiver.begin session)
      own (ensure started "Receiver is busy")
      place env edge entry.fraction
      setRole (.receiving session)
  | _, _, .receiving _ => throw (.failed ["Unexpected overlapping input session"])
  | _, _, _ => sendFrame env ⟨.end session none, false⟩

/-- `Message::Input`. -/
def peerInput [ActivitySource A] [InputSink B] (env : Env T) (session sequence : ℕ)
    (event : InputEvent) : CoordinatorM A B T Unit := do
  own (ensure (env.elapsed < 200) "Received input was delayed; restoring local control")
  let s ← get
  if s.role = .receiving session then
    if ← sample then
      onReceiver Receiver.physicalActivity
      sendEnd env session none
      setRole .local
      stopCapture env
    else
      let _ ← onReceiver (Receiver.input session sequence event)
  else return ()

/-- Where the pointer returns to when the peer ends a session of this device. -/
def returnEdge (s : Coordinator A B T) (edge : ℕ) (fraction : ℚ) :
    Option EdgePosition → Result (EdgeConfig × ℚ)
  | none => .ok (edgeAt s.config edge, fraction)
  | some exit => do
      let (edge, index) ← orError "Unknown return edge"
        (s.config.edges.zipIdx.find? fun p => p.1.id == exit.edgeId)
      ensure (index ∈ s.availableEdges) "Return edge is unavailable"
      return (edge, exit.fraction)

/-- `Message::End`. -/
def peerEnd [InputSink B] (env : Env T) (session : ℕ) (exit : Option EdgePosition) :
    CoordinatorM A B T Unit := do
  let s ← get
  if s.role.session = some session then
    onReceiver (Receiver.end session)
    stopCapture env
    match s.role with
    | .sending _ _ edge fraction =>
        if s.localReady then
          let (edge, fraction) ← own (s.returnEdge edge fraction exit)
          place env edge fraction
        else pure ()
    | _ => pure ()
    setRole .local
    rearm env
  else return ()

/-- A message of the peer. -/
def peerMessage [ActivitySource A] [InputSink B] (F : Format T D) (env : Env T) :
    Message → CoordinatorM A B T Unit
  | .desktop info => modify fun s => { s with
      desktopEpoch := (s.desktopEpoch + 1) % 2 ^ 64
      peerDesktop := some info }
  | .layout message => layoutMessage F env message
  | .touchpads devices => peerTouchpads devices
  | .hello _ => throw (.failed ["Unexpected repeated protocol handshake"])
  | .ping nonce => send env (.pong nonce)
  | .pong _ => return ()
  | .lockState locked => peerLockState env locked
  | .begin session entry => peerBegin env session entry
  | .input session sequence event => peerInput env session sequence event
  | .end session exit => peerEnd env session exit

/-! ### Passes -/

/-- What the loop has waited for, but for a frame. -/
inductive Event where
  | exit
  | outputs (outputs : Outputs)
  | release (client : ℕ)
  | applyLayout (client : ℕ) (layout : LayoutRequest)
  | status (unlocked : Result Bool)
  | tick (ready : Result Unit)
  | capture (event : Option StreamEvent)
  /-- The reader has ended. -/
  | disconnected

/-- The branch of the `select!` that an event takes. -/
def branch [ActivitySource A] [InputSink B] (F : Format T D) (env : Env T) :
    Event → CoordinatorM A B T Unit
  | .exit => throw (.returned true)
  | .outputs outputs => outputsChanged env outputs
  | .release client => releaseControl env client
  | .applyLayout client layout => applyLayout F env client layout
  | .status unlocked => statusChanged env unlocked
  | .tick ready => tick F env ready
  | .capture event => captureEvent env event
  | .disconnected => throw (.failed ["Paired connection closed or timed out"])

/-- One pass of the loop, for a frame if there is one. -/
def pass [ActivitySource A] [InputSink B] (F : Format T D) (env : Env T) (event : Event)
    (frame : Option Frame) : CoordinatorM A B T Unit := do
  match frame with
  | some frame => peerMessage F env frame.message
  | none => branch F env event
  head env

/-- A coordinator before it has talked to anybody. -/
def new (config : Config) (desktop : Desktop) (sink : B) (activity : A) (unlocked : Bool) (now : ℕ)
    (files : Files T) : Coordinator A B T where
  config := config
  desktop := desktop
  peerDesktop := none
  pendingLayout := none
  receiver := .new sink
  activity := activity
  physicalKeyboard := false
  sourceKeys := ∅
  capture := none
  captureEdges := []
  desktopEpoch := 0
  captureEpoch := 0
  generation := 0
  nextSession := 1
  role := .local
  localReady := unlocked
  peerReady := false
  peerTouchpadsConfigured := false
  lastHeartbeat := now
  heartbeat := 0
  rearmAt := now
  availableEdges := []
  files := files
  outbox := []
  replies := []

/-- What the coordinator does before its loop, and the first head of the loop. -/
def «open» [ActivitySource A] [InputSink B] (env : Env T) : CoordinatorM A B T Unit := do
  let s ← get
  own (validateEdges s.config.edges)
  let touchpads ← onActivity ActivitySource.prepareTouchpads
  modify fun s => { s with
    physicalKeyboard := (ActivitySource.keyboardState s.activity).isSome }
  onReceiver (Receiver.localLock (!s.localReady))
  send env (.desktop s.desktop)
  send env (.touchpads touchpads)
  send env (.lockState (!s.localReady))
  head env

/-- What happens after the loop: everything is released, and a pending layout goes out of scope. -/
def close [ActivitySource A] [InputSink B] (F : Format T D) (env : Env T) :
    CoordinatorM A B T Unit := do
  let _ ← attempt (onReceiver (Receiver.stop .disconnected))
  suspend
  let _ ← attempt (stopCapture env)
  let s ← get
  match s.pendingLayout with
  | none => return ()
  | some pending =>
      set { s with pendingLayout := none }
      dropPending F env pending

end Coordinator

/-- One device of a connection. -/
structure Node (A B T : Type) where
  coordinator : Coordinator A B T
  /-- How the loop has ended, if it has. -/
  stopped : Option Stop

namespace Node

variable [ActivitySource A] [InputSink B]

/-- The node after `m`, whose frames are yielded. -/
def after (F : Format T D) (env : Env T) (m : CoordinatorM A B T Unit) (s : Coordinator A B T) :
    Node A B T × List Frame :=
  match m { s with outbox := [] } with
  | .ok () s => (⟨s, none⟩, s.outbox)
  | .error stop s =>
      match (Coordinator.close F env).run s with
      | .ok () s' | .error _ s' => (⟨s', some stop⟩, s.outbox)

/-- One step of a device: a pass of its loop, if it still runs. -/
def step (F : Format T D) (n : Node A B T) (input : Coordinator.Event × Env T)
    (frame : Option Frame) : Node A B T × List Frame :=
  match n.stopped with
  | some _ => (n, [])
  | none => after F input.2 (Coordinator.pass F input.2 input.1 frame) n.coordinator

/-- A device that has opened its connection. -/
def connect (F : Format T D) (env : Env T) (s : Coordinator A B T) : Node A B T × List Frame :=
  after F env (Coordinator.open env) s

end Node

end NiriBridge
