import NiriBridge.Model.Pairing
import NiriBridge.Model.Control

/-!
# Model — Manager

`manager.rs`: an edit of the configuration file is prepared under a lock, committed, and kept or
rolled back.  Everything the system may refuse is an argument, so a program runs against every
pattern of failures.  A `Prepared` owns the lock: while it exists, `locked` is set.
-/

namespace NiriBridge

open Hoare

variable {T D : Type}

/-- The configuration file and what is kept beside it. -/
structure Files (T : Type) where
  config : Option T
  /-- `config.before-ui.toml`. -/
  backup : Option T
  /-- Somebody holds the edit lock. -/
  locked : Bool
  store : Store

/-- Where the system fails during one call. -/
structure Faults (T : Type) where
  openLock : Option Error := none
  /-- The lock file belongs to this user and nobody else may open it. -/
  lockRestricted : Bool := true
  read : Option Error := none
  stage : Option Error := none
  /-- A backup that cannot be written may still leave a file behind. -/
  backup : Option (Error × Option T) := none
  replace : Option Error := none

/-- What a call does with the files: it changes them, or fails. -/
abbrev FilesM (T : Type) := EStateM Error (Files T)

/-- `?` on a result that does not touch the files. -/
def check {α : Type} (r : Result α) : FilesM T α := lift id r

/-- `fs::read` of the configuration file. -/
def readConfig (faults : Faults T) : FilesM T T := do
  check (io faults.read)
  let files ← get
  check (orError "No such file or directory" files.config)

/-- `revision`: the digest of the configuration file. -/
def revision (F : Format T D) (faults : Faults T) : FilesM T String := do
  let text ← readConfig faults
  return F.digest text

/-- `lock`: the lock of the configuration, which nobody else may hold. -/
def lock (faults : Faults T) : FilesM T Unit := do
  check (io faults.openLock)
  check (ensure faults.lockRestricted "settings_permissions")
  let files ← get
  check (ensure (files.locked = false) "settings_busy")
  set { files with locked := true }

/-- `EditGuard::drop`. -/
def unlock (files : Files T) : Files T := { files with locked := false }

/-- `atomic`: the text replaces the configuration file. -/
def atomic (faults : Faults T) (text : T) : FilesM T Unit := do
  check (io faults.replace)
  modify fun files => { files with config := some text }

/-- `Prepared`: an edit that is ready to be written. -/
structure Prepared (T : Type) where
  before : T
  next : T
  beforeRevision : String
  afterRevision : String
  committed : Bool
  finished : Bool
  targetOutputs : List String
deriving DecidableEq

namespace Prepared

/-- The body of `edit`, under the lock. -/
def stage (F : Format T D) (path : Path) (faults : Faults T) (expected : String)
    (edit : D → StoreM D) : FilesM T (Prepared T) := do
  let before ← readConfig faults
  check (ensure (F.digest before = expected) "settings_conflict")
  let doc ← check (context "config_invalid" (F.parse before))
  let doc ← check (Pairing.syncSelected F doc)
  let doc ← zoom Files.store (fun files store => { files with store := store }) id (edit doc)
  let doc ← check (Pairing.syncSelected F doc)
  let next := F.render doc
  check (io faults.stage)
  let _ ← check (context "config_invalid" (Config.load F path next))
  return {
    before := before
    next := next
    beforeRevision := expected
    afterRevision := F.digest next
    committed := false
    finished := false
    targetOutputs := [] }

/-- `Prepared::edit`: under the lock, the document is read, edited and checked. -/
def edit (F : Format T D) (path : Path) (faults : Faults T) (expected : String)
    (edit : D → StoreM D) : FilesM T (Prepared T) := do
  lock faults
  match ← attempt (stage F path faults expected edit) with
  | .ok prepared => return prepared
  | .error e =>
      modify unlock
      throw e

/-- The copy of the file that the first committed edit leaves. -/
def keepBackup (faults : Faults T) (before : T) : FilesM T Unit := do
  let files ← get
  match files.backup, faults.backup with
  | some _, _ => return ()
  | none, none => set { files with backup := some before }
  | none, some (e, left) =>
      set { files with backup := left }
      throw e

/-- The outputs the edges are on are still there. -/
def checkOutputs (outputs : Result Outputs) (targets : List String) : Result Unit :=
  if targets = [] then .ok ()
  else do
    let outputs ← outputs
    ensure (∀ output ∈ targets, outputs.containsKey output) "output_unavailable"

/-- `Prepared::commit`: the new text replaces the one that was read. -/
def commit (F : Format T D) (outputs : Result Outputs) (faults : Faults T) (p : Prepared T) :
    FilesM T (Prepared T) := do
  check (checkOutputs outputs p.targetOutputs)
  let current ← revision F faults
  check (ensure (current = p.beforeRevision) "settings_conflict")
  keepBackup faults p.before
  atomic faults p.next
  return { p with committed := true }

/-- The first part of `Prepared::drop`: an edit that was committed and not finished is undone. -/
def rollback (F : Format T D) (faults : Faults T) (p : Prepared T) : FilesM T Unit := do
  if p.committed && !p.finished then
    let current ← attempt (revision F faults)
    match current with
    | .ok current => if current = p.afterRevision then atomic faults p.before else return ()
    | .error _ => return ()
  else return ()

/-- `Prepared::drop`, and the lock with it. -/
def drop (F : Format T D) (faults : Faults T) (p : Prepared T) : FilesM T Unit := do
  let _ ← attempt (rollback F faults p)
  modify unlock

/-- `Prepared::finish`: the edit is kept, and the lock goes. -/
def finish (F : Format T D) (p : Prepared T) : FilesM T Unit :=
  drop F {} { p with finished := true }

end Prepared

/-! ### The edits of the control client -/

namespace Manager

/-- The edge is on an output with a logical size, and its span is at least a pixel there. -/
def checkExtent (outputs : Outputs) (edge : EdgeConfig) : Result Unit := do
  let output ← orError "output_unavailable" (outputs.lookup edge.output)
  let extent := match edge.boundary.edge with
    | .top | .bottom => output.width
    | .left | .right => output.height
  ensure ((edge.boundary.end - edge.boundary.start) * extent ≥ 1) "layout_invalid"

/-- `prepare_edges`: the edit that gives a configuration its connections. -/
def prepareEdges (F : Format T D) (path : Path) (outputs : Result Outputs) (faults : Faults T)
    (expected : String) (edges : List EdgeConfig) : FilesM T (Prepared T) := do
  check (validateEdges edges)
  let outputs ← check outputs
  check (forEach (checkExtent outputs) edges)
  let prepared ← Prepared.edit F path faults expected fun doc =>
    return Pairing.writeEdges F doc edges
  return { prepared with targetOutputs := edges.map EdgeConfig.output }

/-- `Settings`. -/
structure Settings where
  connection : Connection
  activityDevices : List Path
  nativeTouchpads : Bool

/-- `char::is_whitespace`. -/
def isWhitespace (c : Char) : Bool :=
  let n := c.toNat
  (9 ≤ n && n ≤ 13) || n == 0x20 || n == 0x85 || n == 0xA0 || n == 0x1680 ||
    (0x2000 ≤ n && n ≤ 0x200A) || n == 0x2028 || n == 0x2029 || n == 0x202F || n == 0x205F ||
    n == 0x3000

/-- `str::rsplit_once`. -/
def rsplitOnce (c : Char) : List Char → Option (List Char × List Char)
  | [] => none
  | x :: xs =>
      match rsplitOnce c xs with
      | some (front, back) => some (x :: front, back)
      | none => if x = c then some ([], xs) else none

/-- `str::parse::<u16>`. -/
def parsePort (text : List Char) : Option ℕ :=
  let digits : List Char := match text with
    | '+' :: rest => rest
    | text => text
  let value : ℕ := digits.foldl (fun n c => 10 * n + (c.toNat - '0'.toNat)) 0
  if digits ≠ [] ∧ digits.all Char.isDigit ∧ value < 2 ^ 16 then some value else none

/-- One group of an IPv6 address that is zero. -/
def isZeroGroup (group : List Char) : Bool :=
  1 ≤ group.length && group.length ≤ 4 && group.all (· == '0')

/-- The 16-bit groups of a part of an IPv6 address all of whose bits are zero; its last group may be
an IPv4 address where `last` is set. -/
def zeroGroups (last : Bool) : List (List Char) → Option ℕ
  | [] => some 0
  | [group] =>
      if isZeroGroup group then some 1
      else if last && group == "0.0.0.0".toList then some 2
      else none
  | group :: groups => if isZeroGroup group then (zeroGroups last groups).map (· + 1) else none

/-- The part of an IPv6 address before or after `::`. -/
def zeroPart (last : Bool) (text : List Char) : Option ℕ :=
  if text = [] then some 0 else zeroGroups last (text.splitOn ':')

/-- The text around the first `::`. -/
def splitDouble : List Char → Option (List Char × List Char)
  | ':' :: ':' :: rest => some ([], rest)
  | c :: rest => (splitDouble rest).map fun p => (c :: p.1, p.2)
  | [] => none

/-- `host.parse::<IpAddr>().is_ok_and(|ip| ip.is_unspecified())`. -/
def isUnspecified (host : List Char) : Bool :=
  host == "0.0.0.0".toList ||
    match splitDouble host with
    | none => zeroGroups true (host.splitOn ':') == some 8
    | some (front, back) =>
        match zeroPart false front, zeroPart true back with
        | some m, some n => m + n ≤ 7
        | _, _ => false

/-- `transport::validate_peer_address`. -/
def validatePeerAddress (address : String) : Result Unit :=
  match rsplitOnce ':' address.toList with
  | none => .ok ()
  | some (host, _) =>
      let host := host.dropWhile (· == '[')
      let host := (host.reverse.dropWhile (· == ']')).reverse
      ensure (¬ isUnspecified host) "peer_address_required"

/-- The address that a device listens on or connects to. -/
def Settings.address (s : Settings) : String :=
  match s.connection with
  | .listen address | .connect address => address

/-- `Settings::validate`. -/
def Settings.validate (s : Settings) : Result Unit := do
  ensure (s.activityDevices ≠ [] ∧ s.activityDevices.length ≤ 32) "input_selection_empty"
  ensure (∀ p ∈ s.activityDevices, p.startsWith ⟨true, ["dev", "input"]⟩) "input_path_invalid"
  ensure (s.address.utf8ByteSize ≤ 300 ∧ ¬ s.address.toList.any isWhitespace ∧
      ∃ port ∈ (rsplitOnce ':' s.address.toList).bind fun p => parsePort p.2, 0 < port)
    "address_invalid"
  match s.connection with
  | .connect address => validatePeerAddress address
  | .listen _ => .ok ()

/-- The edit of `settings`. -/
def settings (F : Format T D) (s : Settings) (doc : D) : Result D := do
  s.validate
  let doc := Pairing.writeConnection F doc s.connection
  let doc := F.write doc (.nativeTouchpads s.nativeTouchpads)
  return F.write doc (.activityDevices s.activityDevices)

/-- The common end of `save`, `import_peer` and `select_peer`: the edit is committed and kept. -/
def install (F : Format T D) (faults : Faults T) (prepared : Prepared T) : FilesM T String := do
  match ← attempt (prepared.commit F (.ok []) faults) with
  | .ok prepared =>
      prepared.finish F
      return prepared.afterRevision
  | .error e =>
      prepared.drop F {}
      throw e

/-- A call that reads the store. -/
def inStore {α : Type} (m : StoreM α) : FilesM T α :=
  zoom Files.store (fun files store => { files with store := store }) id m

/-- `faults` are those of the edit and those of the commit. -/
def save (F : Format T D) (path : Path) (faults : Faults T × Faults T) (expected : String)
    (s : Settings) : FilesM T String := do
  let prepared ← Prepared.edit F path faults.1 expected fun doc => lift id (settings F s doc)
  install F faults.2 prepared

/-- `import_peer`: the reviewed certificate is stored, and the peer saved. -/
def importPeer (F : Format T D) (path : Path) (faults : Faults T × Faults T)
    (storeFaults : StoreFaults × StoreFaults) (candidate : Path) (expected fingerprint : String) :
    FilesM T String := do
  let info ← inStore (certificate candidate)
  check (ensure (info.fingerprint = fingerprint) "certificate_changed")
  let text ← readConfig faults.1
  let config ← check (Config.load F path text)
  let own ← inStore (certificate config.certificate)
  check (ensure (info.fingerprint ≠ own.fingerprint) "pair_same_device")
  let prepared ← Prepared.edit F path faults.1 expected fun doc => do
    let directory ← lift id (orError "config_invalid" path.parent)
    Pairing.add F storeFaults directory info doc
  install F faults.2 prepared

/-- `guards` is what taking the instance locks of a stopped program says. -/
def selectPeer (F : Format T D) (path : Path) (faults : Faults T × Faults T) (guards : Result Unit)
    (expected fingerprint : String) : FilesM T String := do
  check guards
  let prepared ← Prepared.edit F path faults.1 expected fun doc => do
    let directory ← lift id (orError "config_invalid" path.parent)
    Pairing.select F directory fingerprint doc
  install F faults.2 prepared

end Manager

end NiriBridge
