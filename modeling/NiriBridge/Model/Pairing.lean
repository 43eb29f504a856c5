import NiriBridge.Model.Config
import NiriBridge.Support.Hoare
import Mathlib.Logic.Function.Basic

/-!
# Model — Pairing

`pairing.rs`: the peers a configuration remembers, each with the connection and the edges it was
last used with, and the certificates stored for them.

`Format` is what the program takes from `toml`, `toml_edit` and `ring`.  A document is written
through entries: which tables and keys an entry becomes, and the comments kept around them, is the
format's.
-/

namespace NiriBridge

open Hoare

/-- A value the program writes into a document. -/
inductive Entry where
  | peerName (name : String)
  | peerCertificate (path : Path)
  | connection (connection : Connection)
  | edges (edges : List EdgeConfig)
  | activityDevices (paths : List Path)
  | nativeTouchpads (enabled : Bool)
  | pairedDevices (peers : List SavedPeer)

/-- A configuration with the value written. -/
def Entry.set : Entry → Config → Config
  | .peerName v, c => { c with peerName := v }
  | .peerCertificate v, c => { c with peerCertificate := v }
  | .connection v, c => { c with connection := v }
  | .edges v, c => { c with edges := v }
  | .activityDevices v, c => { c with activityDevices := v }
  | .nativeTouchpads v, c => { c with nativeTouchpads := v }
  | .pairedDevices v, c => { c with pairedDevices := v }

/-- `toml_edit` writes an empty array of tables as nothing, and `edges` has no default. -/
def Entry.Readable : Entry → Prop
  | .edges v => v ≠ []
  | .pairedDevices v => ∀ p ∈ v, p.edges ≠ []
  | _ => True

/-- The text `T` of a file and the document `D` it is parsed into. -/
structure Format (T D : Type) where
  /-- `manager::digest`: SHA-256, in hexadecimal. -/
  digest : T → String
  /-- `str::parse::<DocumentMut>`. -/
  parse : T → Result D
  /-- `DocumentMut::to_string`. -/
  render : D → T
  /-- `toml::from_str::<Config>`. -/
  read : T → Result Config
  write : D → Entry → D

/-- The format reads back what was written. -/
structure Format.Lawful {T D : Type} (F : Format T D) : Prop where
  read_parse : ∀ {t d}, F.parse t = .ok d → F.read (F.render d) = F.read t
  read_write : ∀ {d c} {e : Entry}, e.Readable → F.read (F.render d) = .ok c →
    F.read (F.render (F.write d e)) = .ok (e.set c)

/-! ### The checks -/

/-- `valid_fingerprint`. -/
def validFingerprint (value : String) : Bool :=
  value.utf8ByteSize == 64 && value.toList.all fun c => c.isDigit || ('a' ≤ c && c ≤ 'f')

namespace Pairing

/-- The checks of one saved peer, given the peers before it. -/
def validatePeer (previous : List SavedPeer) (peer : SavedPeer) : Result Unit := do
  ensure (validFingerprint peer.fingerprint ∧
      peer.fingerprint ∉ previous.map SavedPeer.fingerprint ∧
      peer.name ≠ "" ∧ peer.name.utf8ByteSize ≤ 253 ∧ ¬ peer.name.toList.any isControl)
    "config_invalid"
  validateEdges peer.edges

/-- The loop of `validate`; `previous` are the peers it has passed. -/
def validatePeersFrom (previous : List SavedPeer) : List SavedPeer → Result Unit
  | [] => .ok ()
  | peer :: peers => do
      validatePeer previous peer
      validatePeersFrom (previous ++ [peer]) peers

/-- `validate`: every saved peer, and that one of them is selected. -/
def validate (config : Config) : Result Unit := do
  validatePeersFrom [] config.pairedDevices
  ensure (config.pairedDevices = [] ∨
      ∃ p ∈ config.pairedDevices,
        p.certificate = config.peerCertificate ∧ p.name = config.peerName)
    "config_invalid"

end Pairing

/-- `if path.is_relative() { parent.join(path) }`. -/
def SavedPeer.resolve (parent : Path) (peer : SavedPeer) : SavedPeer :=
  { peer with certificate := parent.join peer.certificate }

/-- `Config::load`: a configuration with its paths resolved, once it has been checked. -/
def Config.load {T D : Type} (F : Format T D) (path : Path) (text : T) : Result Config := do
  let value ← F.read text
  let parent := path.parent.getD ⟨false, ["."]⟩
  let value := { value with
    sourcePath := some path
    certificate := parent.join value.certificate
    privateKey := parent.join value.privateKey
    peerCertificate := parent.join value.peerCertificate
    pairedDevices := value.pairedDevices.map (SavedPeer.resolve parent) }
  Pairing.validate value
  validateEdges value.edges
  ensure (value.activityDevices ≠ [] ∧ value.activityDevices.length ≤ 32)
    "Configure physical input devices for takeover detection"
  return value

/-! ### Certificates -/

/-- `manager::CertificateInfo`, the part an import reads. -/
structure CertificateInfo where
  name : String
  fingerprint : String
deriving DecidableEq, Repr

/-- A file that may hold a certificate. -/
structure CertificateFile where
  /-- A regular file of this user that nobody else may open. -/
  restricted : Bool
  /-- What `manager::certificate` makes of its contents. -/
  contents : Result CertificateInfo

/-- The files around the configuration. -/
structure Store where
  /-- The directory `peers`, if it is there: whether only this user may open it. -/
  peers : Option Bool
  file : Path → Option CertificateFile

/-- Where writing to the store fails. -/
structure StoreFaults where
  directory : Option Error := none
  write : Option Error := none
  sync : Option Error := none

/-- What a call does with the stored certificates: it changes them, or fails. -/
abbrev StoreM := EStateM Error Store

/-- `manager::certificate`. -/
def certificate (path : Path) : StoreM CertificateInfo := do
  let store ← get
  let file ← lift id (orError "No such file or directory" (store.file path))
  lift id file.contents

namespace Pairing

/-- `selected_certificate`, the fingerprint of what it returns.  `load` is that of the certificate
which `transport::load_certificate` reads from a file. -/
def selectedCertificate (load : CertificateFile → Result String) (store : Store) (config : Config) :
    Result String := do
  let file ← orError "Cannot read the certificate" (store.file config.peerCertificate)
  let fingerprint ← load file
  if config.pairedDevices = [] then return fingerprint
  else
    let selected ← orError "config_invalid"
      (config.pairedDevices.find? (·.certificate = config.peerCertificate))
    ensure (fingerprint = selected.fingerprint) "peer_certificate_changed"
    return fingerprint

/-- `checked_certificate`: the certificate of a saved peer, which has to be the one that was saved.
-/
def checkedCertificate (peer : SavedPeer) : StoreM CertificateInfo := do
  match ← attempt (certificate peer.certificate) with
  | .error e => throw ("peer_certificate_changed" :: e)
  | .ok info =>
      lift id (ensure (info.fingerprint = peer.fingerprint ∧ info.name = peer.name)
        "peer_certificate_changed")
      return info

/-- `Summary`: what is shown of a saved peer. -/
structure Summary where
  name : String
  fingerprint : String
  expires : String
  active : Bool
deriving DecidableEq, Repr

/-- The summary of one saved peer; a damaged record stays visible. -/
def summary (expires : CertificateInfo → String) (config : Config) (peer : SavedPeer) :
    StoreM Summary := do
  let info ← attempt (checkedCertificate peer)
  return {
    name := peer.name
    fingerprint := peer.fingerprint
    expires := info.toOption.elim "" expires
    active := peer.certificate = config.peerCertificate }

/-- The loop of `summaries`. -/
def summariesOf (expires : CertificateInfo → String) (config : Config) :
    List SavedPeer → StoreM (List Summary)
  | [] => pure []
  | peer :: peers => do
      let first ← summary expires config peer
      let rest ← summariesOf expires config peers
      return first :: rest

/-- `summaries`; `expires` is when a certificate expires. -/
def summaries (expires : CertificateInfo → String) (config : Config) : StoreM (List Summary) := do
  if config.pairedDevices = [] then
    match ← attempt (certificate config.peerCertificate) with
    | .ok info =>
        return [{ name := info.name, fingerprint := info.fingerprint, expires := expires info,
                  active := true }]
    | .error _ => return []
  else summariesOf expires config config.pairedDevices

/-- The name a peer's certificate is stored under, relative to the configuration. -/
def storedPath (fingerprint : String) : Path := ⟨false, ["peers", fingerprint ++ ".pem"]⟩

/-- The directory of the stored certificates, which is made if it is missing. -/
def peersDirectory (faults : StoreFaults) : StoreM Unit := do
  let store ← get
  match store.peers with
  | some restricted => lift id (ensure restricted "settings_permissions")
  | none =>
      lift id (io faults.directory)
      set { store with peers := some true }

/-- `verify_existing`. -/
def verifyExisting (destination : Path) (info : CertificateInfo) : StoreM Unit := do
  let store ← get
  let file ← lift id (orError "No such file or directory" (store.file destination))
  lift id (ensure file.restricted "settings_permissions")
  let current ← certificate destination
  lift id (ensure (current.fingerprint = info.fingerprint) "peer_certificate_changed")

/-- Writes the certificate next to its destination, then moves it there. -/
def writeCertificate (faults : StoreFaults) (destination : Path) (info : CertificateInfo) :
    StoreM Unit := do
  lift id (io faults.write)
  modify fun store => { store with
    file := Function.update store.file destination (some ⟨true, .ok info⟩) }
  lift id (io faults.sync)

/-- `stored_certificate`: the certificate is stored under its fingerprint, unless it is there
already. -/
def storedCertificate (faults : StoreFaults) (directory : Path) (info : CertificateInfo)
    (repair : Bool) : StoreM Path := do
  peersDirectory faults
  lift id (ensure (validFingerprint info.fingerprint) "certificate_invalid")
  let relative := storedPath info.fingerprint
  let destination := directory.join relative
  let store ← get
  match store.file destination with
  | some file =>
      lift id (ensure file.restricted "settings_permissions")
      match ← attempt (verifyExisting destination info) with
      | .ok () => return relative
      | .error e =>
          if repair then
            writeCertificate faults destination info
            return relative
          else throw e
  | none =>
      writeCertificate faults destination info
      return relative

/-! ### The edits -/

section Edits
variable {T D : Type} (F : Format T D)

/-- `raw_config`. -/
def rawConfig (doc : D) : Result Config := context "config_invalid" (F.read (F.render doc))

/-- `store_profiles`. -/
def storeProfiles (doc : D) (peers : List SavedPeer) : D := F.write doc (.pairedDevices peers)

/-- `write_connection`. -/
def writeConnection (doc : D) (connection : Connection) : D := F.write doc (.connection connection)

/-- `manager::write_edges`. -/
def writeEdges (doc : D) (edges : List EdgeConfig) : D := F.write doc (.edges edges)

/-- The first peer stored under `certificate` gets the top-level connection and edges. -/
def updateSelected (config : Config) : List SavedPeer → Option (List SavedPeer)
  | [] => none
  | peer :: peers =>
      if peer.certificate = config.peerCertificate then
        some ({ peer with connection := config.connection, edges := config.edges } :: peers)
      else (updateSelected config peers).map (peer :: ·)

/-- `sync_selected`: the selected peer keeps the connection and the edges that the configuration
has. -/
def syncSelected (doc : D) : Result D := do
  let config ← rawConfig F doc
  if config.pairedDevices = [] then return doc
  else
    validate config
    let peers ← orError "config_invalid" (updateSelected config config.pairedDevices)
    return storeProfiles F doc peers

/-- `activate`: the values of a saved peer become those of the configuration. -/
def activate (doc : D) (peer : SavedPeer) : D :=
  let doc := F.write doc (.peerName peer.name)
  let doc := F.write doc (.peerCertificate peer.certificate)
  let doc := writeConnection F doc peer.connection
  writeEdges F doc peer.edges

/-- The first part of `add`: a configuration with a single certificate becomes one with a saved
peer. -/
def migrate (faults : StoreFaults) (directory : Path) (info : CertificateInfo) (doc : D)
    (config : Config) : StoreM (D × Config) := do
  let old := directory.join config.peerCertificate
  let store ← get
  if config.pairedDevices = [] ∧ (store.file old).isSome then
    let current ← certificate old
    let path ← storedCertificate faults directory current
      (decide (current.fingerprint = info.fingerprint))
    let peer : SavedPeer := {
      fingerprint := current.fingerprint
      name := current.name
      certificate := path
      connection := config.connection
      edges := config.edges }
    return (activate F doc peer, { config with pairedDevices := config.pairedDevices ++ [peer] })
  else return (doc, config)

/-- The second part of `add`: a peer that is not saved yet, or another look at one that is. -/
def enrol (faults : StoreFaults) (directory : Path) (info : CertificateInfo) (doc : D)
    (config : Config) : StoreM D := do
  match config.pairedDevices.find? (·.fingerprint = info.fingerprint) with
  | none =>
      let edge ← lift id (orError "layout_invalid" config.edges.head?)
      let path ← storedCertificate faults directory info true
      if config.pairedDevices = [] then
        let peer : SavedPeer := {
          fingerprint := info.fingerprint
          name := info.name
          certificate := path
          connection := config.connection
          edges := config.edges }
        return storeProfiles F (activate F doc peer) [peer]
      else
        let peer : SavedPeer := {
          fingerprint := info.fingerprint
          name := info.name
          certificate := path
          connection := .listen "0.0.0.0:42420"
          edges := [{ edge with id := "default" }] }
        return storeProfiles F doc (config.pairedDevices ++ [peer])
  | some saved =>
      let _ ← storedCertificate faults directory info true
      let _ ← checkedCertificate (saved.resolve directory)
      return storeProfiles F doc config.pairedDevices

/-- `add`. -/
def add (faults : StoreFaults × StoreFaults) (directory : Path) (info : CertificateInfo) (doc : D) :
    StoreM D := do
  let config ← lift id (rawConfig F doc)
  let (doc, config) ← migrate F faults.1 directory info doc config
  enrol F faults.2 directory info doc config

/-- `select`. -/
def select (directory : Path) (fingerprint : String) (doc : D) : StoreM D := do
  let config ← lift id (rawConfig F doc)
  let peer ← lift id (orError "peer_not_found"
    (config.pairedDevices.find? (·.fingerprint = fingerprint)))
  let _ ← checkedCertificate (peer.resolve directory)
  return activate F doc peer

end Edits

end Pairing

end NiriBridge
