import NiriBridge.Manager.Transaction
import NiriBridge.Manager.SavedPeers

/-!
# Manager — Trust

A backend builds its TLS settings once, from the certificate it finds selected when it starts.
`Fits` says that one which trusts a certificate may use a configuration; an edit that selects no
peer keeps it, `Command.Effect.fits`.  For a configuration without saved peers what counts is the
file of its single certificate, which no command writes.
-/

namespace NiriBridge

open Hoare

variable {T D : Type}

/-! ### Edits and the single certificate -/

/-- What `edit` is told to do to the document, by each of the three commands. -/
inductive Command where
  | save (settings : Manager.Settings)
  | importPeer (storeFaults : StoreFaults × StoreFaults) (info : CertificateInfo)
  | selectPeer (fingerprint : String)

namespace Command

/-- The edit of the document that a command makes. -/
def edit (F : Format T D) (path : Path) : Command → D → StoreM D
  | save settings => fun doc => lift id (Manager.settings F settings doc)
  | importPeer storeFaults info => fun doc => do
      let directory ← lift id (orError "config_invalid" path.parent)
      Pairing.add F storeFaults directory info doc
  | selectPeer fingerprint => fun doc => do
      let directory ← lift id (orError "config_invalid" path.parent)
      Pairing.select F directory fingerprint doc

/-- `save` is an edit and its installation. -/
theorem save_eq (F : Format T D) (path : Path) (faults : Faults T × Faults T) (expected : String)
    (s : Manager.Settings) :
    Manager.save F path faults expected s =
      (Prepared.edit F path faults.1 expected ((save s).edit F path) >>=
        Manager.install F faults.2) := rfl

/-- `select_peer` checks the lock; then it is an edit and its installation. -/
theorem selectPeer_eq (F : Format T D) (path : Path) (faults : Faults T × Faults T)
    (guards : Result Unit) (expected fingerprint : String) :
    Manager.selectPeer F path faults guards expected fingerprint =
      (check guards >>= fun _ =>
        Prepared.edit F path faults.1 expected ((selectPeer fingerprint).edit F path) >>=
          Manager.install F faults.2) := rfl

/-- `import_peer` checks the certificate; then it is an edit and its installation. -/
theorem importPeer_eq (F : Format T D) (path : Path) (faults : Faults T × Faults T)
    (storeFaults : StoreFaults × StoreFaults) (candidate : Path) (expected fingerprint : String) :
    Manager.importPeer F path faults storeFaults candidate expected fingerprint = (do
      let info ← Manager.inStore (certificate candidate)
      check (ensure (info.fingerprint = fingerprint) "certificate_changed")
      let text ← readConfig faults.1
      let config ← check (Config.load F path text)
      let own ← Manager.inStore (certificate config.certificate)
      check (ensure (info.fingerprint ≠ own.fingerprint) "pair_same_device")
      let prepared ← Prepared.edit F path faults.1 expected
        ((importPeer storeFaults info).edit F path)
      Manager.install F faults.2 prepared) := rfl

/-- What the edit makes of a configuration, before the selected peer is brought in step. -/
def Effect (path : Path) (store : Store) : Command → Config → Config → Prop
  | save settings, c, c' => c' = c.configured settings
  | importPeer _ info, c, c' => ∃ directory, path.parent = some directory ∧
      ∃ legacy, c.Legacy store directory legacy ∧ c' = c.imported legacy info
  | selectPeer fingerprint, c, c' => ∃ directory, path.parent = some directory ∧
      Selected fingerprint c c'

/-- What the edit of a command makes of a configuration. -/
theorem edit_yields {F : Format T D} (hF : F.Lawful) (path : Path) (k : Command) :
    Yields F (k.edit F path) fun store c c' => k.Effect path store c c' := by
  cases k with
  | save settings => exact settings_yields hF settings
  | importPeer storeFaults info =>
      exact in_directory path fun directory => add_yields hF storeFaults directory info
  | selectPeer fingerprint =>
      exact in_directory path fun directory => select_yields hF directory fingerprint

/-- Every command extends a good configuration. -/
theorem Effect.extends {path : Path} {store : Store} {k : Command} {c c' : Config}
    (h : k.Effect path store c c') (hgood : c.Good) : c.Extends c' := by
  cases k with
  | save settings =>
      obtain rfl := h
      exact ⟨⟨[], (List.append_nil _).symm, by simp⟩, hgood.edges⟩
  | importPeer _ info =>
      obtain ⟨directory, -, legacy, hl, rfl⟩ := h
      exact Config.imported_extends info hl hgood.edges
  | selectPeer fingerprint =>
      obtain ⟨-, -, p, hp, rfl⟩ := h
      exact ⟨⟨[], (List.append_nil _).symm, by simp⟩,
        hgood.peerEdges p (List.mem_of_find?_eq_some hp)⟩

end Command

theorem certificate_keeps (file path : Path) :
    Keeps (fun store : Store => store.file file) (certificate path) :=
  .bind .get fun _ => .bind (.lift _) fun _ => .lift _

theorem checkedCertificate_keeps (file : Path) (peer : SavedPeer) :
    Keeps (fun store : Store => store.file file) (Pairing.checkedCertificate peer) := by
  refine .bind (.attempt (certificate_keeps file peer.certificate)) fun r => ?_
  cases r with
  | ok info => exact .bind (.lift _) fun _ => .pure _
  | error e => exact .throw _

theorem peersDirectory_keeps (file : Path) (faults : StoreFaults) :
    Keeps (fun store : Store => store.file file) (Pairing.peersDirectory faults) := by
  intro store
  rw [Pairing.peersDirectory, wp_bind, wp_get]
  cases store.peers with
  | some restricted => exact wp_lift.mpr ⟨fun _ _ => rfl, fun _ _ => rfl⟩
  | none =>
      rw [wp_bind, wp_lift]
      exact ⟨fun _ _ => rfl, fun _ _ => rfl⟩

section Frames
variable {F : Format T D} {file directory : Path}
  (hfile : ∀ fingerprint, validFingerprint fingerprint →
    directory.join (Pairing.storedPath fingerprint) ≠ file)
include hfile

/-- Only files named after a fingerprint are written. -/
theorem storedCertificate_keeps (faults : StoreFaults) (info : CertificateInfo) (repair : Bool) :
    Keeps (fun store : Store => store.file file)
      (Pairing.storedCertificate faults directory info repair) := by
  have hwrite (hvalid : validFingerprint info.fingerprint) :
      Keeps (fun store : Store => store.file file) (Pairing.writeCertificate faults
        (directory.join (Pairing.storedPath info.fingerprint)) info) := by
    refine .bind (.lift _) fun _ => .bind (.modify fun store => ?_) fun _ => .lift _
    exact Function.update_of_ne (hfile info.fingerprint hvalid).symm ..
  have hverify : Keeps (fun store : Store => store.file file)
      (Pairing.verifyExisting (directory.join (Pairing.storedPath info.fingerprint)) info) :=
    .bind .get fun _ => .bind (.lift _) fun _ => .bind (.lift _) fun _ =>
      .bind (certificate_keeps file _) fun _ => .lift _
  refine .bind (peersDirectory_keeps file faults) fun _ => .lift_bind fun _ hvalid => ?_
  have hwrite := hwrite (ensure_eq_ok.mp hvalid)
  refine .bind .get fun store => ?_
  cases store.file (directory.join (Pairing.storedPath info.fingerprint)) with
  | none => exact .bind hwrite fun _ => .pure _
  | some held =>
      refine .bind (.lift _) fun _ => .bind (.attempt hverify) fun r => ?_
      cases r with
      | ok u => exact .pure _
      | error e => exact .ite (.bind hwrite fun _ => .pure _) (.throw e)

theorem migrate_keeps (faults : StoreFaults) (info : CertificateInfo) (doc : D) (c : Config) :
    Keeps (fun store : Store => store.file file)
    (Pairing.migrate F faults directory info doc c) := by
  refine .bind .get fun store => .ite ?_ (.pure _)
  refine .bind (certificate_keeps file _) fun current => ?_
  exact .bind (storedCertificate_keeps hfile faults current _) fun _ => .pure _

theorem enrol_keeps (faults : StoreFaults) (info : CertificateInfo) (doc : D) (c : Config) :
    Keeps (fun store : Store => store.file file) (Pairing.enrol F faults directory info doc c) := by
  unfold Pairing.enrol
  cases c.pairedDevices.find? (·.fingerprint = info.fingerprint) with
  | none =>
      refine .bind (.lift _) fun edge =>
        .bind (storedCertificate_keeps hfile faults info _) fun path => ?_
      exact .ite (.pure _) (.pure _)
  | some saved =>
      refine .bind (storedCertificate_keeps hfile faults info _) fun _ => ?_
      exact .bind (checkedCertificate_keeps file _) fun _ => .pure _

end Frames

/-- The directory of the configuration file. -/
def Path.directory (path : Path) : Path := path.parent.getD ⟨false, ["."]⟩

theorem Path.directory_eq {path parent : Path} (h : path.parent = some parent) :
    path.directory = parent := by
  rw [directory, h, Option.getD_some]

/-- The file of the single certificate is none that a command writes. -/
theorem Command.edit_keeps {F : Format T D} {path file : Path}
    (hfile : ∀ fingerprint, validFingerprint fingerprint →
      path.directory.join (Pairing.storedPath fingerprint) ≠ file) (k : Command) (doc : D) :
    Keeps (fun store : Store => store.file file) (k.edit F path doc) := by
  cases k with
  | save settings => exact .lift _
  | importPeer storeFaults info =>
      refine .lift_bind fun directory hparent => .bind (.lift _) fun c => ?_
      obtain rfl := Path.directory_eq (orError_eq_ok.mp hparent)
      exact .bind (migrate_keeps hfile _ info doc c) fun _ => enrol_keeps hfile _ info _ _
  | selectPeer fingerprint =>
      refine .bind (.lift _) fun directory =>
        .bind (.lift _) fun c => .bind (.lift _) fun peer => ?_
      exact .bind (checkedCertificate_keeps file _) fun _ => .pure _

section Frames
variable {F : Format T D} {file : Path}

theorem readConfig_keeps (faults : Faults T) : Keeps Files.store (readConfig faults) :=
  .bind (.lift _) fun _ => .bind .get fun _ => .lift _

theorem edit_keeps (path : Path) {edit : D → StoreM D}
    (he : ∀ doc, Keeps (fun store : Store => store.file file) (edit doc)) (faults : Faults T)
    (expected : String) :
    Keeps (fun s : Files T => s.store.file file) (Prepared.edit F path faults expected edit) := by
  have hread := (readConfig_keeps faults).comp fun store => store.file file
  have hlock : Keeps (fun s : Files T => s.store.file file) (lock faults) := by
    intro s
    exact wp_mono (Prepared.lock_spec faults s) (fun _ _ h => by rw [h.2]) fun _ _ h => by rw [h]
  refine .bind hlock fun _ => .bind (.attempt ?_) fun r => ?_
  · refine .bind hread fun before => .bind (.lift _) fun _ => .bind (.lift _) fun doc => ?_
    refine .bind (.lift _) fun doc => .bind ?_ fun doc => ?_
    · exact .zoom (g := fun store : Store => store.file file)
        (fun _ => rfl) (fun _ _ => rfl) (he doc)
    exact .bind (.lift _) fun doc => .bind (.lift _) fun _ => .bind (.lift _) fun _ => .pure _
  · cases r with
    | ok p => exact .pure _
    | error e => exact .bind (.modify fun _ => rfl) fun _ => .throw _

theorem atomic_keeps (faults : Faults T) (text : T) : Keeps Files.store (atomic faults text) :=
  .bind (.lift _) fun _ => .modify fun _ => rfl

theorem commit_keeps (outputs : Result Outputs) (faults : Faults T) (p : Prepared T) :
    Keeps Files.store (p.commit F outputs faults) := by
  refine .bind (.lift _) fun _ =>
    .bind (.bind (readConfig_keeps faults) fun _ => .pure _) fun _ => ?_
  refine .bind (.lift _) fun _ => .bind ?_ fun _ => .bind (atomic_keeps faults _) fun _ => .pure _
  intro s
  rw [Prepared.keepBackup, wp_bind, wp_get]
  cases s.backup with
  | some t => rfl
  | none => cases faults.backup <;> rfl

theorem drop_keeps (faults : Faults T) (p : Prepared T) : Keeps Files.store (p.drop F faults) := by
  refine .bind (.attempt (.ite (.bind (.attempt ?_) fun r => ?_) (.pure _))) fun _ =>
    .modify fun _ => rfl
  · exact .bind (readConfig_keeps faults) fun _ => .pure _
  · cases r with
    | ok current => exact .ite (atomic_keeps faults _) (.pure _)
    | error e => exact .pure _

end Frames

/-- No call of an editor writes the file, if its edits do not. -/
theorem Editors.call_keeps (F : Format T D) (path file : Path) (s : Editors T) (k : ℕ) {a : Act T D}
    (ha : ∀ faults expected edit, a = .edit faults expected edit →
      ∀ doc, Keeps (fun store : Store => store.file file) (edit doc)) :
    (s.call F path k a).files.store.file file = s.files.store.file file := by
  have hcommit :=
    fun outputs faults p =>
      (commit_keeps (F := F) outputs faults p).comp fun store => store.file file
  have hdrop := fun faults p => (drop_keeps (F := F) faults p).comp fun store => store.file file
  cases a with
  | edit faults expected edit =>
      -- only the edit itself touches the store; the others work on the configuration
      have hedit := edit_keeps path (F := F) (ha faults expected edit rfl) faults expected
      cases hk : s.prepared k with
      | some p => simp only [call, hk]
      | none =>
          cases hrun : Prepared.edit F path faults expected edit s.files with
          | ok p files =>
              simp only [call, hk, hrun]
              exact hedit.of_ok hrun
          | error e files =>
              simp only [call, hk, hrun]
              exact hedit.of_error hrun
  | commit outputs faults =>
      cases hk : s.prepared k with
      | none => simp only [call, hk]
      | some p =>
          cases hrun : p.commit F outputs faults s.files with
          | ok p' files =>
              simp only [call, hk, hrun]
              exact (hcommit outputs faults p).of_ok hrun
          | error e files =>
              simp only [call, hk, hrun]
              exact (hcommit outputs faults p).of_error hrun
  | finish =>
      cases hk : s.prepared k with
      | none => simp only [call, hk]
      | some p =>
          cases hrun : p.finish F s.files with
          | ok u files =>
              simp only [call, hk, hrun]
              exact (hdrop {} _).of_ok hrun
          | error e files =>
              simp only [call, hk, hrun]
              exact (hdrop {} _).of_error hrun
  | drop faults =>
      cases hk : s.prepared k with
      | none => simp only [call, hk]
      | some p =>
          cases hrun : p.drop F faults s.files with
          | ok u files =>
              simp only [call, hk, hrun]
              exact (hdrop faults p).of_ok hrun
          | error e files =>
              simp only [call, hk, hrun]
              exact (hdrop faults p).of_error hrun

/-! ### What a backend may use -/

/-- A backend that trusts the certificate with fingerprint `z` may use the configuration.  `held` is
the file of the single certificate. -/
structure Config.Fits (load : CertificateFile → Result String)
    (held : Option CertificateFile) (z : String) (c : Config) : Prop where
  single : c.pairedDevices = [] → ∃ file, held = some file ∧ load file = .ok z
  selected : ∀ p ∈ c.pairedDevices, c.Selects p → p.fingerprint = z

/-- A configuration that the commands have made from one whose single certificate was
`certificate`. -/
structure Config.Settled (certificate : Path) (c : Config) : Prop where
  good : c.Good
  single : c.pairedDevices = [] → c.peerCertificate = certificate

namespace Config

/-- A configuration that fits still does when it is synchronized. -/
theorem Fits.synced {load : CertificateFile → Result String}
    {held : Option CertificateFile} {z : String} {c : Config} (h : c.Fits load held z) :
    c.synced.Fits load held z where
  single hnone := h.single (List.map_eq_nil_iff.mp hnone)
  selected := by
    intro p hp hsel
    obtain ⟨q, hq, rfl⟩ := List.mem_map.mp hp
    rw [refresh_fingerprint]
    exact h.selected q hq ((refresh_certificate c q).symm.trans hsel)

/-- A further peer is not the selected one. -/
theorem Fits.enrolled {load : CertificateFile → Result String}
    {held : Option CertificateFile} {z : String} {c : Config} (h : c.Fits load held z)
    {p : SavedPeer} (hp : p ∈ c.pairedDevices) (hsel : c.Selects p)
    (hstored : p.certificate = Pairing.storedPath p.fingerprint) {info : CertificateInfo}
    (hnew : info.fingerprint ∉ c.pairedDevices.map SavedPeer.fingerprint) :
    (c.enrolled info).Fits load held z where
  single hnone := absurd hnone (List.append_ne_nil_of_right_ne_nil _ (List.cons_ne_nil _ _))
  selected := by
    intro q hq hsel'
    rcases List.mem_append.mp hq with hq | hq
    · exact h.selected q hq hsel'
    · obtain rfl := List.mem_singleton.mp hq
      have heq : Pairing.storedPath info.fingerprint = Pairing.storedPath p.fingerprint :=
        hsel'.trans (hsel.symm.trans hstored)
      exact absurd (List.mem_map.mpr ⟨p, hp, (Pairing.storedPath_injective heq).symm⟩) hnew

/-- An import of a configuration without saved peers saves the one it was used with, if there is
one. -/
theorem Fits.imported {load : CertificateFile → Result String}
    {held : Option CertificateFile} {z : String}
    (hload : ∀ file info, file.contents = .ok info → load file = .ok info.fingerprint)
    {store : Store} {directory : Path} {c : Config} (h : c.Fits load held z) (hgood : c.Good)
    (hheld : c.pairedDevices = [] → store.file (directory.join c.peerCertificate) = held)
    {legacy : Option CertificateInfo} (hl : c.Legacy store directory legacy)
    (info : CertificateInfo) :
    (c.imported legacy info).Fits load held z := by
  -- the import adds at most a peer that is not selected
  suffices hmigrated : (c.migrated legacy).Fits load held z ∧
      ∃ p ∈ (c.migrated legacy).pairedDevices, (c.migrated legacy).Selects p ∧
        p.certificate = Pairing.storedPath p.fingerprint by
    obtain ⟨hfits, p, hp, hsel, hstored⟩ := hmigrated
    rw [Config.imported, joined]
    split_ifs with hmem hfirst
    · exact hfits
    · exact absurd hp (by simp [hfirst])
    · exact hfits.enrolled hp hsel hstored hmem
  cases legacy with
  | none =>
      have hpeers : c.pairedDevices ≠ [] := by
        intro hnone
        obtain ⟨file, hfile, -⟩ := h.single hnone
        have habsent := hl.resolve_left (not_not_intro hnone)
        rw [hheld hnone, hfile] at habsent
        cases habsent
      obtain ⟨-, hstored, p, hp, hsel, -⟩ := hgood.consistent hpeers
      exact ⟨h, p, hp, hsel, hstored p hp⟩
  | some current =>
      obtain ⟨hnone, file, hfile, hcurrent⟩ := hl
      obtain ⟨file', hfile', hz⟩ := h.single hnone
      obtain rfl : file = file' := Option.some.inj (hfile.symm.trans ((hheld hnone).trans hfile'))
      have hsame : current.fingerprint = z :=
        Except.ok.inj ((hload file current hcurrent).symm.trans hz)
      refine ⟨⟨fun h => ?_, fun p hp _ => ?_⟩, _,
        List.mem_append_right _ (List.mem_singleton_self _), rfl, rfl⟩
      · exact absurd h (List.append_ne_nil_of_right_ne_nil _ (List.cons_ne_nil _ _))
      · rw [migrated, Option.elim_some, adopt, hnone] at hp
        obtain rfl := List.mem_singleton.mp hp
        exact hsame

/-- After an import there is a saved peer. -/
theorem imported_ne_nil (c : Config) (legacy : Option CertificateInfo) (info : CertificateInfo) :
    (c.imported legacy info).pairedDevices ≠ [] := by
  rw [imported, joined]
  split_ifs with hmem
  · intro hnone
    simp [hnone] at hmem
  · exact List.append_ne_nil_of_right_ne_nil _ (List.cons_ne_nil _ _)
  · exact List.append_ne_nil_of_right_ne_nil _ (List.cons_ne_nil _ _)

end Config

namespace Command

/-- An edit that is not a selection leaves a configuration that the same backends may use. -/
theorem Effect.fits {load : CertificateFile → Result String}
    {held : Option CertificateFile} {z : String}
    (hload : ∀ file info, file.contents = .ok info → load file = .ok info.fingerprint)
    {path certificate : Path} {store : Store} {k : Command} {c c' : Config}
    (h : k.Effect path store c c') (hk : ∀ fingerprint, k ≠ selectPeer fingerprint)
    (hs : c.Settled certificate) (hheld : store.file (path.directory.join certificate) = held)
    (hfits : c.Fits load held z) :
    c'.Fits load held z := by
  cases k with
  | save settings =>
      obtain rfl := h
      exact ⟨hfits.single, hfits.selected⟩
  | importPeer storeFaults info =>
      obtain ⟨directory, hdirectory, legacy, hl, rfl⟩ := h
      obtain rfl := Path.directory_eq hdirectory
      exact hfits.imported hload hs.good (fun hnone => hs.single hnone ▸ hheld) hl info
  | selectPeer fingerprint => exact absurd rfl (hk fingerprint)

/-- As long as no peer is saved the single certificate stays where it is. -/
theorem Effect.single {path certificate : Path} {store : Store} {k : Command} {c c' : Config}
    (h : k.Effect path store c c') (hs : c.Settled certificate) (hnone : c'.pairedDevices = []) :
    c'.peerCertificate = certificate := by
  cases k with
  | save settings =>
      obtain rfl := h
      exact hs.single hnone
  | importPeer storeFaults info =>
      obtain ⟨-, -, legacy, -, rfl⟩ := h
      exact absurd hnone (c.imported_ne_nil legacy info)
  | selectPeer fingerprint =>
      obtain ⟨-, -, p, hp, rfl⟩ := h
      exact absurd (List.mem_of_find?_eq_some hp) (by simp [show c.pairedDevices = [] from hnone])

end Command

/-! ### Loaded configurations -/

namespace Config

/-- The configuration with its paths taken from the directory of the file. -/
def resolved (path : Path) (c : Config) : Config :=
  { c with
    sourcePath := some path
    certificate := path.directory.join c.certificate
    privateKey := path.directory.join c.privateKey
    peerCertificate := path.directory.join c.peerCertificate
    pairedDevices := c.pairedDevices.map (SavedPeer.resolve path.directory) }

/-- A configuration that is loaded is the one that is read, with its paths resolved. -/
theorem load_eq_ok {F : Format T D} {path : Path} {text : T} {d : Config}
    (h : load F path text = .ok d) :
    ∃ c, F.read text = .ok c ∧ d = c.resolved path ∧ validateEdges c.edges = .ok () := by
  obtain ⟨c, hread, h⟩ := bind_eq_ok.mp h
  obtain ⟨_, -, h⟩ := bind_eq_ok.mp h
  obtain ⟨_, hedges, h⟩ := bind_eq_ok.mp h
  obtain ⟨_, -, h⟩ := bind_eq_ok.mp h
  exact ⟨c, hread, (Except.ok.inj h).symm, hedges⟩

/-- Stored certificates of different fingerprints are different files. -/
theorem join_storedPath_injective (directory : Path) :
    Function.Injective fun fingerprint => directory.join (Pairing.storedPath fingerprint) := by
  intro a b h
  have hcomponents := List.append_cancel_left (congrArg Path.components h)
  exact Pairing.storedPath_injective (congrArg (Path.mk false) hcomponents)

/-- The search for the selected peer finds the only one. -/
theorem Good.find_selected {c : Config} (h : c.Good) (path : Path) (hne : c.pairedDevices ≠ []) :
    ∃ p ∈ c.pairedDevices, c.Selects p ∧ (∀ q ∈ c.pairedDevices, c.Selects q → q = p) ∧
      (c.resolved path).pairedDevices.find? (·.certificate = (c.resolved path).peerCertificate) =
        some (p.resolve path.directory) ∧
      p.name = c.peerName ∧ p.connection = c.connection ∧ p.edges = c.edges := by
  obtain ⟨hdistinct, hstored, p, hp, hsel, hvalues⟩ := h.consistent hne
  refine ⟨p, hp, hsel, fun q hq hsel' => ?_, ?_, hvalues⟩
  · exact List.inj_on_of_nodup_map (certificates_nodup hdistinct hstored) hq hp
      (hsel'.trans hsel.symm)
  obtain ⟨r, hr⟩ : ∃ r, (c.resolved path).pairedDevices.find?
      (·.certificate = (c.resolved path).peerCertificate) = some r := by
    refine Option.isSome_iff_exists.mp (List.find?_isSome.mpr ⟨p.resolve path.directory, ?_, ?_⟩)
    · exact List.mem_map_of_mem hp
    · exact decide_eq_true (congrArg path.directory.join hsel)
  obtain ⟨q, hq, rfl⟩ := List.mem_map.mp (List.mem_of_find?_eq_some hr)
  have hfound := List.find?_some hr
  have hcert : path.directory.join q.certificate = path.directory.join c.peerCertificate :=
    of_decide_eq_true hfound
  rw [hstored q hq, ← hsel, hstored p hp] at hcert
  rw [hr, List.inj_on_of_nodup_map hdistinct hq hp (join_storedPath_injective _ hcert)]

/-- What a backend that starts with the configuration trusts. -/
theorem fits_of_selectedCertificate {load : CertificateFile → Result String}
    {held : Option CertificateFile} {z : String} {path certificate : Path}
    {store : Store} {c : Config} (hs : c.Settled certificate)
    (hheld : store.file (path.directory.join certificate) = held)
    (h : Pairing.selectedCertificate load store (c.resolved path) = .ok z) :
    c.Fits load held z := by
  obtain ⟨file, hfile, h⟩ := bind_eq_ok.mp h
  obtain ⟨fingerprint, hload, h⟩ := bind_eq_ok.mp h
  split_ifs at h with hnone
  · obtain rfl := Except.ok.inj h
    have hnone' : c.pairedDevices = [] := List.map_eq_nil_iff.mp hnone
    refine ⟨fun _ => ⟨file, ?_, hload⟩, by simp [hnone']⟩
    rw [← hheld, ← hs.single hnone']
    exact orError_eq_ok.mp hfile
  · have hne : c.pairedDevices ≠ [] := fun h => hnone (List.map_eq_nil_iff.mpr h)
    obtain ⟨p, -, -, honly, hfind, -⟩ := hs.good.find_selected path hne
    obtain ⟨selected, hselected, h⟩ := bind_eq_ok.mp h
    obtain ⟨_, hsame, h⟩ := bind_eq_ok.mp h
    obtain rfl := Except.ok.inj h
    obtain rfl : _ = selected := Option.some.inj (hfind.symm.trans (orError_eq_ok.mp hselected))
    refine ⟨fun h => absurd h hne, fun q hq hsel => ?_⟩
    rw [honly q hq hsel]
    exact (ensure_eq_ok.mp hsame).symm

/-- The configuration of an attempt: the selected peer is the trusted one, and the values at top
level are its own. -/
def Trusts (z : String) (d : Config) : Prop :=
  d.pairedDevices ≠ [] → ∃ p, d.pairedDevices.find? (·.certificate = d.peerCertificate) = some p ∧
    p.fingerprint = z ∧ p.name = d.peerName ∧ p.connection = d.connection ∧ p.edges = d.edges

/-- A good configuration that fits is trusted. -/
theorem Fits.trusts {load : CertificateFile → Result String}
    {held : Option CertificateFile} {z : String} {c : Config} (h : c.Fits load held z)
    (hgood : c.Good) (path : Path) : (c.resolved path).Trusts z := by
  intro hne
  have hne' : c.pairedDevices ≠ [] := fun h => hne (List.map_eq_nil_iff.mpr h)
  obtain ⟨p, hp, hsel, -, hfind, hvalues⟩ := hgood.find_selected path hne'
  exact ⟨_, hfind, h.selected p hp hsel, hvalues⟩

end Config

end NiriBridge
