import NiriBridge.Manager.Switching

/-!
# Manager — Importing

What an import leaves, as far as the user is concerned: `Config.imported` is the whole of what
happens to the configuration, so what is asked of an import is asked of that function.

* `imported_synced`: the list and the top level are in step at once.
* `imported_again`: the second import of a certificate changes nothing.
* `import_spec`: one import, after any sequence of managed edits.
-/

namespace NiriBridge

namespace Config

variable {store : Store} {directory : Path} {c : Config} {legacy : Option CertificateInfo}
  {info : CertificateInfo}

/-- A saved peer is still saved after the migration. -/
theorem migrated_mem {p : SavedPeer} (hp : p ∈ c.pairedDevices) :
    p ∈ (c.migrated legacy).pairedDevices := by
  cases legacy with
  | none => exact hp
  | some current => exact List.mem_append_left _ hp

/-- No saved peer is touched. -/
theorem imported_of_migrated {p : SavedPeer} (hp : p ∈ (c.migrated legacy).pairedDevices) :
    p ∈ (c.imported legacy info).pairedDevices := by
  rw [imported, joined]
  split_ifs
  · exact hp
  · exact List.mem_append_left _ hp
  · exact List.mem_append_left _ hp

/-- What has been imported is saved. -/
theorem mem_imported :
    info.fingerprint ∈ (c.imported legacy info).pairedDevices.map SavedPeer.fingerprint := by
  rw [imported, joined]
  split_ifs with hmem
  · exact hmem
  · simp [adopt]
  · simp [enrolled]

/-- Once there is a saved peer, the certificate at top level is one of theirs. -/
theorem migrated_selected (hgood : c.Good) (hne : (c.migrated legacy).pairedDevices ≠ []) :
    ∃ p ∈ (c.migrated legacy).pairedDevices,
      (c.migrated legacy).peerCertificate = Pairing.storedPath p.fingerprint := by
  cases legacy with
  | none =>
      obtain ⟨-, hstored, p, hp, hsel, -⟩ := hgood.consistent hne
      exact ⟨p, hp, hsel.symm.trans (hstored p hp)⟩
  | some current => exact ⟨_, List.mem_append_right _ (List.mem_singleton_self _), rfl⟩

/-- A further peer is not selected. -/
theorem enrolled_not_selects (hgood : c.Good) (hne : (c.migrated legacy).pairedDevices ≠ [])
    (hnew : info.fingerprint ∉ (c.migrated legacy).pairedDevices.map SavedPeer.fingerprint)
    {p : SavedPeer} (hp : p.certificate = Pairing.storedPath info.fingerprint) :
    ¬ (c.migrated legacy).Selects p := by
  obtain ⟨q, hq, htop⟩ := migrated_selected hgood hne
  intro hsel
  have hcert : p.certificate = (c.migrated legacy).peerCertificate := hsel
  rw [hp, htop] at hcert
  exact hnew (List.mem_map.mpr ⟨q, hq, (Pairing.storedPath_injective hcert).symm⟩)

/-- A single certificate is adopted with the values of the configuration. -/
theorem adopt_inStep (hnone : c.pairedDevices = []) : (c.adopt info).InStep := by
  intro p hp _
  simp only [adopt, hnone, List.nil_append] at hp
  obtain rfl := List.mem_singleton.mp hp
  exact ⟨rfl, rfl⟩

/-- After the migration the selected peer has the values of the configuration. -/
theorem migrated_inStep (hgood : c.Good) (hl : c.Legacy store directory legacy) :
    (c.migrated legacy).InStep := by
  cases legacy with
  | none => exact hgood.inStep
  | some current => exact adopt_inStep hl.1

/-- **The list and the top level are in step.** -/
theorem imported_synced (hgood : c.Good) (hl : c.Legacy store directory legacy) :
    (c.imported legacy info).synced = c.imported legacy info := by
  have hstep := migrated_inStep hgood hl
  refine InStep.synced_eq ?_
  rw [imported, joined]
  split_ifs with hmem hnone
  · exact hstep
  · exact adopt_inStep hnone
  · intro p hp hsel
    rcases List.mem_append.mp hp with hp | hp
    · exact hstep p hp hsel
    · obtain rfl := List.mem_singleton.mp hp
      exact absurd hsel (enrolled_not_selects hgood hnone hmem rfl)

/-- **Importing a certificate again changes nothing**, wherever it is imported from. -/
theorem imported_again (hmem : info.fingerprint ∈ c.pairedDevices.map SavedPeer.fingerprint)
    (hl : c.Legacy store directory legacy) : c.imported legacy info = c := by
  have hne : c.pairedDevices ≠ [] := fun h => by simp [h] at hmem
  cases legacy with
  | none => exact if_pos hmem
  | some current => exact absurd hl.1 hne

/-- The single certificate of a configuration becomes a saved peer that is selected. -/
theorem imported_legacy {current : CertificateInfo} :
    ∃ p ∈ (c.imported (some current) info).pairedDevices, p.fingerprint = current.fingerprint ∧
      p.name = current.name ∧ p.connection = c.connection ∧ p.edges = c.edges ∧
      (c.imported (some current) info).Selects p := by
  refine ⟨_, imported_of_migrated (List.mem_append_right _ (List.mem_singleton_self _)), rfl,
    rfl, rfl, rfl, ?_⟩
  rw [imported, joined]
  split_ifs with hmem hnone
  · rfl
  · exact absurd hnone (by simp [migrated, adopt])
  · rfl

/-- A peer that was not there is selected only if there was none, and otherwise starts with values
of its own. -/
theorem imported_new (hgood : c.Good)
    (hnew : info.fingerprint ∉ (c.migrated legacy).pairedDevices.map SavedPeer.fingerprint)
    {p : SavedPeer} (hp : p ∈ (c.imported legacy info).pairedDevices)
    (hfingerprint : p.fingerprint = info.fingerprint)
    (hne : (c.migrated legacy).pairedDevices ≠ []) :
    ¬ (c.imported legacy info).Selects p ∧ p.connection = .listen "0.0.0.0:42420" ∧
      p.edges.map EdgeConfig.id = ["default"] := by
  rw [imported, joined, if_neg hnew, if_neg hne] at hp ⊢
  rcases List.mem_append.mp hp with hp | hp
  · exact absurd (List.mem_map.mpr ⟨p, hp, hfingerprint⟩) hnew
  · obtain rfl := List.mem_singleton.mp hp
    have hedges : (c.migrated legacy).edges ≠ [] := by
      cases legacy <;> exact hgood.edges
    refine ⟨enrolled_not_selects hgood hne hnew rfl, rfl, ?_⟩
    cases hlist : (c.migrated legacy).edges with
    | nil => exact absurd hlist hedges
    | cons edge edges => rfl

end Config

namespace Managed

section Import
variable {T D : Type} {F : Format T D} (hF : F.Lawful) {path : Path} {m : Managed T} {c : Config}
  {older : List Config} {l : ManagedLabel T} {faults : Faults T × Faults T}
  {storeFaults : StoreFaults × StoreFaults} {candidate : Path} {expected fingerprint : String}
include hF

/-- A successful import. -/
theorem Inv.import (h : m.Inv F c older)
    (hl : l.edit = .importPeer faults storeFaults candidate expected fingerprint) {files : Files T}
    (hok : m.outcome F path l = .ok () files) :
    ∃ info directory legacy, l.store.Certifies candidate info ∧ info.fingerprint = fingerprint ∧
      path.parent = some directory ∧ c.Legacy l.store directory legacy ∧
      (m.next F path l).Inv F (c.imported legacy info) m.history ∧
      ∀ p ∈ (c.imported legacy info).pairedDevices, validateEdges p.edges = .ok () := by
  obtain ⟨c', hc', heffect, -⟩ := h.next hF path l
  rcases heffect with ⟨-, e, files', herror⟩ | ⟨c₁, heffect, rfl, hvalid, -⟩
  · rw [hok] at herror
    cases herror
  · rw [hl] at heffect
    obtain ⟨info, hinfo, hreviewed, directory, hparent, legacy, hlegacy, rfl⟩ := heffect
    rw [Config.imported_synced h.good hlegacy] at hc'
    refine ⟨info, directory, legacy, hinfo, hreviewed, hparent, hlegacy, hc', fun p hp => ?_⟩
    obtain ⟨_, hpeers, -⟩ := bind_eq_ok.mp (hvalid (List.ne_nil_of_mem hp))
    exact ((Pairing.validatePeersFrom_eq_ok hpeers).1 p hp).2

/-- An import of a certificate that is saved already, whatever comes of it. -/
theorem Inv.import_again (h : m.Inv F c older)
    (hl : l.edit = .importPeer faults storeFaults candidate expected fingerprint)
    (hmem : fingerprint ∈ c.pairedDevices.map SavedPeer.fingerprint) :
    (m.next F path l).Inv F c m.history := by
  obtain ⟨c', hc', heffect, -⟩ := h.next hF path l
  rcases heffect with ⟨rfl, -⟩ | ⟨c₁, heffect, rfl, -⟩
  · exact hc'
  · rw [hl] at heffect
    obtain ⟨info, -, rfl, directory, -, legacy, hlegacy, rfl⟩ := heffect
    rwa [Config.imported_again hmem hlegacy, h.good.synced_eq] at hc'

/-- **An import**, after any sequence of managed edits of a configuration that started without saved
peers. -/
theorem import_spec {files : Files T} {t : T} {loaded : Config} (htext : files.config = some t)
    (hload : Config.load F path t = .ok loaded) (hnone : loaded.pairedDevices = [])
    (before : List (ManagedLabel T))
    (hl : l.edit = .importPeer faults storeFaults candidate expected fingerprint) :
    let m := Run.run (next F path) (start F files) before
    (∃ files', m.outcome F path l = .ok () files') →
    ∃ c c' directory, path.parent = some directory ∧ m.files.config.map F.read = some (.ok c) ∧
      (m.next F path l).files.config.map F.read = some (.ok c') ∧
      -- the reviewed certificate is saved once, and nothing saved before has changed
      (c'.pairedDevices.map SavedPeer.fingerprint).count fingerprint = 1 ∧
      (∀ p ∈ c.pairedDevices, p ∈ c'.pairedDevices) ∧
      -- a single certificate that is there is saved with the values at top level and stays selected
      (c.pairedDevices = [] → l.store.file (directory.join c.peerCertificate) ≠ none →
        ∃ current, l.store.Certifies (directory.join c.peerCertificate) current ∧
          ∃ p ∈ c'.pairedDevices, p.fingerprint = current.fingerprint ∧ p.name = current.name ∧
            p.connection = c.connection ∧ p.edges = c.edges ∧ c'.Selects p) ∧
      -- the new peer
      (∀ p ∈ c'.pairedDevices, p.fingerprint = fingerprint →
        fingerprint ∉ c.pairedDevices.map SavedPeer.fingerprint →
        (∀ current, c.pairedDevices = [] →
          l.store.Certifies (directory.join c.peerCertificate) current →
          current.fingerprint ≠ fingerprint) →
        (c'.Selects p →
          c.pairedDevices = [] ∧ l.store.file (directory.join c.peerCertificate) = none) ∧
        (¬ (c.pairedDevices = [] ∧ l.store.file (directory.join c.peerCertificate) = none) →
          p.connection = .listen "0.0.0.0:42420" ∧ validateEdges p.edges = .ok () ∧
            p.edges.map EdgeConfig.id = ["default"])) ∧
      -- the second import
      ∀ again faults storeFaults candidate expected,
        again.edit = .importPeer faults storeFaults candidate expected fingerprint →
        ((m.next F path l).next F path again).files.config.map F.read = some (.ok c') := by
  intro m ⟨_, hok⟩
  obtain ⟨c, older, hm⟩ := inv_run hF path (inv_start htext hload hnone) before
  obtain ⟨info, directory, legacy, hinfo, rfl, hparent, hlegacy, hm', hvalid⟩ := hm.import hF hl hok
  have hmem : info.fingerprint ∈ (c.imported legacy info).pairedDevices.map SavedPeer.fingerprint :=
    Config.mem_imported
  have hne : (c.imported legacy info).pairedDevices ≠ [] := fun h => by simp [h] at hmem
  refine ⟨c, c.imported legacy info, directory, hparent, hm.read, hm'.read,
    List.count_eq_one_of_mem (hm'.good.consistent hne).distinct hmem,
    fun p hp => Config.imported_of_migrated (Config.migrated_mem hp), fun hpeers hfile => ?_,
    fun p hp hp' hnew hother =>
      ?_, fun again _ _ _ _ hagain => (hm'.import_again hF hagain hmem).read⟩
  · cases legacy with
    | none => exact absurd hlegacy (not_or.mpr ⟨not_not.mpr hpeers, hfile⟩)
    | some current => exact ⟨current, hlegacy.2, Config.imported_legacy⟩
  · have hfresh :
        info.fingerprint ∉ (c.migrated legacy).pairedDevices.map SavedPeer.fingerprint := by
      cases legacy with
      | none => exact hnew
      | some current =>
          simp only [Config.migrated, Option.elim, Config.adopt, List.map_append,
            List.mem_append, not_or]
          exact ⟨hnew,
            fun hsame => hother current hlegacy.1 hlegacy.2 (List.mem_singleton.mp hsame).symm⟩
    have hfirst : (c.migrated legacy).pairedDevices = [] →
        c.pairedDevices = [] ∧ l.store.file (directory.join c.peerCertificate) = none := by
      intro hnil
      cases legacy with
      | none => exact ⟨hnil, hlegacy.resolve_left (not_not.mpr hnil)⟩
      | some current => exact absurd hnil (by simp [Config.migrated, Config.adopt])
    refine ⟨fun hsel => ?_, fun hlater => ?_⟩
    · by_contra hlater
      exact (Config.imported_new hm.good hfresh hp hp' fun h => hlater (hfirst h)).1 hsel
    · obtain ⟨-, hconnection, hids⟩ :=
        Config.imported_new hm.good hfresh hp hp' fun h => hlater (hfirst h)
      exact ⟨hconnection, hvalid p hp, hids⟩

end Import

section Sample

/-- A device with a single certificate imports another. -/
theorem import_spec_travel : ∃ c',
    ((start sampleFormat sampleFiles).next sampleFormat samplePath importTravel).files.config.map
        sampleFormat.read = some (.ok c') ∧
      (c'.pairedDevices.map SavedPeer.fingerprint).count sampleTravel = 1 := by
  obtain ⟨loaded, hload, hnone⟩ := sample_load
  have hworks : works (start sampleFormat sampleFiles) importTravel = true := by decide
  have htext : sampleFiles.config = some sampleConfig := rfl
  obtain ⟨-, c', -, -, -, hread, hcount, -⟩ :=
    import_spec sampleFormat_lawful htext hload hnone [] (l := importTravel) rfl
      (outcome_of_works hworks)
  exact ⟨c', hread, hcount⟩

/-- **Two peers at one address.**  The peer that is there listens at the default address, which the
new one is given as well. -/
theorem imported_at_an_earlier_address :
    ((start sampleFormat sampleFiles).next sampleFormat samplePath importTravel).files.config =
        some sampleBoth ∧
      ∃ earlier ∈ sampleBoth.pairedDevices, ∃ new ∈ sampleBoth.pairedDevices,
        new.fingerprint = sampleTravel ∧ earlier.fingerprint ≠ new.fingerprint ∧
          new.connection = earlier.connection :=
  ⟨sampleHome_config, sampleBoth.pairedDevices[0], by decide, sampleBoth.pairedDevices[1],
    by decide, rfl, by decide, rfl⟩

end Sample

end Managed

end NiriBridge
