import NiriBridge.Manager.Profiles
import NiriBridge.Manager.Prepared
import NiriBridge.Support.Run

/-!
# Manager — Saved peers

`saved_peers` follows a configuration through any sequence of managed edits.  The history of what
the file has read as, newest first, says when a peer was last selected.
-/

namespace NiriBridge

open Hoare

variable {T D : Type}

/-! ### Edits of the file -/

/-- The file reads as what an edit has made of `c`, which has been checked, with the selected peer
in step. -/
def Became (F : Format T D) (R : Config → Config → Prop) (c : Config) (text : Option T) : Prop :=
  ∃ t c', text = some t ∧ F.read t = .ok c'.synced ∧ c'.synced.Good ∧
    (c'.pairedDevices ≠ [] → Pairing.validate c' = .ok ()) ∧ R c c'

/-- The certificate in `candidate` is imported, and is the one that has been reviewed. -/
def Imports (path : Path) (candidate : Path) (fingerprint : String) (store : Store)
    (c c' : Config) : Prop :=
  ∃ info, store.Certifies candidate info ∧ info.fingerprint = fingerprint ∧
    ∃ directory, path.parent = some directory ∧ ∃ legacy, c.Legacy store directory legacy ∧
      c' = c.imported legacy info

/-- The saved peer with the fingerprint is selected. -/
def Selected (fingerprint : String) (c c' : Config) : Prop :=
  ∃ p, c.pairedDevices.find? (·.fingerprint = fingerprint) = some p ∧ c' = c.activated p

section Files
variable {F : Format T D} (hF : F.Lawful) (path : Path) {s : Files T} {t : T} {c : Config}
  (hconfig : s.config = some t) (hread : F.read t = .ok c) (hgood : c.Good)
  {R : Store → Config → Config → Prop}
include hF hconfig hread hgood

/-- What is staged is the configuration that the edit makes. -/
theorem stage_became {edit : D → StoreM D} (he : Yields F edit R)
    (hext : ∀ c', R s.store c c' → c.Extends c') (faults : Faults T) (expected : String) :
    wp (Prepared.stage F path faults expected edit) s
      (fun p _ => Became F (R s.store) c (some p.next)) (fun _ _ => True) := by
  rw [Prepared.stage, wp_bind]
  refine wp_mono (readConfig_spec faults s) ?_ fun _ _ _ => trivial
  rintro before _ ⟨rfl, -, hbefore⟩
  obtain rfl : t = before := Option.some.inj (hconfig.symm.trans hbefore)
  have hstored : ∀ p ∈ c.pairedDevices, p.certificate = Pairing.storedPath p.fingerprint :=
    fun p hp => (hgood.consistent (List.ne_nil_of_mem hp)).stored p hp
  simp only [wp_bind, wp_check, wp_zoom]
  refine ⟨fun _ _ => ⟨fun doc hparse => ⟨fun doc₁ hsync => ?_, fun _ _ => trivial⟩,
    fun _ _ => trivial⟩, fun _ _ => trivial⟩
  have hdoc : Reads F doc c := (hF.read_parse (context_eq_ok.mp hparse)).trans hread
  have hdoc₁ : Reads F doc₁ c := by
    rw [← hgood.synced_eq]
    exact (Pairing.syncSelected_spec hF hdoc hstored hgood.edges hsync).1
  refine wp_mono (he doc₁ c _ hdoc₁ hgood) ?_ fun _ _ _ => trivial
  rintro doc₂ store ⟨c₂, hdoc₂, hR⟩
  refine ⟨fun doc₃ hsync => ⟨fun _ _ => ⟨fun _ _ => ?_, fun _ _ => trivial⟩, fun _ _ => trivial⟩,
    fun _ _ => trivial⟩
  have hextends := hext c₂ hR
  obtain ⟨hdoc₃, hvalid⟩ :=
    Pairing.syncSelected_spec hF hdoc₂ (hextends.stored hgood) hextends.edges hsync
  exact ⟨_, _, rfl, hdoc₃, hextends.good hgood hvalid, hvalid, hR⟩

/-- An edit as it is prepared, and the file it leaves alone. -/
theorem edit_became {edit : D → StoreM D} (he : Yields F edit R)
    (hext : ∀ c', R s.store c c' → c.Extends c') (faults : Faults T) (expected : String) :
    wp (Prepared.edit F path faults expected edit) s
      (fun p s' =>
        (p.Fresh F expected s ∧ s'.config = s.config) ∧ Became F (R s.store) c (some p.next))
      (fun _ s' => s'.config = s.config) := by
  have hbecame : wp (Prepared.edit F path faults expected edit) s
      (fun p _ => Became F (R s.store) c (some p.next)) (fun _ _ => True) := by
    rw [Prepared.edit, wp_bind]
    refine wp_mono (Prepared.lock_spec faults s) ?_ fun _ _ _ => trivial
    rintro _ _ ⟨-, rfl⟩
    rw [wp_bind, wp_attempt]
    exact wp_mono (stage_became (s := { s with locked := true }) hF path hconfig hread hgood he hext
      faults expected)
      (fun _ _ h => h) fun _ _ _ => trivial
  exact wp_mono (wp_and (Prepared.edit_spec F path faults expected edit s) hbecame)
    (fun _ _ h => ⟨⟨h.1.1, h.1.2.1⟩, h.2⟩) fun _ _ h => h.1.1

omit hF hconfig hread hgood in
/-- An edit that was not committed is dropped without a trace. -/
theorem drop_uncommitted (faults : Faults T) {p : Prepared T} (hp : p.committed = false) :
    wp (p.drop F faults) s (fun _ s' => s'.config = s.config) (fun _ _ => False) := by
  refine wp_mono (p.drop_spec F faults s) ?_ fun _ _ h => h
  rintro _ s' ⟨-, ⟨hback, -⟩ | ⟨-, h⟩⟩
  · exact absurd (hp.symm.trans hback.1.1) (by simp)
  · exact h

omit hF hconfig hread hgood in
/-- An edit is installed, or the configuration stays. -/
theorem install_spec (faults : Faults T) {p : Prepared T} (hp : p.committed = false) :
    wp (Manager.install F faults p) s (fun _ s' => s'.config = some p.next)
      (fun _ s' => s'.config = s.config) := by
  rw [Manager.install, wp_bind, wp_attempt]
  refine wp_mono (p.commit_spec F (.ok []) faults s) ?_ ?_
  · rintro _ s₁ ⟨rfl, hnext, -⟩
    simp only [wp_bind]
    refine wp_mono (Prepared.finish_spec F _ s₁) ?_ fun _ _ h => h.elim
    rintro _ s₂ ⟨-, hsame⟩
    exact hsame.trans hnext
  · intro e s₁ hsame
    simp only [wp_bind]
    exact wp_mono (drop_uncommitted {} hp) (fun _ _ h => h.trans hsame.config)
      fun _ _ h => h.elim

/-- An edit that is prepared and installed in one call. -/
theorem edit_install_spec {edit : D → StoreM D} (he : Yields F edit R)
    (hext : ∀ c', R s.store c c' → c.Extends c') (faults : Faults T × Faults T)
    (expected : String) :
    wp (do
        let prepared ← Prepared.edit F path faults.1 expected edit
        Manager.install F faults.2 prepared) s
      (fun _ s' => Became F (R s.store) c s'.config) (fun _ s' => s'.config = s.config) := by
  rw [wp_bind]
  refine wp_mono (edit_became hF path hconfig hread hgood he hext faults.1 expected) ?_
    fun _ _ h => h
  rintro p s₁ ⟨⟨hfresh, hsame⟩, hbecame⟩
  exact wp_mono (install_spec faults.2 hfresh.committed) (fun _ _ h => h.symm ▸ hbecame)
    fun _ _ h => h.trans hsame

/-- The settings are saved, or the configuration stays. -/
theorem save_spec (faults : Faults T × Faults T) (expected : String) (settings : Manager.Settings) :
    wp (Manager.save F path faults expected settings) s
      (fun _ s' => Became F (fun c c' => c' = c.configured settings) c s'.config)
      (fun _ s' => s'.config = s.config) :=
  edit_install_spec hF path hconfig hread hgood (settings_yields hF settings)
    (fun _ hc' => hc' ▸ ⟨⟨[], (List.append_nil _).symm, by simp⟩, hgood.edges⟩) faults expected

omit hF hconfig hread hgood in
/-- A certificate that is read from the store. -/
theorem inStore_certificate_spec (file : Path) :
    wp (Manager.inStore (certificate file)) s (fun info s' => s' = s ∧ s.store.Certifies file info)
      (fun _ s' => s' = s) := by
  rw [Manager.inStore, wp_zoom]
  refine wp_mono (certificate_spec file s.store) ?_ ?_
  · rintro info _ ⟨rfl, h⟩
    exact ⟨rfl, h⟩
  · rintro _ _ rfl
    rfl

/-- The peer is imported, or the configuration stays. -/
theorem importPeer_spec (faults : Faults T × Faults T) (storeFaults : StoreFaults × StoreFaults)
    (candidate : Path) (expected fingerprint : String) :
    wp (Manager.importPeer F path faults storeFaults candidate expected fingerprint) s
      (fun _ s' => Became F (Imports path candidate fingerprint s.store) c s'.config)
      (fun _ s' => s'.config = s.config) := by
  rw [Manager.importPeer, wp_bind]
  refine wp_mono (inStore_certificate_spec candidate) ?_ fun _ _ h => h ▸ rfl
  rintro info _ ⟨rfl, hinfo⟩
  rw [wp_bind, wp_check]
  refine ⟨fun _ hreviewed => ?_, fun _ _ => rfl⟩
  rw [wp_bind]
  refine wp_mono (readConfig_spec faults.1 _) ?_ fun _ _ h => h.1 ▸ rfl
  rintro text _ ⟨rfl, -, -⟩
  rw [wp_bind, wp_check]
  refine ⟨fun config _ => ?_, fun _ _ => rfl⟩
  rw [wp_bind]
  refine wp_mono (inStore_certificate_spec _) ?_ fun _ _ h => h ▸ rfl
  rintro own _ ⟨rfl, -⟩
  rw [wp_bind, wp_check]
  refine ⟨fun _ _ => ?_, fun _ _ => rfl⟩
  have hadd := in_directory path fun directory => add_yields hF storeFaults directory info
  refine wp_mono (edit_install_spec hF path hconfig hread hgood hadd ?_ faults expected) ?_
    fun _ _ h => h
  · rintro c' ⟨directory, -, legacy, hl, rfl⟩
    exact Config.imported_extends info hl hgood.edges
  · rintro _ s' ⟨t', c', htext, hread', hgood', hvalid, hR⟩
    exact ⟨t', c', htext, hread', hgood', hvalid, info, hinfo, ensure_eq_ok.mp hreviewed, hR⟩

/-- The peer is selected, or the configuration stays. -/
theorem selectPeer_spec (faults : Faults T × Faults T) (guards : Result Unit)
    (expected fingerprint : String) :
    wp (Manager.selectPeer F path faults guards expected fingerprint) s
      (fun _ s' => Became F (Selected fingerprint) c s'.config)
      (fun _ s' => s'.config = s.config) := by
  rw [Manager.selectPeer, wp_bind, wp_check]
  refine ⟨fun _ _ => ?_, fun _ _ => rfl⟩
  have hselect := in_directory path fun directory => select_yields hF directory fingerprint
  refine wp_mono (edit_install_spec hF path hconfig hread hgood hselect ?_ faults expected) ?_
    fun _ _ h => h
  · rintro c' ⟨-, -, p, hp, rfl⟩
    exact ⟨⟨[], (List.append_nil _).symm, by simp⟩,
      hgood.peerEdges p (List.mem_of_find?_eq_some hp)⟩
  · rintro _ s' ⟨t', c', htext, hread', hgood', hvalid, -, -, hR⟩
    exact ⟨t', c', htext, hread', hgood', hvalid, hR⟩

/-- The edges are prepared, and the configuration stays. -/
theorem prepareEdges_spec (outputs : Result Outputs) (faults : Faults T) (expected : String)
    (edges : List EdgeConfig) :
    wp (Manager.prepareEdges F path outputs faults expected edges) s
      (fun p s' => (p.Fresh F expected s ∧ s'.config = s.config) ∧
        Became F (fun c c' => edges ≠ [] ∧ c' = { c with edges := edges }) c (some p.next))
      (fun _ s' => s'.config = s.config) := by
  rw [Manager.prepareEdges, wp_bind, wp_check]
  refine ⟨fun _ hvalid => ?_, fun _ _ => rfl⟩
  rw [wp_bind, wp_check]
  refine ⟨fun outputs _ => ?_, fun _ _ => rfl⟩
  rw [wp_bind, wp_check]
  refine ⟨fun _ _ => ?_, fun _ _ => rfl⟩
  rw [wp_bind]
  have hne := edges_ne_nil_of_validate hvalid
  refine wp_mono (edit_became hF path hconfig hread hgood (writeEdges_yields hF hne)
    (fun c' hc' => hc' ▸ ⟨⟨[], (List.append_nil _).symm, by simp⟩, hne⟩) faults expected) ?_
      fun _ _ h => h
  rintro p s' ⟨⟨hfresh, hsame⟩, t', c', htext, hread', hgood', hchecked, hR⟩
  exact ⟨⟨⟨hfresh.before, hfresh.digest, hfresh.beforeRevision, hfresh.afterRevision,
    hfresh.committed, hfresh.finished⟩, hsame⟩, t', c', htext, hread', hgood', hchecked, hne, hR⟩

end Files

/-! ### Sequences of edits -/

/-- A managed edit, with everything the system refuses during it. -/
inductive ManagedEdit (T : Type) where
  | save (faults : Faults T × Faults T) (expected : String) (settings : Manager.Settings)
  | importPeer (faults : Faults T × Faults T) (storeFaults : StoreFaults × StoreFaults)
      (candidate : Path) (expected fingerprint : String)
  | selectPeer (faults : Faults T × Faults T) (guards : Result Unit) (expected fingerprint : String)
  /-- This device's part of a paired layout edit; `confirmed` when the other device has saved its
  part. -/
  | layout (outputs : Result Outputs × Result Outputs) (faults : Faults T × Faults T)
      (expected : String) (edges : List EdgeConfig) (confirmed : Bool) (rollback : Faults T)

namespace ManagedEdit

/-- A prepared layout is committed, and kept when the other device confirms. -/
def concludeLayout (F : Format T D) (outputs : Result Outputs) (faults : Faults T)
    (confirmed : Bool) (rollback : Faults T) (prepared : Prepared T) : FilesM T Unit := do
  match ← attempt (prepared.commit F outputs faults) with
  | .error e =>
      prepared.drop F {}
      throw e
  | .ok prepared =>
      if confirmed then prepared.finish F
      else
        prepared.drop F rollback
        throw ["layout_unconfirmed"]

/-- What a managed edit does with the files. -/
def run (F : Format T D) (path : Path) : ManagedEdit T → FilesM T Unit
  | save faults expected settings => do
      let _ ← Manager.save F path faults expected settings
  | importPeer faults storeFaults candidate expected fingerprint => do
      let _ ← Manager.importPeer F path faults storeFaults candidate expected fingerprint
  | selectPeer faults guards expected fingerprint => do
      let _ ← Manager.selectPeer F path faults guards expected fingerprint
  | layout outputs faults expected edges confirmed rollback => do
      let prepared ← Manager.prepareEdges F path outputs.1 faults.1 expected edges
      concludeLayout F outputs.2 faults.2 confirmed rollback prepared

/-- What the edit makes of a configuration, before the selected peer is brought in step. -/
def Effect (path : Path) (store : Store) : ManagedEdit T → Config → Config → Prop
  | save _ _ settings, c, c' => c' = c.configured settings
  | importPeer _ _ candidate _ fingerprint, c, c' => Imports path candidate fingerprint store c c'
  | selectPeer _ _ _ fingerprint, c, c' => Selected fingerprint c c'
  | layout _ _ _ edges _ _, c, c' => edges ≠ [] ∧ c' = { c with edges := edges }

/-- Every managed edit extends a good configuration. -/
theorem Effect.extends {path : Path} {store : Store} {e : ManagedEdit T} {c c' : Config}
    (h : e.Effect path store c c') (hgood : c.Good) : c.Extends c' := by
  cases e with
  | save _ _ settings =>
      obtain rfl := h
      exact ⟨⟨[], (List.append_nil _).symm, by simp⟩, hgood.edges⟩
  | importPeer _ _ candidate _ fingerprint =>
      obtain ⟨info, -, -, directory, -, legacy, hl, rfl⟩ := h
      exact Config.imported_extends info hl hgood.edges
  | selectPeer _ _ _ fingerprint =>
      obtain ⟨p, hp, rfl⟩ := h
      exact ⟨⟨[], (List.append_nil _).symm, by simp⟩,
        hgood.peerEdges p (List.mem_of_find?_eq_some hp)⟩
  | layout _ _ _ edges _ _ =>
      obtain ⟨hne, rfl⟩ := h
      exact ⟨⟨[], (List.append_nil _).symm, by simp⟩, hne⟩

/-- If the edit is rolled back, the file can be written. -/
def RollbackWrites : ManagedEdit T → Prop
  | layout _ _ _ _ _ rollback => rollback.read = none ∧ rollback.replace = none
  | _ => True

end ManagedEdit

section Edits
variable {F : Format T D} (hF : F.Lawful) (path : Path) {s : Files T} {t : T} {c : Config}
  (hconfig : s.config = some t) (hread : F.read t = .ok c) (hgood : c.Good)

/-- A layout is installed; if it fails the configuration stays, unless the rollback cannot write. -/
theorem concludeLayout_spec (outputs : Result Outputs) (faults : Faults T) (confirmed : Bool)
    (rollback : Faults T) {p : Prepared T} (hbefore : s.config = some p.before)
    (hafter : p.afterRevision = F.digest p.next) (hcommitted : p.committed = false)
    (hfinished : p.finished = false) :
    wp (ManagedEdit.concludeLayout F outputs faults confirmed rollback p) s
      (fun _ s' => s'.config = some p.next)
      (fun _ s' => s'.config = s.config ∨
        s'.config = some p.next ∧ ¬ (rollback.read = none ∧ rollback.replace = none)) := by
  rw [ManagedEdit.concludeLayout, wp_bind, wp_attempt]
  refine wp_mono (p.commit_spec F outputs faults s) ?_ ?_
  · rintro _ s₁ ⟨rfl, hnext, -, -⟩
    simp only [wp_ite]
    refine ⟨fun _ => ?_, fun _ => ?_⟩
    · refine wp_mono (Prepared.finish_spec F _ s₁) ?_ fun _ _ h => h.elim
      rintro _ s₂ ⟨-, hsame⟩
      exact hsame.trans hnext
    · rw [wp_bind]
      refine wp_mono (Prepared.drop_spec F rollback _ s₁) ?_ fun _ _ h => h.elim
      rintro _ s₂ ⟨-, ⟨-, h⟩ | ⟨hback, hsame⟩⟩
      · exact .inl (h.trans hbefore.symm)
      · refine .inr ⟨hsame.trans hnext, fun hworks => hback ?_⟩
        exact ⟨⟨rfl, hfinished⟩, hworks.1, hworks.2, p.next, hnext, hafter.symm⟩
  · intro e s₁ hsame
    simp only [wp_bind]
    exact wp_mono (drop_uncommitted {} hcommitted) (fun _ _ h => .inl (h.trans hsame.config))
      fun _ _ h => h.elim

include hF hconfig hread hgood

/-- An edit that succeeds does to the configuration what it is for; one that fails leaves the file
alone, unless it was a committed layout that could not be rolled back. -/
theorem managedEdit_spec (e : ManagedEdit T) :
    wp (e.run F path) s (fun _ s' => Became F (e.Effect path s.store) c s'.config)
      (fun _ s' => s'.config = s.config ∨
        Became F (e.Effect path s.store) c s'.config ∧ ¬ e.RollbackWrites) := by
  cases e with
  | save faults expected settings =>
      simp only [ManagedEdit.run, wp_bind]
      exact wp_mono (save_spec hF path hconfig hread hgood faults expected settings)
        (fun _ _ h => h) fun _ _ h => .inl h
  | importPeer faults storeFaults candidate expected fingerprint =>
      simp only [ManagedEdit.run, wp_bind]
      exact wp_mono (importPeer_spec hF path hconfig hread hgood faults storeFaults
        candidate expected
        fingerprint) (fun _ _ h => h) fun _ _ h => .inl h
  | selectPeer faults guards expected fingerprint =>
      simp only [ManagedEdit.run, wp_bind]
      exact wp_mono (selectPeer_spec hF path hconfig hread hgood faults guards expected fingerprint)
        (fun _ _ h => h) fun _ _ h => .inl h
  | layout outputs faults expected edges confirmed rollback =>
      simp only [ManagedEdit.run, wp_bind]
      refine wp_mono (prepareEdges_spec hF path hconfig hread hgood outputs.1 faults.1
        expected edges)
        ?_ fun _ _ h => .inl h
      rintro p s₁ ⟨⟨hfresh, hsame⟩, hbecame⟩
      refine wp_mono (concludeLayout_spec outputs.2 faults.2 confirmed rollback
        (hsame.trans hfresh.before) hfresh.afterRevision hfresh.committed hfresh.finished) ?_ ?_
      · intro _ s₂ h
        exact h.symm ▸ hbecame
      · rintro _ s₂ (h | ⟨h, hback⟩)
        · exact .inl (h.trans hsame)
        · exact .inr ⟨h.symm ▸ hbecame, hback⟩

end Edits

/-- The edit that is next, and the certificates as it finds them. -/
structure ManagedLabel (T : Type) where
  edit : ManagedEdit T
  store : Store

/-- The files, and what the configuration has read as after every edit, newest first. -/
structure Managed (T : Type) where
  files : Files T
  history : List Config

namespace Managed

/-- How a managed edit ends, on the store it finds. -/
def outcome (F : Format T D) (path : Path) (m : Managed T) (l : ManagedLabel T) :
    EStateM.Result Error (Files T) Unit :=
  l.edit.run F path { m.files with store := l.store }

/-- A configuration that can be read is added to the history. -/
def record (F : Format T D) (text : Option T) (history : List Config) : List Config :=
  match text.map F.read with
  | some (.ok c) => c :: history
  | _ => history

/-- The state after a managed edit, whether or not it succeeds. -/
def next (F : Format T D) (path : Path) (m : Managed T) (l : ManagedLabel T) : Managed T :=
  match m.outcome F path l with
  | .ok _ files | .error _ files => { files := files, history := record F files.config m.history }

/-- The saved peer with this fingerprint. -/
def saved (c : Config) (fingerprint : String) : Option SavedPeer :=
  c.pairedDevices.find? (·.fingerprint = fingerprint)

/-- The connection and edges a peer had when it was last selected, or when it was first saved if it
never was. -/
def remembered (fingerprint : String) : List Config → Option (Connection × List EdgeConfig)
  | [] => none
  | c :: older =>
      match saved c fingerprint with
      | none => remembered fingerprint older
      | some p =>
          if c.Selects p then some (c.connection, c.edges)
          else (remembered fingerprint older).or (some (p.connection, p.edges))

/-- A peer of a good configuration is saved under its fingerprint. -/
theorem saved_eq_some {c : Config} {p : SavedPeer} (h : c.Good) (hp : p ∈ c.pairedDevices) :
    saved c p.fingerprint = some p := by
  obtain ⟨q, hq⟩ : ∃ q, saved c p.fingerprint = some q :=
    Option.isSome_iff_exists.mp (List.find?_isSome.mpr ⟨p, hp, by simp⟩)
  have hmem := List.mem_of_find?_eq_some hq
  have hsame : q.fingerprint = p.fingerprint := by simpa using List.find?_some hq
  rw [hq, List.inj_on_of_nodup_map (h.consistent (List.ne_nil_of_mem hp)).distinct hmem hp hsame]

theorem saved_eq_none {c : Config} {fingerprint : String} :
    saved c fingerprint = none ↔ fingerprint ∉ c.pairedDevices.map SavedPeer.fingerprint := by
  simp [saved, List.find?_eq_none]

/-- A peer that no configuration has saved is not remembered. -/
theorem remembered_eq_none {fingerprint : String} {history : List Config}
    (h : ∀ c ∈ history, fingerprint ∉ c.pairedDevices.map SavedPeer.fingerprint) :
    remembered fingerprint history = none := by
  induction history with
  | nil => rfl
  | cons c older ih =>
      rw [List.forall_mem_cons] at h
      rw [remembered, saved_eq_none.mpr h.1]
      exact ih h.2

/-- The file reads as the newest configuration of the history, which is good; every peer ever saved
is still there; and a peer that is not selected has the values it is remembered with. -/
structure Inv (F : Format T D) (m : Managed T) (c : Config) (older : List Config) : Prop where
  history : m.history = c :: older
  reads : ∃ t, m.files.config = some t ∧ F.read t = .ok c
  good : c.Good
  kept : ∀ c' ∈ m.history, ∀ p ∈ c'.pairedDevices, ∃ q ∈ c.pairedDevices,
    q.fingerprint = p.fingerprint ∧ q.name = p.name ∧ q.certificate = p.certificate
  values : ∀ q ∈ c.pairedDevices, remembered q.fingerprint m.history = some (q.connection, q.edges)

/-- An evolution of the configuration keeps the invariant. -/
theorem Inv.evolve {F : Format T D} {m : Managed T} {c c' : Config} {older : List Config}
    (h : m.Inv F c older) {files : Files T} {t : T} (htext : files.config = some t)
    (hread : F.read t = .ok c') (hgood : c'.Good) (he : c.Evolves c') :
    Inv F ⟨files, record F files.config m.history⟩ c' m.history := by
  have hrecord : record F files.config m.history = c' :: m.history := by
    rw [htext, record, Option.map_some, hread]
  refine ⟨hrecord, ⟨t, htext, hread⟩, hgood, ?_, ?_⟩
  · show ∀ c'' ∈ record F files.config m.history, _
    rw [hrecord, List.forall_mem_cons]
    refine ⟨fun p hp => ⟨p, hp, rfl, rfl, rfl⟩, fun c'' hc'' p hp => ?_⟩
    obtain ⟨q, hq, hqf, hqn, hqc⟩ := h.kept c'' hc'' p hp
    obtain ⟨r, hr, hrf, hrn, hrc⟩ := he.kept q hq
    exact ⟨r, hr, hrf.trans hqf, hrn.trans hqn, hrc.trans hqc⟩
  · intro q hq
    show remembered q.fingerprint (record F files.config m.history) = _
    rw [hrecord, remembered, saved_eq_some hgood hq]
    by_cases hsel : c'.Selects q
    · obtain ⟨hconnection, hedges⟩ := hgood.values hq hsel
      simp only [if_pos hsel, hconnection, hedges]
    · simp only [if_neg hsel]
      rcases he.values q hq hsel with ⟨p, hp, hfp, hconnection, hedges⟩ | hnew
      · rw [← hfp, h.values p hp, hconnection, hedges, Option.some_or]
      · have hnever : remembered q.fingerprint m.history = none := by
          refine remembered_eq_none fun c'' hc'' hmem => hnew ?_
          obtain ⟨p, hp, hpe⟩ := List.mem_map.mp hmem
          obtain ⟨r, hr, hrf, -⟩ := h.kept c'' hc'' p hp
          exact List.mem_map.mpr ⟨r, hr, hrf.trans hpe⟩
        rw [hnever, Option.none_or]

/-- One edit: the configuration it leaves, which is the one before if the edit fails, unless a
committed layout could not be rolled back. -/
theorem Inv.next {F : Format T D} (hF : F.Lawful) (path : Path) {m : Managed T} {c : Config}
    {older : List Config} (h : m.Inv F c older) (l : ManagedLabel T) :
    ∃ c', (m.next F path l).Inv F c' m.history ∧
      ((c' = c ∧ ∃ e files, m.outcome F path l = .error e files) ∨
        ∃ c₁, l.edit.Effect path l.store c c₁ ∧ c' = c₁.synced ∧
          (c₁.pairedDevices ≠ [] → Pairing.validate c₁ = .ok ()) ∧
          (l.edit.RollbackWrites → ∃ files, m.outcome F path l = .ok () files)) ∧
      ∀ e files, m.outcome F path l = .error e files → l.edit.RollbackWrites →
        (m.next F path l).files.config = m.files.config := by
  obtain ⟨t, htext, hread⟩ := h.reads
  have hspec := managedEdit_spec (s := { m.files with store := l.store }) hF path htext hread h.good
    l.edit
  cases hrun : m.outcome F path l with
  | ok u files =>
      obtain ⟨t', c₁, htext', hread', hgood', hvalid, he⟩ := wp_of_ok hspec hrun
      simp only [Managed.next, hrun]
      exact ⟨_, h.evolve htext' hread' hgood' (he.extends h.good).evolves,
        .inr ⟨c₁, he, rfl, hvalid, fun _ => ⟨files, rfl⟩⟩, by simp⟩
  | error e files =>
      simp only [Managed.next, hrun]
      rcases wp_of_error hspec hrun with hsame |
        ⟨⟨t', c₁, htext', hread', hgood', hvalid, he⟩, hback⟩
      · exact ⟨c, h.evolve (hsame.trans htext) hread h.good (.refl c), .inl ⟨rfl, e, files, rfl⟩,
          fun _ _ _ _ => hsame⟩
      · exact ⟨_, h.evolve htext' hread' hgood' (he.extends h.good).evolves,
          .inr ⟨c₁, he, rfl, hvalid, fun hworks => absurd hworks hback⟩,
          fun _ _ _ hworks => absurd hworks hback⟩

/-- A configuration without saved peers, as the edits find it. -/
def start (F : Format T D) (files : Files T) : Managed T := ⟨files, record F files.config []⟩

/-- The invariant holds for a configuration without saved peers. -/
theorem inv_start {F : Format T D} {path : Path} {files : Files T} {t : T} {loaded : Config}
    (htext : files.config = some t) (hload : Config.load F path t = .ok loaded)
    (hnone : loaded.pairedDevices = []) : ∃ c older, (start F files).Inv F c older := by
  obtain ⟨c, hread, hload⟩ := bind_eq_ok.mp hload
  obtain ⟨_, -, hload⟩ := bind_eq_ok.mp hload
  obtain ⟨_, hedges, hload⟩ := bind_eq_ok.mp hload
  obtain ⟨_, -, hload⟩ := bind_eq_ok.mp hload
  obtain rfl := Except.ok.inj hload
  have hpeers : c.pairedDevices = [] := List.map_eq_nil_iff.mp hnone
  have hgood : c.Good :=
    ⟨fun hne => absurd hpeers hne, edges_ne_nil_of_validate hedges, by simp [hpeers]⟩
  have hrecord : record F files.config [] = [c] := by rw [htext, record, Option.map_some, hread]
  refine ⟨c, [], hrecord, ⟨t, htext, hread⟩, hgood, ?_, by simp [hpeers]⟩
  show ∀ c' ∈ record F files.config [], _
  simp [hrecord, hpeers]

/-- The invariant holds after any managed edits. -/
theorem inv_run {F : Format T D} (hF : F.Lawful) (path : Path) {m : Managed T}
    (h : ∃ c older, m.Inv F c older) (ls : List (ManagedLabel T)) :
    ∃ c older, (Run.run (next F path) m ls).Inv F c older :=
  Run.run_invariant_of_step (I := fun m : Managed T => ∃ c older, m.Inv F c older)
    (fun m l ⟨_, _, hm⟩ => (hm.next hF path l).imp fun _ h => ⟨m.history, h.1⟩) h

section Sample

/-- A new configuration; documents and texts are the values they hold. -/
def sampleConfig : Config where
  certificate := ⟨false, ["identity.pem"]⟩
  privateKey := ⟨false, ["identity.key.pem"]⟩
  peerCertificate := ⟨false, ["peer.pem"]⟩
  peerName := "unpaired"
  pairedDevices := []
  connection := .listen "0.0.0.0:42420"
  edges := [⟨"default", "screen", ⟨.top, 0, 1⟩⟩]
  activityDevices := [⟨true, ["dev", "input", "event0"]⟩]
  nativeTouchpads := false
  sourcePath := none

/-- A format whose texts are configurations. -/
def sampleFormat : Format Config Config where
  digest c := if c = sampleConfig then "original" else "edited"
  parse c := .ok c
  render c := c
  read c := .ok c
  write c e := e.set c

theorem sampleFormat_lawful : sampleFormat.Lawful where
  read_parse h := by rw [← Except.ok.inj h]; rfl
  read_write _ h := by rw [← Except.ok.inj h]; rfl

/-- Where the configuration is. -/
def samplePath : Path := ⟨true, ["home", "config.toml"]⟩

/-- The fingerprint of the desktop's certificate. -/
def sampleFingerprint : String :=
  "caace4fb72c68114c83f123511159b25073645e74434f97401d15705f27d886b"

/-- The certificate of this device and one to import. -/
def sampleStore : Store where
  peers := none
  file path :=
    if path = ⟨true, ["home", "identity.pem"]⟩ then some ⟨true, .ok ⟨"local", "own"⟩⟩
    else if path = ⟨true, ["candidate.pem"]⟩ then some ⟨true, .ok ⟨"desktop", sampleFingerprint⟩⟩
    else none

/-- A configuration and the stored certificates, with no backup yet. -/
def sampleFiles : Files Config where
  config := some sampleConfig
  backup := none
  locked := false
  store := sampleStore

/-- The configuration of the sample is accepted. -/
theorem sample_load : ∃ loaded, Config.load sampleFormat samplePath sampleConfig = .ok loaded ∧
    loaded.pairedDevices = [] := by
  obtain ⟨loaded, hload, hnone⟩ : ∃ loaded,
      (Config.load sampleFormat samplePath sampleConfig).toOption = some loaded ∧
        loaded.pairedDevices = [] := by
    rw [← Option.map_eq_some_iff]
    decide
  refine ⟨loaded, ?_, hnone⟩
  cases hrun : Config.load sampleFormat samplePath sampleConfig with
  | ok c => rw [hrun] at hload; exact congrArg _ (Option.some.inj hload)
  | error e => rw [hrun] at hload; cases hload

/-- The edit of a label works. -/
def works (m : Managed Config) (l : ManagedLabel Config) : Bool :=
  match m.outcome sampleFormat samplePath l with
  | .ok .. => true
  | .error .. => false

theorem outcome_of_works {m : Managed Config} {l : ManagedLabel Config} (h : works m l = true) :
    ∃ files, m.outcome sampleFormat samplePath l = .ok () files := by
  unfold works at h
  cases hrun : m.outcome sampleFormat samplePath l with
  | ok u files => exact ⟨files, rfl⟩
  | error e files => simp [hrun] at h

end Sample

end Managed

end NiriBridge
