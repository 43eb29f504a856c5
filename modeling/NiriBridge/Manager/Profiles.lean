import NiriBridge.Model.Manager
import Mathlib.Data.List.Nodup

/-!
# Manager — Profiles

The selected peer's connection and edges stand twice in a configuration: at top level, where the
coordinator reads them, and in the list of saved peers.  `Good` says the copies agree and the list
is in order, `Evolves` what an edit may do to the list.

The edits write documents.  `Yields` says what configuration the document of an edit reads as then;
every edit of the program only adds peers, each under the name of its fingerprint (`Extends`).
-/

namespace NiriBridge

open Hoare

variable {T D : Type}

/-! ### What the checks establish -/

/-- A valid list of edges is not empty. -/
theorem edges_ne_nil_of_validate {edges : List EdgeConfig} {u : Unit}
    (h : validateEdges edges = .ok u) : edges ≠ [] := by
  obtain ⟨_, h, -⟩ := bind_eq_ok.mp h
  exact (ensure_eq_ok.mp h).1

namespace Pairing

/-- Accepted peers are distinct, and their edges are valid. -/
theorem validatePeersFrom_eq_ok {previous peers : List SavedPeer} {u : Unit}
    (h : validatePeersFrom previous peers = .ok u) :
    (∀ p ∈ peers,
      p.fingerprint ∉ previous.map SavedPeer.fingerprint ∧ validateEdges p.edges = .ok ()) ∧
      (peers.map SavedPeer.fingerprint).Nodup := by
  induction peers generalizing previous with
  | nil => exact ⟨by simp, List.nodup_nil⟩
  | cons peer peers ih =>
      obtain ⟨_, hpeer, hrest⟩ := bind_eq_ok.mp h
      obtain ⟨_, hfresh, hedges⟩ := bind_eq_ok.mp hpeer
      obtain ⟨hall, hnodup⟩ := ih hrest
      refine ⟨fun p hp => ?_, List.nodup_cons.mpr ⟨fun hmem => ?_, hnodup⟩⟩
      · rcases List.mem_cons.mp hp with rfl | hp
        · exact ⟨(ensure_eq_ok.mp hfresh).2.1, hedges⟩
        · refine ⟨fun hmem => (hall p hp).1 ?_, (hall p hp).2⟩
          rw [List.map_append]
          exact List.mem_append_left _ hmem
      · obtain ⟨q, hq, hqe⟩ := List.mem_map.mp hmem
        exact (hall q hq).1 (by simp [hqe])

/-- Certificates of different fingerprints are stored under different names. -/
theorem storedPath_injective : Function.Injective storedPath := by
  intro a b h
  have happ : a ++ ".pem" = b ++ ".pem" := by simpa [storedPath] using h
  have hlist := congrArg String.toList happ
  rw [String.toList_append, String.toList_append] at hlist
  exact String.toList_inj.mp (List.append_cancel_right hlist)

end Pairing

/-- The file holds the certificate. -/
def Store.Certifies (store : Store) (path : Path) (info : CertificateInfo) : Prop :=
  ∃ file, store.file path = some file ∧ file.contents = .ok info

/-- What is read of a certificate is what the store certifies. -/
theorem certificate_spec (path : Path) (store : Store) :
    wp (certificate path) store (fun info store' => store' = store ∧ store.Certifies path info)
      (fun _ store' => store' = store) := by
  rw [certificate, wp_bind, wp_get, wp_bind, wp_lift]
  refine ⟨fun file hfile => ?_, fun _ _ => rfl⟩
  rw [wp_lift]
  exact ⟨fun info hinfo => ⟨rfl, file, orError_eq_ok.mp hfile, hinfo⟩, fun _ _ => rfl⟩

/-! ### The list of saved peers -/

namespace Config

/-- The saved peer that the top-level certificate names. -/
def Selects (c : Config) (p : SavedPeer) : Prop := p.certificate = c.peerCertificate

instance (c : Config) (p : SavedPeer) : Decidable (c.Selects p) :=
  inferInstanceAs (Decidable (_ = _))

/-- Distinct peers, each under its own certificate; the selected one agrees with the top level. -/
structure Consistent (c : Config) : Prop where
  distinct : (c.pairedDevices.map SavedPeer.fingerprint).Nodup
  stored : ∀ p ∈ c.pairedDevices, p.certificate = Pairing.storedPath p.fingerprint
  selected : ∃ p ∈ c.pairedDevices, c.Selects p ∧ p.name = c.peerName ∧
    p.connection = c.connection ∧ p.edges = c.edges

/-- A configuration the edits start from. -/
structure Good (c : Config) : Prop where
  consistent : c.pairedDevices ≠ [] → c.Consistent
  edges : c.edges ≠ []
  peerEdges : ∀ p ∈ c.pairedDevices, p.edges ≠ []

/-- Saved peers have different files. -/
theorem certificates_nodup {peers : List SavedPeer}
    (hdistinct : (peers.map SavedPeer.fingerprint).Nodup)
    (hstored : ∀ p ∈ peers, p.certificate = Pairing.storedPath p.fingerprint) :
    (peers.map SavedPeer.certificate).Nodup := by
  have hmap : peers.map SavedPeer.certificate =
      (peers.map SavedPeer.fingerprint).map Pairing.storedPath := by
    rw [List.map_map]
    exact List.map_congr_left hstored
  rw [hmap]
  exact hdistinct.map Pairing.storedPath_injective

/-- What `sync_selected` makes of one peer. -/
def refresh (c : Config) (p : SavedPeer) : SavedPeer :=
  if c.Selects p then { p with connection := c.connection, edges := c.edges } else p

@[simp] theorem refresh_fingerprint (c : Config) (p : SavedPeer) :
    (c.refresh p).fingerprint = p.fingerprint := by
  unfold refresh
  split_ifs <;> rfl

@[simp] theorem refresh_name (c : Config) (p : SavedPeer) : (c.refresh p).name = p.name := by
  unfold refresh
  split_ifs <;> rfl

@[simp] theorem refresh_certificate (c : Config) (p : SavedPeer) :
    (c.refresh p).certificate = p.certificate := by
  unfold refresh
  split_ifs <;> rfl

/-- With distinct certificates only one peer is the selected one. -/
theorem updateSelected_eq {c : Config} {peers : List SavedPeer}
    (hnodup : (peers.map SavedPeer.certificate).Nodup) :
    ∀ {peers'}, Pairing.updateSelected c peers = some peers' → peers' = peers.map c.refresh := by
  induction peers with
  | nil => intro _ h; cases h
  | cons p peers ih =>
      intro peers' h
      obtain ⟨hp, hnodup⟩ := List.nodup_cons.mp hnodup
      unfold Pairing.updateSelected at h
      split_ifs at h with hsel
      · obtain rfl := Option.some.inj h
        have hrest : peers.map c.refresh = peers := by
          refine (List.map_congr_left fun q hq => ?_).trans (List.map_id peers)
          have hne : ¬ c.Selects q := fun hq' =>
            hp (List.mem_map.mpr ⟨q, hq, hq'.trans hsel.symm⟩)
          rw [refresh, if_neg hne, id]
        rw [List.map_cons, hrest, refresh, if_pos (show c.Selects p from hsel)]
      · obtain ⟨rest, hrest, rfl⟩ := Option.map_eq_some_iff.mp h
        rw [List.map_cons, ih hnodup hrest, refresh, if_neg (show ¬ c.Selects p from hsel)]

/-- The edit itself has only added peers, stored under their fingerprints. -/
structure Extends (c c' : Config) : Prop where
  peers : ∃ new, c'.pairedDevices = c.pairedDevices ++ new ∧
    ∀ q ∈ new, q.certificate = Pairing.storedPath q.fingerprint ∧
      q.fingerprint ∉ c.pairedDevices.map SavedPeer.fingerprint
  edges : c'.edges ≠ []

/-- What a managed edit may do to the saved peers: none is lost or renamed, and the values of a peer
that is not selected afterwards are its own. -/
structure Evolves (c c' : Config) : Prop where
  kept : ∀ p ∈ c.pairedDevices, ∃ q ∈ c'.pairedDevices, q.fingerprint = p.fingerprint ∧
    q.name = p.name ∧ q.certificate = p.certificate
  values : ∀ q ∈ c'.pairedDevices, ¬ c'.Selects q →
    (∃ p ∈ c.pairedDevices, p.fingerprint = q.fingerprint ∧ p.connection = q.connection ∧
      p.edges = q.edges) ∨ q.fingerprint ∉ c.pairedDevices.map SavedPeer.fingerprint

theorem Evolves.refl (c : Config) : c.Evolves c :=
  ⟨fun p hp => ⟨p, hp, rfl, rfl, rfl⟩, fun q hq _ => .inl ⟨q, hq, rfl, rfl, rfl⟩⟩

/-- The configuration `sync_selected` leaves. -/
def synced (c : Config) : Config := { c with pairedDevices := c.pairedDevices.map c.refresh }

/-- The selected peer has the values at top level. -/
theorem Good.values {c : Config} (h : c.Good) {q : SavedPeer} (hq : q ∈ c.pairedDevices)
    (hsel : c.Selects q) : q.connection = c.connection ∧ q.edges = c.edges := by
  obtain ⟨hdistinct, hstored, p, hp, hsel', -, hvalues⟩ := h.consistent (List.ne_nil_of_mem hq)
  have heq : q = p := List.inj_on_of_nodup_map (certificates_nodup hdistinct hstored) hq hp
    (hsel.trans hsel'.symm)
  exact heq ▸ hvalues

/-- Each peer that is selected has the values at top level. -/
def InStep (c : Config) : Prop :=
  ∀ p ∈ c.pairedDevices, c.Selects p → p.connection = c.connection ∧ p.edges = c.edges

/-- Nothing is to be synchronized if the selected peer has the values of the configuration. -/
theorem InStep.synced_eq {c : Config} (h : c.InStep) : c.synced = c := by
  have hmap : c.pairedDevices.map c.refresh = c.pairedDevices := by
    refine (List.map_congr_left fun p hp => ?_).trans (List.map_id _)
    unfold refresh
    split_ifs with hsel
    · rw [← (h p hp hsel).1, ← (h p hp hsel).2, id]
    · rfl
  rw [synced, hmap]

theorem Good.inStep {c : Config} (h : c.Good) : c.InStep := fun _ hp hsel => h.values hp hsel

/-- A good configuration is in step already. -/
theorem Good.synced_eq {c : Config} (h : c.Good) : c.synced = c := h.inStep.synced_eq

/-- The peers of an extended list are each under their own certificate. -/
theorem Extends.stored {c c' : Config} (h : c.Good) (he : c.Extends c') :
    ∀ p ∈ c'.pairedDevices, p.certificate = Pairing.storedPath p.fingerprint := by
  obtain ⟨⟨new, hnew, hstored⟩, -⟩ := he
  intro p hp
  rw [hnew] at hp
  rcases List.mem_append.mp hp with hp | hp
  · exact (h.consistent (List.ne_nil_of_mem hp)).stored p hp
  · exact (hstored p hp).1

/-- After an edit and the second `sync_selected` the configuration is good again. -/
theorem Extends.good {c c' : Config} (h : c.Good) (he : c.Extends c')
    (hvalid : c'.pairedDevices ≠ [] → Pairing.validate c' = .ok ()) : c'.synced.Good := by
  have hall : ∀ p ∈ c'.synced.pairedDevices, p.edges ≠ [] := by
    intro p hp
    obtain ⟨q, hq, rfl⟩ := List.mem_map.mp hp
    obtain ⟨_, hpeers, -⟩ := bind_eq_ok.mp (hvalid (List.ne_nil_of_mem hq))
    unfold refresh
    split_ifs
    · exact he.edges
    · exact edges_ne_nil_of_validate ((Pairing.validatePeersFrom_eq_ok hpeers).1 q hq).2
  refine ⟨fun hne => ?_, he.edges, hall⟩
  have hne' : c'.pairedDevices ≠ [] := fun h => hne (by simp [synced, h])
  obtain ⟨_, hpeers, hselected⟩ := bind_eq_ok.mp (hvalid hne')
  obtain ⟨p, hp, hcert, hname⟩ := (ensure_eq_ok.mp hselected).resolve_left hne'
  refine ⟨?_, ?_, c'.refresh p, List.mem_map_of_mem hp, ?_, ?_, ?_⟩
  · have hmap : c'.synced.pairedDevices.map SavedPeer.fingerprint =
        c'.pairedDevices.map SavedPeer.fingerprint := by
      simp [synced, Function.comp_def]
    rw [hmap]
    exact (Pairing.validatePeersFrom_eq_ok hpeers).2
  · intro q hq
    obtain ⟨r, hr, rfl⟩ := List.mem_map.mp hq
    simpa using he.stored h r hr
  · exact (refresh_certificate c' p).trans hcert
  · exact (refresh_name c' p).trans hname
  · rw [refresh, if_pos (show c'.Selects p from hcert)]
    exact ⟨rfl, rfl⟩

/-- What extends a configuration is an evolution of it, once it is synchronized. -/
theorem Extends.evolves {c c' : Config} (he : c.Extends c') : c.Evolves c'.synced := by
  obtain ⟨⟨new, hnew, hstored⟩, -⟩ := he
  refine ⟨fun p hp => ⟨c'.refresh p, ?_, refresh_fingerprint .., refresh_name ..,
    refresh_certificate ..⟩, fun q hq hsel => ?_⟩
  · exact List.mem_map_of_mem (hnew ▸ List.mem_append_left _ hp)
  · obtain ⟨p, hp, rfl⟩ := List.mem_map.mp hq
    have hp' : ¬ c'.Selects p := fun h => hsel ((refresh_certificate c' p).trans h)
    have hsame : c'.refresh p = p := if_neg hp'
    rw [hsame]
    rw [hnew] at hp
    rcases List.mem_append.mp hp with hp | hp
    · exact .inl ⟨p, hp, rfl, rfl, rfl⟩
    · exact .inr (hstored p hp).2

/-! ### What the edits are for -/

/-- A peer that takes over the values at top level and is selected. -/
def adopt (c : Config) (info : CertificateInfo) : Config :=
  { c with
    peerName := info.name
    peerCertificate := Pairing.storedPath info.fingerprint
    pairedDevices := c.pairedDevices ++ [{
      fingerprint := info.fingerprint
      name := info.name
      certificate := Pairing.storedPath info.fingerprint
      connection := c.connection
      edges := c.edges }] }

/-- A further peer, with values of its own. -/
def enrolled (c : Config) (info : CertificateInfo) : Config :=
  { c with
    pairedDevices := c.pairedDevices ++ [{
      fingerprint := info.fingerprint
      name := info.name
      certificate := Pairing.storedPath info.fingerprint
      connection := .listen "0.0.0.0:42420"
      edges := (c.edges.take 1).map fun edge => { edge with id := "default" } }] }

/-- A configuration with a single certificate, `legacy`, adopts that one first. -/
def migrated (c : Config) (legacy : Option CertificateInfo) : Config := legacy.elim c c.adopt

/-- The list has a peer with the certificate, new or not. -/
def joined (c : Config) (info : CertificateInfo) : Config :=
  if info.fingerprint ∈ c.pairedDevices.map SavedPeer.fingerprint then c
  else if c.pairedDevices = [] then c.adopt info
  else c.enrolled info

/-- The certificate is imported. -/
def imported (c : Config) (legacy : Option CertificateInfo) (info : CertificateInfo) : Config :=
  (c.migrated legacy).joined info

/-- The settings are saved. -/
def configured (c : Config) (s : Manager.Settings) : Config :=
  { c with
    connection := s.connection
    nativeTouchpads := s.nativeTouchpads
    activityDevices := s.activityDevices }

/-- The peer is selected. -/
def activated (c : Config) (p : SavedPeer) : Config :=
  { c with
    peerName := p.name
    peerCertificate := p.certificate
    connection := p.connection
    edges := p.edges }

/-- The single certificate of a configuration without saved peers, if its file is there. -/
def Legacy (store : Store) (directory : Path) (c : Config) : Option CertificateInfo → Prop
  | none => c.pairedDevices ≠ [] ∨ store.file (directory.join c.peerCertificate) = none
  | some info => c.pairedDevices = [] ∧ store.Certifies (directory.join c.peerCertificate) info

/-- The migration extends a configuration. -/
theorem migrated_extends {store : Store} {directory : Path} {c : Config}
    {legacy : Option CertificateInfo} (hl : c.Legacy store directory legacy) (h : c.edges ≠ []) :
    c.Extends (c.migrated legacy) := by
  cases legacy with
  | none => exact ⟨⟨[], (List.append_nil _).symm, by simp⟩, h⟩
  | some current =>
      refine ⟨⟨_, rfl, fun q hq => ?_⟩, h⟩
      obtain rfl := List.mem_singleton.mp hq
      exact ⟨rfl, by simp [hl.1]⟩

/-- An import extends a configuration. -/
theorem imported_extends {store : Store} {directory : Path} {c : Config}
    {legacy : Option CertificateInfo} (info : CertificateInfo)
    (hl : c.Legacy store directory legacy) (h : c.edges ≠ []) :
    c.Extends (c.imported legacy info) := by
  have hbase := migrated_extends hl h
  obtain ⟨⟨new, hnew, hstored⟩, hedges⟩ := hbase
  rw [imported, joined]
  have hone : ∀ q : SavedPeer, q.certificate = Pairing.storedPath q.fingerprint →
      q.fingerprint ∉ (c.migrated legacy).pairedDevices.map SavedPeer.fingerprint →
      ∀ r ∈ new ++ [q], r.certificate = Pairing.storedPath r.fingerprint ∧
        r.fingerprint ∉ c.pairedDevices.map SavedPeer.fingerprint := by
    intro q hq hfresh r hr
    rcases List.mem_append.mp hr with hr | hr
    · exact hstored r hr
    · obtain rfl := List.mem_singleton.mp hr
      exact ⟨hq, fun hc => hfresh (by rw [hnew, List.map_append]; exact List.mem_append_left _ hc)⟩
  split_ifs with hmem hfirst
  · exact ⟨⟨new, hnew, hstored⟩, hedges⟩
  · exact ⟨⟨new ++ [_], by rw [← List.append_assoc, ← hnew]; rfl, hone _ rfl hmem⟩, hedges⟩
  · exact ⟨⟨new ++ [_], by rw [← List.append_assoc, ← hnew]; rfl, hone _ rfl hmem⟩, hedges⟩

end Config

/-! ### Documents -/

/-- The document reads as the configuration. -/
def Reads (F : Format T D) (doc : D) (c : Config) : Prop := F.read (F.render doc) = .ok c

theorem Reads.unique {F : Format T D} {doc : D} {c c' : Config} (h : Reads F doc c)
    (h' : Reads F doc c') : c' = c := Except.ok.inj (h'.symm.trans h)

/-- What `raw_config` reads is that configuration. -/
theorem Reads.rawConfig {F : Format T D} {doc : D} {c c' : Config} (h : Reads F doc c)
    (hraw : Pairing.rawConfig F doc = .ok c') : c' = c := h.unique (context_eq_ok.mp hraw)

namespace Pairing

variable {F : Format T D} (hF : F.Lawful)
include hF

/-- `sync_selected` writes the values of the configuration to the selected peer. -/
theorem syncSelected_spec {doc doc' : D} {c : Config} (h : Reads F doc c)
    (hstored : ∀ p ∈ c.pairedDevices, p.certificate = storedPath p.fingerprint)
    (hedges : c.edges ≠ []) (hsync : syncSelected F doc = .ok doc') :
    Reads F doc' c.synced ∧ (c.pairedDevices ≠ [] → validate c = .ok ()) := by
  obtain ⟨config, hraw, hsync⟩ := bind_eq_ok.mp hsync
  obtain rfl := h.rawConfig hraw
  split_ifs at hsync with hnone
  · obtain rfl := Except.ok.inj hsync
    have hmap : config.pairedDevices.map config.refresh = config.pairedDevices := by
      rw [hnone, List.map_nil]
    have hsynced : config.synced = config := by rw [Config.synced, hmap]
    exact ⟨hsynced.symm ▸ h, fun hne => absurd hnone hne⟩
  · obtain ⟨_, hvalid, hsync⟩ := bind_eq_ok.mp hsync
    obtain ⟨peers, hpeers, hsync⟩ := bind_eq_ok.mp hsync
    obtain rfl := Except.ok.inj hsync
    obtain ⟨_, hchecked, -⟩ := bind_eq_ok.mp hvalid
    obtain ⟨hall, hdistinct⟩ := validatePeersFrom_eq_ok hchecked
    obtain rfl := Config.updateSelected_eq (Config.certificates_nodup hdistinct hstored)
      (orError_eq_ok.mp hpeers)
    refine ⟨hF.read_write (fun p hp => ?_) h, fun _ => hvalid⟩
    obtain ⟨q, hq, rfl⟩ := List.mem_map.mp hp
    unfold Config.refresh
    split_ifs
    · exact hedges
    · exact edges_ne_nil_of_validate (hall q hq).2

/-- After `activate` the configuration has the values of the peer. -/
theorem activate_reads {doc : D} {c : Config} (h : Reads F doc c) {peer : SavedPeer}
    (hedges : peer.edges ≠ []) :
    Reads F (activate F doc peer) { c with
      peerName := peer.name
      peerCertificate := peer.certificate
      connection := peer.connection
      edges := peer.edges } := by
  have hname := hF.read_write (e := .peerName peer.name) trivial h
  have hcertificate := hF.read_write (e := .peerCertificate peer.certificate) trivial hname
  have hconnection := hF.read_write (e := .connection peer.connection) trivial hcertificate
  exact hF.read_write (e := .edges peer.edges) hedges hconnection

omit hF in
/-- A certificate is stored under its fingerprint. -/
theorem storedCertificate_spec (faults : StoreFaults) (directory : Path) (info : CertificateInfo)
    (repair : Bool) (store : Store) :
    wp (storedCertificate faults directory info repair) store
      (fun path _ => path = storedPath info.fingerprint) (fun _ _ => True) := by
  rw [storedCertificate]
  refine wp_bind_of_forall (fun _ store' => ?_) fun _ _ => trivial
  simp only [wp_bind, wp_lift, wp_get]
  refine ⟨fun _ _ => ?_, fun _ _ => trivial⟩
  cases store'.file (directory.join (storedPath info.fingerprint)) with
  | none =>
      exact wp_bind_of_forall (fun _ _ => rfl) fun _ _ => trivial
  | some file =>
      simp only [wp_bind, wp_lift, wp_attempt]
      refine ⟨fun _ _ => ?_, fun _ _ => trivial⟩
      refine wp_mono (wp_true _ _) (fun _ _ _ => rfl) fun e store _ => ?_
      rw [wp_ite]
      exact ⟨fun _ => wp_bind_of_forall (fun _ _ => rfl) fun _ _ => trivial, fun _ => trivial⟩

/-- The migration saves the single certificate that is there. -/
theorem migrate_spec (faults : StoreFaults) (directory : Path) (info : CertificateInfo) {doc : D}
    {c : Config} (h : Reads F doc c) (hedges : c.edges ≠ []) (store : Store) :
    wp (migrate F faults directory info doc c) store
      (fun r _ => ∃ legacy, c.Legacy store directory legacy ∧
        Reads F r.1 { c.migrated legacy with pairedDevices := c.pairedDevices } ∧
        r.2 = { c with pairedDevices := (c.migrated legacy).pairedDevices })
      (fun _ _ => True) := by
  rw [migrate, wp_bind, wp_get, wp_ite]
  refine ⟨fun hlegacy => ?_, fun hnone => ⟨none, ?_, h, rfl⟩⟩
  · rw [wp_bind]
    refine wp_mono (certificate_spec _ _) ?_ fun _ _ _ => trivial
    rintro current _ ⟨rfl, hcurrent⟩
    rw [wp_bind]
    refine wp_mono (storedCertificate_spec faults directory current _ _) ?_ fun _ _ _ => trivial
    rintro _ _ rfl
    exact ⟨some current, ⟨hlegacy.1, hcurrent⟩, activate_reads hF h hedges, rfl⟩
  · by_cases hpeers : c.pairedDevices = []
    · exact .inr (by simpa [hpeers] using hnone)
    · exact .inl hpeers

/-- `config` is the list as it is to be written, `doc` what has been written of the rest. -/
theorem enrol_spec (faults : StoreFaults) (directory : Path) (info : CertificateInfo) {doc : D}
    {c config : Config} (h : Reads F doc c) (hedges : c.edges ≠ [])
    (hconnection : config.connection = c.connection) (hsame : config.edges = c.edges)
    (hpeers : ∀ p ∈ config.pairedDevices, p.edges ≠ []) (store : Store) :
    wp (enrol F faults directory info doc config) store
      (fun doc' _ => Reads F doc' ({ c with pairedDevices := config.pairedDevices }.joined info))
      (fun _ _ => True) := by
  rw [enrol, Config.joined]
  -- a peer that is saved already is only marked as trusted
  cases hfind : config.pairedDevices.find? (·.fingerprint = info.fingerprint) with
  | some saved =>
      have hmem : info.fingerprint ∈ config.pairedDevices.map SavedPeer.fingerprint :=
        List.mem_map.mpr ⟨saved, List.mem_of_find?_eq_some hfind,
          by simpa using List.find?_some hfind⟩
      rw [if_pos hmem]
      refine wp_bind_of_forall (fun _ _ => ?_) fun _ _ => trivial
      refine wp_bind_of_forall (fun _ _ => ?_) fun _ _ => trivial
      exact hF.read_write hpeers h
  | none =>
      have hnew : info.fingerprint ∉ config.pairedDevices.map SavedPeer.fingerprint := by
        rintro hmem
        obtain ⟨p, hp, hpe⟩ := List.mem_map.mp hmem
        simpa [hpe] using List.find?_eq_none.mp hfind p hp
      rw [if_neg hnew]
      simp only [wp_bind, wp_lift]
      refine ⟨fun edge hedge => ?_, fun _ _ => trivial⟩
      refine wp_mono (storedCertificate_spec faults directory info true store) ?_
        fun _ _ _ => trivial
      rintro _ _ rfl
      have hreadable : ∀ peers : List SavedPeer, ∀ peer : SavedPeer, (∀ p ∈ peers, p.edges ≠ []) →
          peer.edges ≠ [] → ∀ p ∈ peers ++ [peer], p.edges ≠ [] := by
        intro peers peer hpeers hpeer p hp
        rcases List.mem_append.mp hp with hp | hp
        · exact hpeers p hp
        · exact List.mem_singleton.mp hp ▸ hpeer
      rw [wp_ite]
      refine ⟨fun hfirst => ?_, fun hfirst => ?_⟩
      · -- the first peer takes over the values at top level
        rw [if_pos hfirst, Config.adopt, hconnection, hsame]
        refine (hF.read_write (e := .pairedDevices [_]) (hreadable [] _ (by simp) hedges)
          (activate_reads hF h hedges)).trans ?_
        rw [hfirst]
        rfl
      · rw [if_neg hfirst]
        have hhead : c.edges.take 1 = [edge] := by
          cases hlist : c.edges with
          | nil => exact absurd hlist hedges
          | cons first rest =>
              rw [hsame, hlist] at hedge
              rw [Option.some.inj (orError_eq_ok.mp hedge)]
              rfl
        refine (hF.read_write (e := .pairedDevices (_ ++ [_]))
          (hreadable _ _ hpeers (List.cons_ne_nil _ _)) h).trans ?_
        rw [Config.enrolled]
        simp only [hhead]
        rfl

/-- **What `add` makes of a configuration.** -/
theorem add_spec (faults : StoreFaults × StoreFaults) (directory : Path)
    (info : CertificateInfo) {doc : D} {c : Config} (h : Reads F doc c) (hgood : c.Good)
    (store : Store) :
    wp (add F faults directory info doc) store
      (fun doc' _ =>
        ∃ legacy, c.Legacy store directory legacy ∧ Reads F doc' (c.imported legacy info))
      (fun _ _ => True) := by
  rw [add, wp_bind, wp_lift]
  refine ⟨fun config hraw => ?_, fun _ _ => trivial⟩
  obtain rfl := h.rawConfig hraw
  rw [wp_bind]
  refine wp_mono (migrate_spec hF faults.1 directory info h hgood.edges store) ?_
    fun _ _ _ => trivial
  rintro ⟨doc₁, config₁⟩ store₁ ⟨legacy, hl, h₁, hconfig⟩
  dsimp only at h₁ hconfig ⊢
  have hvalues : (config.migrated legacy).connection = config.connection ∧
      (config.migrated legacy).edges = config.edges := by
    cases legacy <;> exact ⟨rfl, rfl⟩
  have hpeers : ∀ p ∈ config₁.pairedDevices, p.edges ≠ [] := by
    intro p hp
    rw [hconfig] at hp
    cases legacy with
    | none => exact hgood.peerEdges p hp
    | some current =>
        rcases List.mem_append.mp hp with hp | hp
        · exact hgood.peerEdges p hp
        · exact List.mem_singleton.mp hp ▸ hgood.edges
  refine wp_mono (enrol_spec hF faults.2 directory info h₁ (hvalues.2 ▸ hgood.edges)
    ((congrArg Config.connection hconfig).trans hvalues.1.symm)
    ((congrArg Config.edges hconfig).trans hvalues.2.symm) hpeers store₁) ?_ fun _ _ _ => trivial
  intro doc₂ _ h₂
  rw [hconfig] at h₂
  exact ⟨legacy, hl, h₂⟩

end Pairing

/-- The edit makes of a configuration one that is related to it, given the certificates it finds. -/
def Yields (F : Format T D) (edit : D → StoreM D) (R : Store → Config → Config → Prop) : Prop :=
  ∀ doc c store, Reads F doc c → c.Good →
    wp (edit doc) store (fun doc' _ => ∃ c', Reads F doc' c' ∧ R store c c') (fun _ _ => True)

section Edits
variable {F : Format T D} (hF : F.Lawful)
include hF

/-- What `add` makes of a configuration. -/
theorem add_yields (faults : StoreFaults × StoreFaults) (directory : Path)
    (info : CertificateInfo) :
    Yields F (Pairing.add F faults directory info) fun store c c' =>
      ∃ legacy, c.Legacy store directory legacy ∧ c' = c.imported legacy info := by
  intro doc c store h hgood
  refine wp_mono (Pairing.add_spec hF faults directory info h hgood store) ?_ fun _ _ h => h
  rintro doc' _ ⟨legacy, hl, h'⟩
  exact ⟨_, h', legacy, hl, rfl⟩

/-- What `select` makes of a configuration. -/
theorem select_yields (directory : Path) (fingerprint : String) :
    Yields F (Pairing.select F directory fingerprint) fun _ c c' =>
      ∃ p, c.pairedDevices.find? (·.fingerprint = fingerprint) = some p ∧ c' = c.activated p := by
  intro doc c store h hgood
  simp only [Pairing.select, wp_bind, wp_lift]
  refine ⟨fun config hraw => ⟨fun peer hpeer => ?_, fun _ _ => trivial⟩, fun _ _ => trivial⟩
  obtain rfl := h.rawConfig hraw
  have hmem := List.mem_of_find?_eq_some (orError_eq_ok.mp hpeer)
  refine wp_mono (wp_true _ _) (fun _ _ _ => ?_) fun _ _ _ => trivial
  exact ⟨_, Pairing.activate_reads hF h (hgood.peerEdges peer hmem), peer,
    orError_eq_ok.mp hpeer, rfl⟩

/-- What `settings` makes of a configuration. -/
theorem settings_yields (s : Manager.Settings) :
    Yields F (fun doc => lift id (Manager.settings F s doc)) fun _ c c' => c' = c.configured s := by
  intro doc c store h hgood
  rw [wp_lift]
  refine ⟨fun doc' hsettings => ?_, fun _ _ => trivial⟩
  obtain ⟨_, -, hsettings⟩ := bind_eq_ok.mp hsettings
  obtain rfl := Except.ok.inj hsettings
  have hconnection := hF.read_write (e := .connection s.connection) trivial h
  have htouchpads := hF.read_write (e := .nativeTouchpads s.nativeTouchpads) trivial hconnection
  exact ⟨_, hF.read_write (e := .activityDevices s.activityDevices) trivial htouchpads, rfl⟩

/-- What `write_edges` makes of a configuration. -/
theorem writeEdges_yields {edges : List EdgeConfig} (hedges : edges ≠ []) :
    Yields F (fun doc => pure (Pairing.writeEdges F doc edges)) fun _ c c' =>
      c' = { c with edges := edges } := by
  intro doc c store h hgood
  exact ⟨_, hF.read_write (e := .edges edges) hedges h, rfl⟩

end Edits

/-- An edit next to the configuration file. -/
theorem in_directory {F : Format T D} (path : Path) {edit : Path → D → StoreM D}
    {R : Path → Store → Config → Config → Prop}
    (he : ∀ directory, Yields F (edit directory) (R directory)) :
    Yields F (fun doc => lift id (orError "config_invalid" path.parent) >>= (edit · doc))
      fun store c c' =>
      ∃ directory, path.parent = some directory ∧ R directory store c c' := by
  intro doc c store h hgood
  rw [wp_bind, wp_lift]
  refine ⟨fun directory hparent => ?_, fun _ _ => trivial⟩
  refine wp_mono (he directory doc c store h hgood) ?_ fun _ _ h => h
  rintro doc' _ ⟨c', h', hR⟩
  exact ⟨c', h', directory, orError_eq_ok.mp hparent, hR⟩

end NiriBridge
