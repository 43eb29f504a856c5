import NiriBridge.Manager.SavedPeers

/-!
# Manager — Pinning

Which saved peer a certificate is checked against.  `validate` wants one record with both the
configured name and the configured path, `selected_certificate` takes the first with the path, and
`summaries` calls every record with the path active.  Fingerprints are distinct, paths need not be:
`pinned_iff` says that the three agree exactly when no two records have the configured path.

The edits of the program store every certificate under its own fingerprint (`Config.Good`), so this
takes a configuration written by hand.
-/

namespace NiriBridge

open Hoare

variable {T D : Type}

namespace Config

/-- The certificate is that of the saved peer with the configured name and path, and of no peer with
another name. -/
structure Pins (c : Config) (fingerprint : String) : Prop where
  saved : ∀ p ∈ c.pairedDevices, c.Selects p → p.name = c.peerName → p.fingerprint = fingerprint
  named : ∀ p ∈ c.pairedDevices, p.fingerprint = fingerprint → p.name = c.peerName

/-- What the certificate files hold makes no trouble: whatever is trusted is pinned, and at most one
saved peer counts as active. -/
structure Pinned (load : CertificateFile → Result String) (expires : CertificateInfo → String)
    (store : Store) (c : Config) : Prop where
  trusted : ∀ fingerprint, Pairing.selectedCertificate load store c = .ok fingerprint →
    c.Pins fingerprint
  active : wp (Pairing.summaries expires c) store
    (fun list _ => (list.filter Pairing.Summary.active).length ≤ 1) (fun _ _ => False)

/-- No two saved peers have the configured path. -/
def Single (c : Config) : Prop :=
  ∀ p ∈ c.pairedDevices, ∀ q ∈ c.pairedDevices, c.Selects p → c.Selects q → p = q

/-- A saved peer with the configured name and path is the first with the path. -/
def NamedFirst (c : Config) : Prop :=
  ∀ p ∈ c.pairedDevices, c.Selects p → p.name = c.peerName →
    c.pairedDevices.find? (·.certificate = c.peerCertificate) = some p

theorem Single.namedFirst {c : Config} (h : c.Single) : c.NamedFirst := by
  intro p hp hsel _
  have hsome : (c.pairedDevices.find? (·.certificate = c.peerCertificate)).isSome :=
    List.find?_isSome.mpr ⟨p, hp, decide_eq_true hsel⟩
  obtain ⟨q, hq⟩ := Option.isSome_iff_exists.mp hsome
  have hfound :
      decide (q.certificate = c.peerCertificate) = true := by simpa using List.find?_some hq
  rw [hq, h q (List.mem_of_find?_eq_some hq) p hp (of_decide_eq_true hfound) hsel]

/-! ### What is validated -/

/-- What `validate` establishes. -/
theorem validate_eq_ok {c : Config} {u : Unit} (h : Pairing.validate c = .ok u)
    (hne : c.pairedDevices ≠ []) :
    (c.pairedDevices.map SavedPeer.fingerprint).Nodup ∧
      ∃ p ∈ c.pairedDevices, c.Selects p ∧ p.name = c.peerName := by
  obtain ⟨_, hpeers, h⟩ := bind_eq_ok.mp h
  exact ⟨(Pairing.validatePeersFrom_eq_ok hpeers).2, (ensure_eq_ok.mp h).resolve_left hne⟩

/-- A configuration that is loaded has passed its check. -/
theorem load_validate {F : Format T D} {path : Path} {text : T} {c : Config}
    (h : Config.load F path text = .ok c) : Pairing.validate c = .ok () := by
  obtain ⟨value, -, h⟩ := bind_eq_ok.mp h
  obtain ⟨_, hvalid, h⟩ := bind_eq_ok.mp h
  obtain ⟨_, -, h⟩ := bind_eq_ok.mp h
  obtain ⟨_, -, h⟩ := bind_eq_ok.mp h
  obtain rfl := Except.ok.inj h
  exact hvalid

/-! ### The certificate that is trusted -/

/-- The certificate that is used is that of the first peer with the configured file. -/
theorem selectedCertificate_eq_ok {load : CertificateFile → Result String}
    {store : Store} {c : Config} {fingerprint : String} (hne : c.pairedDevices ≠ [])
    (h : Pairing.selectedCertificate load store c = .ok fingerprint) :
    ∃ p, c.pairedDevices.find? (·.certificate = c.peerCertificate) = some p ∧
      p.fingerprint = fingerprint := by
  obtain ⟨file, -, h⟩ := bind_eq_ok.mp h
  obtain ⟨_, -, h⟩ := bind_eq_ok.mp h
  rw [if_neg hne] at h
  obtain ⟨p, hfind, h⟩ := bind_eq_ok.mp h
  obtain ⟨_, hsame, h⟩ := bind_eq_ok.mp h
  obtain rfl := Except.ok.inj h
  exact ⟨p, orError_eq_ok.mp hfind, (ensure_eq_ok.mp hsame).symm⟩

/-- A certificate that is trusted is pinned exactly when the first record with the configured path
is the only one there with the configured name. -/
theorem pins_iff {load : CertificateFile → Result String} {store : Store} {c : Config}
    {fingerprint : String} (hvalid : Pairing.validate c = .ok ()) (hne : c.pairedDevices ≠ [])
    (h : Pairing.selectedCertificate load store c = .ok fingerprint) :
    c.Pins fingerprint ↔ c.NamedFirst := by
  obtain ⟨hdistinct, q, hq, hsel, hname⟩ := validate_eq_ok hvalid hne
  obtain ⟨r, hfind, rfl⟩ := selectedCertificate_eq_ok hne h
  have hr := List.mem_of_find?_eq_some hfind
  constructor
  · intro hpins p hp hsel hname
    rw [hfind, List.inj_on_of_nodup_map hdistinct hp hr (hpins.saved p hp hsel hname)]
  · intro hfirst
    have hsame : ∀ p ∈ c.pairedDevices, c.Selects p → p.name = c.peerName → p = r :=
      fun p hp hsel hname => Option.some.inj ((hfirst p hp hsel hname).symm.trans hfind)
    refine ⟨fun p hp hsel hname => by rw [hsame p hp hsel hname], fun p hp hfp => ?_⟩
    rw [List.inj_on_of_nodup_map hdistinct hp hr hfp, ← hsame q hq hsel hname, hname]

/-! ### The records that are active -/

/-- The active peers of a summary are the selected ones. -/
theorem summariesOf_spec (expires : CertificateInfo → String) (c : Config) (peers : List SavedPeer)
    (store : Store) :
    wp (Pairing.summariesOf expires c peers) store
      (fun list _ => list.map Pairing.Summary.active = peers.map fun p => decide (c.Selects p))
      (fun _ _ => False) := by
  induction peers generalizing store with
  | nil => exact rfl
  | cons peer peers ih =>
      rw [Pairing.summariesOf, wp_bind, Pairing.summary, wp_bind, wp_attempt]
      refine wp_mono (wp_true _ _) (fun info s _ => ?_) fun e s _ => ?_
      all_goals
        rw [wp_pure, wp_bind]
        refine wp_mono (ih s) (fun list s' hlist => ?_) fun _ _ h => h
        rw [wp_pure, List.map_cons, List.map_cons, hlist]
        rfl

/-- As many records are active as have the configured path. -/
theorem summaries_spec (expires : CertificateInfo → String) {c : Config} (store : Store)
    (hne : c.pairedDevices ≠ []) :
    wp (Pairing.summaries expires c) store
      (fun list _ => (list.filter Pairing.Summary.active).length =
        (c.pairedDevices.filter fun p => decide (c.Selects p)).length)
      (fun _ _ => False) := by
  rw [Pairing.summaries, if_neg hne]
  refine wp_mono (summariesOf_spec expires c _ store) (fun list _ h => ?_) fun _ _ h => h
  have hcount := congrArg (fun flags => (flags.filter id).length) h
  simpa [List.filter_map, Function.comp_def] using hcount

/-- Distinct records are at most one, or two of them differ. -/
theorem single_iff_length {c : Config}
    (hdistinct : (c.pairedDevices.map SavedPeer.fingerprint).Nodup) :
    (c.pairedDevices.filter fun p => decide (c.Selects p)).length ≤ 1 ↔ c.Single := by
  have hnodup : (c.pairedDevices.filter fun p => decide (c.Selects p)).Nodup :=
    hdistinct.of_map.filter _
  have hmem : ∀ p, p ∈ c.pairedDevices.filter (fun p => decide (c.Selects p)) ↔
      p ∈ c.pairedDevices ∧ c.Selects p := by simp
  generalize c.pairedDevices.filter (fun p => decide (c.Selects p)) = records at hnodup hmem
  have hsingle : c.Single ↔ ∀ p ∈ records, ∀ q ∈ records, p = q := by
    constructor
    · intro h p hp q hq
      exact h p ((hmem p).mp hp).1 q ((hmem q).mp hq).1 ((hmem p).mp hp).2 ((hmem q).mp hq).2
    · intro h p hp q hq hsp hsq
      exact h p ((hmem p).mpr ⟨hp, hsp⟩) q ((hmem q).mpr ⟨hq, hsq⟩)
  rw [hsingle]
  match records with
  | [] => simp
  | [p] => simp
  | p :: q :: rest =>
      refine ⟨fun h => by simp at h, fun h => absurd ?_ (List.nodup_cons.mp hnodup).1⟩
      rw [h p (by simp) q (by simp)]
      exact List.mem_cons_self

/-- **The certificate of the selected peer is pinned, and that peer is the only active one, exactly
when no two saved peers have the configured path.**  For a certificate that is trusted it is enough
that the first of them carries the configured name and no other does. -/
theorem pinned_iff {F : Format T D} {path : Path} {text : T} {c : Config}
    (hload : Config.load F path text = .ok c) (hne : c.pairedDevices ≠ [])
    (load : CertificateFile → Result String) (expires : CertificateInfo → String) (store : Store) :
    (c.Pinned load expires store ↔ c.Single) ∧
      ∀ fingerprint, Pairing.selectedCertificate load store c = .ok fingerprint →
        (c.Pins fingerprint ↔ c.NamedFirst) := by
  have hvalid := load_validate hload
  have hsingle := single_iff_length (validate_eq_ok hvalid hne).1
  have hsummaries := summaries_spec expires store hne
  refine ⟨⟨fun h => hsingle.mp ?_, fun h => ⟨fun fingerprint hfp => ?_, ?_⟩⟩,
    fun _ hfp => pins_iff hvalid hne hfp⟩
  · have hboth := wp_and h.active hsummaries
    unfold wp at hboth
    cases hrun : Pairing.summaries expires c store with
    | ok list store' =>
        rw [hrun] at hboth
        exact hboth.2 ▸ hboth.1
    | error e store' =>
        rw [hrun] at hboth
        exact hboth.1.elim
  · exact (pins_iff hvalid hne hfp).mpr h.namedFirst
  · exact wp_mono hsummaries (fun list _ hlist => hlist ▸ hsingle.mpr h) fun _ _ h => h

section Sample

/-- Two peers that share the file `peer.pem`; the configured name is that of the second. -/
def sharedFile : Config :=
  { Managed.sampleConfig with
    peerName := "laptop"
    pairedDevices := [
      ⟨Managed.sampleFingerprint, "desktop", ⟨false, ["peer.pem"]⟩, .listen "0.0.0.0:42420",
        Managed.sampleConfig.edges⟩,
      ⟨"0000000000000000000000000000000000000000000000000000000000000000", "laptop",
        ⟨false, ["peer.pem"]⟩, .listen "0.0.0.0:42420", Managed.sampleConfig.edges⟩] }

/-- The file holds the certificate of the first. -/
def sharedStore : Store where
  peers := none
  file path :=
    if path = ⟨true, ["home", "peer.pem"]⟩ then
      some ⟨true, .ok ⟨"desktop", Managed.sampleFingerprint⟩⟩
    else none

/-- The fingerprint that a reader finds in a file. -/
def fingerprintOf (file : CertificateFile) : Result String :=
  file.contents.map CertificateInfo.fingerprint

/-- That configuration as it is loaded, its paths resolved. -/
def loadedShared : Config :=
  { sharedFile with
    sourcePath := some Managed.samplePath
    certificate := ⟨true, ["home", "identity.pem"]⟩
    privateKey := ⟨true, ["home", "identity.key.pem"]⟩
    peerCertificate := ⟨true, ["home", "peer.pem"]⟩
    pairedDevices := sharedFile.pairedDevices.map (SavedPeer.resolve ⟨true, ["home"]⟩) }

theorem load_sharedFile :
    Config.load Managed.sampleFormat Managed.samplePath sharedFile = .ok loadedShared := rfl

theorem selected_sharedFile :
    Pairing.selectedCertificate fingerprintOf sharedStore loadedShared =
    .ok Managed.sampleFingerprint :=
  rfl

theorem pinned_sharedFile :
    (loadedShared.Pinned fingerprintOf (fun _ => "") sharedStore ↔ loadedShared.Single) ∧
      (loadedShared.Pins Managed.sampleFingerprint ↔ loadedShared.NamedFirst) := by
  have h := pinned_iff load_sharedFile nofun fingerprintOf (fun _ => "") sharedStore
  exact ⟨h.1, h.2 _ selected_sharedFile⟩

/-- The certificate of `desktop` is trusted under the name `laptop`. -/
theorem sharedFile_not_pinned :
    Config.load Managed.sampleFormat Managed.samplePath sharedFile = .ok loadedShared ∧
      loadedShared.pairedDevices ≠ [] ∧ loadedShared.peerName = "laptop" ∧
      Pairing.selectedCertificate fingerprintOf sharedStore loadedShared =
        .ok Managed.sampleFingerprint ∧
      (∃ p ∈ loadedShared.pairedDevices,
        p.fingerprint = Managed.sampleFingerprint ∧ p.name = "desktop") ∧
      ¬ loadedShared.Pinned fingerprintOf (fun _ => "") sharedStore := by
  refine ⟨load_sharedFile, nofun, rfl, selected_sharedFile, ⟨_, List.mem_cons_self, rfl, rfl⟩,
    fun h => ?_⟩
  have hname := (h.trusted _ selected_sharedFile).named _ List.mem_cons_self rfl
  exact absurd hname (by decide)

end Sample

end Config

end NiriBridge
