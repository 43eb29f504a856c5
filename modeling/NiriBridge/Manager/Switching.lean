import NiriBridge.Manager.SavedPeers

/-!
# Manager — Switching

Selecting a peer and coming back to it.

* `Effect.away`: while another peer is selected, no edit touches what is saved of a peer.
* `switch_back`: so it is back with the connection and the edges it had.
-/

namespace NiriBridge

namespace Config

/-- What is saved of the peer, none of which is in use. -/
def Away (x : SavedPeer) (c : Config) : Prop := x ∈ c.pairedDevices ∧ ¬ c.Selects x

theorem Away.synced {x : SavedPeer} {c : Config} (h : c.Away x) : c.synced.Away x :=
  ⟨List.mem_map.mpr ⟨x, h.1, if_neg h.2⟩, h.2⟩

/-- Peers with different fingerprints are not selected together. -/
theorem Good.not_selects {c : Config} (h : c.Good) {x p : SavedPeer} (hx : x ∈ c.pairedDevices)
    (hp : p ∈ c.pairedDevices) (hne : p.fingerprint ≠ x.fingerprint) :
    ¬ (c.activated p).Selects x := by
  have hstored := (h.consistent (List.ne_nil_of_mem hx)).stored
  intro hsel
  have hcert : x.certificate = p.certificate := hsel
  rw [hstored x hx, hstored p hp] at hcert
  exact hne (Pairing.storedPath_injective hcert).symm

/-- An import leaves a peer alone that is saved already. -/
theorem imported_away {store : Store} {directory : Path} {x : SavedPeer} {c : Config}
    {legacy : Option CertificateInfo} (info : CertificateInfo)
    (hl : c.Legacy store directory legacy) (h : c.Away x) : (c.imported legacy info).Away x := by
  obtain ⟨hx, hsel⟩ := h
  have hne : c.pairedDevices ≠ [] := List.ne_nil_of_mem hx
  cases legacy with
  | some current => exact absurd hl.1 hne
  | none =>
      show (c.joined info).Away x
      rw [joined, if_neg hne]
      split_ifs
      · exact ⟨hx, hsel⟩
      · exact ⟨List.mem_append_left _ hx, hsel⟩

end Config

namespace ManagedEdit

variable {T : Type}

/-- The edit selects the peer. -/
def SelectsPeer (fingerprint : String) : ManagedEdit T → Prop
  | selectPeer _ _ _ f => f = fingerprint
  | _ => False

/-- The values the edit writes, of those that are the same whichever peer is selected. -/
def writes : ManagedEdit T → List Path × Bool → List Path × Bool
  | save _ _ settings, _ => (settings.activityDevices, settings.nativeTouchpads)
  | _, v => v

/-- What a managed edit makes of the inputs and the touchpads. -/
theorem Effect.writes {path : Path} {store : Store} {e : ManagedEdit T} {c c' : Config}
    (h : e.Effect path store c c') :
    (c'.activityDevices, c'.nativeTouchpads) = e.writes (c.activityDevices, c.nativeTouchpads) := by
  cases e with
  | save _ _ settings =>
      obtain rfl := h
      rfl
  | importPeer _ _ candidate _ fingerprint =>
      obtain ⟨info, -, -, directory, -, legacy, hl, rfl⟩ := h
      rw [Config.imported, Config.joined]
      cases legacy <;> split_ifs <;> rfl
  | selectPeer _ _ _ fingerprint =>
      obtain ⟨p, hp, rfl⟩ := h
      rfl
  | layout _ _ _ edges _ _ =>
      obtain ⟨-, rfl⟩ := h
      rfl

/-- A peer that is not selected keeps its values, unless it is selected now. -/
theorem Effect.away {path : Path} {store : Store} {e : ManagedEdit T} {c c' : Config}
    {x : SavedPeer} (h : e.Effect path store c c') (hgood : c.Good) (hx : c.Away x)
    (he : ¬ e.SelectsPeer x.fingerprint) : c'.Away x := by
  cases e with
  | save _ _ settings =>
      obtain rfl := h
      exact hx
  | importPeer _ _ candidate _ fingerprint =>
      obtain ⟨info, -, -, directory, -, legacy, hl, rfl⟩ := h
      exact Config.imported_away info hl hx
  | selectPeer _ _ _ fingerprint =>
      obtain ⟨p, hp, rfl⟩ := h
      have hsame : p.fingerprint = fingerprint := by simpa using List.find?_some hp
      exact ⟨hx.1, hgood.not_selects hx.1 (List.mem_of_find?_eq_some hp) fun heq =>
        he (hsame.symm.trans heq)⟩
  | layout _ _ _ edges _ _ =>
      obtain ⟨-, rfl⟩ := h
      exact hx

end ManagedEdit

namespace Managed

section Switch
variable {T D : Type} {F : Format T D} (hF : F.Lawful) (path : Path) {m : Managed T} {c : Config}
  {older : List Config}
include hF

/-- A successful selection. -/
theorem Inv.select (h : m.Inv F c older) {l : ManagedLabel T} {p : SavedPeer}
    (hp : p ∈ c.pairedDevices) (hl : l.edit.SelectsPeer p.fingerprint) {files : Files T}
    (hok : m.outcome F path l = .ok () files) :
    (m.next F path l).Inv F (c.activated p).synced m.history := by
  obtain ⟨c', hc', heffect, -⟩ := h.next hF path l
  rcases heffect with ⟨-, e, files', herror⟩ | ⟨c₁, heffect, rfl, -⟩
  · rw [hok] at herror
    cases herror
  · obtain ⟨edit, store⟩ := l
    cases edit with
    | selectPeer faults guards expected fingerprint =>
        obtain ⟨q, hq, rfl⟩ := heffect
        obtain rfl : fingerprint = p.fingerprint := hl
        obtain rfl : p = q := Option.some.inj ((saved_eq_some h.good hp).symm.trans hq)
        exact hc'
    | save => exact hl.elim
    | importPeer => exact hl.elim
    | layout => exact hl.elim

/-- Through edits that do not select it, the peer stays as it is. -/
theorem away_run {x : SavedPeer} {ls : List (ManagedLabel T)} (hinv : m.Inv F c older)
    (hx : c.Away x) (hls : ∀ l ∈ ls, ¬ l.edit.SelectsPeer x.fingerprint) :
    ∃ c' older', (Run.run (next F path) m ls).Inv F c' older' ∧ c'.Away x := by
  induction ls generalizing m c older with
  | nil => exact ⟨c, older, hinv, hx⟩
  | cons l ls ih =>
      obtain ⟨c', hc', heffect, -⟩ := hinv.next hF path l
      have hx' : c'.Away x := by
        rcases heffect with ⟨rfl, -⟩ | ⟨c₁, heffect, rfl, -⟩
        · exact hx
        · exact (heffect.away hinv.good hx (hls l (List.mem_cons_self ..))).synced
      exact ih hc' hx' fun l' hl' => hls l' (List.mem_cons_of_mem _ hl')

omit hF in
/-- The values of the last save that worked, of those that are the same whichever peer is
selected. -/
def lastSaved (F : Format T D) (path : Path) :
    Managed T → List (ManagedLabel T) → List Path × Bool → List Path × Bool
  | _, [], v => v
  | m, l :: ls, v => lastSaved F path (m.next F path l) ls
      (match m.outcome F path l with
      | .ok .. => l.edit.writes v
      | .error .. => v)

/-- The inputs and the touchpads are those that were saved last. -/
theorem lastSaved_run (ls : List (ManagedLabel T)) (hinv : m.Inv F c older) :
    ∃ c' older', (Run.run (next F path) m ls).Inv F c' older' ∧
      (c'.activityDevices, c'.nativeTouchpads) =
        lastSaved F path m ls (c.activityDevices, c.nativeTouchpads) := by
  induction ls generalizing m c older with
  | nil => exact ⟨c, older, hinv, rfl⟩
  | cons l ls ih =>
      obtain ⟨c', hc', heffect, -⟩ := hinv.next hF path l
      have hstep : (c'.activityDevices, c'.nativeTouchpads) = match m.outcome F path l with
          | .ok .. => l.edit.writes (c.activityDevices, c.nativeTouchpads)
          | .error .. => (c.activityDevices, c.nativeTouchpads) := by
        rcases heffect with ⟨rfl, e, files, herror⟩ | ⟨c₁, heffect, rfl, -, hworks⟩
        · rw [herror]
        · refine heffect.writes.trans ?_
          cases hrun : m.outcome F path l with
          | ok u files => rfl
          | error e files =>
              -- only a layout that could not be rolled back fails and leaves its mark
              obtain ⟨edit, store⟩ := l
              cases edit with
              | layout => rfl
              | save => simp [hrun] at hworks; exact (hworks trivial).elim
              | importPeer => rfl
              | selectPeer => rfl
      rw [lastSaved, ← hstep]
      exact ih hc'

omit hF in
/-- The invariant is about the configuration that is there. -/
theorem Inv.read (h : m.Inv F c older) : m.files.config.map F.read = some (.ok c) := by
  obtain ⟨t, htext, hread⟩ := h.reads
  rw [htext, Option.map_some, hread]

/-- **Switching away and back.**  Whatever is saved, laid out, imported and selected in between, the
peer is back with the connection and the edges it had; what is the same for every peer has its
latest values. -/
theorem switch_back {files : Files T} {t : T} {loaded : Config} (htext : files.config = some t)
    (hload : Config.load F path t = .ok loaded) (hnone : loaded.pairedDevices = [])
    (before between : List (ManagedLabel T)) {away back : ManagedLabel T} {x y : SavedPeer} :
    let m := Run.run (next F path) (start F files) before
    let m₂ := Run.run (next F path) (m.next F path away) between
    m.files.config.map F.read = some (.ok c) → x ∈ c.pairedDevices → c.Selects x →
    y ∈ c.pairedDevices → y.fingerprint ≠ x.fingerprint →
    away.edit.SelectsPeer y.fingerprint → (∃ files, m.outcome F path away = .ok () files) →
    (∀ l ∈ between, ¬ l.edit.SelectsPeer x.fingerprint) →
    back.edit.SelectsPeer x.fingerprint → (∃ files, m₂.outcome F path back = .ok () files) →
    ∃ c', (m₂.next F path back).files.config.map F.read = some (.ok c') ∧
      (c'.connection = c.connection ∧ c'.edges = c.edges) ∧
      (c'.peerName = x.name ∧ c'.peerCertificate = x.certificate) ∧
      (c'.activityDevices, c'.nativeTouchpads) =
        lastSaved F path (m.next F path away) between (c.activityDevices, c.nativeTouchpads) := by
  intro m m₂ hread hx hsel hy hne haway ⟨_, hok⟩ hbetween hback ⟨_, hok'⟩
  obtain ⟨c₀, older, hm⟩ := inv_run hF path (inv_start htext hload hnone) before
  obtain rfl : c = c₀ := Except.ok.inj (Option.some.inj (hread.symm.trans hm.read))
  have hm₁ := hm.select hF path hy haway hok
  have hx₁ : (c.activated y).synced.Away x :=
    Config.Away.synced ⟨hx, hm.good.not_selects hx hy hne⟩
  obtain ⟨c₂, older₂, hm₂, hx₂⟩ := away_run hF path hm₁ hx₁ hbetween
  obtain ⟨c₃, older₃, hm₃, hlast⟩ := lastSaved_run hF path between hm₁
  obtain rfl : c₂ = c₃ := Except.ok.inj (Option.some.inj (hm₂.read.symm.trans hm₃.read))
  have hfinal := hm₂.select hF path hx₂.1 hback hok'
  exact ⟨_, hfinal.read, hm.good.values hx hsel, ⟨rfl, rfl⟩, hlast⟩

end Switch

section Sample

/-- The fingerprint of another device. -/
def sampleTravel : String :=
  "0b1e5c2f7d3a49688f90a1b2c3d4e5f60718293a4b5c6d7e8f9fa0b1c2d3e4f5"

/-- The certificate of this device, the one it was set up with, the one to import, and those that
are stored. -/
def switchStore : Store where
  peers := some true
  file path :=
    if path = ⟨true, ["home", "identity.pem"]⟩ then some ⟨true, .ok ⟨"local", "own"⟩⟩
    else if path = ⟨true, ["home", "peer.pem"]⟩ then some ⟨true, .ok ⟨"desktop", sampleFingerprint⟩⟩
    else if path = ⟨true, ["travel.pem"]⟩ then some ⟨true, .ok ⟨"travel", sampleTravel⟩⟩
    else if path = ⟨true, ["home", "peers", sampleFingerprint ++ ".pem"]⟩ then
      some ⟨true, .ok ⟨"desktop", sampleFingerprint⟩⟩
    else if path = ⟨true, ["home", "peers", sampleTravel ++ ".pem"]⟩ then
      some ⟨true, .ok ⟨"travel", sampleTravel⟩⟩
    else none

/-- That device is imported. -/
def importTravel : ManagedLabel Config where
  edit := .importPeer ({}, {}) ({}, {}) ⟨true, ["travel.pem"]⟩ "original" sampleTravel
  store := switchStore

/-- A saved device is selected. -/
def selectLabel (fingerprint : String) : ManagedLabel Config where
  edit := .selectPeer ({}, {}) (.ok ()) "edited" fingerprint
  store := switchStore

/-- Other settings are saved. -/
def saveLabel : ManagedLabel Config where
  edit := .save ({}, {}) "edited"
    ⟨.connect "travel.local:42422", [⟨true, ["dev", "input", "event1"]⟩], true⟩
  store := switchStore

/-- Both devices are saved, and the one it was set up with is selected. -/
def sampleBoth : Config :=
  let desktop : SavedPeer := ⟨sampleFingerprint, "desktop", Pairing.storedPath sampleFingerprint,
    sampleConfig.connection, sampleConfig.edges⟩
  { sampleConfig with
    peerName := "desktop"
    peerCertificate := Pairing.storedPath sampleFingerprint
    pairedDevices := [desktop, ⟨sampleTravel, "travel", Pairing.storedPath sampleTravel,
      .listen "0.0.0.0:42420", sampleConfig.edges⟩] }

/-- After the other device has been imported. -/
def sampleHome : Managed Config :=
  Run.run (next sampleFormat samplePath) (start sampleFormat sampleFiles) [importTravel]

/-- The other device is used, with settings of its own. -/
def sampleAway : Managed Config :=
  Run.run (next sampleFormat samplePath)
    (sampleHome.next sampleFormat samplePath (selectLabel sampleTravel)) [saveLabel]

theorem sampleHome_config : sampleHome.files.config = some sampleBoth := by decide

theorem switch_back_travel : ∃ c',
    (sampleAway.next sampleFormat samplePath (selectLabel sampleFingerprint)).files.config.map
        sampleFormat.read = some (.ok c') ∧
      c'.connection = sampleConfig.connection ∧ c'.edges = sampleConfig.edges := by
  obtain ⟨loaded, hload, hnone⟩ := sample_load
  have hread : sampleHome.files.config.map sampleFormat.read = some (.ok sampleBoth) := by
    rw [sampleHome_config]
    rfl
  have htext : sampleFiles.config = some sampleConfig := rfl
  have hselect : ∀ fingerprint, (selectLabel fingerprint).edit.SelectsPeer fingerprint :=
    fun _ => rfl
  have hsave : ∀ l ∈ [saveLabel], ¬ l.edit.SelectsPeer sampleFingerprint := by
    simp [saveLabel, ManagedEdit.SelectsPeer]
  have haway : works sampleHome (selectLabel sampleTravel) = true := by decide
  have hback : works sampleAway (selectLabel sampleFingerprint) = true := by decide
  obtain ⟨c', hread', hvalues, -, -⟩ :=
    switch_back sampleFormat_lawful samplePath (c := sampleBoth) htext hload hnone
      [importTravel] [saveLabel] (x := sampleBoth.pairedDevices[0])
        (y := sampleBoth.pairedDevices[1])
      hread (by decide) rfl (by decide) (by decide)
      (hselect sampleTravel) (outcome_of_works haway) hsave (hselect sampleFingerprint)
        (outcome_of_works hback)
  unfold sampleAway sampleHome
  exact ⟨c', hread', hvalues⟩

end Sample

end Managed

end NiriBridge
