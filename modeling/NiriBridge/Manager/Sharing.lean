import NiriBridge.Manager.Trust

/-!
# Manager — Sharing

A backend and any number of commands on one configuration.  The backend reads the file again before
every connection, and commands edit it meanwhile; `select_peer` alone needs the running lock that a
backend holds.

`trust_matches`: no interleaving lets the backend use a saved peer whose certificate it does not
trust.
-/

namespace NiriBridge

open Hoare

variable {T D : Type}

/-! ### A backend beside commands -/

/-- Who holds the running lock of the configuration. -/
inductive Owner where
  | backend
  | command (k : ℕ)
deriving DecidableEq

/-- How far a backend has come.  `running` is that of the certificate in its TLS root store. -/
inductive Backend where
  | stopped
  | guarded
  | loaded (config : Config)
  | running (trusted : String)
deriving DecidableEq

/-- The configuration with its editors and its lock, and the backend that uses it. -/
structure Sharing (T : Type) where
  editors : Editors T
  lock : Option Owner
  backend : Backend
  /-- The configuration of every connection attempt and what is trusted then, newest first. -/
  attempts : List (Config × String)

namespace Sharing

/-- One step of the backend or of command `k`.  A call of `Editors` is one step: a backend only
reads the configuration, which it never changes before it commits, and one certificate. -/
inductive Label (T : Type) where
  /-- `configuration_guard`, and the other steps of a start that may fail before the file is
  read. -/
  | start (refused : Bool)
  /-- `Config::load`: at the start, or at the head of the reconnect loop. -/
  | load (faults : Faults T)
  /-- `selected_certificate`, and the TLS settings made of it. -/
  | trust
  /-- The process ends, for any reason. -/
  | stop
  /-- The guards of `select_peer`. -/
  | guard (k : ℕ) (refused : Bool)
  | edit (k : ℕ) (faults : Faults T) (expected : String) (command : Command)
  | commit (k : ℕ) (faults : Faults T)
  /-- A command keeps what it has committed, and drops an edit it could not commit. -/
  | close (k : ℕ)
  | release (k : ℕ)

variable (F : Format T D) (path : Path) (load : CertificateFile → Result String)

/-- What the backend reads of the configuration. -/
def reload (s : Sharing T) (faults : Faults T) : Result Config :=
  match readConfig faults s.editors.files with
  | .ok text _ => Config.load F path text
  | .error e _ => .error e

/-- The process is gone, and its lock with it. -/
def halt (s : Sharing T) : Sharing T := { s with backend := .stopped, lock := none }

/-- A call of an editor. -/
def call (s : Sharing T) (k : ℕ) (act : Editors.Act T D) : Sharing T :=
  { s with editors := s.editors.call F path k act }

/-- `select_peer` edits under the running lock, the other commands without. -/
def Allowed (s : Sharing T) (k : ℕ) : Command → Prop
  | .selectPeer _ => s.lock = some (.command k)
  | _ => True

instance (s : Sharing T) (k : ℕ) (command : Command) : Decidable (s.Allowed k command) := by
  cases command <;> unfold Allowed <;> infer_instance

/-- What a label does. -/
def next (s : Sharing T) : Label T → Sharing T
  | .start refused =>
      if s.backend = .stopped ∧ s.lock = none ∧ refused = false then
        { s with backend := .guarded, lock := some .backend }
      else s
  | .load faults =>
      match s.backend, s.reload F path faults with
      | .guarded, .ok config => { s with backend := .loaded config }
      | .running trusted, .ok config => { s with attempts := (config, trusted) :: s.attempts }
      | .guarded, .error _ | .running _, .error _ => s.halt
      | _, _ => s
  | .trust =>
      match s.backend with
      | .loaded config =>
          match Pairing.selectedCertificate load s.editors.files.store config with
          | .ok trusted => { s with backend := .running trusted }
          | .error _ => s.halt
      | _ => s
  | .stop => if s.backend = .stopped then s else s.halt
  | .guard k refused =>
      if s.lock = none ∧ refused = false then { s with lock := some (.command k) } else s
  | .edit k faults expected command =>
      if s.Allowed k command then s.call F path k
        (.edit faults expected (command.edit F path)) else s
  | .commit k faults =>
      match s.editors.prepared k with
      | some p => if p.committed then s else s.call F path k (.commit (.ok []) faults)
      | none => s
  | .close k =>
      match s.editors.prepared k with
      | some p => if p.committed then s.call F path k .finish else s.call F path k (.drop {})
      | none => s
  | .release k =>
      if s.lock = some (.command k) ∧ s.editors.prepared k = none then { s with lock := none }
      else s

/-- Nobody edits the file, and no backend runs. -/
def start (files : Files T) : Sharing T where
  editors := { files := { files with locked := false }, prepared := fun _ => none }
  lock := none
  backend := .stopped
  attempts := []

/-- The three steps of a command that nothing interrupts. -/
def uninterrupted (s : Sharing T) (k : ℕ) (faults : Faults T × Faults T) (expected : String)
    (command : Command) : Sharing T :=
  Run.run (next F path load) s [.edit k faults.1 expected command, .commit k faults.2, .close k]

/-- They are what the manager does in one call, `save_eq`, `importPeer_eq` and `selectPeer_eq`. -/
theorem uninterrupted_files {s : Sharing T} {k : ℕ} {command : Command}
    (hk : s.editors.prepared k = none) (ha : s.Allowed k command) (faults : Faults T × Faults T)
    (expected : String) :
    wp (Prepared.edit F path faults.1 expected (command.edit F path) >>= Manager.install F faults.2)
      s.editors.files
      (fun _ files => (s.uninterrupted F path load k faults expected command).editors.files = files)
      (fun _ files =>
        (s.uninterrupted F path load k faults expected command).editors.files = files) := by
  rw [wp_bind]
  refine wp_mono (wp_and (wp_self _ _) (Prepared.edit_spec F path faults.1 expected
    (command.edit F path) s.editors.files)) ?_ ?_
  · rintro p files ⟨hrun, hfresh, -⟩
    have hedit : s.next F path load (.edit k faults.1 expected command) =
        { s with editors := s.editors.put k (some p) files } := by
      simp only [next, if_pos ha, call, Editors.call, hk, hrun]
    rw [uninterrupted, Run.run_cons, hedit, Manager.install, wp_bind, wp_attempt]
    refine wp_mono (wp_and (wp_self _ _) (p.commit_spec F (.ok []) faults.2 files)) ?_ ?_
    · rintro _ files' ⟨hcommit, rfl, -⟩
      simp only [wp_bind]
      refine wp_mono (wp_self _ _) ?_ ?_
      all_goals
        intro _ files'' hfinish
        simp [Run.run, next, call, Editors.call, Editors.put, hfresh.committed, hcommit, hfinish]
    · rintro e files' ⟨hcommit, -⟩
      simp only [wp_bind]
      refine wp_mono (wp_self _ _) ?_ ?_
      all_goals
        intro _ files'' hdrop
        simp [Run.run, next, call, Editors.call, Editors.put, hfresh.committed, hcommit, hdrop]
  · rintro e files ⟨hrun, -⟩
    simp [uninterrupted, Run.run, next, if_pos ha, call, Editors.call, hk, hrun]

/-! ### The invariant -/

/-- What a backend has read or trusts suits the configuration `c` of the file. -/
def Suits (held : Option CertificateFile) (certificate : Path) (c : Config) : Backend → Prop
  | .stopped | .guarded => True
  | .loaded d => ∃ e : Config, d = e.resolved path ∧ e.Settled certificate ∧
      ∀ z, e.Fits load held z → c.Fits load held z
  | .running z => c.Fits load held z

/-- What suits a backend suits it under a configuration that fits in more cases. -/
theorem Suits.mono {path : Path} {load : CertificateFile → Result String}
    {held : Option CertificateFile} {certificate : Path} {c c' : Config} {b : Backend}
    (h : Suits path load held certificate c b)
    (hc : ∀ z, c.Fits load held z → c'.Fits load held z) :
    Suits path load held certificate c' b := by
  cases b with
  | stopped => trivial
  | guarded => trivial
  | loaded d =>
      obtain ⟨e, hd, he, hfits⟩ := h
      exact ⟨e, hd, he, fun z hz => hc z (hfits z hz)⟩
  | running z => exact hc z h

/-- The file holds a settled configuration; an edit that may be committed makes it another one,
which the same backends may use unless no backend can be running. -/
structure Inv (held : Option CertificateFile) (certificate : Path) (s : Sharing T)
    (c : Config) : Prop where
  editors : s.editors.Inv F
  reads : ∃ t, s.editors.files.config = some t ∧ F.read t = .ok c
  settled : c.Settled certificate
  file : s.editors.files.store.file (path.directory.join certificate) = held
  prepared : ∀ k p, s.editors.prepared k = some p → p.committed = false →
    ∃ e : Config, F.read p.next = .ok e ∧ e.Settled certificate ∧
      (s.lock = some (.command k) ∨ ∀ z, c.Fits load held z → e.Fits load held z)
  lock : s.backend ≠ .stopped → s.lock = some .backend
  suits : Suits path load held certificate c s.backend
  attempts : ∀ a ∈ s.attempts, a.1.Trusts a.2

section Steps
variable {F} {path} {load} {held : Option CertificateFile} {certificate : Path}
  {s : Sharing T} {c : Config}

/-- Only the backend has changed, and its lock. -/
theorem Inv.with_backend (h : s.Inv F path load held certificate c) {lock : Option Owner}
    {backend : Backend} {attempts : List (Config × String)}
    (hheld : ∀ k, s.editors.prepared k ≠ none → s.lock = some (.command k) → lock = s.lock)
    (hlock : backend ≠ .stopped → lock = some .backend)
    (hsuits : Suits path load held certificate c backend)
    (hattempts : ∀ a ∈ attempts, a.1.Trusts a.2) :
    Inv F path load held certificate ⟨s.editors, lock, backend, attempts⟩ c where
  editors := h.editors
  reads := h.reads
  settled := h.settled
  file := h.file
  prepared := by
    intro k p hk hp
    obtain ⟨e, hread, he, hfits⟩ := h.prepared k p hk hp
    exact ⟨e, hread, he,
      hfits.imp_left fun hcommand =>
        (hheld k (fun hnone => absurd (hk.symm.trans hnone) (by simp)) hcommand).trans hcommand⟩
  lock := hlock
  suits := hsuits
  attempts := hattempts

/-- The backend may stop. -/
theorem Inv.halt (h : s.Inv F path load held certificate c) (hrunning : s.backend ≠ .stopped) :
    s.halt.Inv F path load held certificate c :=
  h.with_backend (fun _ _ hk => absurd ((h.lock hrunning).symm.trans hk) (by simp))
    (fun hne => absurd rfl hne)
    trivial h.attempts

/-- What the backend reads is the configuration that is there. -/
theorem Inv.reload (h : s.Inv F path load held certificate c) {faults : Faults T} {d : Config}
    (hd : s.reload F path faults = .ok d) : d = c.resolved path := by
  have hread := readConfig_spec faults s.editors.files
  unfold Sharing.reload at hd
  cases hrun : readConfig faults s.editors.files with
  | error e files =>
      rw [hrun] at hd
      cases hd
  | ok text files =>
      rw [hrun] at hd
      obtain ⟨-, -, htext⟩ := wp_of_ok hread hrun
      obtain ⟨t, ht, hc⟩ := h.reads
      obtain rfl : t = text := Option.some.inj (ht.symm.trans htext)
      obtain ⟨c', hc', hd, -⟩ := Config.load_eq_ok hd
      obtain rfl : c = c' := Except.ok.inj (hc.symm.trans hc')
      exact hd

/-- The start of a backend, its reads and its end. -/
theorem Inv.backend (h : s.Inv F path load held certificate c) (l : Label T)
    (hl : l = .trust ∨ l = .stop ∨ (∃ refused, l = .start refused) ∨ ∃ faults, l = .load faults) :
    (s.next F path load l).Inv F path load held certificate c := by
  rcases hl with rfl | rfl | ⟨refused, rfl⟩ | ⟨faults, rfl⟩
  · -- the certificate is the one of the configuration that was loaded
    cases hb : s.backend with
    | loaded d =>
        have hsuits := h.suits
        rw [hb] at hsuits
        obtain ⟨e, rfl, he, hfits⟩ := hsuits
        cases hz : Pairing.selectedCertificate load s.editors.files.store (e.resolved path) with
        | error err =>
            simp only [next, hb, hz]
            exact h.halt (by simp [hb])
        | ok z =>
            simp only [next, hb, hz]
            exact h.with_backend (fun _ _ _ => rfl) (fun _ => h.lock (by simp [hb]))
              (hfits z (Config.fits_of_selectedCertificate he h.file hz)) h.attempts
    | _ =>
        simp only [next, hb]
        exact h
  · simp only [next]
    split_ifs with hb
    · exact h
    · exact h.halt hb
  · simp only [next]
    split_ifs with hfree
    · exact h.with_backend (fun _ _ hk => absurd (hfree.2.1.symm.trans hk) (by simp))
        (fun _ => rfl) trivial
        h.attempts
    · exact h
  · cases hb : s.backend with
    | stopped | loaded =>
        simp only [next, hb]
        exact h
    | guarded =>
        cases hd : s.reload F path faults with
        | error e =>
            simp only [next, hb, hd]
            exact h.halt (by simp [hb])
        | ok d =>
            simp only [next, hb, hd]
            exact h.with_backend (fun _ _ _ => rfl) (fun _ => h.lock (by simp [hb]))
              ⟨c, h.reload hd, h.settled, fun _ hz => hz⟩ h.attempts
    | running z =>
        cases hd : s.reload F path faults with
        | error e =>
            simp only [next, hb, hd]
            exact h.halt (by simp [hb])
        | ok d =>
            have hsuits := h.suits
            rw [hb] at hsuits
            simp only [next, hb, hd]
            refine h.with_backend (fun _ _ _ => rfl) (fun _ => h.lock (by simp [hb])) hsuits ?_
            rw [List.forall_mem_cons]
            exact ⟨h.reload hd ▸ hsuits.trusts h.settled.good path, h.attempts⟩

/-- No backend runs while a command has the lock, or nobody. -/
theorem Inv.stopped (h : s.Inv F path load held certificate c) (hlock : s.lock ≠ some .backend) :
    s.backend = .stopped := by
  by_contra hrunning
  exact hlock (h.lock hrunning)

/-- A command may take the running lock. -/
theorem Inv.guard (h : s.Inv F path load held certificate c) (k : ℕ) (refused : Bool) :
    (s.next F path load (.guard k refused)).Inv F path load held certificate c := by
  simp only [next]
  split_ifs with hfree
  · refine h.with_backend (fun _ _ hk => absurd (hfree.1.symm.trans hk) (by simp))
      (fun hrunning => ?_)
      h.suits h.attempts
    exact absurd (h.stopped (by simp [hfree.1])) hrunning
  · exact h

/-- A command may give the running lock back. -/
theorem Inv.release (h : s.Inv F path load held certificate c) (k : ℕ) :
    (s.next F path load (.release k)).Inv F path load held certificate c := by
  simp only [next]
  split_ifs with hheld
  · refine h.with_backend (fun j hj hlock => ?_) (fun hrunning => ?_) h.suits h.attempts
    · obtain rfl : k = j := by simpa using hheld.1.symm.trans hlock
      exact absurd hheld.2 hj
    · exact absurd (h.stopped (by simp [hheld.1])) hrunning
  · exact h

section Calls
variable (hF : F.Lawful) (hfile : ∀ fingerprint, validFingerprint fingerprint →
    path.directory.join (Pairing.storedPath fingerprint) ≠ path.directory.join certificate)
  (hload : ∀ file info, file.contents = .ok info → load file = .ok info.fingerprint)

/-- A call after which the file holds a configuration that the backend may use. -/
theorem Inv.of_call (h : s.Inv F path load held certificate c) {c' : Config} {e : Editors T}
    (heditors : e.Inv F) (hreads : ∃ t, e.files.config = some t ∧ F.read t = .ok c')
    (hsettled : c'.Settled certificate)
    (hkeeps : e.files.store.file (path.directory.join certificate) =
      s.editors.files.store.file (path.directory.join certificate))
    (hprepared : ∀ k p, e.prepared k = some p → p.committed = false →
      ∃ d : Config, F.read p.next = .ok d ∧ d.Settled certificate ∧
        (s.lock = some (.command k) ∨ ∀ z, c'.Fits load held z → d.Fits load held z))
    (hfits : s.backend = .stopped ∨ ∀ z, c.Fits load held z → c'.Fits load held z) :
    Inv F path load held certificate { s with editors := e } c' where
  editors := heditors
  reads := hreads
  settled := hsettled
  file := hkeeps.trans h.file
  prepared := hprepared
  lock := h.lock
  suits := by
    rcases hfits with hstopped | hfits
    · show Suits path load held certificate c' s.backend
      rw [hstopped]
      trivial
    · exact h.suits.mono hfits
  attempts := h.attempts

include hF hfile hload in
/-- A command may prepare its edit. -/
theorem Inv.edit (h : s.Inv F path load held certificate c) (k : ℕ) (faults : Faults T)
    (expected : String) (command : Command) :
    (s.next F path load (.edit k faults expected command)).Inv F path load held certificate c := by
  simp only [next]
  split_ifs with hallowed
  swap
  · exact h
  have heditors := h.editors.next path (.editor k (.edit faults expected (command.edit F path)))
  have hkeeps :=
    s.editors.call_keeps F path (path.directory.join certificate) k
      (a := .edit faults expected (command.edit F path))
    fun _ _ _ heq => by
      obtain ⟨-, -, rfl⟩ := by simpa using heq
      exact command.edit_keeps hfile
  obtain ⟨t, ht, hread⟩ := h.reads
  have hspec := edit_became hF path ht hread h.settled.good (command.edit_yields hF path)
    (fun _ hc' => hc'.extends h.settled.good) faults expected
  simp only [Editors.next] at heditors
  simp only [call]
  cases hk : s.editors.prepared k with
  | some q =>
      simp only [Editors.call, hk]
      exact h
  | none =>
      cases hrun : Prepared.edit F path faults expected (command.edit F path) s.editors.files with
      | error e files =>
          have hsame := wp_of_error hspec hrun
          simp only [Editors.call, hk, hrun] at heditors hkeeps ⊢
          exact h.of_call heditors ⟨t, hsame.trans ht, hread⟩ h.settled hkeeps h.prepared
            (.inr fun _ hz => hz)
      | ok p files =>
          obtain ⟨⟨-, hsame⟩, t', c', hnext, hread', hgood, -, heffect⟩ := wp_of_ok hspec hrun
          simp only [Editors.call, hk, hrun] at heditors hkeeps ⊢
          refine h.of_call heditors ⟨t, hsame.trans ht, hread⟩ h.settled hkeeps ?_
            (.inr fun _ hz => hz)
          intro j q hq hcommitted
          by_cases hj : j = k
          · subst hj
            obtain rfl : p = q := Option.some.inj ((Editors.put_prepared ..).symm.trans hq)
            obtain rfl := Option.some.inj hnext
            refine ⟨c'.synced, hread', ⟨hgood, fun hnone => ?_⟩, ?_⟩
            · exact heffect.single h.settled (List.map_eq_nil_iff.mp hnone)
            · -- another peer is selected under the lock that a running backend would hold
              by_cases hselect : ∃ fingerprint, command = .selectPeer fingerprint
              · obtain ⟨fingerprint, rfl⟩ := hselect
                exact .inl hallowed
              · exact .inr fun z hz =>
                  (heffect.fits hload (not_exists.mp hselect) h.settled h.file hz).synced
          · rw [Editors.put_prepared_of_ne _ hj] at hq
            exact h.prepared j q hq hcommitted

/-- A command may commit its edit. -/
theorem Inv.commit (h : s.Inv F path load held certificate c) (k : ℕ) (faults : Faults T) :
    ∃ c', (s.next F path load (.commit k faults)).Inv F path load held certificate c' := by
  cases hk : s.editors.prepared k with
  | none =>
      simp only [next, hk]
      exact ⟨c, h⟩
  | some p =>
      simp only [next, hk]
      split_ifs with hp
      · exact ⟨c, h⟩
      have hp' : p.committed = false := by simpa using hp
      have heditors := h.editors.next path (.editor k (.commit (.ok []) faults))
      have hkeeps :=
        s.editors.call_keeps F path (path.directory.join certificate) k
          (a := .commit (.ok []) faults)
        (by simp)
      have hspec := p.commit_spec F (.ok []) faults s.editors.files
      simp only [Editors.next] at heditors
      simp only [call]
      obtain ⟨t, ht, hread⟩ := h.reads
      cases hrun : p.commit F (.ok []) faults s.editors.files with
      | error e files =>
          have hsame := wp_of_error hspec hrun
          simp only [Editors.call, hk, hrun] at heditors hkeeps ⊢
          exact ⟨c, h.of_call heditors ⟨t, hsame.config.trans ht, hread⟩ h.settled hkeeps h.prepared
            (.inr fun _ hz => hz)⟩
      | ok p' files =>
          obtain ⟨rfl, hnext, -⟩ := wp_of_ok hspec hrun
          -- the prepared text has been checked, so what is installed is known
          obtain ⟨c', hread', hsettled, hfits⟩ := h.prepared k p hk hp'
          simp only [Editors.call, hk, hrun] at heditors hkeeps ⊢
          refine ⟨c', h.of_call heditors ⟨p.next, hnext, hread'⟩ hsettled hkeeps ?_ ?_⟩
          · intro j q hq hcommitted
            obtain rfl : j = k := heditors.alone hq (Editors.put_prepared ..)
            obtain rfl := Option.some.inj ((Editors.put_prepared ..).symm.trans hq)
            cases hcommitted
          · exact hfits.imp_left fun hlock => h.stopped (by simp [hlock])

/-- A command may end. -/
theorem Inv.close (h : s.Inv F path load held certificate c) (k : ℕ) :
    (s.next F path load (.close k)).Inv F path load held certificate c := by
  cases hk : s.editors.prepared k with
  | none =>
      simp only [next, hk]
      exact h
  | some p =>
      obtain ⟨t, ht, hread⟩ := h.reads
      -- nobody is editing afterwards, and the file is as it was
      have hclosed : ∀ files : Files T, files.locked = false →
          files.config = s.editors.files.config →
          files.store.file (path.directory.join certificate) =
            s.editors.files.store.file (path.directory.join certificate) →
          Inv F path load held certificate { s with editors := s.editors.put k none files } c := by
        intro files hlocked hconfig hkeeps
        have hidle := h.editors.closed hk hlocked
        exact h.of_call hidle.inv ⟨t, hconfig.trans ht, hread⟩ h.settled hkeeps
          (fun j q hq => absurd ((hidle.none j).symm.trans hq) (by simp)) (.inr fun _ hz => hz)
      simp only [next, hk]
      split_ifs with hp
      · have hkeeps :=
          s.editors.call_keeps F path (path.directory.join certificate) k (a := .finish) (by simp)
        have hspec := p.finish_spec F s.editors.files
        cases hrun : p.finish F s.editors.files with
        | error e files => exact (wp_of_error hspec hrun).elim
        | ok u files =>
            obtain ⟨hlocked, hconfig⟩ := wp_of_ok hspec hrun
            simp only [call, Editors.call, hk, hrun] at hkeeps ⊢
            exact hclosed files hlocked hconfig hkeeps
      · have hkeeps :=
          s.editors.call_keeps F path (path.directory.join certificate) k (a := .drop {}) (by simp)
        have hspec := p.drop_spec F {} s.editors.files
        cases hrun : p.drop F {} s.editors.files with
        | error e files => exact (wp_of_error hspec hrun).elim
        | ok u files =>
            obtain ⟨hlocked, ⟨hback, -⟩ | ⟨-, hconfig⟩⟩ := wp_of_ok hspec hrun
            · exact absurd hback.1.1 hp
            · simp only [call, Editors.call, hk, hrun] at hkeeps ⊢
              exact hclosed files hlocked hconfig hkeeps

include hF hfile hload in
/-- Every label keeps the invariant, of some configuration. -/
theorem Inv.next (h : s.Inv F path load held certificate c) (l : Label T) :
    ∃ c', (s.next F path load l).Inv F path load held certificate c' := by
  cases l with
  | start refused => exact ⟨c, h.backend _ (.inr (.inr (.inl ⟨refused, rfl⟩)))⟩
  | load faults => exact ⟨c, h.backend _ (.inr (.inr (.inr ⟨faults, rfl⟩)))⟩
  | trust => exact ⟨c, h.backend _ (.inl rfl)⟩
  | stop => exact ⟨c, h.backend _ (.inr (.inl rfl))⟩
  | guard k refused => exact ⟨c, h.guard k refused⟩
  | edit k faults expected command => exact ⟨c, h.edit hF hfile hload k faults expected command⟩
  | commit k faults => exact h.commit k faults
  | close k => exact ⟨c, h.close k⟩
  | release k => exact ⟨c, h.release k⟩

end Calls

end Steps

variable {F} {path}

/-- The invariant holds for a configuration without saved peers. -/
theorem inv_start {files : Files T} {t : T} {loaded : Config} (htext : files.config = some t)
    (hconfig : Config.load F path t = .ok loaded) (hnone : loaded.pairedDevices = []) :
    ∃ certificate, loaded.peerCertificate = path.directory.join certificate ∧
      ∃ held c, (start files).Inv F path load held certificate c := by
  obtain ⟨c, hread, rfl, hedges⟩ := Config.load_eq_ok hconfig
  have hpeers : c.pairedDevices = [] := List.map_eq_nil_iff.mp hnone
  have hgood : c.Good :=
    ⟨fun hne => absurd hpeers hne, edges_ne_nil_of_validate hedges, by simp [hpeers]⟩
  have hidle : (start files).editors.Idle := ⟨rfl, fun _ => rfl⟩
  exact ⟨c.peerCertificate, rfl, _, c, hidle.inv, ⟨t, htext, hread⟩, ⟨hgood, fun _ => rfl⟩, rfl,
    by intros; contradiction, (by intros; contradiction), trivial, by intros; contradiction⟩

variable {load}

/-- **A backend never uses a saved peer whose certificate it does not trust.**

The file starts without saved peers, and its single certificate is not one of the files the program
names after a valid fingerprint.  Then, whatever a backend and any number of commands do and in
whatever order, every connection attempt whose configuration has saved peers uses the peer with the
fingerprint that the backend trusts, with that peer's name, address and edges. -/
theorem trust_matches (hF : F.Lawful)
    (hload : ∀ file info, file.contents = .ok info → load file = .ok info.fingerprint)
    {files : Files T} {t : T} {loaded : Config} (htext : files.config = some t)
    (hconfig : Config.load F path t = .ok loaded) (hnone : loaded.pairedDevices = [])
    (hfile : ∀ fingerprint, validFingerprint fingerprint →
      path.directory.join (Pairing.storedPath fingerprint) ≠ loaded.peerCertificate)
    (ls : List (Label T)) :
    ∀ a ∈ (Run.run (next F path load) (start files) ls).attempts, a.1.pairedDevices ≠ [] →
      ∃ p, a.1.pairedDevices.find? (·.certificate = a.1.peerCertificate) = some p ∧
        p.fingerprint = a.2 ∧ p.name = a.1.peerName ∧ p.connection = a.1.connection ∧
        p.edges = a.1.edges := by
  obtain ⟨certificate, hcertificate, held, hstart⟩ := inv_start load htext hconfig hnone
  rw [hcertificate] at hfile
  have hinv :
      ∃ c, (Run.run (next F path load) (start files) ls).Inv F path load held certificate c :=
    Run.run_invariant_of_step
      (I := fun s : Sharing T => ∃ c, s.Inv F path load held certificate c)
      (fun _ l ⟨_, h⟩ => h.next hF hfile hload l) hstart
  obtain ⟨c, hinv⟩ := hinv
  exact hinv.attempts

section Sample

/-- The store of a device used with a laptop so far. -/
def sampleStore : Store where
  peers := none
  file path :=
    if path = ⟨true, ["home", "peer.pem"]⟩ then some ⟨true, .ok ⟨"laptop",
      "6ed2a33efbb18e4fd7ed7bdc2c09dbd17c3b09a4ef1ac1d8ab2cd0c6a3a1f17e"⟩⟩
    else none

/-- What `load_certificate` reads from a file that `certificate` accepts. -/
def sampleLoad (file : CertificateFile) : Result String := do
  let info ← file.contents
  return info.fingerprint

/-- While a backend runs, another peer is imported. -/
def sampleRun : List (Label Config) :=
  [.start false, .load {}, .trust, .load {},
    .edit 0 {} "original" (.importPeer ({}, {}) ⟨"desktop", Managed.sampleFingerprint⟩),
    .commit 0 {},
    .close 0, .load {}]

/-- The backend keeps using the laptop. -/
theorem trust_matches_import :
    ∃ a ∈ (Run.run (next Managed.sampleFormat Managed.samplePath sampleLoad)
        (start { Managed.sampleFiles with store := sampleStore }) sampleRun).attempts,
      a.1.pairedDevices.map SavedPeer.name = ["laptop", "desktop"] ∧
        ∃ p, a.1.pairedDevices.find? (·.certificate = a.1.peerCertificate) = some p ∧
          p.fingerprint = a.2 ∧ p.name = a.1.peerName := by
  obtain ⟨loaded, hconfig, hnone⟩ := Managed.sample_load
  have hload : ∀ file info, file.contents = .ok info → sampleLoad file = .ok info.fingerprint := by
    intro file info h
    rw [sampleLoad, h]
    rfl
  have hfile : ∀ fingerprint, validFingerprint fingerprint →
      Managed.samplePath.directory.join (Pairing.storedPath fingerprint) ≠
      loaded.peerCertificate := by
    intro fingerprint _ h
    obtain ⟨c, hread, rfl, -⟩ := Config.load_eq_ok hconfig
    obtain rfl := Except.ok.inj hread
    have hlength : 3 = 2 := congrArg (fun path => path.components.length) h
    exact absurd hlength (by decide)
  have hnames : (Run.run (next Managed.sampleFormat Managed.samplePath sampleLoad)
      (start { Managed.sampleFiles with store := sampleStore }) sampleRun).attempts.head?.map
        (fun a => a.1.pairedDevices.map SavedPeer.name) = some ["laptop", "desktop"] := by
    decide
  obtain ⟨a, ha, hpeers⟩ := Option.map_eq_some_iff.mp hnames
  have hmem := List.mem_of_head? ha
  have htext : ({ Managed.sampleFiles with store := sampleStore } : Files Config).config =
      some Managed.sampleConfig := rfl
  obtain ⟨p, hfind, hz, hname, -⟩ :=
    trust_matches Managed.sampleFormat_lawful hload htext hconfig hnone
    hfile sampleRun a hmem (fun hnil => by simp [hnil] at hpeers)
  exact ⟨a, hmem, hpeers, p, hfind, hz, hname⟩

end Sample

end Sharing

end NiriBridge
