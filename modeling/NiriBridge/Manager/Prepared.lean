import NiriBridge.Model.Manager

/-!
# Manager — Prepared

What `edit`, `commit`, `finish` and `drop` do to the files, whatever the system refuses.

* `edit_spec`: the configuration file is as it was; the lock is taken by the edit that is returned,
  and left alone by one that is not.
* `commit_spec`: the prepared text is installed, or nothing is.
* `drop_spec`, `finish_spec`: the lock is free, and the file holds the text from before a commit
  that was not finished.
-/

namespace NiriBridge

open Hoare

variable {T D : Type}

@[simp] theorem wp_check {α : Type} {r : Result α} {s : Files T} {Q : α → Files T → Prop}
    {E : Error → Files T → Prop} :
    wp (check r) s Q E ↔ (∀ a, r = .ok a → Q a s) ∧ ∀ e, r = .error e → E e s := by
  simp only [check, wp_lift, id]

/-- Only the store and the backup may have changed. -/
structure Files.SameConfig (s s' : Files T) : Prop where
  config : s'.config = s.config
  locked : s'.locked = s.locked

@[refl] theorem Files.SameConfig.refl (s : Files T) : s.SameConfig s := ⟨rfl, rfl⟩

/-- The configuration file is read, or cannot be. -/
theorem readConfig_spec (faults : Faults T) (s : Files T) :
    wp (readConfig faults) s (fun text s' => s' = s ∧ faults.read = none ∧ s.config = some text)
      (fun _ s' => s' = s ∧ ¬ (faults.read = none ∧ s.config ≠ none)) := by
  rw [readConfig, wp_bind, wp_check]
  refine ⟨fun _ hread => ?_, fun e he => ⟨rfl, fun h => ?_⟩⟩
  · rw [wp_bind, wp_get, wp_check]
    refine ⟨fun text h =>
      ⟨rfl, io_eq_ok.mp hread, orError_eq_ok.mp h⟩, fun e he => ⟨rfl, fun h => ?_⟩⟩
    obtain ⟨text, htext⟩ := Option.ne_none_iff_exists'.mp h.2
    rw [htext] at he
    cases he
  · rw [h.1] at he
    cases he

/-- The revision is the digest of what the file holds. -/
theorem revision_spec (F : Format T D) (faults : Faults T) (s : Files T) :
    wp (revision F faults) s
      (fun r s' => s' = s ∧ faults.read = none ∧ ∃ text, s.config = some text ∧ r = F.digest text)
      (fun _ s' => s' = s ∧ ¬ (faults.read = none ∧ s.config ≠ none)) := by
  rw [revision, wp_bind]
  refine wp_mono (readConfig_spec faults s) ?_ fun _ _ h => h
  rintro text s' ⟨rfl, hread, htext⟩
  exact ⟨rfl, hread, text, htext, rfl⟩

/-- An edit as `edit` returns it. -/
structure Prepared.Fresh (F : Format T D) (expected : String) (s : Files T) (p : Prepared T) :
    Prop where
  before : s.config = some p.before
  digest : F.digest p.before = expected
  beforeRevision : p.beforeRevision = expected
  afterRevision : p.afterRevision = F.digest p.next
  committed : p.committed = false
  finished : p.finished = false

namespace Prepared

/-- What is staged knows the text it was made from; no file changes. -/
theorem stage_spec (F : Format T D) (path : Path) (faults : Faults T) (expected : String)
    (edit : D → StoreM D) (s : Files T) :
    wp (stage F path faults expected edit) s (fun p s' => Fresh F expected s p ∧ s.SameConfig s')
      (fun _ s' => s.SameConfig s') := by
  rw [stage, wp_bind]
  refine wp_mono (readConfig_spec faults s) ?_ fun _ _ h => h.1 ▸ .refl s
  rintro before s' ⟨rfl, -, hbefore⟩
  simp only [wp_bind, wp_check, wp_zoom]
  refine ⟨fun _ hdigest => ⟨fun doc _ => ⟨fun doc _ => ?_, fun _ _ => .refl _⟩,
    fun _ _ => .refl _⟩, fun _ _ => .refl _⟩
  -- the edit itself may do anything to the store
  refine wp_mono (wp_true (edit doc) s'.store) ?_ fun _ _ _ => ⟨rfl, rfl⟩
  rintro doc store -
  refine ⟨fun doc _ => ⟨fun _ _ => ⟨fun _ _ => ?_, fun _ _ => ⟨rfl, rfl⟩⟩,
    fun _ _ => ⟨rfl, rfl⟩⟩, fun _ _ => ⟨rfl, rfl⟩⟩
  exact ⟨⟨hbefore, ensure_eq_ok.mp hdigest, rfl, rfl, rfl, rfl⟩, rfl, rfl⟩

/-- The lock is taken if nobody holds it. -/
theorem lock_spec (faults : Faults T) (s : Files T) :
    wp (lock faults) s (fun _ s' => s.locked = false ∧ s' = { s with locked := true })
      (fun _ s' => s' = s) := by
  rw [lock, wp_bind, wp_check]
  refine ⟨fun _ _ => ?_, fun _ _ => rfl⟩
  rw [wp_bind, wp_check]
  refine ⟨fun _ _ => ?_, fun _ _ => rfl⟩
  rw [wp_bind, wp_get, wp_bind, wp_check]
  exact ⟨fun _ h => ⟨ensure_eq_ok.mp h, rfl⟩, fun _ _ => rfl⟩

/-- `edit` never changes the file.  It succeeds only with the lock, and fails without it. -/
theorem edit_spec (F : Format T D) (path : Path) (faults : Faults T) (expected : String)
    (edit : D → StoreM D) (s : Files T) :
    wp (Prepared.edit F path faults expected edit) s
      (fun p s' => Fresh F expected s p ∧ s'.config = s.config ∧ s.locked = false ∧
        s'.locked = true)
      (fun _ s' => s'.config = s.config ∧ s'.locked = s.locked) := by
  rw [Prepared.edit, wp_bind]
  refine wp_mono (lock_spec faults s) ?_ fun _ _ h => h ▸ ⟨rfl, rfl⟩
  rintro _ _ ⟨hfree, rfl⟩
  rw [wp_bind, wp_attempt]
  refine wp_mono (stage_spec F path faults expected edit _) ?_ ?_
  · intro p s' ⟨hp, hs⟩
    exact ⟨⟨hp.before, hp.digest, hp.beforeRevision, hp.afterRevision, hp.committed, hp.finished⟩,
      hs.config, hfree, hs.locked⟩
  · intro e s' hs
    exact ⟨hs.config, hfree.symm⟩

/-- The backup leaves the configuration alone. -/
theorem keepBackup_spec (faults : Faults T) (before : T) (s : Files T) :
    wp (keepBackup faults before) s (fun _ s' => s.SameConfig s')
    (fun _ s' => s.SameConfig s') := by
  rw [keepBackup, wp_bind, wp_get]
  cases s.backup with
  | some t => exact .refl s
  | none =>
      rcases faults.backup with - | ⟨e, left⟩
      · exact ⟨rfl, rfl⟩
      · exact ⟨rfl, rfl⟩

/-- The configuration is replaced as a whole, or not at all. -/
theorem atomic_spec (faults : Faults T) (text : T) (s : Files T) :
    wp (atomic faults text) s
      (fun _ s' => faults.replace = none ∧ s' = { s with config := some text })
      (fun _ s' => faults.replace ≠ none ∧ s' = s) := by
  rw [atomic, wp_bind, wp_check]
  refine ⟨fun _ h => ⟨io_eq_ok.mp h, rfl⟩, fun e h => ⟨fun hnone => ?_, rfl⟩⟩
  rw [hnone] at h
  cases h

/-- `commit` installs the prepared text over the text of the revision it started from, or it fails
and leaves the file alone. -/
theorem commit_spec (F : Format T D) (outputs : Result Outputs) (faults : Faults T) (p : Prepared T)
    (s : Files T) :
    wp (p.commit F outputs faults) s
      (fun p' s' => p' = { p with committed := true } ∧ s'.config = some p.next ∧
        s'.locked = s.locked ∧ ∃ text, s.config = some text ∧ F.digest text = p.beforeRevision)
      (fun _ s' => s.SameConfig s') := by
  rw [commit, wp_bind, wp_check]
  refine ⟨fun _ _ => ?_, fun _ _ => .refl s⟩
  rw [wp_bind]
  refine wp_mono (revision_spec F faults s) ?_ fun _ _ h => h.1 ▸ .refl s
  rintro current s' ⟨rfl, -, text, htext, rfl⟩
  rw [wp_bind, wp_check]
  refine ⟨fun _ hcurrent => ?_, fun _ _ => .refl _⟩
  rw [wp_bind]
  refine wp_mono (keepBackup_spec faults p.before s') ?_ fun _ _ h => h
  intro _ s₁ hs₁
  rw [wp_bind]
  refine wp_mono (atomic_spec faults p.next s₁) ?_ fun _ _ h => h.2 ▸ hs₁
  rintro _ _ ⟨-, rfl⟩
  exact ⟨rfl, rfl, hs₁.locked, text, htext, ensure_eq_ok.mp hcurrent⟩

/-- The rollback of a dropped edit happens. -/
def RollsBack (F : Format T D) (faults : Faults T) (p : Prepared T) (s : Files T) : Prop :=
  (p.committed = true ∧ p.finished = false) ∧ faults.read = none ∧ faults.replace = none ∧
    ∃ text, s.config = some text ∧ F.digest text = p.afterRevision

/-- A rollback restores the text from before, if that is still the one that was written. -/
theorem rollback_spec (F : Format T D) (faults : Faults T) (p : Prepared T) (s : Files T) :
    wp (p.rollback F faults) s
      (fun _ s' => RollsBack F faults p s ∧ s' = { s with config := some p.before } ∨
        ¬ RollsBack F faults p s ∧ s' = s)
      (fun _ s' => ¬ RollsBack F faults p s ∧ s' = s) := by
  rw [rollback, wp_ite]
  refine ⟨fun hp => ?_, fun hp => .inr ⟨fun h => hp (by simp [h.1]), rfl⟩⟩
  rw [wp_bind, wp_attempt]
  refine wp_mono (revision_spec F faults s) ?_ ?_
  · rintro _ _ ⟨rfl, hread, text, htext, rfl⟩
    simp only [wp_ite]
    refine ⟨fun hdigest => ?_, fun hdigest => .inr ⟨?_, rfl⟩⟩
    · refine wp_mono (atomic_spec faults p.before _) ?_ ?_
      · rintro _ _ ⟨hreplace, rfl⟩
        exact .inl ⟨⟨by simpa using hp, hread, hreplace, text, htext, hdigest⟩, rfl⟩
      · rintro _ _ ⟨hreplace, rfl⟩
        exact ⟨fun h => hreplace h.2.2.1, rfl⟩
    · rintro ⟨-, -, -, text', htext', hdigest'⟩
      obtain rfl : text = text' := Option.some.inj (htext.symm.trans htext')
      exact hdigest hdigest'
  · rintro _ _ ⟨rfl, hunread⟩
    refine .inr ⟨?_, rfl⟩
    rintro ⟨-, hread, -, text, htext, -⟩
    exact hunread ⟨hread, by simp [htext]⟩

/-- After `drop` the lock is free; the file is as it was, or as it was before the edit. -/
theorem drop_spec (F : Format T D) (faults : Faults T) (p : Prepared T) (s : Files T) :
    wp (p.drop F faults) s
      (fun _ s' => s'.locked = false ∧
        (RollsBack F faults p s ∧ s'.config = some p.before ∨
          ¬ RollsBack F faults p s ∧ s'.config = s.config))
      (fun _ _ => False) := by
  rw [drop, wp_bind, wp_attempt]
  refine wp_mono (rollback_spec F faults p s) ?_ ?_
  · rintro _ s' (⟨h, rfl⟩ | ⟨h, rfl⟩)
    · exact ⟨rfl, .inl ⟨h, rfl⟩⟩
    · exact ⟨rfl, .inr ⟨h, rfl⟩⟩
  · rintro _ s' ⟨h, rfl⟩
    exact ⟨rfl, .inr ⟨h, rfl⟩⟩

/-- An edit that is kept gives the lock back. -/
theorem finish_spec (F : Format T D) (p : Prepared T) (s : Files T) :
    wp (p.finish F) s (fun _ s' => s'.locked = false ∧ s'.config = s.config)
    (fun _ _ => False) := by
  refine wp_mono (drop_spec F {} { p with finished := true } s) ?_ fun _ _ h => h
  rintro _ s' ⟨hlocked, h | h⟩
  · exact absurd h.1.1.2 (by simp)
  · exact ⟨hlocked, h.2⟩

end Prepared

end NiriBridge
