import NiriBridge.Manager.Prepared
import NiriBridge.Support.Run
import Mathlib.Data.Set.Function

/-!
# Manager — Transaction

Any number of editors of one configuration file, each preparing, committing, finishing or dropping
an edit whenever it likes, while other programs write the file.  A label is one call of one editor
with everything the system refuses during it, or a write from outside.

`Move` says all that one call can do, `Inv` holds of every state reached, and `transaction` collects
what an editor may rely on.
-/

namespace NiriBridge

open Hoare Run

variable {T D : Type}

/-- A configuration file and the edits prepared for it. -/
structure Editors (T : Type) where
  files : Files T
  prepared : ℕ → Option (Prepared T)

namespace Editors

/-- The calls of an editor. -/
inductive Act (T D : Type) where
  | edit (faults : Faults T) (expected : String) (edit : D → StoreM D)
  | commit (outputs : Result Outputs) (faults : Faults T)
  | finish
  | drop (faults : Faults T)

/-- A call of one editor, or a write of another program. -/
inductive Label (T D : Type) where
  | editor (k : ℕ) (act : Act T D)
  | outside (text : Option T)

/-- The state after editor `k` has gone to `p`. -/
def put (s : Editors T) (k : ℕ) (p : Option (Prepared T)) (files : Files T) : Editors T where
  files := files
  prepared := Function.update s.prepared k p

/-- One call of editor `k`.  An editor prepares one edit at a time, and has to have prepared the
edit that it commits, finishes or drops. -/
def call (F : Format T D) (path : Path) (s : Editors T) (k : ℕ) : Act T D → Editors T
  | .edit faults expected edit =>
      match s.prepared k, Prepared.edit F path faults expected edit s.files with
      | some _, _ => s
      | none, .ok p files => s.put k (some p) files
      | none, .error _ files => { s with files := files }
  | .commit outputs faults =>
      match s.prepared k with
      | none => s
      | some p =>
          match p.commit F outputs faults s.files with
          | .ok p files => s.put k (some p) files
          | .error _ files => { s with files := files }
  | .finish =>
      match s.prepared k with
      | none => s
      | some p =>
          match p.finish F s.files with
          | .ok _ files | .error _ files => s.put k none files
  | .drop faults =>
      match s.prepared k with
      | none => s
      | some p =>
          match p.drop F faults s.files with
          | .ok _ files | .error _ files => s.put k none files

/-- What a label does to the files and to the editors. -/
def next (F : Format T D) (path : Path) (s : Editors T) : Label T D → Editors T
  | .editor k act => s.call F path k act
  | .outside text => { s with files := { s.files with config := text } }

/-- Everything a call of editor `k` can do. -/
inductive Move (F : Format T D) (k : ℕ) (s : Editors T) : Act T D → Editors T → Prop where
  /-- The call has failed, or had nothing to work on. -/
  | nothing {a files} (h : s.files.SameConfig files) : Move F k s a { s with files := files }
  | edits {faults expected edit p files} (h : s.prepared k = none)
      (hp : p.Fresh F expected s.files) (hfree : s.files.locked = false)
      (hconfig : files.config = s.files.config) (hlocked : files.locked = true) :
      Move F k s (.edit faults expected edit) (s.put k (some p) files)
  | commits {outputs faults p files text} (h : s.prepared k = some p)
      (htext : s.files.config = some text) (hdigest : F.digest text = p.beforeRevision)
      (hconfig : files.config = some p.next) (hlocked : files.locked = s.files.locked) :
      Move F k s (.commit outputs faults) (s.put k (some { p with committed := true }) files)
  | finishes {p files} (h : s.prepared k = some p) (hlocked : files.locked = false)
      (hconfig : files.config = s.files.config) : Move F k s .finish (s.put k none files)
  | drops {faults p files} (h : s.prepared k = some p) (hlocked : files.locked = false)
      (hconfig : p.RollsBack F faults s.files ∧ files.config = some p.before ∨
        ¬ p.RollsBack F faults s.files ∧ files.config = s.files.config) :
      Move F k s (.drop faults) (s.put k none files)

/-- What a call can do to the files and to its editor. -/
theorem call_move (F : Format T D) (path : Path) (s : Editors T) (k : ℕ) (a : Act T D) :
    Move F k s a (s.call F path k a) := by
  have hstay : Move F k s a s := .nothing (.refl s.files)
  cases hk : s.prepared k with
  | none =>
      -- whoever has no edit can only make one
      cases a with
      | edit faults expected edit =>
          simp only [call, hk]
          have hspec := Prepared.edit_spec F path faults expected edit s.files
          cases hrun : Prepared.edit F path faults expected edit s.files with
          | ok p files =>
              obtain ⟨hp, hconfig, hfree, hlocked⟩ := wp_of_ok hspec hrun
              exact .edits hk hp hfree hconfig hlocked
          | error e files =>
              obtain ⟨hconfig, hlocked⟩ := wp_of_error hspec hrun
              exact .nothing ⟨hconfig, hlocked⟩
      | _ =>
          simp only [call, hk]
          exact hstay
  | some p =>
      -- and whoever has one can do anything but that
      cases a with
      | edit =>
          simp only [call, hk]
          exact hstay
      | commit outputs faults =>
          simp only [call, hk]
          have hspec := p.commit_spec F outputs faults s.files
          cases hrun : p.commit F outputs faults s.files with
          | ok p' files =>
              obtain ⟨rfl, hconfig, hlocked, text, htext, hdigest⟩ := wp_of_ok hspec hrun
              exact .commits hk htext hdigest hconfig hlocked
          | error e files =>
              have hsame := wp_of_error hspec hrun
              exact .nothing hsame
      | finish =>
          simp only [call, hk]
          have hspec := p.finish_spec F s.files
          cases hrun : p.finish F s.files with
          | ok u files =>
              obtain ⟨hlocked, hconfig⟩ := wp_of_ok hspec hrun
              exact .finishes hk hlocked hconfig
          | error e files => exact (wp_of_error hspec hrun).elim
      | drop faults =>
          simp only [call, hk]
          have hspec := p.drop_spec F faults s.files
          cases hrun : p.drop F faults s.files with
          | ok u files =>
              obtain ⟨hlocked, hconfig⟩ := wp_of_ok hspec hrun
              exact .drops hk hlocked hconfig
          | error e files => exact (wp_of_error hspec hrun).elim

/-! ### The invariant -/

/-- The lock belongs to the one editor that has prepared an edit, and an edit knows its
revisions. -/
structure Inv (F : Format T D) (s : Editors T) : Prop where
  held : s.files.locked = true ↔ ∃ k, s.prepared k ≠ none
  alone : ∀ {j k p q}, s.prepared j = some p → s.prepared k = some q → j = k
  before : ∀ {k p}, s.prepared k = some p → F.digest p.before = p.beforeRevision
  after : ∀ {k p}, s.prepared k = some p → p.afterRevision = F.digest p.next
  unfinished : ∀ {k p}, s.prepared k = some p → p.finished = false

/-- Nobody is editing. -/
structure Idle (s : Editors T) : Prop where
  free : s.files.locked = false
  none : ∀ k, s.prepared k = none

/-- The invariant holds while nobody edits. -/
theorem Idle.inv {F : Format T D} {s : Editors T} (h : s.Idle) : s.Inv F where
  held := by simp [h.free, h.none]
  alone hj _ := absurd ((h.none _).symm.trans hj) (by simp)
  before hk := absurd ((h.none _).symm.trans hk) (by simp)
  after hk := absurd ((h.none _).symm.trans hk) (by simp)
  unfinished hk := absurd ((h.none _).symm.trans hk) (by simp)

@[simp] theorem put_prepared (s : Editors T) (k : ℕ) (p : Option (Prepared T)) (files : Files T) :
    (s.put k p files).prepared k = p := Function.update_self ..

theorem put_prepared_of_ne (s : Editors T) {j k : ℕ} (h : j ≠ k) (p : Option (Prepared T))
    (files : Files T) : (s.put k p files).prepared j = s.prepared j := Function.update_of_ne h ..

/-- When editor `k` is the only one with an edit, it may replace it by one that knows its
revisions. -/
theorem Inv.put {F : Format T D} {s : Editors T} {k : ℕ} {p : Prepared T} {files : Files T}
    (halone : ∀ j, j ≠ k → s.prepared j = none) (hlocked : files.locked = true)
    (hbefore : F.digest p.before = p.beforeRevision) (hafter : p.afterRevision = F.digest p.next)
    (hunfinished : p.finished = false) : (s.put k (some p) files).Inv F := by
  have honly : ∀ {j q}, (s.put k (some p) files).prepared j = some q → j = k ∧ p = q := by
    intro j q hj
    by_cases hjk : j = k
    · subst hjk
      exact ⟨rfl, Option.some.inj ((put_prepared ..).symm.trans hj)⟩
    · rw [put_prepared_of_ne s hjk, halone j hjk] at hj
      cases hj
  refine ⟨⟨fun _ => ⟨k, ?_⟩, fun _ => hlocked⟩, ?_, ?_, ?_, ?_⟩
  · rw [put_prepared]
    nofun
  · intro i j _ _ hi hj
    exact (honly hi).1.trans (honly hj).1.symm
  · intro j q hj
    exact (honly hj).2 ▸ hbefore
  · intro j q hj
    exact (honly hj).2 ▸ hafter
  · intro j q hj
    exact (honly hj).2 ▸ hunfinished

/-- Only one editor has an edit. -/
theorem Inv.others {F : Format T D} {s : Editors T} (h : s.Inv F) {k : ℕ} {p : Prepared T}
    (hk : s.prepared k = some p) (j : ℕ) (hj : j ≠ k) : s.prepared j = none := by
  cases hq : s.prepared j with
  | none => rfl
  | some q => exact absurd (h.alone hq hk) hj

/-- Nobody has an edit while the lock is free. -/
theorem Inv.of_free {F : Format T D} {s : Editors T} (h : s.Inv F) (hfree : s.files.locked = false)
    (j : ℕ) : s.prepared j = none := by
  by_contra hj
  exact absurd (hfree.symm.trans (h.held.mpr ⟨j, hj⟩)) (by simp)

/-- When the only edit is closed, nobody is editing. -/
theorem Inv.closed {F : Format T D} {s : Editors T} (h : s.Inv F) {k : ℕ} {p : Prepared T}
    (hk : s.prepared k = some p) {files : Files T} (hlocked : files.locked = false) :
    (s.put k none files).Idle := by
  refine ⟨hlocked, fun j => ?_⟩
  by_cases hj : j = k
  · subst hj
    exact put_prepared ..
  · rw [put_prepared_of_ne s hj, h.others hk j hj]

/-- A call keeps the invariant. -/
theorem Inv.move {F : Format T D} {s s' : Editors T} {k : ℕ} {a : Act T D} (h : s.Inv F)
    (hm : Move F k s a s') : s'.Inv F := by
  cases hm with
  | nothing hsame => exact ⟨hsame.locked ▸ h.held, h.alone, h.before, h.after, h.unfinished⟩
  | edits _ hp hfree _ hlocked =>
      exact .put (fun j _ => h.of_free hfree j) hlocked (hp.digest.trans hp.beforeRevision.symm)
        hp.afterRevision hp.finished
  | commits hk _ _ _ hlocked =>
      have hheld := hlocked.trans (h.held.mpr ⟨k, by simp [hk]⟩)
      exact .put (h.others hk) hheld (h.before hk :) (h.after hk :) (h.unfinished hk :)
  | finishes hk hlocked _ => exact (h.closed hk hlocked).inv
  | drops hk hlocked _ => exact (h.closed hk hlocked).inv

/-- Every label keeps the invariant. -/
theorem Inv.next {F : Format T D} (path : Path) {s : Editors T} (h : s.Inv F) (l : Label T D) :
    (s.next F path l).Inv F := by
  cases l with
  | editor k a => exact h.move (call_move F path s k a)
  | outside text => exact ⟨h.held, h.alone, h.before, h.after, h.unfinished⟩

/-- The invariant holds in every state that is reached. -/
theorem inv_run (F : Format T D) (path : Path) {s : Editors T} (h : s.Idle)
    (ls : List (Label T D)) :
    (run (next F path) s ls).Inv F :=
  run_invariant_of_step (fun _ l hs => hs.next path l) h.inv

/-! ### A commit and what follows it -/

/-- Editor `k` has committed `p`, and the file holds what it installed. -/
structure Installed (k : ℕ) (p : Prepared T) (s : Editors T) : Prop where
  prepared : s.prepared k = some p
  committed : p.committed = true
  config : s.files.config = some p.next

/-- The label neither writes the file from outside nor ends the edit of editor `k`. -/
def Label.Spares (k : ℕ) : Label T D → Prop
  | .editor j .finish => j ≠ k
  | .editor j (.drop _) => j ≠ k
  | .editor _ _ => True
  | .outside _ => False

/-- Committing an edit installs it. -/
theorem installed_commit {F : Format T D} (path : Path) {s : Editors T} {k : ℕ} {p p' : Prepared T}
    {outputs : Result Outputs} {faults : Faults T} {files : Files T} (hk : s.prepared k = some p)
    (hcommit : p.commit F outputs faults s.files = .ok p' files) :
    p' = { p with committed := true } ∧
      Installed k p' (s.next F path (.editor k (.commit outputs faults))) := by
  obtain ⟨rfl, hconfig, -, -⟩ := wp_of_ok (p.commit_spec F outputs faults s.files) hcommit
  have hnext : s.next F path (.editor k (.commit outputs faults)) =
      s.put k (some { p with committed := true }) files := by
    simp only [next, call, hk, hcommit]
  rw [hnext]
  exact ⟨rfl, put_prepared .., rfl, hconfig⟩

/-- What is installed stays installed until its editor ends the edit or somebody writes the file. -/
theorem Installed.next {F : Format T D} (path : Path) {s : Editors T} {k : ℕ} {p : Prepared T}
    (hi : s.Inv F) (h : Installed k p s) {l : Label T D} (hl : l.Spares k) :
    Installed k p (s.next F path l) := by
  cases l with
  | outside text => exact hl.elim
  | editor j a =>
      have hother : ∀ q, s.prepared j = some q → j = k := fun q hq => hi.alone hq h.prepared
      have hm := call_move F path s j a
      show Installed k p (s.call F path j a)
      generalize s.call F path j a = s' at hm ⊢
      cases hm with
      | nothing hsame => exact ⟨h.prepared, h.committed, hsame.config.trans h.config⟩
      | edits _ _ hfree _ _ => exact absurd ((hi.of_free hfree k).symm.trans h.prepared) (by simp)
      | @commits _ _ q files _ hq htext hdigest hconfig _ =>
          obtain rfl := hother _ hq
          obtain rfl : q = p := Option.some.inj (hq.symm.trans h.prepared)
          -- only an edit that changed nothing can be committed again
          have hsame : { q with committed := true } = q := by
            rw [← h.committed]
          rw [hsame]
          exact ⟨put_prepared .., h.committed, hconfig⟩
      | finishes hq _ _ => exact absurd (hother _ hq) hl
      | drops hq _ _ => exact absurd (hother _ hq) hl

/-- What an editor has installed stays while the others spare it. -/
theorem Installed.run {F : Format T D} (path : Path) {s : Editors T} {k : ℕ} {p : Prepared T}
    (hi : s.Inv F) (h : Installed k p s) {ls : List (Label T D)} (hl : ∀ l ∈ ls, l.Spares k) :
    Installed k p (Run.run (Editors.next F path) s ls) := by
  induction ls generalizing s with
  | nil => exact h
  | cons l ls ih =>
      rw [List.forall_mem_cons] at hl
      exact ih (Inv.next path hi l) (h.next path hi hl.1) hl.2

/-- The file is one of the texts, and so is every text an editor has prepared. -/
structure Within (S : Set T) (s : Editors T) : Prop where
  config : ∀ {t}, s.files.config = some t → t ∈ S
  before : ∀ {k p}, s.prepared k = some p → p.before ∈ S
  next : ∀ {k p}, s.prepared k = some p → p.next ∈ S

section Promises
variable {F : Format T D} (path : Path) {S : Set T} (hS : Set.InjOn F.digest S) {s : Editors T}
  (hi : s.Inv F) {k : ℕ} {p : Prepared T} (hk : s.prepared k = some p)
include hi hk

include hS in
/-- A commit installs the prepared text over the text it was prepared from, or fails and changes
nothing. -/
theorem commit_promise (hw : s.Within S) (outputs : Result Outputs) (faults : Faults T) :
    (∃ p' files, p.commit F outputs faults s.files = .ok p' files ∧ files.config = some p.next ∧
        s.files.config = some p.before) ∨
      ∃ e files, p.commit F outputs faults s.files = .error e files ∧
        files.config = s.files.config := by
  have hspec := p.commit_spec F outputs faults s.files
  cases hrun : p.commit F outputs faults s.files with
  | ok p' files =>
      obtain ⟨-, hconfig, -, text, htext, hdigest⟩ := wp_of_ok hspec hrun
      have heq : text = p.before :=
        hS (hw.config htext) (hw.before hk) (hdigest.trans (hi.before hk).symm)
      exact .inl ⟨p', files, rfl, hconfig, heq ▸ htext⟩
  | error e files =>
      have hsame := wp_of_error hspec hrun
      exact .inr ⟨e, files, rfl, hsame.config⟩

/-- An edit that is kept stays, and the lock is free. -/
theorem finish_promise :
    (s.next F path (.editor k .finish)).files.config = s.files.config ∧
      (s.next F path (.editor k .finish)).Idle := by
  show (s.call F path k .finish).files.config = _ ∧ (s.call F path k .finish).Idle
  have hspec := p.finish_spec F s.files
  cases hrun : p.finish F s.files with
  | ok u files =>
      obtain ⟨hlocked, hconfig⟩ := wp_of_ok hspec hrun
      simp only [call, hk, hrun]
      exact ⟨hconfig, hi.closed hk hlocked⟩
  | error e files => exact (wp_of_error hspec hrun).elim

/-- An edit that is dropped is rolled back if that is possible, and the lock is free. -/
theorem drop_promise (faults : Faults T) :
    (s.next F path (.editor k (.drop faults))).Idle ∧
      (p.RollsBack F faults s.files ∧
          (s.next F path (.editor k (.drop faults))).files.config = some p.before ∨
        ¬ p.RollsBack F faults s.files ∧
          (s.next F path (.editor k (.drop faults))).files.config = s.files.config) := by
  show (s.call F path k (.drop faults)).Idle ∧ _
  have hspec := p.drop_spec F faults s.files
  cases hrun : p.drop F faults s.files with
  | ok u files =>
      obtain ⟨hlocked, hconfig⟩ := wp_of_ok hspec hrun
      simp only [next, call, hk, hrun]
      exact ⟨hi.closed hk hlocked, hconfig⟩
  | error e files => exact (wp_of_error hspec hrun).elim

include hS in
/-- A text from outside that is not the prepared one survives a drop. -/
theorem drop_outside (hw : s.Within S) (hne : s.files.config ≠ some p.next) (faults : Faults T) :
    (s.next F path (.editor k (.drop faults))).files.config = s.files.config := by
  rcases (drop_promise path hi hk faults).2 with ⟨⟨-, -, -, text, htext, hdigest⟩, -⟩ | ⟨-, h⟩
  · have heq : text = p.next := hS (hw.config htext) (hw.next hk) (hdigest.trans (hi.after hk))
    exact absurd (heq ▸ htext) hne
  · exact h

end Promises

/-- A drop undoes what its editor installed. -/
theorem Installed.drop {F : Format T D} (path : Path) {s : Editors T} {k : ℕ} {p : Prepared T}
    (hi : s.Inv F) (h : Installed k p s) {faults : Faults T} (hread : faults.read = none)
    (hreplace : faults.replace = none) :
    (s.next F path (.editor k (.drop faults))).files.config = some p.before := by
  have hback : p.RollsBack F faults s.files :=
    ⟨⟨h.committed, hi.unfinished h.prepared⟩, hread, hreplace, p.next, h.config,
      (hi.after h.prepared).symm⟩
  rcases (drop_promise path hi h.prepared faults).2 with ⟨-, hconfig⟩ | ⟨hno, -⟩
  · exact hconfig
  · exact absurd hback hno

/-- What an editor may rely on, in any state reached.  `S` is a set of texts that the digest tells
apart.

Preparing an edit never changes the file.  A commit installs the prepared text over the text it was
prepared from, or fails and changes nothing.  A drop leaves a text from outside alone, and undoes a
commit that nobody has written over; after `finish` the prepared text stays.  The lock is held
exactly while somebody has prepared an edit.  Of two edits based on the same revision the second is
installed only over that revision's text. -/
theorem transaction (F : Format T D) (path : Path) {S : Set T} (hS : Set.InjOn F.digest S)
    {s₀ : Editors T} (h₀ : s₀.Idle) (ls : List (Label T D)) :
    let s := run (next F path) s₀ ls
    (∀ k faults expected edit,
      (s.next F path (.editor k (.edit faults expected edit))).files.config = s.files.config) ∧
    (s.files.locked = true ↔ ∃ k, s.prepared k ≠ none) ∧
    ∀ k p, s.prepared k = some p → s.Within S →
      (∀ outputs faults,
        (∃ p' files, p.commit F outputs faults s.files = .ok p' files ∧
          files.config = some p.next ∧ s.files.config = some p.before) ∨
        ∃ e files, p.commit F outputs faults s.files = .error e files ∧
          files.config = s.files.config) ∧
      ((s.next F path (.editor k .finish)).files.config = s.files.config ∧
        (s.next F path (.editor k .finish)).Idle) ∧
      (∀ faults, (s.next F path (.editor k (.drop faults))).Idle ∧
        (s.files.config ≠ some p.next →
          (s.next F path (.editor k (.drop faults))).files.config = s.files.config)) ∧
      ∀ outputs faults p' files, p.commit F outputs faults s.files = .ok p' files →
        ∀ ms, let s' := run (next F path) s (.editor k (.commit outputs faults) :: ms)
          ((∀ l ∈ ms, l.Spares k) →
            (s'.next F path (.editor k .finish)).files.config = some p.next ∧
            ∀ faults, faults.read = none → faults.replace = none →
              (s'.next F path (.editor k (.drop faults))).files.config = some p.before) ∧
          ∀ j q, s'.prepared j = some q → s'.Within S → q.beforeRevision = p.beforeRevision →
            ∀ outputs faults q' files, q.commit F outputs faults s'.files = .ok q' files →
              s'.files.config = some p.before := by
  intro s
  have hi : s.Inv F := inv_run F path h₀ ls
  refine ⟨fun k faults expected edit => ?_, hi.held, fun k p hk hw => ?_⟩
  · have hm := call_move F path s k (.edit faults expected edit)
    show (s.call F path k (.edit faults expected edit)).files.config = _
    generalize s.call F path k (.edit faults expected edit) = s' at hm ⊢
    cases hm with
    | nothing hsame => exact hsame.config
    | edits _ _ _ hconfig _ => exact hconfig
  refine ⟨commit_promise hS hi hk hw, finish_promise path hi hk,
    fun faults => ⟨(drop_promise path hi hk faults).1,
      fun hne => drop_outside path hS hi hk hw hne faults⟩,
    fun outputs faults p' files hcommit ms => ⟨fun hms => ?_, ?_⟩⟩
  · obtain ⟨rfl, hinstalled⟩ := installed_commit path hk hcommit
    have hi' := hi.next path (.editor k (.commit outputs faults))
    have hlast := hinstalled.run path hi' hms
    have hiLast : Inv F (run (next F path) _ ms) :=
      run_invariant_of_step (fun _ l h => h.next path l) hi'
    exact ⟨(finish_promise path hiLast hlast.prepared).1.trans hlast.config,
      fun faults hread hreplace => hlast.drop path hiLast hread hreplace⟩
  · intro j q hq hw' hrevision outputs' faults' q' files' hcommit'
    have hi' : Inv F (run (next F path) s (.editor k (.commit outputs faults) :: ms)) :=
      run_invariant_of_step (fun _ l h => h.next path l) hi
    -- the digest tells the two originals apart
    have hsame : q.before = p.before := hS (hw'.before hq) (hw.before hk)
      ((hi'.before hq).trans (hrevision.trans (hi.before hk).symm))
    rcases commit_promise hS hi' hq hw' outputs' faults' with ⟨-, -, -, -, h⟩ | ⟨e, files, h, -⟩
    · exact h.trans (congrArg some hsame)
    · exact absurd (hcommit'.symm.trans h) nofun

section Sample

/-- A configuration file, up to the value of `native_touchpads`. -/
def sampleText (touchpads : String) : String :=
  "certificate = 'identity.pem'\nprivate_key = 'identity.key.pem'\n" ++
  "peer_certificate = 'peer.pem'\npeer_name = 'desktop'\n" ++
  "activity_devices = ['/dev/input/event0']\nnative_touchpads = " ++ touchpads ++
  "\n[connection]\nmode = 'listen'\naddress = '0.0.0.0:42420'\n[edge]\n" ++
  "output = 'screen'\nboundary.edge = 'top'\nboundary.start = 0.0\nboundary.end = 1.0\n"

/-- The configuration that such a file holds. -/
def sampleConfig (touchpads : Bool) : Config where
  certificate := ⟨false, ["identity.pem"]⟩
  privateKey := ⟨false, ["identity.key.pem"]⟩
  peerCertificate := ⟨false, ["peer.pem"]⟩
  peerName := "desktop"
  pairedDevices := []
  connection := .listen "0.0.0.0:42420"
  edges := [⟨"default", "screen", ⟨.top, 0, 1⟩⟩]
  activityDevices := [⟨true, ["dev", "input", "event0"]⟩]
  nativeTouchpads := touchpads
  sourcePath := none

/-- The two values of `sampleText` and their digests; documents are texts. -/
def sampleFormat : Format String String where
  digest text :=
    if text = sampleText "true" then
      "caace4fb72c68114c83f123511159b25073645e74434f97401d15705f27d886b"
    else if text = sampleText "false" then
      "d25e8315a717f78b3091564c0184015ca2d05393d8a0f38e8b8cb40c5411fc59"
    else text
  parse text := .ok text
  render doc := doc
  read text :=
    if text = sampleText "true" then .ok (sampleConfig true)
    else if text = sampleText "false" then .ok (sampleConfig false)
    else .error ["TOML parse error"]
  write doc _ := doc

/-- Where the configuration is. -/
def samplePath : Path := ⟨true, ["home", "config.toml"]⟩

/-- A file that nobody edits. -/
def sampleEditors : Editors String where
  files := { config := some (sampleText "true"), backup := none, locked := false,
             store := { peers := none, file := fun _ => none } }
  prepared _ := none

/-- An edit of the sample file, based on the revision it starts with. -/
def sampleEdit (edit : String → StoreM String) : Act String String :=
  .edit {} (sampleFormat.digest (sampleText "true")) edit

/-- The edit is committed, and nothing is refused. -/
def sampleCommit : Act String String := .commit (.ok []) {}

/-- An edit that turns the touchpads off. -/
def sampleChange : Act String String := sampleEdit fun _ => pure (sampleText "false")

/-- An edit that turns the touchpads off is committed and dropped: the file is the original
again. -/
theorem transaction_sample :
    let s := run (next sampleFormat samplePath) sampleEditors [.editor 0 sampleChange]
    let s' := run (next sampleFormat samplePath) s [.editor 0 sampleCommit]
    (s'.next sampleFormat samplePath (.editor 0 (.drop {}))).files.config =
      some (sampleText "true") := by
  have hne :
      sampleFormat.digest (sampleText "true") ≠ sampleFormat.digest (sampleText "false") := by
    decide +kernel
  have hS : Set.InjOn sampleFormat.digest {t | t = sampleText "true" ∨ t = sampleText "false"} := by
    rintro _ (rfl | rfl) _ (rfl | rfl) h
    · rfl
    · exact absurd h hne
    · exact absurd h.symm hne
    · rfl
  have h₀ : sampleEditors.Idle := ⟨rfl, fun _ => rfl⟩
  intro s s'
  have hs : run (next sampleFormat samplePath) sampleEditors [.editor 0 sampleChange] = s := rfl
  clear_value s
  obtain ⟨p, hp, h⟩ : ∃ p, s.prepared 0 = some p ∧
      (p.before, p.next, p.committed) = (sampleText "true", sampleText "false", false) := by
    rw [← Option.map_eq_some_iff, ← hs]
    decide +kernel
  obtain ⟨hbefore, hnext, hcommitted⟩ := by simpa only [Prod.mk.injEq] using h
  have hconfig : s.files.config = some (sampleText "true") := by
    rw [← hs]
    decide +kernel
  have hi : s.Inv sampleFormat := hs ▸ inv_run sampleFormat samplePath h₀ _
  have honly : ∀ {k q}, s.prepared k = some q → q = p := by
    intro k q hq
    obtain rfl := hi.alone hq hp
    exact Option.some.inj (hq.symm.trans hp)
  have hw : s.Within {t | t = sampleText "true" ∨ t = sampleText "false"} :=
    ⟨fun ht => .inl (Option.some.inj (ht.symm.trans hconfig)), fun hq => .inl (honly hq ▸ hbefore),
      fun hq => .inr (honly hq ▸ hnext)⟩
  have hok : ((s.next sampleFormat samplePath (.editor 0 sampleCommit)).prepared 0).map
      Prepared.committed = some true := by
    rw [← hs]
    decide +kernel
  have h := transaction sampleFormat samplePath hS h₀ [.editor 0 sampleChange]
  rw [hs] at h
  obtain ⟨hcommit, -, -, hafter⟩ := h.2.2 0 p hp hw
  rcases hcommit (.ok []) {} with ⟨p', files, hrun, -⟩ | ⟨e, files, hrun, -⟩
  · have hdrop := ((hafter (.ok []) {} p' files hrun []).1 nofun).2 {} rfl rfl
    rw [hbefore] at hdrop
    exact hdrop
  · simp [next, call, sampleCommit, hp, hrun, hcommitted] at hok

/-- Two edits that change nothing are based on one revision, and both are installed. -/
theorem unchanged_text_is_installed_twice :
    let s := run (next sampleFormat samplePath) sampleEditors
      [.editor 0 (sampleEdit pure), .editor 0 sampleCommit]
    let s' := run (next sampleFormat samplePath) s
      [.editor 0 .finish, .editor 1 (sampleEdit pure), .editor 1 sampleCommit]
    (s.prepared 0).map (fun p => (p.beforeRevision, p.committed)) =
        some (sampleFormat.digest (sampleText "true"), true) ∧
      (s'.prepared 1).map (fun p => (p.beforeRevision, p.committed)) =
        some (sampleFormat.digest (sampleText "true"), true) := by
  decide +kernel

end Sample

end Editors

end NiriBridge
