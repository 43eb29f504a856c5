import Mathlib.Tactic.Basic
import Mathlib.Logic.Basic

/-!
# Support — Run

Runs of a deterministic labelled machine `next : σ → ι → σ`: the labels carry whatever the
environment chooses, so quantifying over all label lists quantifies over every behaviour.

`Along next P s ls` says that every step of the run from `s` along `ls` satisfies `P`, a condition
on the state before the step and its label.  `run_invariant` is the induction every safety result is
an instance of.
-/

namespace Run

variable {σ ι : Type} (next : σ → ι → σ)

/-- The state reached from `s` along `ls`. -/
def run : σ → List ι → σ
  | s, [] => s
  | s, i :: ls => run (next s i) ls

@[simp] theorem run_nil (s : σ) : run next s [] = s := rfl

@[simp] theorem run_cons (s : σ) (i : ι) (ls : List ι) :
    run next s (i :: ls) = run next (next s i) ls := rfl

/-- A run may be cut anywhere. -/
theorem run_append (s : σ) (ls ms : List ι) :
    run next s (ls ++ ms) = run next (run next s ls) ms := by
  induction ls generalizing s with
  | nil => rfl
  | cons i ls ih => exact ih (next s i)

/-- Every step of the run meets `P`. -/
def Along (P : σ → ι → Prop) : σ → List ι → Prop
  | _, [] => True
  | s, i :: ls => P s i ∧ Along P (next s i) ls

variable {next}

/-- What holds along a run holds along its parts. -/
theorem along_append {P : σ → ι → Prop} {s : σ} {ls ms : List ι} :
    Along next P s (ls ++ ms) ↔ Along next P s ls ∧ Along next P (run next s ls) ms := by
  induction ls generalizing s with
  | nil => simp [Along]
  | cons i ls ih => simp only [List.cons_append, Along, ih, run_cons, and_assoc]

/-- The rule of consequence. -/
theorem along_mono {P Q : σ → ι → Prop} (h : ∀ s i, P s i → Q s i) {s : σ} {ls : List ι}
    (ha : Along next P s ls) : Along next Q s ls := by
  induction ls generalizing s with
  | nil => trivial
  | cons i ls ih => exact ⟨h s i ha.1, ih ha.2⟩

/-- Whether every step of a run meets a condition can be computed. -/
instance decidableAlong {P : σ → ι → Prop} [∀ s i, Decidable (P s i)] :
    ∀ (s : σ) (ls : List ι), Decidable (Along next P s ls)
  | _, [] => inferInstanceAs (Decidable True)
  | s, i :: ls =>
      have : Decidable (Along next P (next s i) ls) := decidableAlong (next s i) ls
      inferInstanceAs (Decidable (P s i ∧ Along next P (next s i) ls))

/-- A property of the start that every permitted step keeps holds at the end. -/
theorem run_invariant {I : σ → Prop} {P : σ → ι → Prop}
    (hstep : ∀ s i, I s → P s i → I (next s i)) {s : σ} {ls : List ι} (h : I s)
    (ha : Along next P s ls) : I (run next s ls) := by
  induction ls generalizing s with
  | nil => exact h
  | cons i ls ih => exact ih (hstep s i h ha.1) ha.2

theorem along_true {s : σ} {ls : List ι} : Along next (fun _ _ => True) s ls := by
  induction ls generalizing s with
  | nil => trivial
  | cons i ls ih => exact ⟨trivial, ih⟩

/-- A property of the start that every step keeps holds at the end. -/
theorem run_invariant_of_step {I : σ → Prop} (hstep : ∀ s i, I s → I (next s i)) {s : σ}
    {ls : List ι} (h : I s) : I (run next s ls) :=
  run_invariant (P := fun _ _ => True) (fun s i hs _ => hstep s i hs) h along_true

end Run
