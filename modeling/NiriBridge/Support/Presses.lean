import Mathlib.Data.List.Basic
import Mathlib.Tactic.Tauto

/-!
# Support — Presses

Logs of presses and releases of keys of any kind.  `Tells log held` says that the log is one of a
set that starts empty: what it says of each key alternates, beginning with a press, and ends with a
press exactly for the keys of the set.

* `Tells.push`: one more entry, of a key that changes.
-/

namespace Presses

variable {κ : Type} [DecidableEq κ]

/-- What a log says of one key. -/
def of (code : κ) (log : List (κ × Bool)) : List Bool :=
  (log.filter fun p => p.1 = code).map Prod.snd

@[simp] theorem of_nil (code : κ) : of code [] = [] := rfl

theorem of_append (code : κ) (log log' : List (κ × Bool)) :
    of code (log ++ log') = of code log ++ of code log' := by
  rw [of, List.filter_append, List.map_append]
  rfl

theorem of_singleton (code c : κ) (b : Bool) : of code [(c, b)] = if c = code then [b] else [] := by
  by_cases hc : c = code
  · simp [of, hc]
  · simp [of, hc]

/-- Each entry is the opposite of the one before it, the first of `held`. -/
def Alternates : Bool → List Bool → Prop
  | _, [] => True
  | held, b :: bs => b = !held ∧ Alternates b bs

/-- What is so after the entries. -/
def last : Bool → List Bool → Bool
  | held, [] => held
  | _, b :: bs => last b bs

/-- A code is down exactly when its last transition was a press. -/
theorem last_eq_true {bs : List Bool} : last false bs = true ↔ bs.getLast? = some true := by
  suffices hgen : ∀ held, last held bs = bs.getLast?.getD held by
    rw [hgen]
    cases bs.getLast? <;> simp
  induction bs with
  | nil => exact fun _ => rfl
  | cons b bs ih =>
      intro held
      rw [last, ih, List.getLast?_cons]
      rfl

/-- Alternating transitions may follow each other. -/
theorem alternates_append {held : Bool} {bs cs : List Bool} :
    Alternates held (bs ++ cs) ↔ Alternates held bs ∧ Alternates (last held bs) cs := by
  induction bs generalizing held with
  | nil => simp [Alternates, last]
  | cons b bs ih => simp only [List.cons_append, Alternates, last, ih, and_assoc]

/-- **The log tells of the set.** -/
structure Tells (log : List (κ × Bool)) (held : κ → Prop) : Prop where
  alternates : ∀ code, Alternates false (of code log)
  last : ∀ code, (of code log).getLast? = some true ↔ held code

variable {log : List (κ × Bool)} {held held' : κ → Prop}

theorem tells_nil : Tells (κ := κ) [] fun _ => False :=
  ⟨fun _ => trivial, fun _ => iff_of_false (by simp) id⟩

/-- A log tells what is held, however that is said. -/
theorem Tells.congr (h : Tells log held) (heq : ∀ code, held' code ↔ held code) : Tells log held' :=
  ⟨h.alternates, fun code => (h.last code).trans (heq code).symm⟩

/-- An entry of a key that changes, after which the set has changed there. -/
theorem Tells.push (h : Tells log held) {code : κ} {pressed : Bool}
    (hne : ¬ (held code ↔ pressed = true))
    (heq : ∀ c, held' c ↔ if c = code then pressed = true else held c) :
    Tells (log ++ [(code, pressed)]) held' := by
  refine ⟨fun c => ?_, fun c => ?_⟩
  · rw [of_append, of_singleton, alternates_append]
    refine ⟨h.alternates c, ?_⟩
    split_ifs with hc
    · subst hc
      refine ⟨?_, trivial⟩
      have hlast := last_eq_true.trans (h.last code)
      cases pressed <;> cases hl : Presses.last false (of code log) <;> simp_all
    · trivial
  · rw [of_append, of_singleton, heq]
    by_cases hc : c = code
    · subst hc
      simp
    · rw [if_neg (Ne.symm hc), if_neg hc, List.append_nil]
      exact h.last c

end Presses
