import Mathlib.Data.List.Basic

/-!
# Support — Transcript

Logs that are written entry by entry and may break off.  `Writes log broken text` says that the log
is a beginning of the text, and all of it unless it has broken off.
-/

namespace Transcript

variable {α β : Type} {log text : List α} {broken : Bool}

/-- A log of a text: all of it, unless the log broke off. -/
structure Writes (log : List α) (broken : Bool) (text : List α) : Prop where
  is_prefix : log <+: text
  whole : broken = false → log = text

theorem writes_rfl : Writes log broken log := ⟨List.prefix_rfl, fun _ => rfl⟩

/-- The log breaks off, or had done so, before the rest of the text. -/
theorem Writes.cut (h : Writes log broken text) (rest : List α) : Writes log true (text ++ rest) :=
  ⟨h.is_prefix.trans (List.prefix_append text rest), by simp⟩

/-- A log that has not broken off takes the next entry. -/
theorem Writes.push (h : Writes log false text) (entry : α) :
    Writes (log ++ [entry]) false (text ++ [entry]) := by
  rw [h.whole rfl]
  exact writes_rfl

/-- A log may break off at any time. -/
theorem Writes.stop (h : Writes log broken text) : Writes log true text := ⟨h.is_prefix, by simp⟩

/-- What is read of the entries is read of a beginning of the text. -/
theorem Writes.filterMap (h : Writes log broken text) (f : α → Option β) :
    Writes (log.filterMap f) broken (text.filterMap f) :=
  ⟨h.is_prefix.filterMap f, fun hb => congrArg _ (h.whole hb)⟩

end Transcript
