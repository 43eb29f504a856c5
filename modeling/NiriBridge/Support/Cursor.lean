import Mathlib.Logic.Function.Basic
import NiriBridge.Support.SortedMap

/-!
# Support — Cursor

Tables written through a cursor.  A writer does not name the row it writes to: it moves the cursor
to a row, and then puts values into columns of that row.  A stream of such deltas means something
only to a reader that has the writer's cursor, and a reader that missed the beginning of the stream
agrees with the writer in a cell exactly when the cell has been written since, or agreed at the
time:

* `cell_run_of_not_written`: a cell the stream does not write keeps its value.
* `cell_run_of_written`: a cell it writes has the same value in every table it is run on.
* `cell_run_eq_iff`: both together.
* `cell_run_of_sought`: a row the writer's cursor was not at is the same for readers with any
  cursor.
* `run_puts`: putting a whole map into a row.
-/

namespace Cursor

variable {κ ι υ : Type} [DecidableEq κ] [LinearOrder ι]

/-- A table of optional values, with a cursor at one of its rows. -/
structure Table (κ ι υ : Type) where
  cursor : κ
  cell : κ → ι → Option υ

/-- What a stream says to a table. -/
inductive Delta (κ ι υ : Type) where
  /-- Move the cursor to a row. -/
  | seek (k : κ)
  /-- Put a value into a column of the cursor's row. -/
  | put (i : ι) (v : υ)

namespace Table

/-- Put a value into one cell. -/
def set (t : Table κ ι υ) (k : κ) (i : ι) (v : υ) : Table κ ι υ :=
  { t with cell := fun k' i' => if k' = k ∧ i' = i then some v else t.cell k' i' }

/-- One word of the stream. -/
def step (t : Table κ ι υ) : Delta κ ι υ → Table κ ι υ
  | .seek k => { t with cursor := k }
  | .put i v => t.set t.cursor i v

/-- The stream, word by word. -/
def run (t : Table κ ι υ) (ds : List (Delta κ ι υ)) : Table κ ι υ := ds.foldl step t

@[simp] theorem run_nil (t : Table κ ι υ) : t.run [] = t := rfl

@[simp] theorem run_cons (t : Table κ ι υ) (d : Delta κ ι υ) (ds : List (Delta κ ι υ)) :
    t.run (d :: ds) = (t.step d).run ds := rfl

theorem run_append (t : Table κ ι υ) (ds es : List (Delta κ ι υ)) :
    t.run (ds ++ es) = (t.run ds).run es := List.foldl_append

end Table

/-- A stream writes a cell when it puts a value into the column while the cursor, at `c` to begin
with, is at the row. -/
def Written (k : κ) (i : ι) : κ → List (Delta κ ι υ) → Prop
  | _, [] => False
  | _, .seek k' :: ds => Written k i k' ds
  | c, .put i' _ :: ds => (c = k ∧ i' = i) ∨ Written k i c ds

instance Written.decide (k : κ) (i : ι) :
    ∀ (c : κ) (ds : List (Delta κ ι υ)), Decidable (Written k i c ds)
  | _, [] => .isFalse id
  | _, .seek k' :: ds => Written.decide k i k' ds
  | c, .put _ _ :: ds => @instDecidableOr _ _ inferInstance (Written.decide k i c ds)

variable {k : κ} {i : ι}

/-- The cursor depends on where it started, not on what the table holds. -/
theorem cursor_run {t u : Table κ ι υ} (h : t.cursor = u.cursor) (ds : List (Delta κ ι υ)) :
    (t.run ds).cursor = (u.run ds).cursor := by
  induction ds generalizing t u with
  | nil => exact h
  | cons d ds ih =>
      cases d with
      | seek k => exact ih rfl
      | put i v => exact ih h

/-- A cell that the stream does not write keeps its value. -/
theorem cell_run_of_not_written {t : Table κ ι υ} {ds : List (Delta κ ι υ)}
    (h : ¬ Written k i t.cursor ds) : (t.run ds).cell k i = t.cell k i := by
  induction ds generalizing t with
  | nil => rfl
  | cons d ds ih =>
      cases d with
      | seek k' => exact ih h
      | put i' v =>
          have hne : ¬ (k = t.cursor ∧ i = i') := fun e => h (.inl ⟨e.1.symm, e.2.symm⟩)
          exact (ih (t := t.step (.put i' v)) fun hw => h (.inr hw)).trans (if_neg hne)

/-- A cell that the stream writes is the same for all readers with one cursor. -/
theorem cell_run_of_written {t u : Table κ ι υ} {ds : List (Delta κ ι υ)}
    (hc : t.cursor = u.cursor) (h : Written k i t.cursor ds) :
    (t.run ds).cell k i = (u.run ds).cell k i := by
  induction ds generalizing t u with
  | nil => exact h.elim
  | cons d ds ih =>
      cases d with
      | seek k' => exact ih rfl h
      | put i' v =>
          by_cases hw : Written k i t.cursor ds
          · exact ih (t := t.step (.put i' v)) (u := u.step (.put i' v)) hc hw
          -- the last write to the cell is this one
          · obtain ⟨rfl, rfl⟩ := h.resolve_right hw
            rw [Table.run_cons, Table.run_cons,
              cell_run_of_not_written (t := t.step (.put i' v)) hw,
              cell_run_of_not_written (t := u.step (.put i' v)) (hc ▸ hw)]
            simp [Table.step, Table.set, hc]

/-- **Agreement after a stream.**  Two tables with the cursor at the same row agree in a cell after
a stream exactly when the stream writes the cell or they agreed in it before. -/
theorem cell_run_eq_iff {t u : Table κ ι υ} (hc : t.cursor = u.cursor) (ds : List (Delta κ ι υ)) :
    (t.run ds).cell k i = (u.run ds).cell k i ↔
      Written k i t.cursor ds ∨ t.cell k i = u.cell k i := by
  by_cases hw : Written k i t.cursor ds
  · exact iff_of_true (cell_run_of_written hc hw) (.inl hw)
  · rw [cell_run_of_not_written hw, cell_run_of_not_written (hc ▸ hw)]
    exact ⟨.inr, fun h => h.resolve_left hw⟩

/-- A row the cursor is not at is written only after it has been sought, so the reader's cursor does
not matter. -/
theorem cell_run_of_sought {t u : Table κ ι υ} {ds : List (Delta κ ι υ)} (hne : t.cursor ≠ k)
    (h : Written k i t.cursor ds) : (t.run ds).cell k i = (u.run ds).cell k i := by
  induction ds generalizing t u with
  | nil => exact h.elim
  | cons d ds ih =>
      cases d with
      | seek k' => exact cell_run_of_written (t := t.step (.seek k')) (u := u.step (.seek k')) rfl h
      | put i' v =>
          exact ih (t := t.step (.put i' v)) (u := u.step (.put i' v)) hne
            (h.resolve_left fun hw => hne hw.1)

/-- A stream empties no cell. -/
theorem cell_run_ne_none {t : Table κ ι υ} {ds : List (Delta κ ι υ)} (h : t.cell k i ≠ none) :
    (t.run ds).cell k i ≠ none := by
  induction ds generalizing t with
  | nil => exact h
  | cons d ds ih =>
      refine ih ?_
      cases d with
      | seek k' => exact h
      | put i' v =>
          simp only [Table.step, Table.set]
          split_ifs
          · simp
          · exact h

/-- What a cell holds was there before or has been put into its column. -/
theorem cell_run_eq_some {t : Table κ ι υ} {ds : List (Delta κ ι υ)} {v : υ}
    (h : (t.run ds).cell k i = some v) : t.cell k i = some v ∨ .put i v ∈ ds := by
  induction ds generalizing t with
  | nil => exact .inl h
  | cons d ds ih =>
      rcases ih h with h | h
      · cases d with
        | seek k' => exact .inl h
        | put i' w =>
            simp only [Table.step, Table.set] at h
            split_ifs at h with hc
            · obtain rfl := Option.some.inj h
              exact .inr (hc.2 ▸ List.mem_cons_self ..)
            · exact .inl h
      · exact .inr (List.mem_cons_of_mem _ h)

/-- The stream that puts every pair of a list into the cursor's row. -/
def puts (l : List (ι × υ)) : List (Delta κ ι υ) := l.map fun p => .put p.1 p.2

/-- Putting a map into a row lays it over the row. -/
theorem run_puts (t : Table κ ι υ) (m : SortedMap ι υ) :
    (t.run (puts m.toList)).cell k i =
      if k = t.cursor then (m.get? i).or (t.cell k i) else t.cell k i := by
  obtain ⟨l, hl⟩ := m
  show (t.run (puts l)).cell k i = if k = t.cursor then (SortedMap.getList i l).or _ else _
  induction l generalizing t with
  | nil => simp [puts, SortedMap.getList]
  | cons p l ih =>
      obtain ⟨hp, hl⟩ := List.pairwise_cons.mp hl
      have hrun : t.run (puts (p :: l)) = (t.step (.put p.1 p.2)).run (puts l) := rfl
      have hnone : SortedMap.getList p.1 l = none :=
        Option.eq_none_iff_forall_ne_some.mpr fun v hv =>
          lt_irrefl _ (hp (p.1, v) ((SortedMap.mem_getList hl).mpr hv))
      rw [hrun, ih _ hl]
      by_cases hk : k = t.cursor <;> by_cases hi : i = p.1 <;>
        simp [Table.step, Table.set, SortedMap.getList, hk, hi, hnone]

end Cursor
