import Mathlib.Data.Rat.Defs
import Mathlib.Data.List.Basic
import Mathlib.Tactic.SplitIfs

/-!
# Support — Document

A document that is edited and keeps how it was written: the tree of its items, each with the blanks
and comments around it (`Decor`).  Tables are lists of entries in their order; setting an entry
changes it in its place, or adds it at the end (`update`).
-/

namespace Document

/-- The text before and after a key, a value or the header of a table; `none` is for the usual
one. -/
structure Decor where
  before : Option String := none
  after : Option String := none
deriving DecidableEq, Repr

/-- A key, and the text around it. -/
structure Key where
  name : String
  decor : Decor := {}
deriving DecidableEq, Repr

/-! ### Entries -/

section Entries

variable {α β : Type}

/-- The entries of a table, in their order. -/
abbrev Entries (α : Type) := List (Key × α)

/-- The first entry under a name. -/
def lookup (name : String) : Entries α → Option α
  | [] => none
  | (key, a) :: entries => if key.name = name then some a else lookup name entries

/-- `f` of what is there. -/
def update (name : String) (f : Option α → α) : Entries α → Entries α
  | [] => [({ name := name }, f none)]
  | (key, a) :: entries =>
      if key.name = name then (key, f (some a)) :: entries else (key, a) :: update name f entries

/-- The entries without those under a name. -/
def remove (name : String) (entries : Entries α) : Entries α :=
  entries.filter fun p => p.1.name ≠ name

/-- The names of the entries. -/
def names (entries : Entries α) : List String := entries.map fun p => p.1.name

/-- What is updated is found. -/
@[simp] theorem lookup_update (name : String) (f : Option α → α) (entries : Entries α) :
    lookup name (update name f entries) = some (f (lookup name entries)) := by
  induction entries with
  | nil => simp [update, lookup]
  | cons p entries ih =>
      obtain ⟨key, a⟩ := p
      by_cases h : key.name = name
      · simp [update, lookup, h]
      · simp [update, lookup, h, ih]

/-- The other entries stay. -/
theorem lookup_update_of_ne {name other : String} (hne : other ≠ name) (f : Option α → α)
    (entries : Entries α) : lookup other (update name f entries) = lookup other entries := by
  induction entries with
  | nil => simp [update, lookup, hne.symm]
  | cons p entries ih =>
      obtain ⟨key, a⟩ := p
      by_cases h : key.name = name
      · simp [update, lookup, h, hne.symm]
      · simp [update, lookup, h, ih]

/-- An update adds at most its own name. -/
theorem mem_names_update {name other : String} (f : Option α → α) (entries : Entries α) :
    other ∈ names (update name f entries) ↔ other = name ∨ other ∈ names entries := by
  induction entries with
  | nil => simp [update, names]
  | cons p entries ih =>
      obtain ⟨key, a⟩ := p
      by_cases h : key.name = name
      · subst h
        simp [update, names]
      · simp only [update, if_neg h, names, List.map_cons, List.mem_cons] at ih ⊢
        rw [ih]
        tauto

/-- What is there already is not changed by setting it. -/
theorem update_eq_self {name : String} {f : Option α → α} {entries : Entries α} {a : α}
    (h : lookup name entries = some a) (hf : f (some a) = a) : update name f entries = entries := by
  induction entries with
  | nil => cases h
  | cons p entries ih =>
      obtain ⟨key, b⟩ := p
      by_cases hkey : key.name = name
      · rw [lookup, if_pos hkey] at h
        cases h
        rw [update, if_pos hkey, hf]
      · rw [lookup, if_neg hkey] at h
        rw [update, if_neg hkey, ih h]

/-- What is removed is not found. -/
@[simp] theorem lookup_remove (name : String) (entries : Entries α) :
    lookup name (remove name entries) = none := by
  induction entries with
  | nil => rfl
  | cons p entries ih =>
      obtain ⟨key, a⟩ := p
      by_cases h : key.name = name
      · simpa [remove, h] using ih
      · simpa [remove, lookup, h] using ih

theorem remove_eq_self {name : String} {entries : Entries α} (h : lookup name entries = none) :
    remove name entries = entries := by
  induction entries with
  | nil => rfl
  | cons p entries ih =>
      obtain ⟨key, a⟩ := p
      by_cases hkey : key.name = name
      · simp [lookup, hkey] at h
      · rw [lookup, if_neg hkey] at h
        rw [remove, List.filter_cons_of_pos (by simpa using hkey)]
        exact congrArg _ (ih h)

/-- The other entries stay as they are, in their order. -/
theorem filter_update {name : String} (f : Option α → α) {keep : String → Bool}
    (h : keep name = false) (entries : Entries α) :
    (update name f entries).filter (fun p => keep p.1.name) = entries.filter fun p =>
      keep p.1.name := by
  induction entries with
  | nil => simp [update, h]
  | cons p entries ih =>
      obtain ⟨key, a⟩ := p
      by_cases hkey : key.name = name
      · simp [update, hkey, h]
      · rw [update, if_neg hkey, List.filter_cons, List.filter_cons, ih]

/-- A removed entry is missed only by those who keep its name. -/
theorem filter_remove {name : String} {keep : String → Bool} (h : keep name = false)
    (entries : Entries α) :
    (remove name entries).filter (fun p => keep p.1.name) = entries.filter fun p =>
      keep p.1.name := by
  rw [remove, List.filter_filter]
  refine List.filter_congr fun p _ => ?_
  by_cases hp : p.1.name = name
  · simp [hp, h]
  · simp [hp]

end Entries

/-! ### Items -/

/-- A value that is no container. -/
inductive Scalar where
  | string (s : String)
  | integer (n : ℤ)
  | float (q : ℚ)
  /-- A boolean, a time, or a float that is not finite. -/
  | other (text : String)
deriving DecidableEq, Repr

/-- A table of a document; `position` is its place among the tables of the text it was read from. -/
structure TableOf (Item : Type) where
  entries : List (Key × Item) := []
  decor : Decor := {}
  position : Option ℕ := none

/-- A value of a document. -/
inductive Item where
  | scalar (scalar : Scalar) (decor : Decor)
  | array (items : List Item) (decor : Decor)
  | inlineTable (entries : List (Key × Item)) (decor : Decor)
  | table (table : TableOf Item)
  | arrayOfTables (tables : List (TableOf Item))

/-- A table of items. -/
abbrev Table := TableOf Item

/-- `as_value` and its decor. -/
def Item.valueDecor : Item → Option Decor
  | .scalar _ decor => some decor
  | .array _ decor => some decor
  | .inlineTable _ decor => some decor
  | .table _ => none
  | .arrayOfTables _ => none

/-- `as_str`. -/
def Item.asString : Item → Option String
  | .scalar (.string s) _ => some s
  | _ => none

/-- What is a map to one who reads the document. -/
def Item.fields : Item → Option (Entries Item)
  | .inlineTable entries _ => some entries
  | .table t => some t.entries
  | _ => none

/-- What is a sequence to one who reads the document. -/
def Item.elements : Item → Option (List Item)
  | .array items _ => some items
  | .arrayOfTables tables => some (tables.map .table)
  | _ => none

/-! ### Positions -/

mutual

/-- An item whose tables have no positions, down through tables of tables. -/
def clearItem : Item → Item
  | .table ⟨entries, decor, _⟩ => .table ⟨clearEntries entries, decor, none⟩
  | item => item

/-- The entries without the positions of their tables. -/
def clearEntries : List (Key × Item) → List (Key × Item)
  | [] => []
  | (key, item) :: entries => (key, clearItem item) :: clearEntries entries

end

/-- `clear_positions`. -/
def clearPositions (t : Table) : Table := ⟨clearEntries t.entries, t.decor, none⟩

mutual

/-- To clear positions twice changes nothing more. -/
theorem clearItem_clearItem : ∀ item, clearItem (clearItem item) = clearItem item
  | .table ⟨entries, decor, _⟩ => by
      rw [clearItem, clearItem, clearEntries_clearEntries entries]
  | .scalar .. => rfl
  | .array .. => rfl
  | .inlineTable .. => rfl
  | .arrayOfTables .. => rfl

theorem clearEntries_clearEntries :
    ∀ entries, clearEntries (clearEntries entries) = clearEntries entries
  | [] => rfl
  | (key, item) :: entries => by
      rw [clearEntries, clearEntries, clearItem_clearItem item, clearEntries_clearEntries entries]

end

/-- What is found once the positions are cleared. -/
theorem lookup_clearEntries (name : String) (entries : Entries Item) :
    lookup name (clearEntries entries) = (lookup name entries).map clearItem := by
  induction entries with
  | nil => rfl
  | cons p entries ih =>
      obtain ⟨key, item⟩ := p
      rw [clearEntries, lookup, lookup, ih]
      split_ifs
      · rfl
      · rfl

/-- Nothing is cleared in entries one of which is set to something cleared. -/
theorem clearEntries_update {name : String} {f : Option Item → Item} {entries : Entries Item}
    (h : clearEntries entries = entries)
    (hf : clearItem (f (lookup name entries)) = f (lookup name entries)) :
    clearEntries (update name f entries) = update name f entries := by
  induction entries with
  | nil =>
      rw [update, clearEntries, clearEntries]
      exact congrArg (fun item => [(_, item)]) hf
  | cons p entries ih =>
      obtain ⟨key, item⟩ := p
      rw [clearEntries] at h
      obtain ⟨hitem, hrest⟩ := List.cons.inj h
      by_cases hkey : key.name = name
      · rw [lookup, if_pos hkey] at hf
        rw [update, if_pos hkey, clearEntries, hf, hrest]
      · rw [lookup, if_neg hkey] at hf
        rw [update, if_neg hkey, clearEntries, ih hrest hf, (Prod.mk.inj hitem).2]

theorem names_clearEntries (entries : Entries Item) :
    names (clearEntries entries) = names entries := by
  induction entries with
  | nil => rfl
  | cons p entries ih => exact congrArg (p.1.name :: ·) ih

/-! ### Comments -/

/-- The comments around a value. -/
def Decor.comments (decor : Decor) : List String :=
  (decor.before.toList ++ decor.after.toList).filter fun text => text.toList.contains '#'

@[simp] theorem comments_default : Decor.comments {} = [] := rfl

mutual

/-- The comments in and around an item, in their order. -/
def Item.comments : Item → List String
  | .scalar _ decor => decor.comments
  | .array items decor => decor.comments ++ listComments items
  | .inlineTable entries decor => decor.comments ++ entriesComments entries
  | .table ⟨entries, decor, _⟩ => decor.comments ++ entriesComments entries
  | .arrayOfTables tables => tablesComments tables

/-- The comments in the items. -/
def listComments : List Item → List String
  | [] => []
  | item :: items => item.comments ++ listComments items

/-- The comments in the entries and at their keys. -/
def entriesComments : List (Key × Item) → List String
  | [] => []
  | (key, item) :: entries => key.decor.comments ++ (item.comments ++ entriesComments entries)

/-- The comments in the tables. -/
def tablesComments : List (TableOf Item) → List String
  | [] => []
  | ⟨entries, decor, _⟩ :: tables =>
      decor.comments ++ (entriesComments entries ++ tablesComments tables)

end

/-- The comments in a table and around it. -/
def TableOf.comments (t : Table) : List String := t.decor.comments ++ entriesComments t.entries

mutual

/-- To clear positions leaves the comments alone. -/
theorem comments_clearItem : ∀ item, (clearItem item).comments = item.comments
  | .table ⟨entries, decor, _⟩ => by
      rw [clearItem, Item.comments, Item.comments, comments_clearEntries entries]
  | .scalar .. => rfl
  | .array .. => rfl
  | .inlineTable .. => rfl
  | .arrayOfTables .. => rfl

theorem comments_clearEntries :
    ∀ entries, entriesComments (clearEntries entries) = entriesComments entries
  | [] => rfl
  | (key, item) :: entries => by
      rw [clearEntries, entriesComments, entriesComments, comments_clearItem item,
        comments_clearEntries entries]

end

/-- An entry that is set to something with the same comments. -/
theorem entriesComments_update {name : String} {f : Option Item → Item} {entries : Entries Item}
    (h : (f (lookup name entries)).comments = ((lookup name entries).map Item.comments).getD []) :
    entriesComments (update name f entries) = entriesComments entries := by
  induction entries with
  | nil => simpa [update, lookup, entriesComments] using h
  | cons p entries ih =>
      obtain ⟨key, item⟩ := p
      by_cases hkey : key.name = name
      · rw [lookup, if_pos hkey] at h
        rw [update, if_pos hkey, entriesComments, entriesComments]
        rw [Option.map_some, Option.getD_some] at h
        rw [h]
      · rw [lookup, if_neg hkey] at h
        rw [update, if_neg hkey, entriesComments, entriesComments, ih h]

end Document
