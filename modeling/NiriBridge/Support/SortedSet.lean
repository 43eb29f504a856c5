import Mathlib.Data.List.Pairwise
import Mathlib.Data.List.Sort
import Mathlib.Order.Defs.LinearOrder

/-!
# Support — SortedSet

Finite sets kept as strictly increasing lists: what `BTreeSet` is, an ordered set whose iteration
order is the order of its elements.  Every operation computes by structural recursion, so a
statement about a concrete set is decided by evaluation.

`SortedSet.ext` says that the representation is canonical: two sets with the same members are
equal.
-/

/-- A finite set, as the strictly increasing list of its elements. -/
structure SortedSet (α : Type) [LinearOrder α] where
  toList : List α
  sorted : toList.Pairwise (· < ·)

namespace SortedSet

variable {α : Type} [LinearOrder α]

instance : DecidableEq (SortedSet α) := fun s t =>
  decidable_of_iff (s.toList = t.toList) ⟨fun h => by cases s; cases t; cases h; rfl,
    fun h => h ▸ rfl⟩

instance : Membership α (SortedSet α) := ⟨fun s a => a ∈ s.toList⟩

instance (a : α) (s : SortedSet α) : Decidable (a ∈ s) :=
  inferInstanceAs (Decidable (a ∈ s.toList))

theorem mem_def {a : α} {s : SortedSet α} : a ∈ s ↔ a ∈ s.toList := Iff.rfl

theorem nodup (s : SortedSet α) : s.toList.Nodup := s.sorted.imp fun h => h.ne

/-- The representation is canonical. -/
theorem ext {s t : SortedSet α} (h : ∀ a, a ∈ s ↔ a ∈ t) : s = t := by
  obtain ⟨l, hl⟩ := s
  obtain ⟨m, hm⟩ := t
  have hp : l.Perm m :=
    (List.perm_ext_iff_of_nodup (hl.imp ne_of_lt) (hm.imp ne_of_lt)).mpr h
  obtain rfl : l = m := hp.eq_of_pairwise (fun a b _ _ h₁ h₂ => absurd h₁ h₂.asymm) hl hm
  rfl

/-- The empty set. -/
def empty : SortedSet α := ⟨[], .nil⟩

instance : EmptyCollection (SortedSet α) := ⟨empty⟩
instance : Inhabited (SortedSet α) := ⟨∅⟩

@[simp] theorem not_mem_empty (a : α) : a ∉ (∅ : SortedSet α) := List.not_mem_nil

theorem eq_empty_iff {s : SortedSet α} : s = ∅ ↔ ∀ a, a ∉ s :=
  ⟨fun h a => h ▸ not_mem_empty a, fun h => ext fun a => by simp [h a]⟩

/-- Whether a set is empty. -/
def isEmpty (s : SortedSet α) : Bool := s.toList.isEmpty

theorem isEmpty_iff {s : SortedSet α} : s.isEmpty = true ↔ s = ∅ := by
  rw [eq_empty_iff, isEmpty, List.isEmpty_iff, List.eq_nil_iff_forall_not_mem]
  rfl

/-- Insertion into an increasing list. -/
def insertList (a : α) : List α → List α
  | [] => [a]
  | b :: l => if a < b then a :: b :: l else if a = b then b :: l else b :: insertList a l

/-- To insert adds its element. -/
theorem mem_insertList {a b : α} {l : List α} : b ∈ insertList a l ↔ b = a ∨ b ∈ l := by
  induction l with
  | nil => simp [insertList]
  | cons c l ih =>
      unfold insertList
      split_ifs with h₁ h₂
      · simp
      · subst h₂; simp
      · simp [ih]; tauto

/-- To insert keeps a list sorted. -/
theorem sorted_insertList {a : α} {l : List α} (h : l.Pairwise (· < ·)) :
    (insertList a l).Pairwise (· < ·) := by
  induction l with
  | nil => simp [insertList]
  | cons c l ih =>
      obtain ⟨hc, hl⟩ := List.pairwise_cons.mp h
      unfold insertList
      split_ifs with h₁ h₂
      · refine List.pairwise_cons.mpr ⟨fun b hb => ?_, h⟩
        rcases List.mem_cons.mp hb with rfl | hb
        · exact h₁
        · exact h₁.trans (hc b hb)
      · exact h
      · refine List.pairwise_cons.mpr ⟨fun b hb => ?_, ih hl⟩
        rcases mem_insertList.mp hb with rfl | hb
        · exact lt_of_le_of_ne (not_lt.mp h₁) (Ne.symm h₂)
        · exact hc b hb

/-- The set with an element. -/
def insert (s : SortedSet α) (a : α) : SortedSet α :=
  ⟨insertList a s.toList, sorted_insertList s.sorted⟩

@[simp] theorem mem_insert {s : SortedSet α} {a b : α} : b ∈ s.insert a ↔ b = a ∨ b ∈ s :=
  mem_insertList

/-- The set without an element. -/
def erase (s : SortedSet α) (a : α) : SortedSet α := ⟨s.toList.filter (· ≠ a), s.sorted.filter _⟩

@[simp] theorem mem_erase {s : SortedSet α} {a b : α} : b ∈ s.erase a ↔ b ≠ a ∧ b ∈ s := by
  simp [mem_def, erase, and_comm]

/-- The set with every element of a list added. -/
def extend (s : SortedSet α) (l : List α) : SortedSet α := l.foldl insert s

@[simp] theorem mem_extend {s : SortedSet α} {l : List α} {a : α} :
    a ∈ s.extend l ↔ a ∈ l ∨ a ∈ s := by
  induction l generalizing s with
  | nil => simp [extend]
  | cons b l ih =>
      show a ∈ (s.insert b).extend l ↔ _
      rw [ih, mem_insert, List.mem_cons]
      tauto

/-- The elements of a list. -/
def ofList (l : List α) : SortedSet α := extend ∅ l

@[simp] theorem mem_ofList {l : List α} {a : α} : a ∈ ofList l ↔ a ∈ l := by
  simp [ofList]

example : (ofList [3, 1, 2, 1]).toList = [1, 2, 3] := by decide

end SortedSet
