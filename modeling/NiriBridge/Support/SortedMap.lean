import Mathlib.Data.List.Sort
import Mathlib.Tactic.SplitIfs
import Mathlib.Tactic.Tauto

/-!
# Support — SortedMap

Finite maps kept as lists of pairs with strictly increasing keys: what `BTreeMap` is.  `get?` reads
a map, `insert` and `erase` change it, and `mem_toList` says that iterating over a map yields
exactly the pairs `get?` finds.
-/

/-- A finite map, as the list of its pairs in increasing order of keys. -/
structure SortedMap (κ υ : Type) [LinearOrder κ] where
  toList : List (κ × υ)
  sorted : toList.Pairwise (fun p q => p.1 < q.1)

namespace SortedMap

variable {κ υ : Type} [LinearOrder κ]

/-- The empty map. -/
def empty : SortedMap κ υ := ⟨[], .nil⟩

instance : EmptyCollection (SortedMap κ υ) := ⟨empty⟩
instance [DecidableEq υ] : DecidableEq (SortedMap κ υ) := fun s t =>
  decidable_of_iff (s.toList = t.toList) ⟨fun h => by cases s; cases t; cases h; rfl,
    fun h => h ▸ rfl⟩

/-- The value a list of pairs holds for a key. -/
def getList (k : κ) : List (κ × υ) → Option υ
  | [] => none
  | p :: l => if k = p.1 then some p.2 else getList k l

/-- The value under a key. -/
def get? (m : SortedMap κ υ) (k : κ) : Option υ := getList k m.toList

@[simp] theorem get?_empty (k : κ) : (∅ : SortedMap κ υ).get? k = none := rfl

@[simp] theorem toList_empty : (∅ : SortedMap κ υ).toList = [] := rfl

/-- In a sorted list an entry is what is found under its key. -/
theorem mem_getList {l : List (κ × υ)} (h : l.Pairwise (fun p q => p.1 < q.1)) {k : κ} {v : υ} :
    (k, v) ∈ l ↔ getList k l = some v := by
  induction l with
  | nil => simp [getList]
  | cons p l ih =>
      obtain ⟨hp, hl⟩ := List.pairwise_cons.mp h
      rw [List.mem_cons, getList, ih hl]
      split_ifs with hk
      · subst hk
        refine ⟨fun h => ?_, fun h => Or.inl (Prod.ext rfl (Option.some.inj h).symm)⟩
        rcases h with h | h
        · exact congrArg some (congrArg Prod.snd h).symm
        · exact absurd (hp _ ((ih hl).mpr h)) (lt_irrefl _)
      · exact ⟨fun h => h.resolve_left fun e => hk (congrArg Prod.fst e), Or.inr⟩

/-- Iteration yields the pairs the map holds. -/
theorem mem_toList {m : SortedMap κ υ} {k : κ} {v : υ} : (k, v) ∈ m.toList ↔ m.get? k = some v :=
  mem_getList m.sorted

/-- Inserts into the sorted list. -/
def insertList (k : κ) (v : υ) : List (κ × υ) → List (κ × υ)
  | [] => [(k, v)]
  | p :: l =>
      if k < p.1 then (k, v) :: p :: l
      else if k = p.1 then (k, v) :: l
      else p :: insertList k v l

/-- To insert adds at most its own entry. -/
theorem mem_insertList {k : κ} {v : υ} {p : κ × υ} {l : List (κ × υ)}
    (h : p ∈ insertList k v l) : p = (k, v) ∨ p ∈ l := by
  induction l with
  | nil => simpa [insertList] using h
  | cons q l ih =>
      unfold insertList at h
      split_ifs at h
      · simpa using h
      · exact (List.mem_cons.mp h).imp_right (List.mem_cons_of_mem _)
      · rcases List.mem_cons.mp h with rfl | h
        · exact Or.inr (List.mem_cons_self ..)
        · exact (ih h).imp_right (List.mem_cons_of_mem _)

/-- To insert keeps a list sorted. -/
theorem sorted_insertList {k : κ} {v : υ} {l : List (κ × υ)}
    (h : l.Pairwise (fun p q => p.1 < q.1)) :
    (insertList k v l).Pairwise (fun p q => p.1 < q.1) := by
  induction l with
  | nil => simp [insertList]
  | cons q l ih =>
      obtain ⟨hq, hl⟩ := List.pairwise_cons.mp h
      unfold insertList
      split_ifs with h₁ h₂
      · refine List.pairwise_cons.mpr ⟨fun p hp => ?_, h⟩
        rcases List.mem_cons.mp hp with rfl | hp
        · exact h₁
        · exact lt_trans h₁ (hq p hp)
      · exact List.pairwise_cons.mpr ⟨fun p hp => h₂ ▸ hq p hp, hl⟩
      · refine List.pairwise_cons.mpr ⟨fun p hp => ?_, ih hl⟩
        rcases mem_insertList hp with rfl | hp
        · exact lt_of_le_of_ne (not_lt.mp h₁) (Ne.symm h₂)
        · exact hq p hp

/-- What is found after an entry was inserted. -/
theorem getList_insertList (k k' : κ) (v : υ) (l : List (κ × υ)) :
    getList k' (insertList k v l) = if k' = k then some v else getList k' l := by
  induction l with
  | nil => rfl
  | cons q l ih =>
      unfold insertList
      split_ifs with h₁ h₂ <;> simp only [getList, ih] <;> split_ifs <;> simp_all

theorem nodup_keys (m : SortedMap κ υ) : (m.toList.map Prod.fst).Nodup :=
  List.pairwise_map.mpr (m.sorted.imp fun h => h.ne)

/-- The map with a value under a key. -/
def insert (m : SortedMap κ υ) (k : κ) (v : υ) : SortedMap κ υ :=
  ⟨insertList k v m.toList, sorted_insertList m.sorted⟩

@[simp] theorem get?_insert (m : SortedMap κ υ) (k k' : κ) (v : υ) :
    (m.insert k v).get? k' = if k' = k then some v else m.get? k' :=
  getList_insertList k k' v m.toList

/-- The map without a key. -/
def erase (m : SortedMap κ υ) (k : κ) : SortedMap κ υ :=
  ⟨m.toList.filter (fun p => p.1 ≠ k), m.sorted.filter _⟩

@[simp] theorem get?_erase (m : SortedMap κ υ) (k k' : κ) :
    (m.erase k).get? k' = if k' = k then none else m.get? k' := by
  obtain ⟨l, hl⟩ := m
  show getList k' (l.filter _) = if k' = k then none else getList k' l
  clear hl
  induction l with
  | nil => simp [getList]
  | cons q l ih =>
      rw [List.filter_cons, getList]
      by_cases hq : q.1 = k
      · rw [if_neg (by simpa using hq), ih]
        by_cases hk : k' = k
        · simp [hk]
        · rw [if_neg hk, if_neg hk, if_neg fun e => hk (e.trans hq)]
      · rw [if_pos (by simpa using hq), getList, ih]
        by_cases hk : k' = k
        · rw [if_pos hk, if_pos hk, if_neg fun e => hq (e.symm.trans hk)]
        · rw [if_neg hk, if_neg hk]

/-- The map with every pair of a list put in, later pairs over earlier ones. -/
def ofList (l : List (κ × υ)) : SortedMap κ υ := l.foldl (fun m p => m.insert p.1 p.2) ∅

/-- What is found is in the list. -/
theorem mem_of_get?_ofList {l : List (κ × υ)} {k : κ} {v : υ} (h : (ofList l).get? k = some v) :
    (k, v) ∈ l := by
  suffices hfold : ∀ m : SortedMap κ υ, (l.foldl (fun m p => m.insert p.1 p.2) m).get? k = some v →
      (k, v) ∈ l ∨ m.get? k = some v from (hfold ∅ h).resolve_right (by simp)
  clear h
  induction l with
  | nil => exact fun _ => .inr
  | cons p l ih =>
      intro m h
      rcases ih _ h with h | h
      · exact .inl (List.mem_cons_of_mem _ h)
      rw [get?_insert] at h
      split_ifs at h with hk
      · exact .inl (List.mem_cons.mpr (.inl (Prod.ext hk (Option.some.inj h).symm)))
      · exact .inr h

/-- Every key of the list is found. -/
theorem get?_ofList_ne_none {l : List (κ × υ)} {k : κ} (h : k ∈ l.map Prod.fst) :
    (ofList l).get? k ≠ none := by
  suffices hfold : ∀ m : SortedMap κ υ, k ∈ l.map Prod.fst ∨ m.get? k ≠ none →
      (l.foldl (fun m p => m.insert p.1 p.2) m).get? k ≠ none from hfold ∅ (.inl h)
  clear h
  induction l with
  | nil => exact fun _ h => h.resolve_left List.not_mem_nil
  | cons p l ih =>
      intro m h
      refine ih _ ?_
      rw [List.map_cons, List.mem_cons] at h
      by_cases hk : k = p.1
      · simp [hk]
      · rcases h with (h | h) | h
        · exact absurd h hk
        · exact .inl h
        · simpa [hk] using .inr h

example : (ofList [(3, 'a'), (1, 'b'), (3, 'c')]).toList = [(1, 'b'), (3, 'c')] := by decide

end SortedMap
