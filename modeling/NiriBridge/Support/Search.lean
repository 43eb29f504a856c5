import Mathlib.Data.List.MinMax

/-!
# Support — Search

The first of the least elements of a list, among those that have a property (`Least`), and the first
one at all (`First`).  It is what a program finds that collects a value of each element with the
property, and takes the first least one of them (`argmin_filterMap_eq_some`), or the first
(`head?_filterMap_eq_some`).
-/

namespace Search

variable {α β k : Type} [LinearOrder k]

/-- `x` has the property, is less than such elements before it, and no more than those after it. -/
def Least (p : α → Prop) (f : α → k) (l : List α) (x : α) : Prop :=
  p x ∧ ∃ before after, l = before ++ x :: after ∧ (∀ y ∈ before, p y → f x < f y) ∧
    ∀ y ∈ after, p y → f x ≤ f y

/-- There is one least element that comes first. -/
theorem Least.unique {p : α → Prop} {f : α → k} {l : List α} {x y : α} (hx : Least p f l x)
    (hy : Least p f l y) : x = y := by
  obtain ⟨hpx, before, after, rfl, hbefore, hafter⟩ := hx
  obtain ⟨hpy, before', after', hsplit, hbefore', hafter'⟩ := hy
  rcases List.append_eq_append_iff.mp hsplit with ⟨t, hb, ht⟩ | ⟨t, hb, ht⟩
  · cases t with
    | nil => exact (List.cons.inj ht).1
    | cons z t =>
        -- `x` stands before `y`
        obtain ⟨rfl, rfl⟩ := List.cons.inj ht
        have hlt := hbefore' x (hb ▸ by simp) hpx
        exact absurd hlt (not_lt.mpr (hafter y (by simp) hpy))
  · cases t with
    | nil => exact (List.cons.inj ht).1.symm
    | cons z t =>
        obtain ⟨rfl, rfl⟩ := List.cons.inj ht
        have hlt := hbefore y (hb ▸ by simp) hpy
        exact absurd hlt (not_lt.mpr (hafter' x (by simp) hpx))

/-- The elements with the property are those that have a value, and they are compared by it. -/
structure Valued (g : α → Option β) (key : β → k) (p : α → Prop) (f : α → k) : Prop where
  isSome : ∀ x, p x ↔ (g x).isSome
  key : ∀ {x c}, g x = some c → key c = f x

/-- A minimum of what is found comes from a least element. -/
theorem exists_least {g : α → Option β} {key : β → k} {p : α → Prop} {f : α → k}
    (h : Valued g key p f) {l : List α} {c : β} (hmin : (l.filterMap g).argmin key = some c) :
    ∃ x, g x = some c ∧ Least p f l x := by
  have hp : ∀ {x c}, g x = some c → p x := fun {x c} hx => (h.isSome x).mpr (by rw [hx]; rfl)
  induction l generalizing c with
  | nil => cases hmin
  | cons a l ih =>
      cases hg : g a with
      | none =>
          rw [List.filterMap_cons_none hg] at hmin
          obtain ⟨x, hx, hpx, before, after, rfl, hbefore, hafter⟩ := ih hmin
          refine ⟨x, hx, hpx, a :: before, after, rfl, ?_, hafter⟩
          have hnot : ¬ p a := by simp [h.isSome, hg]
          rw [List.forall_mem_cons]
          exact ⟨fun hpa => absurd hpa hnot, hbefore⟩
      | some b =>
          rw [List.filterMap_cons_some hg, List.argmin_cons] at hmin
          -- the head is the least, or the least is in the tail
          cases hrest : (l.filterMap g).argmin key with
          | none =>
              rw [hrest] at hmin
              cases hmin
              refine ⟨a, hg, hp hg, [], l, rfl, by simp, fun y hy hpy => ?_⟩
              obtain ⟨w, hw⟩ := Option.isSome_iff_exists.mp ((h.isSome y).mp hpy)
              have hmem : w ∈ l.filterMap g := List.mem_filterMap.mpr ⟨y, hy, hw⟩
              rw [List.argmin_eq_none.mp hrest] at hmem
              cases hmem
          | some c' =>
              rw [hrest] at hmin
              dsimp only at hmin
              split_ifs at hmin with hlt
              · cases hmin
                obtain ⟨x, hx, hpx, before, after, rfl, hbefore, hafter⟩ := ih hrest
                refine ⟨x, hx, hpx, a :: before, after, rfl, ?_, hafter⟩
                rw [List.forall_mem_cons]
                exact ⟨fun _ => h.key hx ▸ h.key hg ▸ hlt, hbefore⟩
              · cases hmin
                refine ⟨a, hg, hp hg, [], l, rfl, by simp, fun y hy hpy => ?_⟩
                obtain ⟨w, hw⟩ := Option.isSome_iff_exists.mp ((h.isSome y).mp hpy)
                have hle := List.le_of_mem_argmin (List.mem_filterMap.mpr ⟨y, hy, hw⟩) hrest
                exact h.key hg ▸ h.key hw ▸ (not_lt.mp hlt).trans hle

/-- The minimum of what is found is that of the least element. -/
theorem argmin_filterMap_eq_some {g : α → Option β} {key : β → k} {p : α → Prop} {f : α → k}
    (h : Valued g key p f) {l : List α} {c : β} :
    (l.filterMap g).argmin key = some c ↔ ∃ x, g x = some c ∧ Least p f l x := by
  refine ⟨exists_least h, fun ⟨x, hx, hleast⟩ => ?_⟩
  cases hmin : (l.filterMap g).argmin key with
  | none =>
      obtain ⟨-, before, after, rfl, -⟩ := hleast
      have hmem : c ∈ (before ++ x :: after).filterMap g := List.mem_filterMap.mpr ⟨x, by simp, hx⟩
      rw [List.argmin_eq_none.mp hmin] at hmem
      cases hmem
  | some c' =>
      obtain ⟨y, hy, hleast'⟩ := exists_least h hmin
      rw [← hy, ← hleast.unique hleast', hx]

/-- `x` has the property, and no element before it. -/
def First (p : α → Prop) (l : List α) (x : α) : Prop :=
  p x ∧ ∃ before after, l = before ++ x :: after ∧ ∀ y ∈ before, ¬ p y

/-- The first of what is found is that of the first element. -/
theorem head?_filterMap_eq_some {g : α → Option β} {p : α → Prop}
    (h : ∀ x, p x ↔ (g x).isSome) {l : List α} {c : β} : (l.filterMap g).head? = some c ↔
    ∃ x, g x = some c ∧ First p l x := by
  have hnot : ∀ x, g x = none ↔ ¬ p x := by
    intro x
    rw [h, Option.not_isSome_iff_eq_none]
  rw [List.head?_filterMap, List.findSome?_eq_some_iff]
  simp only [hnot]
  constructor
  · rintro ⟨before, x, after, hsplit, hx, hbefore⟩
    exact ⟨x, hx, (h x).mpr (by rw [hx]; rfl), before, after, hsplit, hbefore⟩
  · rintro ⟨x, hx, -, before, after, hsplit, hbefore⟩
    exact ⟨before, x, after, hsplit, hx, hbefore⟩

end Search
