import Mathlib.Data.List.Basic

/-!
# Support — Before

`Before a b l`: somewhere in `l` an `a` stands before a `b`.  Facts about the order of messages in a
queue are stated with it, and its rules follow the two things that happen to a queue: `before_cons`
for taking the first message, `before_append_singleton` for writing one more.

A message that occurs at most once is one that does not stand before itself.
-/

namespace Queue

/-- An `a` and, later in the list, a `b`. -/
def Before {α : Type} (a b : α) (l : List α) : Prop := [a, b].Sublist l

variable {α : Type} {a b x : α} {l : List α}

@[simp, grind =] theorem before_nil : Before a b ([] : List α) ↔ False := by simp [Before]

/-- An element is before another one if it is the first and the other one follows, or later on. -/
@[simp, grind =] theorem before_cons :
    Before a b (x :: l) ↔ (x = a ∧ b ∈ l) ∨ Before a b l := by
  constructor
  · intro h
    cases h with
    | cons _ h => exact .inr h
    | cons_cons _ h => exact .inl ⟨rfl, List.singleton_sublist.mp h⟩
  · rintro (⟨rfl, h⟩ | h)
    · exact (List.singleton_sublist.mpr h).cons_cons _
    · exact h.cons _

/-- What is added last is behind everything. -/
@[simp, grind =] theorem before_append_singleton :
    Before a b (l ++ [x]) ↔ Before a b l ∨ (a ∈ l ∧ b = x) := by
  induction l with
  | nil => simp
  | cons y l ih =>
      simp only [List.cons_append, before_cons, ih, List.mem_append, List.mem_cons,
        List.not_mem_nil]
      tauto

@[grind →] theorem Before.mem_left (h : Before a b l) : a ∈ l := List.Sublist.subset h (by simp)

@[grind →] theorem Before.mem_right (h : Before a b l) : b ∈ l := List.Sublist.subset h (by simp)

end Queue
