import Mathlib.Order.Lattice
import Mathlib.Order.Defs.LinearOrder
import Mathlib.Tactic.SplitIfs

/-!
# Support — Gaps

What spans in order leave free between two bounds.  A gap meets no span (`gaps_spec`), whether the
spans overlap or not.
-/

namespace Gaps

variable {α : Type} [LinearOrder α]

/-- The gaps from `last` on, up to `limit`; the spans are in the order of their beginnings. -/
def gaps (limit : α) (last : α) : List (α × α) → List (α × α)
  | [] => if last < limit then [(last, limit)] else []
  | (start, next) :: spans =>
      if last < start then (last, start) :: gaps limit (max last next) spans
      else gaps limit (max last next) spans

/-- A gap lies between the bounds and meets no span. -/
theorem gaps_spec {limit last : α} {spans : List (α × α)} (h : spans.Pairwise fun s t => s.1 ≤ t.1)
    (hlimit : ∀ s ∈ spans, s.1 ≤ limit) {gap : α × α} (hgap : gap ∈ gaps limit last spans) :
    last ≤ gap.1 ∧ gap.1 < gap.2 ∧ gap.2 ≤ limit ∧ ∀ s ∈ spans, s.2 ≤ gap.1 ∨ gap.2 ≤ s.1 := by
  induction spans generalizing last with
  | nil =>
      rw [gaps] at hgap
      split_ifs at hgap with hlt
      · obtain rfl := List.mem_singleton.mp hgap
        exact ⟨le_rfl, hlt, le_rfl, by simp⟩
      · cases hgap
  | cons span spans ih =>
      obtain ⟨start, next⟩ := span
      obtain ⟨hfirst, hrest⟩ := List.pairwise_cons.mp h
      rw [List.forall_mem_cons] at hlimit
      have hlater : gap ∈ gaps limit (max last next) spans → last ≤ gap.1 ∧ gap.1 < gap.2 ∧
          gap.2 ≤ limit ∧ ∀ s ∈ (start, next) :: spans, s.2 ≤ gap.1 ∨ gap.2 ≤ s.1 := by
        intro hmem
        obtain ⟨hlast, hlt, hle, hall⟩ := ih hrest hlimit.2 hmem
        rw [List.forall_mem_cons]
        exact ⟨(le_max_left ..).trans hlast, hlt, hle, .inl ((le_max_right ..).trans hlast), hall⟩
      rw [gaps] at hgap
      split_ifs at hgap with hlt
      · rcases List.mem_cons.mp hgap with rfl | hmem
        · rw [List.forall_mem_cons]
          exact ⟨le_rfl, hlt, hlimit.1, .inr le_rfl, fun s hs => .inr (hfirst s hs)⟩
        · exact hlater hmem
      · exact hlater hgap

end Gaps
