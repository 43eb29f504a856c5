import Mathlib.Algebra.Order.Floor.Ring
import Mathlib.Tactic.Linarith
import Mathlib.Tactic.FieldSimp
import Mathlib.Tactic.Ring

/-!
# Support — Spans

A span of a line and its pixels, where both the first pixel and their number are rounded down.
Spans that do not overlap have no pixel in common (`pixels_disjoint`), and a pixel of a span that is
found again by its share of the span is less than two pixels off (`share_offset`).
-/

namespace NiriBridge.Spans

variable {k : Type} [Field k] [LinearOrder k] [IsStrictOrderedRing k] [FloorRing k]

/-- The pixel belongs to the span from `a` to `b`. -/
def Pixel (a b : k) (x : ℤ) : Prop := ⌊a⌋ ≤ x ∧ x < ⌊a⌋ + ⌊b - a⌋

/-- Rounding twice stays short of the end. -/
theorem floor_add_floor_sub_le (a b : k) : ⌊a⌋ + ⌊b - a⌋ ≤ ⌊b⌋ := by
  have h := Int.le_floor_add a (b - a)
  rwa [add_sub_cancel] at h

theorem Pixel.lt_floor {a b : k} {x : ℤ} (h : Pixel a b x) : x < ⌊b⌋ :=
  h.2.trans_le (floor_add_floor_sub_le a b)

/-- A pixel lies in one of two spans that do not overlap. -/
theorem pixels_disjoint {a b c d : k} (h : b ≤ c ∨ d ≤ a) {x : ℤ} (hx : Pixel a b x) :
    ¬ Pixel c d x := by
  intro hy
  rcases h with h | h
  · exact absurd (hx.lt_floor.trans_le (Int.floor_le_floor h)) (not_lt.mpr hy.1)
  · exact absurd (hy.lt_floor.trans_le (Int.floor_le_floor h)) (not_lt.mpr hx.1)

/-- The place at coordinate `p` of the pixels, found again as the share `p / n` of the span, has
moved by less than two pixels, and not back. -/
theorem share_offset {a w p : k} (hn : 1 ≤ ⌊w⌋) (hp : 0 ≤ p) (hlt : p < ⌊w⌋) :
    (⌊a⌋ : k) + p ≤ a + p / ⌊w⌋ * w ∧ a + p / ⌊w⌋ * w < ⌊a⌋ + p + 2 := by
  have hpos : (0 : k) < ⌊w⌋ := by exact_mod_cast hn
  have hle : (⌊w⌋ : k) ≤ w := Int.floor_le w
  have hw : w < ⌊w⌋ + 1 := Int.lt_floor_add_one w
  have hshare : p / ⌊w⌋ * w = p + p / ⌊w⌋ * (w - ⌊w⌋) := by
    field_simp
    ring
  have hratio : 0 ≤ p / ⌊w⌋ ∧ p / ⌊w⌋ < 1 := ⟨div_nonneg hp hpos.le, (div_lt_one hpos).mpr hlt⟩
  have hrest : 0 ≤ p / ⌊w⌋ * (w - ⌊w⌋) ∧ p / ⌊w⌋ * (w - ⌊w⌋) < 1 := by
    refine ⟨mul_nonneg hratio.1 (sub_nonneg.mpr hle), ?_⟩
    exact mul_lt_one_of_nonneg_of_lt_one_left hratio.1 hratio.2 (by linarith)
  have ha := Int.floor_le a
  have ha' := Int.lt_floor_add_one a
  rw [hshare]
  constructor
  · linarith [hrest.1]
  · linarith [hrest.2]

end NiriBridge.Spans
