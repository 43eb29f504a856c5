import Mathlib.Algebra.Order.Floor.Ring
import Mathlib.Algebra.Ring.Int.Parity
import Mathlib.Tactic.Linarith
import Mathlib.Tactic.Positivity

/-!
# Support — Rounding

Rounding to the nearest integer, halves to the even one, and to so many decimals.  Rounding does not
leave an interval between integers (`le_decimals`, `decimals_le`).
-/

namespace Rounding

variable {k : Type} [Field k] [LinearOrder k] [IsStrictOrderedRing k] [FloorRing k]

/-- Rounds to the nearest integer, and a half to the even one. -/
def halfEven (x : k) : ℤ :=
  if x - ⌊x⌋ < 1 / 2 then ⌊x⌋
  else if 1 / 2 < x - ⌊x⌋ then ⌊x⌋ + 1
  else if Even ⌊x⌋ then ⌊x⌋
  else ⌊x⌋ + 1

/-- Down or up by less than one. -/
theorem halfEven_cases (x : k) :
    halfEven x = ⌊x⌋ ∨ halfEven x = ⌊x⌋ + 1 ∧ (⌊x⌋ : k) < x := by
  have hup : ¬ x - ⌊x⌋ < 1 / 2 → (⌊x⌋ : k) < x := by
    intro h
    have hhalf : (0 : k) < 1 / 2 := by positivity
    linarith [not_lt.mp h]
  unfold halfEven
  split_ifs with hlow hhigh heven
  · exact .inl rfl
  · exact .inr ⟨rfl, hup hlow⟩
  · exact .inl rfl
  · exact .inr ⟨rfl, hup hlow⟩

/-- Rounding does not pass an integer below. -/
theorem le_halfEven {n : ℤ} {x : k} (h : (n : k) ≤ x) : n ≤ halfEven x := by
  have hfloor := Int.le_floor.mpr h
  rcases halfEven_cases x with heq | ⟨heq, -⟩
  · exact heq ▸ hfloor
  · exact heq ▸ hfloor.trans (Int.le_add_one le_rfl)

/-- Rounding does not pass an integer above. -/
theorem halfEven_le {n : ℤ} {x : k} (h : x ≤ n) : halfEven x ≤ n := by
  rcases halfEven_cases x with heq | ⟨heq, hlt⟩
  · exact heq ▸ Int.cast_le.mp ((Int.floor_le x).trans h)
  · exact heq ▸ Int.add_one_le_of_lt (Int.cast_lt.mp (hlt.trans_le h))

/-- `x` to `d` decimals. -/
def decimals (d : ℕ) (x : k) : k := halfEven (x * 10 ^ d) / 10 ^ d

/-- Rounding to decimals does not pass an integer below. -/
theorem le_decimals (d : ℕ) {n : ℤ} {x : k} (h : (n : k) ≤ x) : (n : k) ≤ decimals d x := by
  have hpos : (0 : k) < 10 ^ d := by positivity
  have hscaled : ((n * 10 ^ d : ℤ) : k) ≤ x * 10 ^ d := by
    push_cast
    exact mul_le_mul_of_nonneg_right h hpos.le
  rw [decimals, le_div_iff₀ hpos]
  exact_mod_cast le_halfEven hscaled

/-- Rounding to decimals does not pass an integer above. -/
theorem decimals_le (d : ℕ) {n : ℤ} {x : k} (h : x ≤ n) : decimals d x ≤ n := by
  have hpos : (0 : k) < 10 ^ d := by positivity
  have hscaled : x * 10 ^ d ≤ ((n * 10 ^ d : ℤ) : k) := by
    push_cast
    exact mul_le_mul_of_nonneg_right h hpos.le
  rw [decimals, div_le_iff₀ hpos]
  exact_mod_cast halfEven_le hscaled

end Rounding
