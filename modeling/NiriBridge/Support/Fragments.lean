import Mathlib.Algebra.Group.Nat.Defs
import Mathlib.Data.List.TakeDrop
import Mathlib.Tactic.SplitIfs

/-!
# Support — Fragments

A stream of bytes that arrives in fragments.  One read returns at most what is left of the first
fragment; `readExact` reads until it has as many bytes as it wants.  A read that returns nothing is
the end of the stream, so fragments are not empty (`Solid`).

What is read depends on the bytes alone (`readExact_eq_some`), not on how they are fragmented.
-/

namespace Fragments

/-- A string of bytes. -/
abbrev Bytes := List UInt8

/-- No fragment is empty. -/
def Solid (fragments : List Bytes) : Prop := ∀ fragment ∈ fragments, fragment ≠ []

/-- `n` bytes and what is left, or nothing when the stream ends before. -/
def readExact : ℕ → List Bytes → Option (Bytes × List Bytes)
  | 0, fragments => some ([], fragments)
  | _ + 1, [] => none
  | n + 1, fragment :: fragments =>
      if fragment = [] then none
      else if n + 1 < fragment.length then
        some (fragment.take (n + 1), fragment.drop (n + 1) :: fragments)
      else
        (readExact (n + 1 - fragment.length) fragments).map fun r => (fragment ++ r.1, r.2)

/-- When the stream has the bytes, they are read, and the rest of the stream is the rest of its
bytes. -/
theorem readExact_eq_some {fragments : List Bytes} (h : Solid fragments) {bytes rest : Bytes}
    (heq : fragments.flatten = bytes ++ rest) :
    ∃ left,
    readExact bytes.length fragments = some (bytes, left) ∧ Solid left ∧ left.flatten = rest := by
  induction fragments generalizing bytes with
  | nil =>
      obtain ⟨rfl, rfl⟩ := List.append_eq_nil_iff.mp heq.symm
      exact ⟨[], rfl, h, rfl⟩
  | cons fragment fragments ih =>
      obtain ⟨hfragment, hfragments⟩ := List.forall_mem_cons.mp h
      cases bytes with
      | nil => exact ⟨_, rfl, h, heq⟩
      | cons byte bytes =>
          rw [List.flatten_cons, List.append_eq_append_iff] at heq
          rw [List.length_cons, readExact, if_neg hfragment]
          rcases heq with ⟨more, hbytes, hmore⟩ | ⟨left, rfl, rfl⟩
          · -- the fragment is used up
            obtain ⟨left, hread, hsolid, hleft⟩ := ih hfragments hmore
            have hlength : bytes.length + 1 = fragment.length + more.length := by
              rw [← List.length_cons (a := byte), hbytes, List.length_append]
            rw [if_neg (by omega), hlength, Nat.add_sub_cancel_left, hread]
            exact ⟨left, by rw [hbytes]; rfl, hsolid, hleft⟩
          · by_cases hnone : left = []
            · subst hnone
              rw [List.append_nil, if_neg (by simp), List.length_cons, Nat.sub_self]
              exact ⟨fragments, by simp [readExact], hfragments, rfl⟩
            · have hlong : bytes.length + 1 < (byte :: bytes ++ left).length := by
                have := List.length_pos_iff.mpr hnone
                simp only [List.length_append, List.length_cons]
                omega
              have htake : (byte :: bytes ++ left).take (bytes.length + 1) = byte :: bytes := by
                rw [← List.length_cons (a := byte), List.take_left]
              have hdrop : (byte :: bytes ++ left).drop (bytes.length + 1) = left := by
                rw [← List.length_cons (a := byte), List.drop_left]
              rw [if_pos hlong, htake, hdrop]
              exact ⟨left :: fragments, rfl, List.forall_mem_cons.mpr ⟨hnone, hfragments⟩, rfl⟩

/-! ### Big-endian numbers -/

/-- The last `k` bytes of a number. -/
def beBytes : ℕ → ℕ → Bytes
  | 0, _ => []
  | k + 1, n => beBytes k (n / 256) ++ [UInt8.ofNat n]

/-- The number that bytes spell, the highest first. -/
def beValue (bytes : Bytes) : ℕ := bytes.foldl (fun n byte => 256 * n + byte.toNat) 0

@[simp] theorem length_beBytes (k n : ℕ) : (beBytes k n).length = k := by
  induction k generalizing n with
  | zero => rfl
  | succ k ih => rw [beBytes, List.length_append, ih, List.length_singleton]

/-- A number that fits is spelled by its bytes. -/
theorem beValue_beBytes {k n : ℕ} (h : n < 256 ^ k) : beValue (beBytes k n) = n := by
  induction k generalizing n with
  | zero =>
      have : n = 0 := by simpa using h
      subst this
      rfl
  | succ k ih =>
      have hhigh := ih (n := n / 256) (Nat.div_lt_of_lt_mul (by rwa [Nat.pow_succ'] at h))
      rw [beBytes, beValue, List.foldl_append]
      unfold beValue at hhigh
      rw [hhigh]
      have hlow : (UInt8.ofNat n).toNat = n % 256 := rfl
      simp only [List.foldl_cons, List.foldl_nil, hlow]
      omega

end Fragments
