import NiriBridge.Support.Duplex

/-!
# Support — Exchange

Questions and answers between two parties joined by channels.  A party writes an answer only in the
step that takes a question, and at most one for each question it takes.

* `Linked`: what is on its way has been written.
* `Unanswered q a k d s`: of the questions written to party `s`, at least `k` are neither on their
  way nor answered.  No step makes them fewer (`Unanswered.next`), so the answers never outnumber
  the questions; and a question that is taken without an answer is one more (`Unanswered.drop`).
-/

namespace Duplex

variable {N I M : Type} {d : State N M} {s t : Side} {n : N} {m : Option M} {rest out : List M}

/-- What is on its way has been written. -/
def Linked (d : State N M) : Prop := ∀ s, d.chan s <:+ d.sent s.other

theorem Linked.mem (h : Linked d) {x : M} (hx : x ∈ d.chan s) : x ∈ d.sent s.other := (h s).mem hx

/-- Channels stay parts of what was written. -/
theorem Linked.move (h : Linked d) (hchan : d.chan s = m.toList ++ rest) :
    Linked (d.move s n rest out) := by
  intro t
  rcases Side.eq_or_eq_other t s with rfl | rfl
  · rw [move_chan, move_sent_other]
    exact ((List.suffix_append m.toList rest).trans (hchan ▸ List.suffix_refl _)).trans (h t)
  · rw [move_chan_other, Side.other_other, move_sent]
    have hsuffix := h s.other
    rw [Side.other_other] at hsuffix
    obtain ⟨taken, htaken⟩ := hsuffix
    exact ⟨taken, by rw [← List.append_assoc, htaken]⟩

variable {q a : M → Bool} {k : ℕ}

/-- Of the questions written to party `s`, `k` are neither on their way nor answered. -/
def Unanswered (q a : M → Bool) (k : ℕ) (d : State N M) (s : Side) : Prop :=
  (d.chan s).countP q + (d.sent s).countP a + k ≤ (d.sent s.other).countP q

/-- The party that is asked moves: what it takes and does not answer is left unanswered. -/
theorem Unanswered.drop {j : ℕ} (h : Unanswered q a k d s) (hchan : d.chan s = m.toList ++ rest)
    (hout : out.countP a + j ≤ m.toList.countP q) : Unanswered q a (k + j)
    (d.move s n rest out) s := by
  unfold Unanswered at h ⊢
  rw [hchan, List.countP_append] at h
  rw [move_chan, move_sent, move_sent_other, List.countP_append]
  omega

/-- The party that asks moves: a question it writes is on its way. -/
theorem Unanswered.ask (h : Unanswered q a k d s.other) :
    Unanswered q a k (d.move s n rest out) s.other := by
  unfold Unanswered at h ⊢
  rw [Side.other_other] at h ⊢
  rw [move_chan_other, move_sent, move_sent_other, List.countP_append, List.countP_append]
  omega

/-- A step answers no more than it has been asked. -/
theorem Unanswered.next {step : N → I → Option M → N × List M} (h : Unanswered q a k d s)
    (hstep : ∀ n i m, (step n i m).2.countP a ≤ m.toList.countP q) (l : Label I) :
    Unanswered q a k (Duplex.next step d l) s := by
  rcases next_cases step d l with hsame | ⟨m, rest, -, hchan, hmove⟩
  · rwa [hsame]
  · rw [hmove]
    rcases Side.eq_or_eq_other s l.side with rfl | rfl
    · exact h.drop (j := 0) hchan (hstep _ _ _)
    · exact h.ask

end Duplex
