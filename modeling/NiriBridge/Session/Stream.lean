import NiriBridge.Session.Protocol
import NiriBridge.Support.Before
import Mathlib.Data.List.Range
import Mathlib.Tactic.Basic

/-!
# Session — Stream

The inputs of a session on their way from the party that sends it to the party that receives it.
`Stream x y c log` is about the sessions of `x`: `c` is on its way to `y`, and `log` is everything
that `x` has ever written.

The law is one of conservation: what `y` has passed on of the session it receives, followed by what
is on its way, is what `x` has written.  Nothing is assumed about ends, which may meet a session
they are not about; so the law also holds when a session ends too early.

* `in_step`: the next input of the session received has the number that is expected;
* `is_prefix`: what is passed on of a session is a prefix of what was written for it.
-/

namespace NiriBridge.Session

open Queue

variable {E : Type}

/-- The numbered inputs of session `n` among messages. -/
def inputsOf (n : ℕ) : List (Signal E) → List (ℕ × E)
  | [] => []
  | .input m k event :: signals =>
      if m = n then (k, event) :: inputsOf n signals else inputsOf n signals
  | _ :: signals => inputsOf n signals

/-- The numbered inputs of session `n` among those passed on. -/
def passedOf (n : ℕ) (passed : List (ℕ × ℕ × E)) : List (ℕ × E) :=
  (passed.filter fun p => p.1 = n).map Prod.snd

theorem inputsOf_append (n : ℕ) (l l' : List (Signal E)) :
    inputsOf n (l ++ l') = inputsOf n l ++ inputsOf n l' := by
  induction l with
  | nil => rfl
  | cons signal l ih =>
      cases signal with
      | input m k event =>
          simp only [List.cons_append, inputsOf, ih]
          split_ifs <;> rfl
      | «begin» | «end» => exact ih

theorem passedOf_append (n : ℕ) (l l' : List (ℕ × ℕ × E)) :
    passedOf n (l ++ l') = passedOf n l ++ passedOf n l' := by
  simp [passedOf]

@[simp] theorem passedOf_singleton (n m k : ℕ) (event : E) :
    passedOf n [(m, k, event)] = if m = n then [(k, event)] else [] := by
  by_cases h : m = n <;> simp [passedOf, h]

/-- The inputs of a session. -/
theorem mem_inputsOf {n k : ℕ} {event : E} {l : List (Signal E)} :
    (k, event) ∈ inputsOf n l ↔ .input n k event ∈ l := by
  induction l with
  | nil => simp [inputsOf]
  | cons signal l ih =>
      cases signal with
      | input m j event' =>
          simp only [inputsOf]
          split_ifs with h
          · simp [ih, h]
          · simp [ih, Ne.symm h]
      | «begin» | «end» => simpa [inputsOf] using ih

theorem inputsOf_eq_nil {n : ℕ} {l : List (Signal E)} (h : ∀ k event, .input n k event ∉ l) :
    inputsOf n l = [] := by
  rw [List.eq_nil_iff_forall_not_mem]
  rintro ⟨k, event⟩ hmem
  exact h k event (mem_inputsOf.mp hmem)

/-- The relation between the sessions of `x`, its channel, and the log of what it has written. -/
structure Stream (x y : Party E) (c log : List (Signal E)) : Prop where
  -- the numbers of `x` are fresh
  freshBegin : ∀ n, .begin n ∈ log → n < x.next
  freshInput : ∀ n k event, .input n k event ∈ log → n < x.next
  freshSends : ∀ n k, x.part = .sending n k → n < x.next
  freshReceives : ∀ n k, y.up → y.part = .receiving n k → n < x.next
  sent : ∀ signal ∈ c, signal ∈ log
  -- a session begins once, before its inputs
  once : ∀ n, ¬ Before (.begin n) (.begin n) c
  order : ∀ n k event, ¬ Before (.input n k event) (.begin n) c
  -- the inputs of a session are numbered
  numbered : ∀ n, (inputsOf n log).map Prod.fst = List.range (inputsOf n log).length
  counted : ∀ n k, x.part = .sending n k → k = (inputsOf n log).length
  -- the law, for a session that has not begun, for the one received, and for any
  waiting : ∀ n, .begin n ∈ c → passedOf n y.passed = [] ∧ inputsOf n c = inputsOf n log
  receives : ∀ n k, y.up → y.part = .receiving n k → .begin n ∉ c ∧
    passedOf n y.passed ++ inputsOf n c = inputsOf n log ∧ k = (passedOf n y.passed).length
  is_prefix : ∀ n, passedOf n y.passed <+: inputsOf n log

namespace Stream

variable {x x' y y' : Party E} {c log : List (Signal E)} {n k : ℕ} {own : Bool} {event : E}

/-! ### The sender -/

/-- The sender takes no new session and no new sequence number. -/
theorem sender (h : Stream x y c log) (hnext : x'.next = x.next)
    (hpart : ∀ n k, x'.part = .sending n k → x.part = .sending n k) : Stream x' y c log :=
  { h with
    freshBegin := fun n hn => hnext ▸ h.freshBegin n hn
    freshInput := fun n k event hn => hnext ▸ h.freshInput n k event hn
    freshSends := fun n k hn => hnext ▸ h.freshSends n k (hpart n k hn)
    freshReceives := fun n k hup hn => hnext ▸ h.freshReceives n k hup hn
    counted := fun n k hn => h.counted n k (hpart n k hn) }

/-- An end may be written at any time. -/
theorem «end» (h : Stream x y c log) : Stream x y (c ++ [.end n own]) (log ++ [.end n own]) := by
  have hlog : ∀ m, inputsOf m (log ++ [.end n own]) = inputsOf m log := by
    simp [inputsOf_append, inputsOf]
  have hc : ∀ m, inputsOf m (c ++ [.end n own]) = inputsOf m c := by
    simp [inputsOf_append, inputsOf]
  constructor <;> grind [Stream]

/-- A session may begin under the next number. -/
theorem start (h : Stream x y c log) (hpart : x'.part = .sending x.next 0)
    (hnext : x'.next = x.next + 1) :
    Stream x' y (c ++ [.begin x.next]) (log ++ [.begin x.next]) := by
  have hlog : ∀ m, inputsOf m (log ++ [.begin x.next]) = inputsOf m log := by
    simp [inputsOf_append, inputsOf]
  have hc : ∀ m, inputsOf m (c ++ [.begin x.next]) = inputsOf m c := by
    simp [inputsOf_append, inputsOf]
  have hfresh : inputsOf x.next log = [] := inputsOf_eq_nil fun k event hmem =>
    Nat.lt_irrefl _ (h.freshInput _ _ _ hmem)
  have hfresh' : inputsOf x.next c = [] := inputsOf_eq_nil fun k event hmem =>
    Nat.lt_irrefl _ (h.freshInput _ _ _ (h.sent _ hmem))
  have hpassed : passedOf x.next y.passed = [] :=
    List.prefix_nil.mp (hfresh ▸ h.is_prefix x.next)
  constructor <;> grind [Stream]

/-- The sender may write its next input. -/
theorem write (h : Stream x y c log) (hx : x.part = .sending n k)
    (hpart : x'.part = .sending n (k + 1)) (hnext : x'.next = x.next) :
    Stream x' y (c ++ [.input n k event]) (log ++ [.input n k event]) := by
  have hlog : ∀ m, inputsOf m (log ++ [.input n k event]) =
      inputsOf m log ++ if n = m then [(k, event)] else [] := by
    simp [inputsOf_append, inputsOf]
  have hc : ∀ m, inputsOf m (c ++ [.input n k event]) =
      inputsOf m c ++ if n = m then [(k, event)] else [] := by
    simp [inputsOf_append, inputsOf]
  have hcount := h.counted n k hx
  constructor
  case numbered =>
    intro m
    rw [hlog]
    split_ifs with hm
    · subst hm
      simp [h.numbered, hcount, List.range_succ]
    · simpa using h.numbered m
  case is_prefix =>
    intro m
    rw [hlog]
    exact (h.is_prefix m).trans (List.prefix_append _ _)
  all_goals grind [Stream]

/-! ### The receiver -/

/-- The next input of the session received has the number that is expected. -/
theorem in_step {j : ℕ} (h : Stream x y (.input n k event :: c) log) (hup : y.up)
    (hy : y.part = .receiving n j) : k = j := by
  obtain ⟨-, hlaw, hj⟩ := h.receives n j hup hy
  have hnumbers := h.numbered n
  rw [← hlaw] at hnumbers
  have hnumber := congrArg (fun l : List ℕ => l[(passedOf n y.passed).length]?) hnumbers
  simpa [inputsOf, hj, eq_comm] using hnumber

/-- The receiver stops receiving, if it does, and passes nothing on. -/
theorem receiver (h : Stream x y c log) (hpassed : y'.passed = y.passed)
    (hpart : ∀ n k, y'.up → y'.part = .receiving n k → y.up ∧ y.part = .receiving n k) :
    Stream x y' c log :=
  { h with
    freshReceives := fun n k hup hn =>
      h.freshReceives n k (hpart n k hup hn).1 (hpart n k hup hn).2
    waiting := hpassed ▸ h.waiting
    receives := fun n k hup hn => by
      rw [hpassed]
      exact h.receives n k (hpart n k hup hn).1 (hpart n k hup hn).2
    is_prefix := hpassed ▸ h.is_prefix }

/-- A message that is not an input of the session received is lost. -/
theorem lose {signal : Signal E} (h : Stream x y (signal :: c) log)
    (hsignal : ∀ n j k event, y.up → y.part = .receiving n j → signal ≠ .input n k event) :
    Stream x y c log := by
  cases signal with
  | «begin» n | «end» n => constructor <;> grind [Stream, inputsOf]
  | input n k event => constructor <;> grind [Stream, inputsOf]

theorem accept (h : Stream x y (.begin n :: c) log) (hpart : y'.part = .receiving n 0)
    (hpassed : y'.passed = y.passed) : Stream x y' c log := by
  constructor <;> grind [Stream, inputsOf]

/-- The receiver may pass the next input on. -/
theorem pass (h : Stream x y (.input n k event :: c) log) (hup : y.up)
    (hy : y.part = .receiving n k) (hpart : y'.part = .receiving n (k + 1))
    (hpassed : y'.passed = y.passed ++ [(n, k, event)]) : Stream x y' c log := by
  have happend : ∀ m, passedOf m y'.passed =
      passedOf m y.passed ++ if n = m then [(k, event)] else [] := by
    simp [hpassed, passedOf_append]
  have hlaw : passedOf n y'.passed ++ inputsOf n c = inputsOf n log := by
    rw [happend, ← (h.receives n k hup hy).2.1]
    simp [inputsOf]
  constructor
  case is_prefix =>
    intro m
    by_cases hm : n = m
    · subst hm
      exact ⟨_, hlaw⟩
    · simpa [happend, hm] using h.is_prefix m
  all_goals grind [Stream, inputsOf]

/-! ### Passes -/

/-- The sender may say farewell. -/
theorem sender_farewell (h : Stream x y c log) :
    Stream x.retired y (c ++ x.farewell) (log ++ x.farewell) := by
  have hretired : Stream x.retired y c log := h.sender rfl (by intros; contradiction)
  unfold Party.farewell
  split
  · simpa using hretired
  · exact hretired.end
  · exact hretired.end

/-- A move of the sender keeps the stream. -/
theorem sender_move {w : List (Signal E)} (h : Stream x y c log) (hm : Move x x' w) :
    Stream x' y (c ++ w) (log ++ w) := by
  cases hm with
  | start hup hpart => exact h.start rfl rfl
  | write hup hpart => exact h.write hpart rfl rfl
  | leave hup => exact h.sender_farewell
  | fail hup =>
      have hfail : Stream x.failed y c log := h.sender rfl fun _ _ => id
      simpa using hfail

/-- A message that the sender takes keeps the stream. -/
theorem sender_take {signal : Signal E} {w : List (Signal E)} (h : Stream x y c log)
    (ht : Take x signal x' w) : Stream x' y (c ++ w) (log ++ w) := by
  have hretired : Stream x.retired y c log := h.sender rfl (by intros; contradiction)
  cases ht with
  | refuse => exact h.end
  | interrupt => exact hretired.end
  | accept | pass =>
      simp only [List.append_nil]
      exact h.sender rfl (by simp)
  | close => simpa using hretired
  | skip | ignore => simpa using h
  | lost =>
      simp only [List.append_nil]
      exact h.sender rfl fun _ _ => id

/-- The law survives a pass of the sender. -/
theorem sender_pass {t w : List (Signal E)} (h : Stream x y c log) (hpass : Pass x t x' w) :
    Stream x' y (c ++ w) (log ++ w) := by
  induction hpass with
  | start => simpa using h
  | take _ ht => exact h.sender_take ht
  | move _ hm ih =>
      rw [← List.append_assoc, ← List.append_assoc]
      exact ih.sender_move hm

/-- A move of the receiver keeps the stream. -/
theorem receiver_move {w : List (Signal E)} (h : Stream x y c log) (hm : Move y y' w) :
    Stream x y' c log := by
  cases hm with
  | start => exact h.receiver rfl (by simp)
  | write => exact h.receiver rfl (by simp)
  | leave => exact h.receiver rfl (by intros; contradiction)
  | fail => exact h.receiver rfl (by intros; contradiction)

/-- A message that the receiver takes keeps the stream. -/
theorem receiver_take {signal : Signal E} {w : List (Signal E)}
    (h : Stream x y (signal :: c) log) (hup : y.up) (ht : Take y signal y' w) :
    Stream x y' c log := by
  cases ht with
  | accept hpart => exact h.accept rfl rfl
  | pass hpart => exact h.pass hup hpart rfl rfl
  | refuse | ignore => exact h.lose (by simp)
  | close => exact (h.lose nofun).receiver rfl nofun
  | skip hserves =>
      refine h.lose fun m j k event _ hpart heq => hserves ?_
      cases heq
      simp [Party.serves, hpart]
  | interrupt =>
      have hretired : Stream x y.retired (_ :: c) log := h.receiver rfl (by intros; contradiction)
      exact hretired.lose (by intros; contradiction)
  | lost =>
      have hfailed : Stream x y.failed (_ :: c) log := h.receiver rfl (by intros; contradiction)
      exact hfailed.lose (by intros; contradiction)

/-- The law survives a pass of the receiver. -/
theorem receiver_pass {t w rest : List (Signal E)} (h : Stream x y (t ++ rest) log)
    (hpass : Pass y t y' w) : Stream x y' rest log := by
  induction hpass with
  | start => exact h
  | take hup ht => exact h.receiver_take hup ht
  | move _ hm ih => exact (ih h).receiver_move hm

/-- A party that takes no part loses its messages. -/
theorem lost {signal : Signal E} (h : Stream x y (signal :: c) log) (hup : y.up = false) :
    Stream x y c log := h.lose fun _ _ _ _ hup' => absurd (hup.symm.trans hup') (by simp)

end Stream

end NiriBridge.Session
