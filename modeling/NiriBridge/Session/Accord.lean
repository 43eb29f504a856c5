import NiriBridge.Session.Protocol
import NiriBridge.Support.Before
import Mathlib.Tactic.Basic

/-!
# Session — Accord

What holds between two parties and the messages between them while every end reaches the session it
is about.  `Accord x y c ch` is about the sessions of `x`: `c` is on its way to `y`, `ch` on its way
to `x`.

The numbers of the two parties overlap, and an end carries nothing else.  `Permitted` is what keeps
the two apart: no party starts a session while an end with its number is on its way to it, and no
party ends a session of its own while a begin with its number is on its way to it.  Under it
`Accord` survives every pass, and from it follow

* `about`: an end that finds a session with its number was sent about that session;
* `no_overlap`: no begin finds a session still being received;
* `quiet`: with no message on its way, one party sends exactly what the other receives.
-/

namespace NiriBridge.Session

open Queue

variable {E : Type}

/-- What is written does not meet a message with its number on its way to the writer. -/
def Permitted (ch w : List (Signal E)) : Prop :=
  ∀ n, (.begin n ∈ w → ∀ own, .end n own ∉ ch) ∧ (.end n true ∈ w → .begin n ∉ ch)

/-- What comes first is permitted. -/
theorem Permitted.left {ch w w' : List (Signal E)} (h : Permitted ch (w ++ w')) : Permitted ch w :=
  fun n =>
    ⟨fun hn => (h n).1 (List.mem_append_left _ hn), fun hn => (h n).2 (List.mem_append_left _ hn)⟩

/-- What comes after it is permitted. -/
theorem Permitted.right {ch w w' : List (Signal E)} (h : Permitted ch (w ++ w')) :
    Permitted ch w' :=
  fun n => ⟨fun hn => (h n).1 (List.mem_append_right _ hn),
    fun hn => (h n).2 (List.mem_append_right _ hn)⟩

/-- The relation between the sessions of `x` and the two channels. -/
structure Accord (x y : Party E) (c ch : List (Signal E)) : Prop where
  -- the numbers of `x` are fresh
  freshBegin : ∀ n, .begin n ∈ c → n < x.next
  freshEnd : ∀ n, .end n true ∈ c → n < x.next
  freshAnswer : ∀ n, .end n false ∈ ch → n < x.next
  freshSends : ∀ n, x.sends = some n → n < x.next
  freshServes : ∀ n, y.up → y.serves = some n → n < x.next
  single : x.sends = none ∨ x.serves = none
  -- every message about a session is written once, and a begin before its end
  onceBegin : ∀ n, ¬ Before (.begin n) (.begin n) c
  onceEnd : ∀ n, ¬ Before (.end n true) (.end n true) c
  onceAnswer : ∀ n, ¬ Before (.end n false) (.end n false) ch
  order : ∀ n, ¬ Before (.end n true) (.begin n) c
  -- a session that `y` has not seen the end of goes on, or its end is on its way
  opened : ∀ n, .begin n ∈ c → x.sends = some n ∨ .end n true ∈ c
  served : ∀ n, y.up → y.serves = some n → x.sends = some n ∨ .end n true ∈ c
  /-- A session that `x` sends is received, or will be, or `y` has answered. -/
  accounted : ∀ n, x.up → y.up → x.sends = some n →
    .begin n ∈ c ∨ y.serves = some n ∨ .end n false ∈ ch
  running : ∀ n, x.sends = some n → .end n true ∉ c
  answered : ∀ n, .end n false ∈ ch → .begin n ∉ c ∧ (y.up → y.serves ≠ some n)
  begun : ∀ n, y.up → y.serves = some n → .begin n ∉ c
  -- one session after the other
  endFirst : ∀ r m, y.up → y.serves = some r → .begin m ∈ c → Before (.end r true) (.begin m) c
  endBetween : ∀ r m, Before (.begin r) (.begin m) c → Before (.end r true) (.begin m) c
  -- sessions of both parties with one number
  crossBegin : ∀ n, .end n true ∈ c → .begin n ∉ ch
  crossServes : ∀ n, x.up → .end n true ∈ c → x.serves ≠ some n
  crossAnswer : ∀ n, x.up → Before (.begin n) (.end n false) ch → x.sends = some n
  crossReceives : ∀ n, x.up → x.serves = some n → .end n false ∉ ch
  crossEnd : ∀ n, x.up → x.sends = some n → .end n true ∈ ch →
    Before (.end n false) (.end n true) ch

/-- `Accord` about the sessions of both. -/
structure Accords (x y : Party E) (c ch : List (Signal E)) : Prop where
  left : Accord x y c ch
  right : Accord y x ch c

variable {x x' y : Party E} {c ch : List (Signal E)} {n k : ℕ} {own : Bool} {event : E}

/-- The party is the same but for its session. -/
structure Party.Becomes (x x' : Party E) (sends serves : Option ℕ) : Prop where
  next : x'.next = x.next
  up : x'.up = x.up
  sends : x'.sends = sends
  serves : x'.serves = serves

theorem Party.Becomes.refl (x : Party E) : x.Becomes x x.sends x.serves := ⟨rfl, rfl, rfl, rfl⟩

theorem Party.becomes_retired (x : Party E) : x.Becomes x.retired none none := ⟨rfl, rfl, rfl, rfl⟩

namespace Accords

/-! ### Moves -/

theorem start (h : Accords x y c ch) (hs : x.sends = none) (hv : x.serves = none)
    (hnext : x'.next = x.next + 1) (hup : x'.up = x.up) (hs' : x'.sends = some x.next)
    (hv' : x'.serves = none) (hp : ∀ own, .end x.next own ∉ ch) :
    Accords x' y (c ++ [.begin x.next]) ch := by
  refine ⟨?_, ?_⟩
  · have hl := h.left
    constructor <;> grind -linarith [Accord]
  · have hr := h.right
    constructor <;> grind -linarith [Accord]

theorem write (h : Accords x y c ch) (hx : x.Becomes x' x.sends x.serves) :
    Accords x' y (c ++ [.input n k event]) ch := by
  obtain ⟨hnext, hup, hs, hv⟩ := hx
  refine ⟨?_, ?_⟩
  · have hl := h.left
    constructor <;> grind -linarith [Accord]
  · have hr := h.right
    constructor <;> grind -linarith [Accord]

/-- A party ends a session of its own. -/
theorem leave (h : Accords x y c ch) (hup : x.up) (hs : x.sends = some n)
    (hx : x.Becomes x' none none) (hp : .begin n ∉ ch) : Accords x' y (c ++ [.end n true]) ch := by
  obtain ⟨hnext, hup', hs', hv'⟩ := hx
  have hsingle := h.left.single
  refine ⟨?_, ?_⟩
  · have hl := h.left
    constructor <;> grind -linarith [Accord]
  · have hr := h.right
    constructor <;> grind -linarith [Accord]

/-- A party ends a session of its peer. -/
theorem dismiss (h : Accords x y c ch) (hup : x.up) (hv : x.serves = some n)
    (hx : x.Becomes x' none none) : Accords x' y (c ++ [.end n false]) ch := by
  obtain ⟨hnext, hup', hs', hv'⟩ := hx
  refine ⟨?_, ?_⟩
  · have hl := h.left
    constructor <;> grind -linarith [Accord]
  · have hr := h.right
    constructor <;> grind -linarith [Accord]

theorem fail (h : Accords x y c ch) (hnext : x'.next = x.next) (hup : x'.up = false)
    (hs : x'.sends = x.sends) (hv : x'.serves = x.serves) : Accords x' y c ch := by
  refine ⟨?_, ?_⟩
  · have hl := h.left
    constructor <;> grind -linarith [Accord]
  · have hr := h.right
    constructor <;> grind -linarith [Accord]

/-! ### Messages -/

theorem accept (h : Accords x y c (.begin n :: ch)) (hup : x.up) (hs : x.sends = none)
    (hv : x.serves = none) (hx : x.Becomes x' none (some n)) : Accords x' y c ch := by
  obtain ⟨hnext, hup', hs', hv'⟩ := hx
  refine ⟨?_, ?_⟩
  · have hl := h.left
    constructor <;> grind -linarith [Accord]
  · have hr := h.right
    constructor <;> grind -linarith [Accord]

theorem refuse (h : Accords x y c (.begin n :: ch)) (hup : x.up) (hv : x.serves = none) :
    Accords x y (c ++ [.end n false]) ch := by
  refine ⟨?_, ?_⟩
  · have hl := h.left
    constructor <;> grind -linarith [Accord]
  · have hr := h.right
    constructor <;> grind -linarith [Accord]

/-- An input changes nothing about who serves whom. -/
theorem skip (h : Accords x y c (.input n k event :: ch)) (hx : x.Becomes x' x.sends x.serves) :
    Accords x' y c ch := by
  obtain ⟨hnext, hup, hs, hv⟩ := hx
  refine ⟨?_, ?_⟩
  · have hl := h.left
    constructor <;> grind -linarith [Accord]
  · have hr := h.right
    constructor <;> grind -linarith [Accord]

/-- The end of another session is ignored. -/
theorem ignore (h : Accords x y c (.end n own :: ch)) (hup : x.up) (hs : x.sends ≠ some n)
    (hv : x.serves ≠ some n) : Accords x y c ch := by
  refine ⟨?_, ?_⟩
  · have hl := h.left
    constructor <;> grind -linarith [Accord]
  · have hr := h.right
    constructor <;> grind -linarith [Accord]

/-- An end that finds a session of the party itself has been sent by the peer about it. -/
theorem about_sends (h : Accords x y c (.end n own :: ch)) (hup : x.up) (hs : x.sends = some n) :
    own = false := by
  by_contra hown
  obtain rfl : own = true := by simpa using hown
  -- the answer would have to come before the end of the peer's own session
  have hfirst := h.left.crossEnd n hup hs List.mem_cons_self
  have honce := h.right.onceEnd n
  grind

/-- An end that finds a session of the peer is the peer's. -/
theorem about_serves (h : Accords x y c (.end n own :: ch)) (hup : x.up) (hv : x.serves = some n) :
    own = true := by
  by_contra hown
  obtain rfl : own = false := by simpa using hown
  exact h.left.crossReceives n hup hv List.mem_cons_self

/-- The end of the session that is sent closes it. -/
theorem close_sends (h : Accords x y c (.end n own :: ch)) (hup : x.up) (hs : x.sends = some n)
    (hx : x.Becomes x' none none) : Accords x' y c ch := by
  obtain rfl := h.about_sends hup hs
  obtain ⟨hnext, hup', hs', hv'⟩ := hx
  have hsingle := h.left.single
  refine ⟨?_, ?_⟩
  · have hl := h.left
    constructor <;> grind -linarith [Accord]
  · have hr := h.right
    constructor <;> grind -linarith [Accord]

/-- The end of the session that is served closes it. -/
theorem close_serves (h : Accords x y c (.end n own :: ch)) (hup : x.up) (hv : x.serves = some n)
    (hx : x.Becomes x' none none) : Accords x' y c ch := by
  obtain rfl := h.about_serves hup hv
  obtain ⟨hnext, hup', hs', hv'⟩ := hx
  refine ⟨?_, ?_⟩
  · have hl := h.left
    constructor <;> grind -linarith [Accord]
  · have hr := h.right
    constructor <;> grind -linarith [Accord]

/-- A party that takes no part loses its messages. -/
theorem lose {signal : Signal E} (h : Accords x y c (signal :: ch)) (hup : x.up = false) :
    Accords x y c ch := by
  refine ⟨?_, ?_⟩
  · have hl := h.left
    constructor <;> grind -linarith [Accord]
  · have hr := h.right
    constructor <;> grind -linarith [Accord]

/-! ### Passes -/

/-- A move of a party keeps the accord. -/
theorem move {w : List (Signal E)} (h : Accords x y c ch) (hm : Move x x' w)
    (hp : Permitted ch w) : Accords x' y (c ++ w) ch := by
  cases hm with
  | start hup hpart =>
      refine h.start ?_ ?_ rfl rfl rfl rfl ((hp _).1 List.mem_cons_self)
      · simp [Party.sends, hpart]
      · simp [Party.serves, hpart]
  | write hup hpart =>
      refine h.write ⟨rfl, rfl, ?_, ?_⟩
      · simp [Party.sends, hpart]
      · simp [Party.serves, hpart]
  | leave hup =>
      cases hpart : x.part with
      | idle =>
          have hsame : x.retired = x := by rw [Party.retired, ← hpart]
          simpa [Party.farewell, hpart, hsame] using h
      | sending n k =>
          rw [Party.farewell, hpart] at hp ⊢
          refine h.leave hup ?_ x.becomes_retired ((hp n).2 List.mem_cons_self)
          simp [Party.sends, hpart]
      | receiving n k =>
          rw [Party.farewell, hpart]
          refine h.dismiss hup ?_ x.becomes_retired
          simp [Party.serves, hpart]
  | fail hup =>
      have hfail : Accords x.failed y c ch := h.fail rfl rfl rfl rfl
      simpa using hfail

/-- A party that takes a message keeps the accord. -/
theorem take {signal : Signal E} {w : List (Signal E)} (h : Accords x y c (signal :: ch))
    (hup : x.up) (ht : Take x signal x' w) : Accords x' y (c ++ w) ch := by
  cases ht with
  | accept hpart =>
      rw [List.append_nil]
      refine h.accept hup ?_ ?_ ⟨rfl, rfl, rfl, rfl⟩
      · simp [Party.sends, hpart]
      · simp [Party.serves, hpart]
  | refuse hserves => exact h.refuse hup hserves
  | pass hpart =>
      rw [List.append_nil]
      refine h.skip ⟨rfl, rfl, ?_, ?_⟩
      · simp [Party.sends, hpart]
      · simp [Party.serves, hpart]
  | skip hserves => simpa using h.skip (.refl x)
  | interrupt hserves =>
      have hskip : Accords x y c ch := h.skip (.refl x)
      exact hskip.dismiss hup hserves x.becomes_retired
  | close hsession =>
      rcases hsession with hs | hv
      · simpa using h.close_sends hup hs x.becomes_retired
      · simpa using h.close_serves hup hv x.becomes_retired
  | ignore hs hv => simpa using h.ignore hup hs hv
  | lost =>
      have hfail : Accords x.failed y c (signal :: ch) := h.fail rfl rfl rfl rfl
      simpa using hfail.lose rfl

/-- The invariant survives a pass that is permitted. -/
theorem pass {t w rest : List (Signal E)} (h : Accords x y c (t ++ rest)) (hpass : Pass x t x' w)
    (hp : Permitted rest w) : Accords x' y (c ++ w) rest := by
  induction hpass with
  | start => simpa using h
  | take hup ht => exact h.take hup ht
  | move _ hm ih =>
      rw [← List.append_assoc]
      exact (ih h hp.left).move hm hp.right

/-! ### What follows -/

/-- An end that finds a session was sent about it. -/
theorem about (h : Accords x y c (.end n own :: ch)) (hup : x.up) :
    (x.sends = some n → own = false) ∧ (x.serves = some n → own = true) :=
  ⟨h.about_sends hup, h.about_serves hup⟩

/-- No begin finds a session of the peer still being received. -/
theorem no_overlap (h : Accords x y c (.begin n :: ch)) (hup : x.up) : x.serves = none := by
  cases hv : x.serves with
  | none => rfl
  | some r =>
      have hfirst := h.right.endFirst r n hup hv List.mem_cons_self
      have honce := h.right.onceBegin n
      grind

/-- With no message on its way, one party sends what the other receives. -/
theorem quiet (h : Accords x y [] []) (hx : x.up) (hy : y.up) :
    x.sends = some n ↔ y.serves = some n := by
  constructor
  · intro hs
    simpa using h.left.accounted n hx hy hs
  · intro hv
    simpa using h.left.served n hy hv

end Accords

end NiriBridge.Session
