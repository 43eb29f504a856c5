import Mathlib.Data.List.Basic

/-!
# Session — Protocol

Sessions between two parties, as the coordinators use them and with everything else left out.  A
party numbers the sessions it starts; while it sends, it numbers the inputs of the session.  An end
is written to end a session of one's own, to end a session of the peer, and to refuse one: `own`
says which, and no party reads it.

`Move` is what a party may do by itself, `Take` what it does with a message, and a `Pass` is at most
one message followed by moves: what one pass of a coordinator's loop may do.
-/

namespace NiriBridge.Session

variable {E : Type}

/-- The messages that sessions are made of. -/
inductive Signal (E : Type) where
  | «begin» (session : ℕ)
  | input (session sequence : ℕ) (event : E)
  | «end» (session : ℕ) (own : Bool)

/-- The part a party plays; `sequence` and `expected` number the next input. -/
inductive Part where
  | idle
  | sending (session sequence : ℕ)
  | receiving (session expected : ℕ)

/-- A device as far as the sessions are concerned. -/
structure Party (E : Type) where
  part : Part
  /-- The number of the next session of its own. -/
  next : ℕ
  /-- Every input it has passed on. -/
  passed : List (ℕ × ℕ × E)
  /-- It still takes part. -/
  up : Bool

namespace Party

/-- The session of its own that it is sending. -/
def sends (p : Party E) : Option ℕ :=
  match p.part with
  | .sending session _ => some session
  | _ => none

/-- The session of the peer that it is receiving. -/
def serves (p : Party E) : Option ℕ :=
  match p.part with
  | .receiving session _ => some session
  | _ => none

/-- The end of its session, if it has one. -/
def farewell (p : Party E) : List (Signal E) :=
  match p.part with
  | .idle => []
  | .sending session _ => [.end session true]
  | .receiving session _ => [.end session false]

/-- The party without a session. -/
def retired (p : Party E) : Party E := { p with part := .idle }

/-- A party that has failed takes no further part. -/
def failed (p : Party E) : Party E := { p with up := false }

end Party

/-- What a party does by itself, with what it writes. -/
inductive Move (p : Party E) : Party E → List (Signal E) → Prop where
  | start (hup : p.up = true) (h : p.part = .idle) :
      Move p { p with part := .sending p.next 0, next := p.next + 1 } [.begin p.next]
  | write {n k : ℕ} (hup : p.up = true) (h : p.part = .sending n k) (event : E) :
      Move p { p with part := .sending n (k + 1) } [.input n k event]
  | leave (hup : p.up = true) : Move p p.retired p.farewell
  | fail (hup : p.up = true) : Move p p.failed []

/-- What a party does with a message. -/
inductive Take (p : Party E) : Signal E → Party E → List (Signal E) → Prop where
  | accept {n : ℕ} (h : p.part = .idle) : Take p (.begin n) { p with part := .receiving n 0 } []
  | refuse {n : ℕ} (h : p.serves = none) : Take p (.begin n) p [.end n false]
  | pass {n k : ℕ} {event : E} (h : p.part = .receiving n k) : Take p (.input n k event)
      { p with part := .receiving n (k + 1), passed := p.passed ++ [(n, k, event)] } []
  | skip {n k : ℕ} {event : E} (h : p.serves ≠ some n) : Take p (.input n k event) p []
  | interrupt {n k : ℕ} {event : E} (h : p.serves = some n) :
      Take p (.input n k event) p.retired [.end n false]
  | close {n : ℕ} {own : Bool} (h : p.sends = some n ∨ p.serves = some n) :
      Take p (.end n own) p.retired []
  | ignore {n : ℕ} {own : Bool} (hs : p.sends ≠ some n) (hr : p.serves ≠ some n) :
      Take p (.end n own) p []
  | lost (signal : Signal E) : Take p signal p.failed []

/-- A message, if there is one, and then moves. -/
inductive Pass (p₀ : Party E) : List (Signal E) → Party E → List (Signal E) → Prop where
  | start : Pass p₀ [] p₀ []
  | take {signal : Signal E} {p : Party E} {w : List (Signal E)} (hup : p₀.up = true)
      (h : Take p₀ signal p w) : Pass p₀ [signal] p w
  | move {t w w' : List (Signal E)} {p q : Party E} (h : Pass p₀ t p w) (hm : Move p q w') :
      Pass p₀ t q (w ++ w')

/-! ### Numbers -/

/-- The session that the party sends has one of the numbers it has given. -/
def Party.Numbered (p : Party E) : Prop := ∀ n, p.sends = some n → n < p.next

section Numbers

variable {p₀ p : Party E} {t w : List (Signal E)} {signal : Signal E}

/-- A move numbers its sessions. -/
theorem Move.numbered (h : p₀.Numbered) (hm : Move p₀ p w) : p.Numbered ∧ p₀.next ≤ p.next := by
  cases hm with
  | start hup hpart =>
      refine ⟨fun n hs => ?_, Nat.le_succ _⟩
      rw [← Option.some.inj hs]
      exact Nat.lt_succ_self _
  | @write m k hup hpart event =>
      refine ⟨fun n hs => h n ?_, Nat.le_refl _⟩
      rw [← hs, Party.sends, hpart]
      rfl
  | leave hup => exact ⟨nofun, Nat.le_refl _⟩
  | fail hup => exact ⟨h, Nat.le_refl _⟩

/-- A party that takes a message numbers its sessions. -/
theorem Take.numbered (h : p₀.Numbered) (ht : Take p₀ signal p w) :
    p.Numbered ∧ p₀.next ≤ p.next := by
  cases ht with
  | accept | pass | interrupt | close => exact ⟨nofun, Nat.le_refl _⟩
  | refuse | skip | ignore | lost => exact ⟨h, Nat.le_refl _⟩

/-- A pass numbers its sessions. -/
theorem Pass.numbered (h : p₀.Numbered) (hpass : Pass p₀ t p w) :
    p.Numbered ∧ p₀.next ≤ p.next := by
  induction hpass with
  | start => exact ⟨h, Nat.le_refl _⟩
  | take _ ht => exact ht.numbered h
  | move _ hm ih =>
      obtain ⟨hnumbered, hle⟩ := hm.numbered ih.1
      exact ⟨hnumbered, Nat.le_trans ih.2 hle⟩

end Numbers

/-! ### Sessions of one's own -/

section Own

variable {p₀ p : Party E} {t w : List (Signal E)} {signal : Signal E} {n : ℕ}

/-- A move begins its own sessions, and ends those it sends. -/
theorem Move.own (hm : Move p₀ p w) : (p.sends = some n → p₀.sends = some n ∨ .begin n ∈ w) ∧
    (.end n true ∈ w → p₀.sends = some n) := by
  cases hm with
  | start hup hpart =>
      refine ⟨fun hs => .inr ?_, fun h => by simp at h⟩
      rw [← Option.some.inj hs]
      exact List.mem_cons_self
  | write hup hpart event =>
      refine ⟨fun hs => .inl ?_, fun h => by simp at h⟩
      rw [← hs, Party.sends, hpart]
      rfl
  | leave hup =>
      refine ⟨by rintro ⟨⟩, fun h => ?_⟩
      cases hpart : p₀.part with
      | idle => simp [Party.farewell, hpart] at h
      | sending m k =>
          obtain rfl : n = m := by simpa [Party.farewell, hpart] using h
          simp [Party.sends, hpart]
      | receiving m k => simp [Party.farewell, hpart] at h
  | fail hup => exact ⟨.inl, fun h => absurd h List.not_mem_nil⟩

/-- A party that takes a message begins no session, and ends none of its own. -/
theorem Take.own (ht : Take p₀ signal p w) : (p.sends = some n → p₀.sends = some n) ∧
    .end n true ∉ w := by
  cases ht with
  | accept | pass | close => exact ⟨by rintro ⟨⟩, List.not_mem_nil⟩
  | interrupt => exact ⟨by rintro ⟨⟩, by simp⟩
  | refuse => exact ⟨id, by simp⟩
  | skip | ignore | lost => exact ⟨id, List.not_mem_nil⟩

/-- The session that a party sends or ends in a pass is one it has sent before, or has begun in
it. -/
theorem Pass.own (hpass : Pass p₀ t p w) : (p.sends = some n → p₀.sends = some n ∨ .begin n ∈ w) ∧
    (.end n true ∈ w → p₀.sends = some n ∨ .begin n ∈ w) := by
  induction hpass with
  | start => exact ⟨.inl, fun h => absurd h List.not_mem_nil⟩
  | take _ ht => exact ⟨fun hs => .inl (ht.own.1 hs), fun h => absurd h ht.own.2⟩
  | move _ hm ih =>
      simp only [List.mem_append]
      refine ⟨fun hs => ?_, fun h => ?_⟩
      · rcases hm.own.1 hs with hs | hbegin
        · exact (ih.1 hs).imp_right .inl
        · exact .inr (.inr hbegin)
      · rcases h with h | h
        · exact (ih.2 h).imp_right .inl
        · exact (ih.1 (hm.own.2 h)).imp_right .inl

/-- The inputs of a pass are of a session that the party has sent before, or has begun in it. -/
theorem Pass.inputs {k : ℕ} {event : E} (hpass : Pass p₀ t p w) (h : .input n k event ∈ w) :
    p₀.sends = some n ∨ .begin n ∈ w := by
  induction hpass with
  | start => exact absurd h List.not_mem_nil
  | take _ ht => cases ht <;> simp at h
  | @move t w w' p q hp hm ih =>
      rw [List.mem_append] at h ⊢
      rcases h with h | h
      · exact (ih h).imp_right .inl
      · have hsends : p.sends = some n := by
          cases hm with
          | start | fail => simp at h
          | write hup hpart event =>
              obtain ⟨rfl, -, -⟩ : n = _ ∧ k = _ ∧ _ = event := by simpa using h
              rw [Party.sends, hpart]
          | leave hup =>
              unfold Party.farewell at h
              split at h <;> simp at h
        exact (hp.own.1 hsends).imp_right .inl

end Own

/-! ### Sessions that are over -/

/-- The party has had this session of its own. -/
structure Party.Over (p : Party E) (n : ℕ) : Prop where
  next : n < p.next
  sends : p.sends ≠ some n

namespace Party.Over

variable {p₀ p : Party E} {n : ℕ} {t w : List (Signal E)} {signal : Signal E}

theorem retired (h : p.Over n) : p.retired.Over n := ⟨h.next, by rintro ⟨⟩⟩

/-- A session that is over stays over, and has no more inputs. -/
theorem move (h : p₀.Over n) (hm : Move p₀ p w) : p.Over n ∧ ∀ k event, .input n k event ∉ w := by
  cases hm with
  | start hup hpart =>
      refine ⟨⟨Nat.lt_succ_of_lt h.next, fun hs => ?_⟩, fun _ _ => by simp⟩
      exact absurd (Option.some.inj hs) (Nat.ne_of_gt h.next)
  | @write m k hup hpart event =>
      have hm : m ≠ n := by
        rintro rfl
        exact h.sends (by rw [Party.sends, hpart])
      refine ⟨⟨h.next, fun hs => hm (Option.some.inj hs)⟩, fun k' event' hmem => ?_⟩
      rw [List.mem_singleton] at hmem
      injection hmem with hn
      exact hm hn.symm
  | leave hup =>
      refine ⟨h.retired, fun k event => ?_⟩
      unfold farewell
      split <;> simp
  | fail hup => exact ⟨⟨h.next, h.sends⟩, fun _ _ => List.not_mem_nil⟩

/-- So it does when the party takes a message. -/
theorem take (h : p₀.Over n) (ht : Take p₀ signal p w) :
    p.Over n ∧ ∀ k event, .input n k event ∉ w := by
  cases ht with
  | accept | pass => exact ⟨⟨h.next, by rintro ⟨⟩⟩, fun _ _ => List.not_mem_nil⟩
  | refuse => exact ⟨h, fun _ _ => by simp⟩
  | interrupt => exact ⟨h.retired, fun _ _ => by simp⟩
  | close => exact ⟨h.retired, fun _ _ => List.not_mem_nil⟩
  | skip | ignore => exact ⟨h, fun _ _ => List.not_mem_nil⟩
  | lost => exact ⟨⟨h.next, h.sends⟩, fun _ _ => List.not_mem_nil⟩

/-- **A session that is over has no more inputs.** -/
theorem pass (h : p₀.Over n) (hpass : Pass p₀ t p w) :
    p.Over n ∧ ∀ k event, .input n k event ∉ w := by
  induction hpass with
  | start => exact ⟨h, fun _ _ => List.not_mem_nil⟩
  | take _ ht => exact h.take ht
  | move _ hm ih =>
      obtain ⟨hover, hw'⟩ := ih.1.move hm
      exact ⟨hover, fun k event hmem => (List.mem_append.mp hmem).elim (ih.2 k event) (hw' k event)⟩

end Party.Over

end NiriBridge.Session
