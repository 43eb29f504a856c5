import NiriBridge.Receiver.Held

/-!
# Receiver — Clearing

What the calls of a receiver leave to be released, and how they fail.  A call that returns leaves
nothing waiting (`Cleared`), and its errors are the backend's or have nothing to do with placements
and edges (`Allowed`); `position_on` as well, if nothing waits and no session has passed input on.
-/

namespace NiriBridge

open Hoare

/-- `position_on` has refused a placement. -/
def placementRefused : Error := ["Release active input before changing pointer output"]

/-- The errors about the edge of a session. -/
def edgeErrors : List Error :=
  [["Capture edge is no longer available"], ["Capture selected an unknown edge"],
    ["Unknown return edge"], ["Return edge is unavailable"]]

/-- An error of the backend, or one of neither kind, or one about edges that `fault` explains. -/
def Receiver.Allowed (B : Type) [InputSink B] (fault : Prop) (e : Error) : Prop :=
  BackendError B e ∨ e ∉ placementRefused :: edgeErrors ∨ fault ∧ e ∈ edgeErrors

namespace Receiver

variable {B : Type} [InputSink B] {fault : Prop} {e : Error} {r : Receiver B}

/-- An error of a list that excludes these is allowed. -/
theorem allowed_of_mem {errors : List Error} (h : e ∈ errors)
    (hapart : ∀ e ∈ errors, e ∉ placementRefused :: edgeErrors) : Allowed B fault e :=
  .inr (.inl (hapart e h))

theorem allowed_ensure {c : Prop} [Decidable c] {message : String} (h : ensure c message = .error e)
    (hm : [message] ∉ placementRefused :: edgeErrors) : Allowed B fault e :=
  .inr (.inl ((ensure_eq_error.mp h).2 ▸ hm))

/-- Nothing waits to be released. -/
structure Cleared (r : Receiver B) : Prop where
  inv : r.Inv
  pending : r.pendingReleases = ∅

omit [InputSink B] in
theorem Cleared.of_sinkOnly {r' : Receiver B} (h : Cleared r) (hs : SinkOnly r r') :
    Cleared r' := by
  obtain ⟨sink, rfl⟩ := hs
  exact ⟨h.inv.of_framed ⟨rfl, rfl, rfl, rfl⟩, h.pending⟩

/-- To poll keeps the receiver cleared. -/
theorem poll_clears (h : Cleared r) :
    wp poll r (fun _ r' => Cleared r' ∧ r'.session = r.session) (fun e _ => Allowed B fault e) :=
  wp_call (fun b _ => ⟨h.of_sinkOnly ⟨b, rfl⟩, rfl⟩) fun _ _ hb => .inl (.poll hb)

/-- To configure touchpads keeps the receiver cleared. -/
theorem configureTouchpads_clears (devices : List Touchpad.Descriptor) (h : Cleared r) :
    wp (configureTouchpads devices) r (fun _ r' => Cleared r' ∧ r'.session = r.session)
      (fun e _ => Allowed B fault e) := by
  rw [configureTouchpads, wp_bind, wp_get, wp_bind, wp_check]
  refine ⟨fun _ _ => ?_, fun e he => allowed_ensure he (by decide)⟩
  exact wp_call (fun b _ => ⟨h.of_sinkOnly ⟨b, rfl⟩, rfl⟩) fun _ _ hb =>
    .inl (.configureTouchpads hb)

/-- A session that begins keeps the receiver cleared. -/
theorem begin_clears (session : ℕ) (h : Cleared r) :
    wp («begin» session) r
      (fun started r' => Cleared r' ∧
        if started then r'.session = some session ∧ r'.expectedSequence = 0 else r' = r)
      (fun e _ => Allowed B fault e) := by
  have hbegin := begin_spec session h.inv
  have herror : wp («begin» session) r (fun _ _ => True) (fun e _ => Allowed B fault e) := by
    rw [«begin», wp_bind, wp_check]
    refine ⟨fun _ _ => ?_, fun e he => allowed_ensure he (by decide)⟩
    rw [wp_bind, wp_get, wp_bind, wp_check]
    refine ⟨fun _ _ => ?_, fun e he => allowed_ensure he (by decide)⟩
    rcases r.state.start .receiving with ⟨started, state⟩
    simp only [wp_ite]
    exact ⟨fun _ => trivial, fun _ => trivial⟩
  refine wp_mono (wp_and hbegin herror) (fun started r' h' => ?_) fun _ _ h' => h'.2
  obtain ⟨⟨hinv, -, -, ⟨⟨-, -, hpending⟩, -⟩, hstarted⟩, -⟩ := h'
  refine ⟨⟨hinv, hpending.trans h.pending⟩, ?_⟩
  cases started with
  | false => exact hstarted.1
  | true => exact hstarted

/-- After a stop the receiver is cleared. -/
theorem stop_clears (reason : StopReason) (r : Receiver B) :
    wp (stop reason) r (fun _ r' => Cleared r' ∧ r'.session = none)
    (fun e _ => Allowed B fault e) :=
  wp_mono (stop_spec reason r) (fun _ _ h' => ⟨⟨inv_of_ended h'.1, h'.2.1⟩, h'.1.session⟩)
    fun _ _ h' => .inl h'.2

/-- `end` of the only session there can be. -/
theorem end_clears {session : ℕ} (h : Cleared r) (hs : ∀ n, r.session = some n → n = session) :
    wp («end» session) r (fun _ r' => Cleared r' ∧ r'.session = none)
    (fun e _ => Allowed B fault e) := by
  rw [«end», wp_bind, wp_get, wp_ite]
  refine ⟨fun _ => stop_clears _ r, fun hne => ⟨h, ?_⟩⟩
  cases hsession : r.session with
  | none => rfl
  | some n => exact absurd (hs n hsession ▸ hsession) hne

/-- After physical activity the receiver is cleared and has no session. -/
theorem physicalActivity_clears (h : Cleared r) :
    wp physicalActivity r (fun _ r' => Cleared r' ∧ r'.session = none)
      (fun e _ => Allowed B fault e) := by
  rw [physicalActivity, wp_bind, wp_get]
  by_cases hmode : r.state.mode = .receiving
  · have hact : r.state.receiverPhysicalActivity = some (r.state.stop .localTakeover) :=
      if_pos hmode
    simp only [hact]
    exact stop_clears .localTakeover r
  · have hact : r.state.receiverPhysicalActivity = none := if_neg hmode
    simp only [hact]
    have hnone : r.session = none := by
      simpa using mt h.inv.receiving_iff.mpr hmode
    exact ⟨h, hnone⟩

/-- A lock change leaves the session or ends it; a lock ends it. -/
structure Kept (locked : Bool) (r r' : Receiver B) : Prop where
  cleared : Cleared r'
  session : ∀ n, r'.session = some n → r.session = some n
  locked : locked = true → r'.session = none

/-- A lock that changes clears the receiver. -/
theorem lock_clears {locked unchanged : Bool} {newLocks : Bool × Bool}
    {change : StopEffects × ControlState}
    (hl : locked = true → newLocks.1 = true ∨ newLocks.2 = true)
    (h : wp (lockChanged change.1 change.2) r (fun _ => Relocked unchanged newLocks r)
      (fun e r' => Relocked unchanged newLocks r r' ∧ Ordinary B e)) :
    wp (lockChanged change.1 change.2) r (fun _ => Kept locked r)
    (fun e _ => Allowed B fault e) := by
  refine wp_mono (wp_and h (lockChanged_spec _ _ r)) (fun _ r' h' => ?_) fun _ _ h' => .inl h'.2.2
  obtain ⟨hrelocked, -, hpending, -⟩ := h'
  refine ⟨⟨hrelocked.inv, hpending⟩, fun n hn => ?_, fun hlocked => ?_⟩
  · rw [hrelocked.session] at hn
    split_ifs at hn
    exact hn
  · by_contra hne
    obtain ⟨h₁, h₂⟩ := hrelocked.inv.unlocked (Option.isSome_iff_ne_none.mpr hne)
    have hlocks := hrelocked.locks
    rw [locks, h₁, h₂] at hlocks
    rw [← hlocks] at hl
    rcases hl hlocked with h | h <;> cases h

theorem localLock_clears (locked : Bool) (h : Cleared r) :
    wp (localLock locked) r (fun _ => Kept locked r) (fun e _ => Allowed B fault e) := by
  have hspec := localLock_spec locked h.inv
  rw [localLock, wp_bind, wp_get] at hspec ⊢
  exact lock_clears .inl hspec

theorem peerLock_clears (locked : Bool) (h : Cleared r) :
    wp (peerLock locked) r (fun _ => Kept locked r) (fun e _ => Allowed B fault e) := by
  have hspec := peerLock_spec locked h.inv
  rw [peerLock, wp_bind, wp_get] at hspec ⊢
  exact lock_clears .inr hspec

/-- An input keeps the receiver cleared. -/
theorem input_clears (session sequence : ℕ) (event : InputEvent) (h : Cleared r) :
    wp (input session sequence event) r
      (fun _ r' => Cleared r' ∧ ∀ n, r'.session = some n → r.session = some n)
      (fun e _ => Allowed B fault e) := by
  -- every refusal stops the receiver first, and the backend may fail on the way
  have hstop : ∀ {r' : Receiver B} {e : Error}, Allowed B fault e →
      wp (stop .disconnected) r' (fun _ _ => Allowed B fault e) (fun e _ => Allowed B fault e) :=
    fun he => wp_mono (stop_clears _ _) (fun _ _ _ => he) fun _ _ => id
  have hrest : wp (input session sequence event) r
      (fun _ r' => r'.pendingReleases = ∅ ∧ ∀ n, r'.session = some n → r.session = some n)
      (fun e _ => Allowed B fault e) := by
    rw [input, wp_bind, wp_get, wp_ite]
    refine ⟨fun _ => ⟨h.pending, fun _ => id⟩, fun _ => ?_⟩
    rw [wp_ite]
    refine ⟨fun _ => wp_bind.mpr (hstop (.inr (.inl (by decide)))), fun _ => ?_⟩
    cases hv : event.validate with
    | error e =>
        simp only [wp_bind]
        exact hstop (allowed_of_mem (mem_inputErrors hv) (by decide))
    | ok =>
        simp only [wp_ite, wp_bind]
        refine ⟨fun _ => hstop (.inr (.inl (by decide))), fun _ => ?_⟩
        rw [wp_set, wp_attempt]
        refine wp_call (fun b _ => ⟨h.pending, fun _ => id⟩) fun e b hb => ?_
        rw [wp_bind, wp_attempt]
        exact wp_mono (wp_true _ _) (fun _ _ _ => .inl (.emit hb)) fun _ _ _ => .inl (.emit hb)
  have hinv : wp (input session sequence event) r (fun _ => Inv) (fun _ => Inv) :=
    wp_map.mp (inv_call (.input session sequence event) h.inv)
  exact wp_mono (wp_and hrest hinv) (fun _ _ h' => ⟨⟨h'.2, h'.1.1⟩, h'.1.2⟩) fun _ _ => And.left

/-- With nothing waiting and no session that has passed input on, a placement is not refused. -/
theorem positionOn_clears (output : String) (event : InputEvent) (h : Cleared r)
    (hs : r.session = none ∨ r.expectedSequence = 0) :
    wp (positionOn output event) r (fun _ r' => Cleared r' ∧ r'.session = r.session)
      (fun e _ => Allowed B fault e) := by
  rw [positionOn, wp_bind, wp_get, wp_bind, wp_check]
  refine ⟨fun _ _ => ?_, fun e he => absurd ⟨h.pending, hs⟩ (ensure_eq_error.mp he).1⟩
  rw [wp_bind, wp_check]
  refine ⟨fun _ _ => ?_, fun e he => allowed_ensure he (by decide)⟩
  rw [wp_bind, wp_check]
  refine ⟨fun _ _ => ?_, fun e he => allowed_of_mem (mem_inputErrors he) (by decide)⟩
  rw [wp_bind]
  refine wp_call (fun b _ => ?_) fun _ _ hb => .inl (.selectOutput hb)
  exact wp_call (fun b' _ => ⟨h.of_sinkOnly ⟨b', rfl⟩, rfl⟩) fun _ _ hb => .inl (.emit hb)

end Receiver

end NiriBridge
