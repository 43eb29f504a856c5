import NiriBridge.Keys.Aggregate
import NiriBridge.Model.Activity

/-!
# Keys — Monitor

The keyboards as `ActivityMonitor` reads them.  `Since keys k` says that the pending events of `k`
lead from `keys`, what was held when the queue was last drained, to what is held now; reading the
devices keeps it (`moves_sample`).
-/

namespace NiriBridge

open Hoare

/-- What is held after an event. -/
def keyAfter (keys : SortedSet ℕ) : InputEvent → SortedSet ℕ
  | .key code pressed => if pressed then keys.insert code else keys.erase code
  | _ => keys

/-- What is held after events. -/
def keysAfter (keys : SortedSet ℕ) (events : List InputEvent) : SortedSet ℕ :=
  events.foldl keyAfter keys

@[simp] theorem keysAfter_nil (keys : SortedSet ℕ) : keysAfter keys [] = keys := rfl

@[simp] theorem keysAfter_cons (keys : SortedSet ℕ) (e : InputEvent) (events : List InputEvent) :
    keysAfter keys (e :: events) = keysAfter (keyAfter keys e) events := rfl

theorem keysAfter_append (keys : SortedSet ℕ) (events events' : List InputEvent) :
    keysAfter keys (events ++ events') = keysAfter (keysAfter keys events) events' :=
  List.foldl_append

theorem mem_keyAfter {keys : SortedSet ℕ} {code c : ℕ} {pressed : Bool} :
    c ∈ keyAfter keys (.key code pressed) ↔ if c = code then pressed = true else c ∈ keys := by
  cases pressed <;> by_cases hc : c = code <;> simp [keyAfter, hc]

namespace PhysicalKeys

variable {keys : SortedSet ℕ} {k k' : PhysicalKeys} {device code : ℕ} {pressed : Bool}

/-- The pending events lead from `keys` to what is held. -/
structure Since (keys : SortedSet ℕ) (k : PhysicalKeys) : Prop where
  inRange : k.InRange
  events : ∀ e ∈ k.pending, IsKey e
  held : keysAfter keys k.pending = k.held

/-- At the beginning nothing is held and nothing is pending. -/
theorem since_default : Since ∅ default where
  inRange _ code h := absurd h (SortedSet.not_mem_empty code)
  events := by intros; contradiction
  held := rfl

/-- The queue is drained. -/
theorem Since.drain (h : Since keys k) : Since k.held k.drain.2 where
  inRange := h.inRange
  events := by intros; contradiction
  held := rfl

/-- After a transition the pending events still lead to what is held. -/
theorem Since.update (h : Since keys k) (hk : k.update device code pressed = .ok k') :
    Since keys k' := by
  by_cases hcode : 1 ≤ code ∧ code ≤ 255
  swap
  · cases (update_of_not_key hcode).symm.trans hk
    exact h
  have hmem := mem_keysOf_update hk hcode
  have hrange : k'.InRange := by
    intro d c hc
    rw [hmem] at hc
    split_ifs at hc with hdc
    · exact hdc.2 ▸ hcode
    · exact h.inRange d c hc
  have hother : ∀ c, c ≠ code → (c ∈ k'.held ↔ c ∈ k.held) := by
    intro c hc
    simp only [mem_held, hmem, hc, and_false, if_false]
  have hanyHolds : code ∈ k'.held ↔
      anyHolds k'.devices code = true := by rw [mem_held, anyHolds_iff]
  obtain ⟨-, ⟨heq, hpending⟩ | ⟨-, hpending⟩⟩ := update_cases hk hcode
  · refine ⟨hrange, hpending ▸ h.events, ?_⟩
    rw [hpending, h.held]
    refine SortedSet.ext fun c => ?_
    by_cases hc : c = code
    · rw [hc, hanyHolds, ← heq, mem_held, anyHolds_iff]
    · exact (hother c hc).symm
  · refine ⟨hrange, fun e he => ?_, ?_⟩
    · rw [hpending] at he
      rcases List.mem_append.mp he with he | he
      · exact h.events e he
      · exact ⟨code, _, List.mem_singleton.mp he, hcode⟩
    · rw [hpending, keysAfter_append, h.held]
      refine SortedSet.ext fun c => ?_
      rw [keysAfter_cons, keysAfter_nil, mem_keyAfter]
      split_ifs with hc
      · rw [hc, hanyHolds]
      · exact (hother c hc).symm

/-- So they do after the loop of `disconnect`. -/
theorem Since.disconnectCodes {codes : List ℕ} (h : Since keys k)
    (hk : k.disconnectCodes device codes = .ok k') : Since keys k' := by
  induction codes generalizing k with
  | nil =>
      cases hk
      exact h
  | cons code codes ih =>
      simp only [PhysicalKeys.disconnectCodes, bind_eq_ok] at hk
      obtain ⟨k₁, h₁, hk⟩ := hk
      exact ih (h.update h₁) hk

/-- So they do once a keyboard is gone. -/
theorem Since.disconnect (h : Since keys k) (hk : k.disconnect device = .ok k') :
    Since keys k' := by
  have hmem := (disconnect_spec h.inRange hk).2
  simp only [PhysicalKeys.disconnect, bind_eq_ok] at hk
  obtain ⟨k₁, h₁, hk⟩ := hk
  cases hk
  have hsince := h.disconnectCodes h₁
  have hmem₁ := (disconnectCodes_spec h₁).2
  refine ⟨fun d c hc => h.inRange d c ((hmem d c).mp hc).2, hsince.events, hsince.held.trans ?_⟩
  refine SortedSet.ext fun c => ?_
  rw [mem_held, mem_held]
  refine exists_congr fun d => ((hmem₁ d c).trans ?_).trans (hmem d c).symm
  by_cases hd : d = device
  · subst hd
    exact iff_of_false (fun hc => hc.2 ⟨rfl, hc.1, h.inRange d c hc.1⟩) fun hc => hc.1 rfl
  · simp [hd]

end PhysicalKeys

namespace ActivityMonitor

open PhysicalKeys

/-- The keyboard goes on from wherever its queue was last drained. -/
def Goes (m m' : ActivityMonitor) : Prop := ∀ keys, Since keys m.keyboard → Since keys m'.keyboard

instance : IsPreorder ActivityMonitor Goes where
  refl _ _ := id
  trans _ _ _ h h' keys := h' keys ∘ h keys

theorem goes_of_keyboard {m m' : ActivityMonitor} (h : m'.keyboard = m.keyboard) : Goes m m' :=
  fun _ hs => h ▸ hs

/-- A transition adds what it changes to the pending events. -/
theorem moves_updateKey (index code : ℕ) (pressed : Bool) :
    Moves Goes (updateKey index code pressed) := by
  refine Moves.get_bind fun m => ?_
  rw [wp_bind, wp_lift]
  exact ⟨fun keyboard hk keys hs => hs.update hk, fun _ _ => refl_of Goes m⟩

theorem moves_pressAll (index : ℕ) (codes : List ℕ) : Moves Goes (pressAll index codes) := by
  induction codes with
  | nil => exact .pure ()
  | cons code codes ih => exact (moves_updateKey index code true).bind fun _ => ih

theorem moves_readEvents (index : ℕ) (events : List Touchpad.RawEvent) :
    Moves Goes (readEvents index events) := by
  induction events with
  | nil => exact .pure false
  | cons event events ih =>
      refine .bind (.ite (moves_updateKey _ _ _) (.pure ())) fun _ => ?_
      exact ih.bind fun _ => .pure _

/-- So does what is read from a device. -/
theorem moves_readDevice (index : ℕ) (reading : DeviceReading) :
    Moves Goes (readDevice index reading) := by
  rw [readDevice]
  cases reading.fetched with
  | wouldBlock => exact .pure false
  | failed => exact fun m => refl_of Goes m
  | events events => exact moves_readEvents index events
  | gone =>
      refine .bind (.modify fun m => goes_of_keyboard rfl) fun _ => .get_bind fun m => ?_
      rw [wp_bind, wp_lift]
      exact ⟨fun keyboard hk keys hs => hs.disconnect hk, fun _ _ => refl_of Goes m⟩

/-- So does one device of a pass. -/
theorem moves_sampleDevice (index : ℕ) (isOpen : Bool) (reading : DeviceReading) :
    Moves Goes (sampleDevice index isOpen reading) := by
  rw [sampleDevice]
  refine .ite (moves_readDevice index reading) ?_
  cases reading.opened with
  | missing => exact .pure false
  | refused e => exact fun m => refl_of Goes m
  | «open» keys =>
      refine (moves_pressAll index keys).bind fun _ => ?_
      exact .bind (.modify fun m => goes_of_keyboard rfl) fun _ => moves_readDevice index reading

/-- So does the loop over the devices. -/
theorem moves_sampleDevices (hardware : Hardware) (index : ℕ) (slots : List Bool) :
    Moves Goes (sampleDevices hardware index slots) := by
  induction slots generalizing index with
  | nil => exact .pure false
  | cons isOpen slots ih =>
      exact (moves_sampleDevice index isOpen _).bind fun _ => (ih (index + 1)).bind fun _ => .pure _

theorem wp_ask {m : ActivityMonitor} {Q : Hardware → ActivityMonitor → Prop}
    {E : Error → ActivityMonitor → Prop} :
    wp ask m Q E ↔ Q (m.hardware m.calls) { m with calls := m.calls + 1 } := Iff.rfl

/-- The touchpads are not the business of the keyboards. -/
theorem keeps_prepareTouchpads : Keeps ActivityMonitor.keyboard prepareTouchpads := by
  intro m
  rw [prepareTouchpads, wp_bind, wp_get, wp_ite]
  refine ⟨fun _ => ?_, fun _ => rfl⟩
  rw [wp_bind, wp_ask, wp_bind, wp_lift]
  exact ⟨fun _ _ => rfl, fun _ _ => rfl⟩

theorem keeps_routeTouchpads (remote : Bool) :
    Keeps ActivityMonitor.keyboard (routeTouchpads remote) := by
  intro m
  rw [routeTouchpads, wp_bind, wp_ask, wp_bind, wp_get]
  cases m.touchpads with
  | none => rfl
  | some router =>
      rw [wp_bind, wp_lift]
      exact ⟨fun _ _ => rfl, fun _ _ => rfl⟩

theorem keeps_restoreTouchpads : Keeps ActivityMonitor.keyboard restoreTouchpads := by
  intro m
  rw [restoreTouchpads, wp_bind, wp_get]
  split
  · split_ifs
    · exact keeps_prepareTouchpads.bind (fun _ => .lift _) m
    · rfl
  · rfl

theorem keeps_sampleTouchpads (hardware : Hardware) :
    Keeps ActivityMonitor.keyboard (sampleTouchpads hardware) := by
  intro m
  rw [sampleTouchpads, wp_bind, wp_get]
  cases m.touchpads with
  | none => rfl
  | some router =>
      rw [wp_bind, wp_lift]
      exact ⟨fun _ _ => rfl, fun _ _ => rfl⟩

/-- To take the frames of touchpads leaves the keyboards alone. -/
theorem keyboard_takeTouchpadEvents (m : ActivityMonitor) :
    (ActivitySource.takeTouchpadEvents m).2.keyboard = m.keyboard := by
  change (takeTouchpadEvents m).2.keyboard = m.keyboard
  unfold takeTouchpadEvents
  split <;> rfl

/-- **Reading the devices** adds to the queue what changes. -/
theorem moves_sample : Moves Goes sample := by
  have hkeeps : ∀ {α : Type} {m : MonitorM α}, Keeps ActivityMonitor.keyboard m → Moves Goes m :=
    fun h => .of_keeps h fun _ _ => goes_of_keyboard
  refine (hkeeps keeps_restoreTouchpads).bind fun _ => ?_
  have hask : Moves Goes ask := fun m => goes_of_keyboard rfl
  refine hask.bind fun hardware => (hkeeps (keeps_sampleTouchpads hardware)).bind fun touched => ?_
  refine .get_bind fun m => wp_bind.mpr ?_
  exact wp_mono (moves_sampleDevices hardware 0 m.slots m) (fun _ _ => id) fun _ _ => id

end ActivityMonitor

end NiriBridge
