import NiriBridge.Keys.Monitor

/-!
# Keys — Toggles

Every transition of the keyboards changes something: a press is of a key that no keyboard held, and
a release of one that some keyboard did (`Toggles`).  `Flips keys k` adds that to `Since`; reading
the devices keeps it (`flips_sample`).
-/

namespace NiriBridge

open Hoare

/-- The event changes what is held. -/
def Toggle (keys : SortedSet ℕ) : InputEvent → Prop
  | .key code pressed => code ∈ keys ↔ pressed = false
  | _ => True

/-- Every event changes what is held when it comes. -/
def Toggles (keys : SortedSet ℕ) : List InputEvent → Prop
  | [] => True
  | e :: events => Toggle keys e ∧ Toggles (keyAfter keys e) events

/-- Transitions that toggle may follow each other. -/
theorem toggles_append {keys : SortedSet ℕ} {events events' : List InputEvent} :
    Toggles keys (events ++ events') ↔
    Toggles keys events ∧ Toggles (keysAfter keys events) events' := by
  induction events generalizing keys with
  | nil => simp [Toggles]
  | cons e events ih => simp [Toggles, ih, and_assoc]

namespace PhysicalKeys

variable {keys : SortedSet ℕ} {k k' : PhysicalKeys} {device code : ℕ} {pressed : Bool}

/-- The pending events lead from `keys` to what is held, and each of them changes something. -/
structure Flips (keys : SortedSet ℕ) (k : PhysicalKeys) : Prop extends Since keys k where
  toggles : Toggles keys k.pending

/-- After a transition every pending event still changes what is held. -/
theorem Flips.update (h : Flips keys k) (hk : k.update device code pressed = .ok k') :
    Flips keys k' := by
  refine ⟨h.toSince.update hk, ?_⟩
  by_cases hcode : 1 ≤ code ∧ code ≤ 255
  swap
  · cases (update_of_not_key hcode).symm.trans hk
    exact h.toggles
  obtain ⟨-, ⟨-, hpending⟩ | ⟨hne, hpending⟩⟩ := update_cases hk hcode
  · exact hpending ▸ h.toggles
  · rw [hpending, toggles_append, h.held]
    refine ⟨h.toggles, ?_, trivial⟩
    show code ∈ k.held ↔ anyHolds k'.devices code = false
    rw [mem_held, ← anyHolds_iff]
    cases hold : anyHolds k.devices code <;> cases hnew : anyHolds k'.devices code <;> simp_all

/-- So it does after the loop of `disconnect`. -/
theorem Flips.disconnectCodes {codes : List ℕ} (h : Flips keys k)
    (hk : k.disconnectCodes device codes = .ok k') : Flips keys k' := by
  induction codes generalizing k with
  | nil =>
      cases hk
      exact h
  | cons code codes ih =>
      simp only [PhysicalKeys.disconnectCodes, bind_eq_ok] at hk
      obtain ⟨k₁, h₁, hk⟩ := hk
      exact ih (h.update h₁) hk

/-- So it does once a keyboard is gone. -/
theorem Flips.disconnect (h : Flips keys k) (hk : k.disconnect device = .ok k') :
    Flips keys k' := by
  refine ⟨h.toSince.disconnect hk, ?_⟩
  simp only [PhysicalKeys.disconnect, bind_eq_ok] at hk
  obtain ⟨k₁, h₁, hk⟩ := hk
  cases hk
  exact (h.disconnectCodes h₁).toggles

end PhysicalKeys

namespace ActivityMonitor

open PhysicalKeys

/-- The keyboard goes on, transition by transition. -/
def Steps (m m' : ActivityMonitor) : Prop := ∀ keys, Flips keys m.keyboard → Flips keys m'.keyboard

instance : IsPreorder ActivityMonitor Steps where
  refl _ _ := id
  trans _ _ _ h h' keys := h' keys ∘ h keys

theorem steps_of_keyboard {m m' : ActivityMonitor} (h : m'.keyboard = m.keyboard) : Steps m m' :=
  fun _ hs => h ▸ hs

theorem flips_updateKey (index code : ℕ) (pressed : Bool) :
    Moves Steps (updateKey index code pressed) := by
  refine Moves.get_bind fun m => ?_
  rw [wp_bind, wp_lift]
  exact ⟨fun keyboard hk keys hs => hs.update hk, fun _ _ => refl_of Steps m⟩

theorem flips_pressAll (index : ℕ) (codes : List ℕ) : Moves Steps (pressAll index codes) := by
  induction codes with
  | nil => exact .pure ()
  | cons code codes ih => exact (flips_updateKey index code true).bind fun _ => ih

theorem flips_readEvents (index : ℕ) (events : List Touchpad.RawEvent) :
    Moves Steps (readEvents index events) := by
  induction events with
  | nil => exact .pure false
  | cons event events ih =>
      refine .bind (.ite (flips_updateKey _ _ _) (.pure ())) fun _ => ?_
      exact ih.bind fun _ => .pure _

theorem flips_readDevice (index : ℕ) (reading : DeviceReading) :
    Moves Steps (readDevice index reading) := by
  rw [readDevice]
  cases reading.fetched with
  | wouldBlock => exact .pure false
  | failed => exact fun m => refl_of Steps m
  | events events => exact flips_readEvents index events
  | gone =>
      refine .bind (.modify fun m => steps_of_keyboard rfl) fun _ => .get_bind fun m => ?_
      rw [wp_bind, wp_lift]
      exact ⟨fun keyboard hk keys hs => hs.disconnect hk, fun _ _ => refl_of Steps m⟩

theorem flips_sampleDevice (index : ℕ) (isOpen : Bool) (reading : DeviceReading) :
    Moves Steps (sampleDevice index isOpen reading) := by
  rw [sampleDevice]
  refine .ite (flips_readDevice index reading) ?_
  cases reading.opened with
  | missing => exact .pure false
  | refused e => exact fun m => refl_of Steps m
  | «open» keys =>
      refine (flips_pressAll index keys).bind fun _ => ?_
      exact .bind (.modify fun m => steps_of_keyboard rfl) fun _ => flips_readDevice index reading

/-- A pass over the devices adds only events that change what is held. -/
theorem flips_sampleDevices (hardware : Hardware) (index : ℕ) (slots : List Bool) :
    Moves Steps (sampleDevices hardware index slots) := by
  induction slots generalizing index with
  | nil => exact .pure false
  | cons isOpen slots ih =>
      exact (flips_sampleDevice index isOpen _).bind fun _ => (ih (index + 1)).bind fun _ => .pure _

/-- **Reading the devices** adds to the queue what changes, and nothing else. -/
theorem flips_sample : Moves Steps sample := by
  have hkeeps : ∀ {α : Type} {m : MonitorM α}, Keeps ActivityMonitor.keyboard m → Moves Steps m :=
    fun h => .of_keeps h fun _ _ => steps_of_keyboard
  refine (hkeeps keeps_restoreTouchpads).bind fun _ => ?_
  have hask : Moves Steps ask := fun m => steps_of_keyboard rfl
  refine hask.bind fun hardware => (hkeeps (keeps_sampleTouchpads hardware)).bind fun touched => ?_
  refine .get_bind fun m => wp_bind.mpr ?_
  exact wp_mono (flips_sampleDevices hardware 0 m.slots m) (fun _ _ => id) fun _ _ => id

end ActivityMonitor

end NiriBridge
