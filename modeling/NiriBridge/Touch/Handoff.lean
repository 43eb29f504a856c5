import NiriBridge.Model.Handoff
import NiriBridge.Touch.Acquire

/-!
# Touch — Handoff

A pad that is given back.  The frames have to get through the input core's filters: `defuzz_spread`
is the reason the coordinate axis with a range of more than twice its fuzz does, in every slot and
from every value.

* `write_everySlot`: what one pass over the slots does to the device.
* `Hidden.reader`: what the readers make of it.
* `handoff_synchronizes`: afterwards a reader has the slot of the device, and neither has a contact.
-/

namespace NiriBridge.Touchpad

open Cursor

/-! ### Smoothing -/

/-- Truncating division is off by less than the divisor. -/
theorem tdiv_bounds (x : ℤ) {n : ℤ} (h : 0 < n) : x - n < n * x.tdiv n ∧ n * x.tdiv n < x + n := by
  have heq := Int.mul_tdiv_add_tmod x n
  have hlt := Int.tmod_lt_of_pos x h
  have hgt := Int.lt_tmod_of_pos x h
  constructor <;> omega

/-- Half of a number, rounded down. -/
theorem half_bounds {x : ℤ}
    (h : 0 ≤ x) : 0 ≤ x.tdiv 2 ∧ 2 * x.tdiv 2 ≤ x ∧ x < 2 * x.tdiv 2 + 2 := by
  rw [Int.tdiv_eq_ediv_of_nonneg h]
  omega

section Defuzz

variable {fuzz minimum maximum : ℤ}

/-- The minimum, written over any value, leaves a value near it. -/
theorem defuzz_near (h : 0 ≤ fuzz) (value old : ℤ) :
    value - fuzz ≤ defuzz fuzz value old ∧ defuzz fuzz value old ≤ value + fuzz := by
  have h₂ := half_bounds h
  have h₃ := tdiv_bounds (old + value) (n := 2) (by decide)
  have h₄ := tdiv_bounds (old * 3 + value) (n := 4) (by decide)
  unfold defuzz
  split_ifs <;> omega

/-- The maximum gets through after it, and lands well away from the minimum. -/
theorem defuzz_far (h : 0 ≤ fuzz) (hrange : 2 * fuzz < maximum - minimum) {old : ℤ}
    (hnear : minimum - fuzz ≤ old ∧ old ≤ minimum + fuzz) :
    defuzz fuzz maximum old ≠ old ∧ minimum + fuzz ≤ defuzz fuzz maximum old ∧
      (fuzz ≠ 0 → minimum + 2 ≤ defuzz fuzz maximum old) ∧ minimum < defuzz fuzz maximum old := by
  have h₂ := half_bounds h
  have h₃ := tdiv_bounds (old + maximum) (n := 2) (by decide)
  have h₄ := tdiv_bounds (old * 3 + maximum) (n := 4) (by decide)
  unfold defuzz
  split_ifs <;> omega

/-- The minimum gets through again. -/
theorem defuzz_back (h : 0 ≤ fuzz) {old : ℤ} (hfuzz : minimum + fuzz ≤ old)
    (hfar : fuzz ≠ 0 → minimum + 2 ≤ old) (hne : minimum < old) :
    defuzz fuzz minimum old ≠ old := by
  have h₂ := half_bounds h
  have h₃ := tdiv_bounds (old + minimum) (n := 2) (by decide)
  unfold defuzz
  split_ifs <;> omega

/-- **The boundary of the handoff.**  An axis with a range of more than twice its fuzz reports the
maximum after the minimum and the minimum after that, whatever it held before. -/
theorem defuzz_spread (h : 0 ≤ fuzz) (hrange : 2 * fuzz < maximum - minimum) (old : ℤ) :
    let low := defuzz fuzz minimum old
    defuzz fuzz maximum low ≠ low ∧
      defuzz fuzz minimum (defuzz fuzz maximum low) ≠ defuzz fuzz maximum low := by
  intro low
  obtain ⟨hne, hfuzz, hfar, hlt⟩ := defuzz_far h hrange (defuzz_near h minimum old)
  exact ⟨hne, defuzz_back h hfuzz hfar hlt⟩

end Defuzz

namespace InputDevice

variable {d : Descriptor} {k : InputDevice}

/-- The device has the keys and slots of the descriptor. -/
structure Sound (d : Descriptor) (k : InputDevice) : Prop where
  contacts : k.state.contacts.length = d.slots
  slot : k.state.slot < d.slots
  staged : k.staged < d.slots
  keys : ∀ code ∈ k.state.keys, code ∈ d.keys

/-- The multi-touch values of a slot. -/
def row (k : InputDevice) (slot : ℕ) : ℕ → ℤ := cellValue k.state slot

theorem row_eq (k : InputDevice) (slot code : ℕ) :
    k.row slot code = (k.state.cell slot code).getD 0 := rfl

/-- A slot with tracking id `-1` has no contact. -/
theorem trackingAt_of_row {slot : ℕ} (h : k.row slot TRACKING = -1) :
    k.state.trackingAt slot = -1 := by
  rw [row_eq] at h
  rw [TouchState.trackingAt]
  cases hv : k.state.cell slot TRACKING with
  | none => rfl
  | some v => rwa [hv] at h

/-! ### One event -/

/-- What is reported of an event is its own kind, with a smoothed value, or the slot it is for. -/
theorem mem_deliver {e e' : Event} (h : e' ∈ k.deliver d e) :
    e' = .abs SLOT k.staged ∨ e' = e ∧ e.kind = .key ∨
      ∃ old,
      e' = .abs e.code (defuzz (fuzz d e.code) e.value old) ∧ e.kind = .absolute ∧
      e.code ≠ SLOT := by
  obtain ⟨kind, code, v⟩ := e
  cases kind with
  | key =>
      simp only [deliver] at h
      split_ifs at h
      · exact absurd h List.not_mem_nil
      · exact .inr (.inl ⟨List.mem_singleton.mp h, rfl⟩)
  | absolute =>
      simp only [deliver] at h
      split_ifs at h with h₁ h₂ h₃ h₄ h₅
      · exact absurd h List.not_mem_nil
      · exact absurd h List.not_mem_nil
      · exact .inr (.inr ⟨_, List.mem_singleton.mp h, rfl, h₁⟩)
      · rcases List.mem_cons.mp h with h | h
        · exact .inl h
        · exact .inr (.inr ⟨_, List.mem_singleton.mp h, rfl, h₁⟩)
      · exact absurd h List.not_mem_nil
      · exact .inr (.inr ⟨_, List.mem_singleton.mp h, rfl, h₁⟩)

/-- What is reported selects only slots the device has. -/
theorem seeksBelow_deliver (hd : d.slots ≤ 32) (hk : k.Sound d) (e : Event) :
    SeeksBelow d.slots (k.deliver d e) := by
  intro e' he' hkind hcode
  rcases mem_deliver he' with rfl | ⟨rfl, hkey⟩ | ⟨old, rfl, -, hne⟩
  · have := hk.staged
    simpa [Event.abs, asUsize_natCast (n := k.staged) (by omega)] using this
  · exact absurd (hkey.symm.trans hkind) (by simp)
  · exact absurd hcode hne

/-- One event keeps the keys and slots of the device. -/
theorem Sound.handle (hd : d.slots ≤ 32) (hk : k.Sound d) {e : Event}
    (he : e.kind = .key → e.code ∈ d.keys) : (k.handle d e).Sound d := by
  have hseeks := seeksBelow_deliver hd hk e
  refine ⟨(TouchState.length_contacts_apply _ _).trans hk.contacts, ?_, ?_, fun code hcode => ?_⟩
  · exact hk.contacts ▸ (TouchState.table_apply (hk.contacts ▸ hk.slot) (hk.contacts ▸ hseeks)).2
  · simp only [InputDevice.handle, stage]
    split_ifs with h
    · exact h.2.2.2
    · exact hk.staged
  · rcases TouchState.mem_keys_apply hcode with h | ⟨e', he', ⟨hkind, -⟩, rfl⟩
    · exact hk.keys code h
    · rcases mem_deliver he' with rfl | ⟨rfl, hkey⟩ | ⟨old, rfl, -, -⟩
      · cases hkind
      · exact he hkey
      · cases hkind

/-- The device once a slot has been selected. -/
theorem handle_slot {slot : ℕ} (hd : d.slots ≤ 32) (h : slot < d.slots) :
    k.handle d (.abs SLOT slot) = { k with staged := slot } := by
  have hu : asUsize (slot : ℤ) = slot := asUsize_natCast (by omega)
  simp only [handle, stage, deliver, Event.abs, if_true, hu, TouchState.apply_nil]
  simp [h]

/-- The device once a key has been written as released. -/
theorem handle_release (code : ℕ) :
    (k.handle d (.key code 0)).state = { k.state with keys := k.state.keys.erase code } ∧
      (k.handle d (.key code 0)).staged = k.staged := by
  constructor
  · simp only [handle, deliver, Event.key]
    by_cases hmem : code ∈ k.state.keys
    · simp [hmem, TouchState.applyEvent]
    · have herase : k.state.keys.erase code = k.state.keys := by
        refine SortedSet.ext fun c => ?_
        rw [SortedSet.mem_erase]
        exact ⟨And.right, fun hc => ⟨fun he => hmem (he ▸ hc), hc⟩⟩
      simp [hmem, herase]
  · simp [handle, stage, Event.key]

/-- The device once a single-touch value has been written. -/
theorem handle_plain {code : ℕ} (h : code < SLOT) (v : ℤ) :
    (k.handle d (.abs code v)).state.keys = k.state.keys ∧
      (k.handle d (.abs code v)).state.contacts = k.state.contacts ∧
      (k.handle d (.abs code v)).state.slot = k.state.slot ∧
      (k.handle d (.abs code v)).staged = k.staged := by
  have hstaged : (k.handle d (.abs code v)).staged = k.staged := by
    simp [handle, stage, Event.abs, h.ne]
  have hdeliver : k.deliver d (.abs code v) = [] ∨
      ∃ value, k.deliver d (.abs code v) = [.abs code value] := by
    simp only [deliver, Event.abs, h.ne, h.not_gt, if_false]
    exact (ite_eq_or_eq _ _ _).imp id fun he => ⟨_, he⟩
  have hstate : (k.handle d (.abs code v)).state = k.state.apply (k.deliver d (.abs code v)) := rfl
  rcases hdeliver with he | ⟨value, he⟩ <;> rw [hstate, he, hstaged]
  · exact ⟨rfl, rfl, rfl, rfl⟩
  · simp [TouchState.applyEvent, Event.abs, h.ne, h.not_gt]

/-- **The device once a multi-touch value has been written**: the staged slot has the smoothed
value, and is reported unless that is the value it had. -/
theorem handle_multi (hd : d.slots ≤ 32) (hk : k.Sound d) {code : ℕ} (h : SLOT < code) (v : ℤ) :
    let old := k.row k.staged code
    let value := defuzz (fuzz d code) v old
    let k' := k.handle d (.abs code v)
    (∀ slot c, k'.row slot c = if slot = k.staged ∧ c = code then value else k.row slot c) ∧
      k'.state.keys = k.state.keys ∧ k'.staged = k.staged ∧
      (k'.state.slot = k.staged ∨ k'.state.slot = k.state.slot ∧ value = old) := by
  intro old value k'
  have hstage : k'.staged = k.staged := if_neg fun hc => h.ne' hc.2.1
  have hdeliver : k.deliver d (.abs code v) = if value = old then [] else
      (if k.staged = k.state.slot then [] else [.abs SLOT k.staged]) ++ [.abs code value] := by
    simp only [deliver, Event.abs, h.ne', h, if_false, if_true]
    rfl
  have hseeks := seeksBelow_deliver hd hk (.abs code v)
  have htable := (TouchState.table_apply (hk.contacts ▸ hk.slot) (hk.contacts ▸ hseeks)).1
  rw [hdeliver] at htable
  have hk' : k'.state = k.state.apply (k.deliver d (.abs code v)) := rfl
  rw [hdeliver] at hk'
  by_cases hv : value = old
  · -- the value is the one it had: nothing is reported
    rw [if_pos hv, TouchState.apply_nil] at hk'
    refine ⟨fun slot c => ?_, by rw [hk'], hstage, .inr ⟨by rw [hk'], hv⟩⟩
    rw [row, hk']
    split_ifs with hc
    · obtain ⟨rfl, rfl⟩ := hc
      exact hv.symm
    · rfl
  · rw [if_neg hv] at hk' htable
    rw [← hk'] at htable
    have hvalue : (Event.abs code value).delta = [.put code value] := by
      simp [Event.delta, Event.abs, h.ne', h]
    have hstaged : (Event.abs SLOT (k.staged : ℤ)).delta = [.seek k.staged] :=
      TouchState.delta_slot (by have := hk.staged; omega)
    have htable' :
        k'.state.table = (k.state.table.step (.seek k.staged)).step (.put code value) := by
      rw [htable]
      split_ifs with hs
      · rw [hs]
        simp [hvalue, Table.step]
        rfl
      · simp [hvalue, hstaged]
    refine ⟨fun slot c => ?_, ?_, hstage, .inl (congrArg Table.cursor htable')⟩
    · have hcell : k'.state.cell slot c =
          if slot = k.staged ∧ c = code then some value else k.state.cell slot c :=
        congrArg (fun t => t.cell slot c) htable'
      rw [row_eq, hcell, row_eq]
      exact apply_ite (fun v : Option ℤ => v.getD 0) _ _ _
    · rw [hk']
      refine TouchState.keys_apply_absolute fun e he => ?_
      rcases List.mem_append.mp he with he | he
      · split_ifs at he
        · exact absurd he List.not_mem_nil
        · exact List.mem_singleton.mp he ▸ rfl
      · exact List.mem_singleton.mp he ▸ rfl

/-! ### Frames -/

/-- Two frames are written one after the other. -/
theorem write_append (es fs : List Event) : k.write d (es ++ fs) =
    (((k.write d es).1.write d fs).1, (k.write d es).2 ++ ((k.write d es).1.write d fs).2) := by
  induction es generalizing k with
  | nil => rfl
  | cons e es ih => simp only [List.cons_append, write, ih, List.append_assoc]

/-- The device is a reader of what it reports. -/
theorem state_write (es : List Event) :
    (k.write d es).1.state = k.state.apply (k.write d es).2 := by
  induction es generalizing k with
  | nil => rfl
  | cons e es ih =>
      simp only [write]
      rw [ih, TouchState.apply_append]
      rfl

/-- What is reported of a frame: slots, the keys of the frame, and smoothed values of its axes. -/
theorem mem_write {es : List Event} {e' : Event} (h : e' ∈ (k.write d es).2) :
    (∃ staged : ℕ, e' = .abs SLOT staged) ∨ (e' ∈ es ∧ e'.kind = .key) ∨
      ∃ e ∈ es,
      ∃ old, e' = .abs e.code (defuzz (fuzz d e.code) e.value old) ∧ e.kind = .absolute := by
  induction es generalizing k with
  | nil => exact absurd h List.not_mem_nil
  | cons e es ih =>
      rcases List.mem_append.mp h with h | h
      · rcases mem_deliver h with h | ⟨rfl, hkey⟩ | ⟨old, h, habs, -⟩
        · exact .inl ⟨_, h⟩
        · exact .inr (.inl ⟨List.mem_cons_self .., hkey⟩)
        · exact .inr (.inr ⟨e, List.mem_cons_self .., old, h, habs⟩)
      · rcases ih h with h | ⟨h, hkey⟩ | ⟨e₁, h₁, h⟩
        · exact .inl h
        · exact .inr (.inl ⟨List.mem_cons_of_mem _ h, hkey⟩)
        · exact .inr (.inr ⟨e₁, List.mem_cons_of_mem _ h₁, h⟩)

/-- A frame keeps the keys and slots of the device, and selects only slots it has. -/
theorem Sound.write (hd : d.slots ≤ 32) (hk : k.Sound d) {es : List Event}
    (hes : ∀ e ∈ es, e.kind = .key → e.code ∈ d.keys) :
    (k.write d es).1.Sound d ∧ SeeksBelow d.slots (k.write d es).2 := by
  induction es generalizing k with
  | nil => exact ⟨hk, nofun⟩
  | cons e es ih =>
      obtain ⟨hk', hseeks⟩ := ih (hk.handle hd (hes e (List.mem_cons_self ..)))
        fun e' he' => hes e' (List.mem_cons_of_mem _ he')
      refine ⟨hk', fun e' he' => ?_⟩
      rcases List.mem_append.mp he' with he' | he'
      · exact seeksBelow_deliver hd hk e e' he'
      · exact hseeks e' he'

/-- The device once keys have been written as released. -/
theorem write_releases (codes : List ℕ) :
    let k' := (k.write d (codes.map (.key · 0))).1
    k'.state.contacts = k.state.contacts ∧ k'.state.slot = k.state.slot ∧ k'.staged = k.staged ∧
      ∀ code, code ∈ k'.state.keys ↔ code ∈ k.state.keys ∧ code ∉ codes := by
  induction codes generalizing k with
  | nil => simp [write]
  | cons code codes ih =>
      obtain ⟨hstate, hstaged⟩ := handle_release (d := d) (k := k) code
      obtain ⟨hc, hs, hg, hmem⟩ := ih (k := k.handle d (.key code 0))
      refine ⟨hc.trans (by rw [hstate]), hs.trans (by rw [hstate]), hg.trans hstaged, fun c => ?_⟩
      refine (hmem c).trans ?_
      rw [hstate, SortedSet.mem_erase, List.mem_cons]
      tauto

/-- The device once single-touch values have been written. -/
theorem write_plain {values : List (ℕ × ℤ)} (h : ∀ p ∈ values, p.1 < SLOT) :
    let k' := (k.write d (values.map fun p => .abs p.1 p.2)).1
    k'.state.keys = k.state.keys ∧ k'.state.contacts = k.state.contacts ∧
      k'.state.slot = k.state.slot ∧ k'.staged = k.staged := by
  induction values generalizing k with
  | nil => exact ⟨rfl, rfl, rfl, rfl⟩
  | cons p values ih =>
      obtain ⟨h₁, h₂, h₃, h₄⟩ := handle_plain (d := d) (k := k) (h p (List.mem_cons_self ..)) p.2
      obtain ⟨g₁, g₂, g₃, g₄⟩ :=
        ih (k := k.handle d (.abs p.1 p.2)) fun q hq => h q (List.mem_cons_of_mem _ hq)
      exact ⟨g₁.trans h₁, g₂.trans h₂, g₃.trans h₃, g₄.trans h₄⟩

/-! ### Slots -/

/-- What is left of a value when others are written over it. -/
def settle (d : Descriptor) (code : ℕ) (values : List (ℕ × ℤ)) (old : ℤ) : ℤ :=
  (values.filter (·.1 = code)).foldl (fun old p => defuzz (fuzz d code) p.2 old) old

/-- One of the values is reported, as none would be if all were what is left of them. -/
def Reports (d : Descriptor) (values : List (ℕ × ℤ)) (row : ℕ → ℤ) : Prop :=
  ∃ p ∈ values, defuzz (fuzz d p.1) p.2 (row p.1) ≠ row p.1

/-- The device once multi-touch values have been written. -/
theorem write_values (hd : d.slots ≤ 32) (hk : k.Sound d) {values : List (ℕ × ℤ)}
    (h : ∀ p ∈ values, SLOT < p.1) :
    let k' := (k.write d (values.map fun p => .abs p.1 p.2)).1
    (∀ slot c, k'.row slot c =
      if slot = k.staged then settle d c values (k.row slot c) else k.row slot c) ∧
      k'.state.keys = k.state.keys ∧ k'.staged = k.staged ∧
      (k'.state.slot = k.staged ∨ k'.state.slot = k.state.slot ∧
        ¬ Reports d values (k.row k.staged)) := by
  induction values generalizing k with
  | nil => exact ⟨fun slot c => by simp [write, settle], rfl, rfl, .inr ⟨rfl, by simp [Reports]⟩⟩
  | cons p values ih =>
      obtain ⟨hrow, hkeys, hstaged, hslot⟩ := handle_multi hd hk (h p (List.mem_cons_self ..)) p.2
      have hk₁ : (k.handle d (.abs p.1 p.2)).Sound d :=
        hk.handle hd fun he => absurd he (by rintro ⟨⟩)
      obtain ⟨hrow', hkeys', hstaged', hslot'⟩ := ih hk₁ fun q hq => h q (List.mem_cons_of_mem _ hq)
      refine ⟨fun slot c => ?_, hkeys'.trans hkeys, hstaged'.trans hstaged, ?_⟩
      · refine (hrow' slot c).trans ?_
        rw [hstaged, hrow slot c]
        by_cases hs : slot = k.staged
        · by_cases hc : p.1 = c
          · subst hc
            simp [settle, hs]
          · simp [settle, hs, hc, Ne.symm hc]
        · simp [hs]
      · rcases hslot' with hs' | ⟨hs', hquiet⟩
        · exact .inl (hs'.trans hstaged)
        rcases hslot with hs | ⟨hs, hsame⟩
        · exact .inl (hs'.trans hs)
        refine .inr ⟨hs'.trans hs, fun ⟨q, hq, hne⟩ => ?_⟩
        -- a value that is not reported is the one the slot had
        have hrows : (k.handle d (.abs p.1 p.2)).row k.staged = k.row k.staged := funext fun c => by
          rw [hrow]
          split_ifs with hc
          · rw [hc.2, hsame]
          · rfl
        rcases List.mem_cons.mp hq with rfl | hq
        · exact hne hsame
        · exact hquiet ⟨q, hq, by rwa [hstaged, hrows]⟩

/-- The device once a slot has been selected and multi-touch values have been written. -/
theorem write_slot (hd : d.slots ≤ 32) (hk : k.Sound d) {slot : ℕ} (hslot : slot < d.slots)
    {values : List (ℕ × ℤ)} (h : ∀ p ∈ values, SLOT < p.1) :
    let k' := (k.write d (.abs SLOT slot :: values.map fun p => .abs p.1 p.2)).1
    (∀ s c, k'.row s c = if s = slot then settle d c values (k.row s c) else k.row s c) ∧
      k'.state.keys = k.state.keys ∧ k'.staged = slot ∧
      (Reports d values (k.row slot) → k'.state.slot = slot) := by
  have hk' : ({ k with staged := slot } : InputDevice).Sound d :=
    ⟨hk.contacts, hk.slot, hslot, hk.keys⟩
  obtain ⟨hrow, hkeys, hstaged, hslot'⟩ := write_values hd hk' h
  rw [write, handle_slot hd hslot]
  exact ⟨hrow, hkeys, hstaged, fun hreports => hslot'.resolve_right fun hquiet => hquiet.2 hreports⟩

/-- **The device once the same values have been written to slots**, each of which reports one of
them. -/
theorem write_slots (hd : d.slots ≤ 32) (hk : k.Sound d) {slots : List ℕ}
    (hslots : ∀ s ∈ slots, s < d.slots) (hnodup : slots.Nodup) {values : List (ℕ × ℤ)}
    (h : ∀ p ∈ values, SLOT < p.1) (hreports : ∀ s ∈ slots, Reports d values (k.row s)) :
    let k' :=
      (k.write d (slots.flatMap fun slot : ℕ =>
        .abs SLOT slot :: values.map fun p => .abs p.1 p.2)).1
    (∀ s c, k'.row s c = if s ∈ slots then settle d c values (k.row s c) else k.row s c) ∧
      k'.state.keys = k.state.keys ∧ k'.staged = slots.getLast?.getD k.staged ∧
      k'.state.slot = slots.getLast?.getD k.state.slot := by
  induction slots generalizing k with
  | nil => simp [write]
  | cons slot slots ih =>
      obtain ⟨hfresh, hnodup⟩ := List.nodup_cons.mp hnodup
      have hs : slot < d.slots := hslots slot (List.mem_cons_self ..)
      obtain ⟨hrow, hkeys, hstaged, hslot⟩ := write_slot hd hk hs h
      have hkeys₁ : ∀ e ∈ Event.abs SLOT slot :: values.map fun p => .abs p.1 p.2,
          e.kind = .key → e.code ∈ d.keys := by
        intro e he hkey
        rcases List.mem_cons.mp he with rfl | he
        · cases hkey
        · obtain ⟨p, -, rfl⟩ := List.mem_map.mp he
          cases hkey
      have hk₁ := (hk.write hd hkeys₁).1
      simp only [List.flatMap_cons, write_append]
      generalize (k.write d (.abs SLOT slot :: values.map fun p => .abs p.1 p.2)).1 = k₁ at *
      have hrows : ∀ s ∈ slots, k₁.row s = k.row s := fun s hs => funext fun c =>
        (hrow s c).trans (if_neg fun he : s = slot => hfresh (he ▸ hs))
      obtain ⟨hrow', hkeys', hstaged', hslot'⟩ :=
        ih hk₁ (fun s hs => hslots s (List.mem_cons_of_mem _ hs)) hnodup
        fun s hs => hrows s hs ▸ hreports s (List.mem_cons_of_mem _ hs)
      refine ⟨fun s c => ?_, hkeys'.trans hkeys, ?_, ?_⟩
      · rw [hrow', hrow]
        by_cases he : s = slot
        · simp [he, hfresh]
        · simp [he]
      · rw [hstaged', hstaged, List.getLast?_cons, Option.getD_some]
      · rw [hslot', hslot (hreports slot (List.mem_cons_self ..)), List.getLast?_cons,
          Option.getD_some]

end InputDevice

/-! ### The frames -/

namespace Descriptor

variable {d : Descriptor} {a : AxisInfo}

/-- What is written to a slot: a tracking id, and values of every other axis. -/
def slotValues (d : Descriptor) (tracking : ℤ) (values : AxisInfo → List ℤ) : List (ℕ × ℤ) :=
  (TRACKING, tracking) :: d.slotAxes.flatMap fun a => (values a).map (a.code, ·)

/-- The hidden frame by its parts: keys, slots, single-touch axes. -/
theorem hiddenFrame_eq : d.hiddenFrame = d.keys.map (.key · 0) ++
    d.everySlot ((d.slotValues (-1) fun a => [a.minimum, a.maximum]).map fun p => .abs p.1 p.2) ++
    (d.plainAxes.map fun a => (a.code, a.maximum)).map fun p => .abs p.1 p.2 := by
  simp only [hiddenFrame, slotValues, List.map_cons, List.map_flatMap, List.map_map, List.map_nil]
  rfl

/-- The neutral frame by its parts. -/
theorem neutralFrame_eq : d.neutralFrame = (d.keys.filter (325 ≤ ·)).map (.key · 0) ++
    d.everySlot ((d.slotValues (-1) fun a => [a.minimum]).map fun p => .abs p.1 p.2) ++
    (d.plainAxes.map fun a => (a.code, a.minimum)).map fun p => .abs p.1 p.2 := by
  have hvalues : d.slotAxes.map (fun a => Event.abs a.code a.minimum) =
      d.slotAxes.flatMap fun a => [Event.abs a.code a.minimum] := List.map_eq_flatMap
  simp only [neutralFrame, hvalues, slotValues, List.map_cons, List.map_flatMap,
    List.map_map, List.map_nil]
  rfl

/-- The frame that begins contacts, as values for every slot. -/
theorem beginFrame_eq (tracking : ℤ) : d.everySlot [.abs TRACKING tracking] =
    d.everySlot ((d.slotValues tracking fun _ => []).map fun p => .abs p.1 p.2) := by
  have hnone : (d.slotAxes.flatMap fun _ => ([] : List (ℕ × ℤ))) = [] :=
    List.flatMap_eq_nil_iff.mpr fun _ _ => rfl
  simp only [slotValues, List.map_nil, hnone, List.map_cons]

/-- Handoff frames are made for a valid descriptor with a contact axis wider than twice its fuzz. -/
theorem handoffFrames_spec {hidden neutral : List Event}
    (h : d.handoffFrames = .ok (hidden, neutral)) :
    d.validate = .ok () ∧ hidden = d.hiddenFrame ∧ neutral = d.neutralFrame ∧
      ∃ a ∈ d.axes, (a.code = 53 ∨ a.code = 54) ∧ 2 * a.fuzz < a.maximum - a.minimum := by
  simp only [handoffFrames, bind_eq_ok, ensure_eq_ok] at h
  obtain ⟨_, hvalid, _, hany, _, -, h⟩ := h
  obtain ⟨a, ha, hcode⟩ := List.any_eq_true.mp hany
  cases h
  exact ⟨hvalid, rfl, rfl, a, ha, by simpa using hcode⟩

theorem slots_pos (h : d.validate = .ok ()) : 0 < d.slots :=
  (Nat.zero_le _).trans_lt (TouchState.neutral_new h).slot

/-- The axes written for each slot are multi-touch ones other than the tracking id. -/
theorem slotAxes_spec {b : AxisInfo} (hb : b ∈ d.slotAxes) :
    b ∈ d.axes ∧ SLOT < b.code ∧ b.code ≠ TRACKING := by
  obtain ⟨hmem, hcode⟩ := List.mem_filter.mp hb
  exact ⟨hmem, by simpa using hcode⟩

/-- The positions of a contact are written for each slot. -/
theorem mem_slotAxes (ha : a ∈ d.axes) (hcode : a.code = 53 ∨ a.code = 54) : a ∈ d.slotAxes := by
  refine List.mem_filter.mpr ⟨ha, ?_⟩
  rcases hcode with hcode | hcode <;> simp [hcode, SLOT, TRACKING]

/-- The fuzz of an axis is that of the descriptor, and is not negative. -/
theorem fuzz_of_mem (hd : d.validate = .ok ()) (ha : a ∈ d.axes) :
    InputDevice.fuzz d a.code = a.fuzz ∧ 0 ≤ a.fuzz := by
  obtain ⟨-, -, hcalibration⟩ := (validateAxes_spec (validate_axes hd)).1 a ha
  exact ⟨by rw [InputDevice.fuzz, axis?_of_mem hd ha]; rfl,
    (hcalibration _ (List.mem_cons_self ..)).1⟩

/-- Of the values for every axis, those of one axis. -/
theorem filter_values {axes : List AxisInfo} (hnodup : (axes.map AxisInfo.code).Nodup)
    (ha : a ∈ axes) {values : AxisInfo → List ℤ} :
    (axes.flatMap fun b => (values b).map (b.code, ·)).filter (·.1 = a.code) =
    (values a).map (a.code, ·) := by
  have hother : ∀ b : AxisInfo, b.code ≠ a.code →
      ((values b).map (b.code, ·)).filter (fun p => decide (p.1 = a.code)) = [] := fun b hb =>
    List.filter_eq_nil_iff.mpr fun p hp => by
      obtain ⟨v, -, rfl⟩ := List.mem_map.mp hp
      simpa using hb
  have hself :
      ((values a).map (a.code, ·)).filter (fun p => decide (p.1 = a.code)) =
      (values a).map (a.code, ·) :=
    List.filter_eq_self.mpr fun p hp => by
      obtain ⟨v, -, rfl⟩ := List.mem_map.mp hp
      simp
  induction axes with
  | nil => exact absurd ha List.not_mem_nil
  | cons b axes ih =>
      obtain ⟨hfresh, hnodup⟩ := List.nodup_cons.mp hnodup
      rw [List.flatMap_cons, List.filter_append]
      rcases List.mem_cons.mp ha with rfl | ha
      · have hrest :
            (axes.flatMap fun b => (values b).map (b.code, ·)).filter (·.1 = a.code) = [] := by
          rw [List.filter_flatMap, List.flatMap_eq_nil_iff]
          exact fun c hc => hother c fun he => hfresh (he ▸ List.mem_map_of_mem hc)
        rw [hself, hrest, List.append_nil]
      · rw [ih hnodup ha, hother b fun he => hfresh (he ▸ List.mem_map_of_mem ha), List.nil_append]

variable {tracking : ℤ} {values : AxisInfo → List ℤ}

variable (tracking values) in
/-- What is written to a slot is multi-touch. -/
theorem slotValues_lt : ∀ p ∈ d.slotValues tracking values, SLOT < p.1 := by
  intro p hp
  rcases List.mem_cons.mp hp with rfl | hp
  · exact show SLOT < TRACKING by decide
  · obtain ⟨b, hb, hp⟩ := List.mem_flatMap.mp hp
    obtain ⟨v, -, rfl⟩ := List.mem_map.mp hp
    exact (slotAxes_spec hb).2.1

/-- The tracking id is left as it was written. -/
theorem settle_tracking (hfuzz : InputDevice.fuzz d TRACKING = 0) (old : ℤ) :
    InputDevice.settle d TRACKING (d.slotValues tracking values) old = tracking := by
  have hrest :
      (d.slotAxes.flatMap fun b => (values b).map (b.code, ·)).filter (·.1 = TRACKING) = [] :=
    List.filter_eq_nil_iff.mpr fun p hp => by
      obtain ⟨b, hb, hp⟩ := List.mem_flatMap.mp hp
      obtain ⟨v, -, rfl⟩ := List.mem_map.mp hp
      simpa using (slotAxes_spec hb).2.2
  rw [InputDevice.settle, slotValues, List.filter_cons_of_pos (by simp), hrest]
  simp [hfuzz, defuzz]

/-- Of an axis, the values written for it are what counts. -/
theorem settle_axis (hd : d.validate = .ok ()) (ha : a ∈ d.axes)
    (hcode : a.code = 53 ∨ a.code = 54) (old : ℤ) :
    InputDevice.settle d a.code (d.slotValues tracking values) old =
      (values a).foldl (fun old v => defuzz a.fuzz v old) old := by
  have hne : TRACKING ≠ a.code := by
    rcases hcode with h | h <;> rw [h] <;> decide
  have hnodup : (d.slotAxes.map AxisInfo.code).Nodup :=
    (validateAxes_spec (validate_axes hd)).2.2.sublist (List.filter_sublist.map _)
  rw [InputDevice.settle, slotValues, List.filter_cons_of_neg (by simpa using hne),
    filter_values hnodup (mem_slotAxes ha hcode), List.foldl_map, (fuzz_of_mem hd ha).1]

/-- An axis that reports the minimum and then the maximum reports one of them. -/
theorem reports_of_axis (hd : d.validate = .ok ()) (ha : a ∈ d.axes)
    (hcode : a.code = 53 ∨ a.code = 54) {row : ℕ → ℤ}
    (h : ∃ v ∈ values a, defuzz a.fuzz v (row a.code) ≠ row a.code) :
    InputDevice.Reports d (d.slotValues tracking values) row := by
  obtain ⟨v, hv, hne⟩ := h
  refine ⟨(a.code, v), List.mem_cons_of_mem _ (List.mem_flatMap.mpr ⟨a, mem_slotAxes ha hcode, ?_⟩),
    ?_⟩
  · exact List.mem_map_of_mem hv
  · rwa [(fuzz_of_mem hd ha).1]

end Descriptor

namespace InputDevice

variable {d : Descriptor} {k : InputDevice} {a : AxisInfo} {tracking : ℤ}
  {values : AxisInfo → List ℤ}

/-- The releases are of keys of the device. -/
theorem releases_spec (codes : List ℕ) (h : ∀ code ∈ codes, code ∈ d.keys) :
    ∀ e ∈ codes.map (Event.key · 0), e.kind = .key → e.code ∈ d.keys := fun e he _ => by
  obtain ⟨code, hcode, rfl⟩ := List.mem_map.mp he
  exact h code hcode

/-- The values of the slots depend on the contacts alone. -/
theorem row_congr {k' : InputDevice} (h : k'.state.contacts = k.state.contacts) :
    k'.row = k.row := by
  funext slot code
  simp only [row, cellValue, h]

variable (tracking values) in
/-- The device once the same values have been written to every slot. -/
theorem write_everySlot (hd : d.validate = .ok ()) (hk : k.Sound d)
    (hreports : ∀ s < d.slots, Reports d (d.slotValues tracking values) (k.row s)) :
    let k' := (k.write d (d.everySlot ((d.slotValues tracking values).map fun p => .abs p.1 p.2))).1
    (∀ s < d.slots, ∀ c, k'.row s c = settle d c (d.slotValues tracking values) (k.row s c)) ∧
      k'.state.keys = k.state.keys ∧ k'.staged = d.slots - 1 ∧ k'.state.slot = d.slots - 1 := by
  obtain ⟨hrow, hkeys, hstaged, hslot⟩ := write_slots (Descriptor.slots_le hd) hk
    (fun s hs => List.mem_range.mp hs) List.nodup_range (Descriptor.slotValues_lt tracking values)
    fun s hs => hreports s (List.mem_range.mp hs)
  have hlast : (List.range d.slots).getLast? = some (d.slots - 1) := by
    have := Descriptor.slots_pos hd
    simp [List.getLast?_range, this.ne']
  rw [hlast, Option.getD_some] at hstaged hslot
  exact ⟨fun s hs c => (hrow s c).trans (if_pos (List.mem_range.mpr hs)), hkeys, hstaged, hslot⟩

theorem absolute_values {values : List (ℕ × ℤ)} :
    ∀ e ∈ values.map fun p => Event.abs p.1 p.2, e.kind = .absolute := fun e he => by
  obtain ⟨p, -, rfl⟩ := List.mem_map.mp he
  rfl

theorem absolute_everySlot (values : List (ℕ × ℤ)) :
    ∀ e ∈ d.everySlot (values.map fun p => .abs p.1 p.2), e.kind = .absolute := fun e he => by
  obtain ⟨s, -, he⟩ := List.mem_flatMap.mp he
  rcases List.mem_cons.mp he with rfl | he
  · rfl
  · exact absolute_values e he

/-- A frame without keys keeps the keys and slots of the device. -/
theorem Sound.write_absolute (hd : d.validate = .ok ()) (hk : k.Sound d) {es : List Event}
    (hes : ∀ e ∈ es, e.kind = .absolute) : (k.write d es).1.Sound d :=
  (hk.write (Descriptor.slots_le hd) fun e he hkey =>
    absurd ((hes e he).symm.trans hkey) (by simp)).1

theorem plainAxes_lt (value : AxisInfo → ℤ) :
    ∀ p ∈ d.plainAxes.map fun a => (a.code, value a), p.1 < SLOT := fun p hp => by
  obtain ⟨b, hb, rfl⟩ := List.mem_map.mp hp
  simpa using (List.mem_filter.mp hb).2

/-- The device under the grab: no key is pressed, the last slot is the current one, all slots have
the same tracking id, and the minimum of the axis would be reported in every slot. -/
structure Hidden (d : Descriptor) (a : AxisInfo) (tracking : ℤ) (k : InputDevice) : Prop where
  sound : k.Sound d
  keys : k.state.keys = ∅
  staged : k.staged = d.slots - 1
  slot : k.state.slot = d.slots - 1
  tracking : ∀ s < d.slots, k.row s TRACKING = tracking
  axis : ∀ s < d.slots, defuzz a.fuzz a.minimum (k.row s a.code) ≠ k.row s a.code

/-- After the hidden frame no contact is left, whatever the device held. -/
theorem hidden_write (hd : d.validate = .ok ()) (hfuzz : fuzz d TRACKING = 0) (ha : a ∈ d.axes)
    (hcode : a.code = 53 ∨ a.code = 54) (hrange : 2 * a.fuzz < a.maximum - a.minimum)
    (hk : k.Sound d) :
    Hidden d a (-1) (k.write d d.hiddenFrame).1 := by
  have hspread := defuzz_spread (Descriptor.fuzz_of_mem hd ha).2 hrange
  obtain ⟨hcontacts, hslot, hstaged, hkeys⟩ := write_releases (d := d) (k := k) d.keys
  have hk₁ := (hk.write (Descriptor.slots_le hd) (releases_spec _ fun _ => id)).1
  rw [Descriptor.hiddenFrame_eq, write_append, write_append]
  generalize (k.write d (d.keys.map (.key · 0))).1 = k₁ at *
  have hnone : k₁.state.keys = ∅ :=
    SortedSet.eq_empty_iff.mpr fun code hmem => ((hkeys code).mp hmem).2 (hk₁.keys code hmem)
  -- one of minimum and maximum gets through in every slot
  have hreports : ∀ s < d.slots,
      Reports d (d.slotValues (-1) fun a => [a.minimum, a.maximum]) (k₁.row s) := fun s _ =>
    Descriptor.reports_of_axis hd ha hcode (by
      by_contra hquiet
      obtain ⟨hlow, hhigh⟩ : defuzz a.fuzz a.minimum (k₁.row s a.code) = k₁.row s a.code ∧
          defuzz a.fuzz a.maximum (k₁.row s a.code) = k₁.row s a.code := by simpa using hquiet
      have := (hspread (k₁.row s a.code)).1
      rw [hlow] at this
      exact this hhigh)
  obtain ⟨hrow, hkeys₂, hstaged₂, hslot₂⟩ := write_everySlot _ _ hd hk₁ hreports
  have hk₂ := hk₁.write_absolute hd (absolute_everySlot (d := d)
    (d.slotValues (-1) fun a => [a.minimum, a.maximum]))
  generalize (k₁.write d (d.everySlot _)).1 = k₂ at *
  have hplain : ∀ p ∈ d.plainAxes.map fun a => (a.code, a.maximum), p.1 < SLOT :=
    plainAxes_lt AxisInfo.maximum
  obtain ⟨hkeys₃, hcontacts₃, hslot₃, hstaged₃⟩ := write_plain (d := d) (k := k₂) hplain
  have hrow₃ := row_congr hcontacts₃
  refine ⟨hk₂.write_absolute hd absolute_values, ?_, hstaged₃.trans hstaged₂, hslot₃.trans hslot₂,
    fun s hs => ?_, fun s hs => ?_⟩
  · exact hkeys₃.trans (hkeys₂.trans hnone)
  · rw [hrow₃, hrow s hs, Descriptor.settle_tracking hfuzz]
  · rw [hrow₃, hrow s hs, Descriptor.settle_axis hd ha hcode]
    exact (hspread _).2

/-- A contact has been begun in every slot, and no reader is told of it. -/
theorem Hidden.begin (hd : d.validate = .ok ()) (hfuzz : fuzz d TRACKING = 0) (ha : a ∈ d.axes)
    (hcode : a.code = 53 ∨ a.code = 54) (hk : Hidden d a (-1) k) (htracking : 0 ≤ tracking) :
    Hidden d a tracking (k.write d (d.everySlot [.abs TRACKING tracking])).1 := by
  rw [Descriptor.beginFrame_eq]
  obtain ⟨hrow, hkeys, hstaged, hslot⟩ := write_everySlot tracking (fun _ => []) hd hk.sound
    fun s hs => ⟨(TRACKING, tracking), List.mem_cons_self .., by
      rw [hk.tracking s hs, hfuzz, defuzz, if_neg (by simp)]
      exact fun he : tracking = -1 => by omega⟩
  refine ⟨hk.sound.write_absolute hd (absolute_everySlot _), hkeys.trans hk.keys, hstaged, hslot,
    fun s hs => ?_, fun s hs => ?_⟩
  · rw [hrow s hs, Descriptor.settle_tracking hfuzz]
  · rw [hrow s hs, Descriptor.settle_axis hd ha hcode]
    exact hk.axis s hs

/-! ### The neutral frame -/

section Neutral

variable {r : TouchState}

/-- What the neutral frame writes to a slot. -/
def toSlot (d : Descriptor) : List Event :=
  (d.slotValues (-1) fun a => [a.minimum]).map fun p => .abs p.1 p.2

/-- The neutral frame up to the first slot. -/
def toFirst (d : Descriptor) : List Event :=
  (d.keys.filter (325 ≤ ·)).map (.key · 0) ++ .abs SLOT (0 : ℕ) :: toSlot d

/-- After the first slot the neutral frame has no keys. -/
theorem neutralFrame_split (hd : d.validate = .ok ()) :
    ∃ rest, d.neutralFrame = toFirst d ++ rest ∧ ∀ e ∈ rest, e.kind = .absolute := by
  obtain ⟨m, hm⟩ := Nat.exists_eq_succ_of_ne_zero (Descriptor.slots_pos hd).ne'
  refine ⟨((List.range m).map Nat.succ).flatMap (fun slot : ℕ => .abs SLOT slot :: toSlot d) ++
    (d.plainAxes.map fun a => (a.code, a.minimum)).map fun p => .abs p.1 p.2, ?_, fun e he => ?_⟩
  · rw [Descriptor.neutralFrame_eq, Descriptor.everySlot, hm, List.range_succ_eq_map,
      List.flatMap_cons]
    simp only [toFirst, toSlot, List.append_assoc]
  · rcases List.mem_append.mp he with he | he
    · obtain ⟨s, -, he⟩ := List.mem_flatMap.mp he
      rcases List.mem_cons.mp he with rfl | he
      · rfl
      · exact absolute_values e he
    · exact absolute_values e he

/-- The device once the first slot has been written: it is the current one, and its contact is
gone. -/
theorem Hidden.first (hd : d.validate = .ok ()) (hfuzz : fuzz d TRACKING = 0) (ha : a ∈ d.axes)
    (hcode : a.code = 53 ∨ a.code = 54) (hk : Hidden d a tracking k) :
    let k' := (k.write d (toFirst d)).1
    k'.Sound d ∧ k'.state.slot = 0 ∧ k'.row 0 TRACKING = -1 ∧
      ∀ s, s ≠ 0 → k'.row s TRACKING = k.row s TRACKING := by
  obtain ⟨hcontacts, -, -, -⟩ := write_releases (d := d) (k := k) (d.keys.filter (325 ≤ ·))
  have hk₁ := (hk.sound.write (Descriptor.slots_le hd)
    (releases_spec (d.keys.filter (325 ≤ ·)) fun code hcode => List.mem_of_mem_filter hcode)).1
  rw [toFirst, write_append]
  generalize (k.write d ((d.keys.filter (325 ≤ ·)).map (.key · 0))).1 = k₁ at *
  have hrow₁ := row_congr hcontacts
  obtain ⟨hrow, -, -, hslot⟩ := write_slot (Descriptor.slots_le hd) hk₁ (Descriptor.slots_pos hd)
    (Descriptor.slotValues_lt (-1) fun a => [a.minimum])
  refine ⟨hk₁.write_absolute hd fun e he => ?_, hslot ?_, ?_, fun s hs => ?_⟩
  · rcases List.mem_cons.mp he with rfl | he
    · rfl
    · exact absolute_values e he
  · refine Descriptor.reports_of_axis hd ha hcode ⟨a.minimum, List.mem_singleton_self _, ?_⟩
    rw [hrow₁]
    exact hk.axis 0 (Descriptor.slots_pos hd)
  · exact (hrow 0 TRACKING).trans (by rw [if_pos rfl, Descriptor.settle_tracking hfuzz])
  · exact (hrow s TRACKING).trans (by rw [if_neg hs, hrow₁])

/-- The device once the neutral frame has been written. -/
theorem Hidden.neutral (hd : d.validate = .ok ()) (hfuzz : fuzz d TRACKING = 0) (ha : a ∈ d.axes)
    (hcode : a.code = 53 ∨ a.code = 54) (hk : Hidden d a tracking k) :
    let k' := (k.write d d.neutralFrame).1
    k'.Sound d ∧ k'.state.keys = ∅ ∧ k'.staged = d.slots - 1 ∧ k'.state.slot = d.slots - 1 ∧
      ∀ s < d.slots, k'.row s TRACKING = -1 := by
  obtain ⟨hcontacts, hslot, hstaged, hkeys⟩ :=
    write_releases (d := d) (k := k) (d.keys.filter (325 ≤ ·))
  have hk₁ := (hk.sound.write (Descriptor.slots_le hd)
    (releases_spec (d.keys.filter (325 ≤ ·)) fun code hcode => List.mem_of_mem_filter hcode)).1
  rw [Descriptor.neutralFrame_eq, write_append, write_append]
  generalize (k.write d ((d.keys.filter (325 ≤ ·)).map (.key · 0))).1 = k₁ at *
  have hrow₁ := row_congr hcontacts
  have hnone : k₁.state.keys = ∅ :=
    SortedSet.eq_empty_iff.mpr fun code hmem => by simpa [hk.keys] using (hkeys code).mp hmem
  obtain ⟨hrow, hkeys₂, hstaged₂, hslot₂⟩ := write_everySlot (-1) (fun a => [a.minimum]) hd hk₁
    fun s hs => Descriptor.reports_of_axis hd ha hcode ⟨a.minimum, List.mem_singleton_self _, by
      rw [hrow₁]
      exact hk.axis s hs⟩
  have hk₂ :=
    hk₁.write_absolute hd (absolute_everySlot (d := d) (d.slotValues (-1) fun a => [a.minimum]))
  generalize (k₁.write d (d.everySlot _)).1 = k₂ at *
  obtain ⟨hkeys₃, hcontacts₃, hslot₃, hstaged₃⟩ := write_plain (d := d) (k := k₂)
    (plainAxes_lt (d := d) AxisInfo.minimum)
  refine ⟨hk₂.write_absolute hd absolute_values, hkeys₃.trans (hkeys₂.trans hnone),
    hstaged₃.trans hstaged₂, hslot₃.trans hslot₂, fun s hs => ?_⟩
  rw [row_congr hcontacts₃, hrow s hs, Descriptor.settle_tracking hfuzz]

/-- What is reported of a frame selects slots of the device, and is a stream of deltas to any
reader. -/
theorem table_shown (hd : d.validate = .ok ()) (hk : k.Sound d) (hr : r.Within d.slots)
    {es : List Event} (hes : ∀ e ∈ es, e.kind = .key → e.code ∈ d.keys) :
    (r.apply (k.write d es).2).Within d.slots ∧
      (r.apply (k.write d es).2).table = r.table.run (deltas (k.write d es).2) := by
  obtain ⟨hlen, hslot⟩ := hr
  have hseeks := (hk.write (Descriptor.slots_le hd) hes).2
  rw [← hlen] at hslot hseeks
  obtain ⟨htable, hslot'⟩ := TouchState.table_apply hslot hseeks
  exact ⟨⟨(TouchState.length_contacts_apply _ _).trans hlen, hlen ▸ hslot'⟩, htable⟩

/-- A value of a slot changes only if the reader is told. -/
theorem written_of_row_ne (hd : d.validate = .ok ()) (hk : k.Sound d) {es : List Event}
    (hes : ∀ e ∈ es, e.kind = .key → e.code ∈ d.keys) {slot code : ℕ}
    (hne : (k.write d es).1.row slot code ≠ k.row slot code) :
    Written slot code k.state.slot (deltas (k.write d es).2) := by
  by_contra hw
  have htable := (table_shown hd hk ⟨hk.contacts, hk.slot⟩ hes).2
  rw [← state_write] at htable
  have hcell := congrArg (fun t => t.cell slot code) htable
  rw [cell_run_of_not_written (t := k.state.table) hw] at hcell
  exact hne (congrArg (fun v => v.getD 0) hcell)

/-- **A reader of the neutral frame** is in the device's slot afterwards, and if a contact was begun
in every slot it has seen each of them end. -/
theorem Hidden.reader (hd : d.validate = .ok ()) (hfuzz : fuzz d TRACKING = 0) (ha : a ∈ d.axes)
    (hcode : a.code = 53 ∨ a.code = 54) (hk : Hidden d a tracking k) (hr : r.Within d.slots) :
    let r' := r.apply (k.write d d.neutralFrame).2
    r'.slot = (k.write d d.neutralFrame).1.state.slot ∧
      (0 ≤ tracking → ∀ s < d.slots, r'.trackingAt s = -1) := by
  obtain ⟨-, -, -, -, htracking⟩ := hk.neutral hd hfuzz ha hcode
  obtain ⟨rest, hsplit, hrest⟩ := neutralFrame_split hd
  obtain ⟨hk₁, hslot, hzero, hothers⟩ := hk.first hd hfuzz ha hcode
  rw [hsplit, write_append] at htracking ⊢
  have hkeys : ∀ e ∈ toFirst d, e.kind = .key → e.code ∈ d.keys := fun e he hkey => by
    rcases List.mem_append.mp he with he | he
    · exact releases_spec _ (fun code hcode => List.mem_of_mem_filter hcode) e he hkey
    · rcases List.mem_cons.mp he with rfl | he
      · cases hkey
      · exact absurd ((absolute_values e he).symm.trans hkey) (by simp)
  obtain ⟨hr₁, htable₁⟩ := table_shown hd hk.sound hr hkeys
  have hk₁table := (table_shown hd hk.sound ⟨hk.sound.contacts, hk.sound.slot⟩ hkeys).2
  rw [← state_write] at hk₁table
  -- with one slot there is no other to be in, and with more the first is not the last
  have honly : k.state.slot = 0 → r.slot = 0 := fun h => by
    have := hr.2
    have := hk.slot
    omega
  have hslot₁ :
      (r.apply (k.write d (toFirst d)).2).slot = (k.write d (toFirst d)).1.state.slot := by
    rw [state_write]
    refine TouchState.slot_apply_of_moved fun hstay => ?_
    rw [← state_write, hslot] at hstay
    exact (honly hstay.symm).trans hstay
  have hrest' : ∀ e ∈ rest, e.kind = .key → e.code ∈ d.keys := fun e he hkey =>
    absurd ((hrest e he).symm.trans hkey) (by simp)
  obtain ⟨-, htable₂⟩ := table_shown hd hk₁ hr₁ hrest'
  have hk₂table := (table_shown hd hk₁ ⟨hk₁.contacts, hk₁.slot⟩ hrest').2
  rw [← state_write] at hk₂table
  rw [TouchState.apply_append]
  refine ⟨?_, fun h₀ s hs => ?_⟩
  · rw [state_write]
    exact TouchState.slot_apply_of_moved fun _ => hslot₁
  -- the first slot is written at once, or after the reader is told of it
  have hfirstCell : (r.apply (k.write d (toFirst d)).2).cell 0 TRACKING =
      (k.write d (toFirst d)).1.state.cell 0 TRACKING := by
    have hne : (k.write d (toFirst d)).1.row 0 TRACKING ≠ k.row 0 TRACKING := by
      rw [hzero, hk.tracking 0 (Descriptor.slots_pos hd)]
      omega
    have hw := written_of_row_ne hd hk.sound hkeys hne
    -- the others are written after the device and the reader are in the same slot
    have hcell := congrArg (fun t => t.cell 0 TRACKING) htable₁
    have hkcell := congrArg (fun t => t.cell 0 TRACKING) hk₁table
    refine hcell.trans (Eq.trans ?_ hkcell.symm)
    by_cases hcursor : k.state.slot = 0
    · exact (cell_run_of_written (t := k.state.table) (u := r.table)
        (hcursor.trans (honly hcursor).symm) hw).symm
    · exact (cell_run_of_sought (t := k.state.table) (u := r.table) hcursor hw).symm
  have hcell :
    ((r.apply (k.write d (toFirst d)).2).apply ((k.write d (toFirst d)).1.write d rest).2).cell s
      TRACKING = ((k.write d (toFirst d)).1.write d rest).1.state.cell s TRACKING := by
    have hcell := congrArg (fun t => t.cell s TRACKING) htable₂
    have hkcell := congrArg (fun t => t.cell s TRACKING) hk₂table
    refine hcell.trans (Eq.trans (Eq.symm ?_) hkcell.symm)
    refine (cell_run_eq_iff (t := (k.write d (toFirst d)).1.state.table)
      (u := (r.apply (k.write d (toFirst d)).2).table) hslot₁.symm _).mpr ?_
    by_cases hs₀ : s = 0
    · exact .inr (hs₀ ▸ hfirstCell.symm)
    · refine .inl (written_of_row_ne hd hk₁ hrest' ?_)
      rw [htracking s hs, hothers s hs₀, hk.tracking s hs]
      omega
  rw [TouchState.trackingAt, hcell]
  exact trackingAt_of_row (htracking s hs)

/-- The neutral frame releases keys of the device and lifts contacts; it begins none. -/
theorem neutralFrame_spec {e : Event} (he : e ∈ d.neutralFrame) :
    (e.kind = .key → e.code ∈ d.keys ∧ e.value = 0) ∧ (e.kind = .absolute → e.code = TRACKING →
      e.value = -1) := by
  rw [Descriptor.neutralFrame_eq] at he
  rcases List.mem_append.mp he with he | he
  · rcases List.mem_append.mp he with he | he
    · obtain ⟨code, hcode, rfl⟩ := List.mem_map.mp he
      exact ⟨fun _ => ⟨List.mem_of_mem_filter hcode, rfl⟩, by rintro ⟨⟩⟩
    · refine ⟨fun hkey => (absurd ((absolute_everySlot _ e he).symm.trans hkey) (by simp)),
        fun _ hcode => ?_⟩
      obtain ⟨s, -, he⟩ := List.mem_flatMap.mp he
      rcases List.mem_cons.mp he with rfl | he
      · exact absurd hcode (show ¬ SLOT = TRACKING by decide)
      · obtain ⟨p, hp, rfl⟩ := List.mem_map.mp he
        rcases List.mem_cons.mp hp with rfl | hp
        · rfl
        · obtain ⟨b, hb, hp⟩ := List.mem_flatMap.mp hp
          obtain ⟨v, -, rfl⟩ := List.mem_map.mp hp
          exact absurd hcode (Descriptor.slotAxes_spec hb).2.2
  · obtain ⟨p, hp, rfl⟩ := List.mem_map.mp he
    exact ⟨by rintro ⟨⟩, fun _ hcode => absurd hcode fun hcode : p.1 = TRACKING =>
      absurd (hcode ▸ plainAxes_lt _ p hp) (by decide)⟩

/-- No press and no beginning is reported of the neutral frame. -/
theorem neutral_shown (hfuzz : fuzz d TRACKING = 0) {e : Event}
    (he : e ∈ (k.write d d.neutralFrame).2) :
    (e.kind = .key → e.value = 0) ∧ (e.kind = .absolute → e.code = TRACKING → e.value < 0) := by
  rcases mem_write he with ⟨staged, rfl⟩ | ⟨hmem, hkey⟩ | ⟨e', he', old, rfl, habs⟩
  · exact ⟨by rintro ⟨⟩, fun _ hcode => absurd hcode (show ¬ SLOT = TRACKING by decide)⟩
  · exact ⟨fun hk =>
      ((neutralFrame_spec hmem).1 hk).2, fun ha => absurd (hkey.symm.trans ha) (by simp)⟩
  · refine ⟨by rintro ⟨⟩, fun _ (hcode : e'.code = TRACKING) => ?_⟩
    have hvalue := (neutralFrame_spec he').2 habs hcode
    simp [Event.abs, hcode, hfuzz, hvalue, defuzz]

end Neutral

end InputDevice

open InputDevice TouchState

/-- A handoff that succeeds has written the hidden frame, contacts to repair if asked to, and the
neutral frame. -/
theorem finishPhysicalHandoff_spec {answers : HandoffAnswers} {d : Descriptor}
    {grabbed repair : Bool} {k k' : InputDevice} {shown : List Event}
    (h : finishPhysicalHandoff answers d grabbed repair k = .ok (k', shown)) :
    (∃ hidden neutral, d.handoffFrames = .ok (hidden, neutral)) ∧
      ((repair = false ∧ (k', shown) = (k.write d d.hiddenFrame).1.write d d.neutralFrame) ∨
        ∃ tracking, 0 ≤ tracking ∧ repair = true ∧ (k', shown) =
          ((k.write d d.hiddenFrame).1.write d (d.everySlot [.abs TRACKING tracking])).1.write d
            d.neutralFrame) := by
  simp only [finishPhysicalHandoff, bind_eq_ok] at h
  obtain ⟨_, -, ⟨hidden, neutral⟩, hframes, hidden', hrepair, _, -, _, -, _, -, h⟩ := h
  obtain ⟨-, rfl, rfl, -⟩ := Descriptor.handoffFrames_spec hframes
  refine ⟨⟨_, _, hframes⟩, ?_⟩
  cases repair with
  | false =>
      cases hrepair
      exact .inl ⟨rfl, (Except.ok.inj h).symm⟩
  | true =>
      simp only [if_true, Descriptor.repairFrame, bind_eq_ok] at hrepair
      obtain ⟨tracking, -, _, -, _, -, hrepair⟩ := hrepair
      cases hrepair
      refine .inr ⟨max tracking.minimum 0, le_max_right _ _, rfl, ?_⟩
      rw [write_append] at h
      exact (Except.ok.inj h).symm

/-- **A handoff leaves the readers where the device is.**  Whatever the device held under the grab,
it and every other reader are then in the same slot and hold no contact, and no reader has been
shown a press or the beginning of a contact: readers that were idle, or with the repair readers with
any contacts. -/
theorem handoff_synchronizes {d : Descriptor} {frames : List Event × List Event} {k : InputDevice}
    {reader : TouchState} (hframes : d.handoffFrames = .ok frames) (hfuzz : fuzz d TRACKING = 0)
    (hk : k.Sound d) (hreader : reader.Within d.slots) :
    (∃ done, finishPhysicalHandoff ⟨.ok (), .ok (), .ok ()⟩ d true false k = .ok done) ∧
      ∀ answers grabbed repair k' shown,
        finishPhysicalHandoff answers d grabbed repair k = .ok (k', shown) →
          (reader.apply shown).slot = k'.state.slot ∧ k'.staged = k'.state.slot ∧
          k'.state.idle = true ∧ (∀ e ∈ shown, (e.kind = .key → e.value = 0) ∧
            (e.kind = .absolute → e.code = TRACKING → e.value < 0)) ∧
          (reader.idle = true → (reader.apply shown).idle = true) ∧
          (repair = true → ∀ s, (reader.apply shown).contactAt s = none) := by
  obtain ⟨hidden, neutral⟩ := frames
  obtain ⟨hd, rfl, rfl, a, ha, hcode, hrange⟩ := Descriptor.handoffFrames_spec hframes
  refine ⟨⟨(k.write d d.hiddenFrame).1.write d d.neutralFrame, by
    simp [finishPhysicalHandoff, hframes, ensure, bind, Except.bind]; rfl⟩,
      fun answers grabbed repair k' shown h => ?_⟩
  have hhidden := hidden_write hd hfuzz ha hcode hrange hk
  -- the device before the neutral frame, and the tracking id it then has in every slot
  obtain ⟨k₁, tracking, hk₁, htracking, hrun⟩ : ∃ k₁ tracking, Hidden d a tracking k₁ ∧
      (repair = true → 0 ≤ tracking) ∧ (k', shown) = k₁.write d d.neutralFrame := by
    obtain ⟨-, ⟨rfl, hrun⟩ | ⟨tracking, h₀, -, hrun⟩⟩ := finishPhysicalHandoff_spec h
    · exact ⟨_, _, hhidden, by simp, hrun⟩
    · exact ⟨_, _, hhidden.begin hd hfuzz ha hcode h₀, fun _ => h₀, hrun⟩
  obtain ⟨hk', hkeys, hstaged, hslot, hrow⟩ := hk₁.neutral hd hfuzz ha hcode
  obtain ⟨hreaderSlot, hended⟩ := hk₁.reader hd hfuzz ha hcode hreader
  obtain ⟨hwithin, -⟩ :=
    table_shown hd hk₁.sound hreader fun e he hkey => ((neutralFrame_spec he).1 hkey).1
  have hseeks :=
    (hk₁.sound.write (Descriptor.slots_le hd) fun e he hkey => ((neutralFrame_spec he).1 hkey).1).2
  have hshown : ∀ e ∈ shown, _ := fun e he => neutral_shown hfuzz (k := k₁) (by rwa [← hrun])
  rw [← hrun] at hk' hkeys hstaged hslot hrow hreaderSlot hended hwithin hseeks
  refine ⟨hreaderSlot, hstaged.trans hslot.symm, idle_iff.mpr ⟨hkeys, fun s => ?_⟩, hshown,
    fun hidle => ?_, fun hrepair s => contactAt_eq_none.mpr ?_⟩
  · by_cases hs : s < d.slots
    · rw [trackingAt_of_row (hrow s hs)]
      decide
    · rw [trackingAt_of_le (hk'.contacts ▸ not_lt.mp hs)]
      decide
  · obtain ⟨hnone, hempty⟩ := idle_iff.mp hidle
    refine idle_iff.mpr ⟨SortedSet.eq_empty_iff.mpr fun code hmem =>
      ?_, hempty.apply hreader hseeks fun e he => ?_⟩
    · rcases mem_keys_apply hmem with hmem | ⟨e, he, ⟨hkey, hvalue⟩, -⟩
      · exact SortedSet.not_mem_empty code (hnone ▸ hmem)
      · exact hvalue ((hshown e he).1 hkey)
    · by_contra hbegins
      have hvalue : e.kind = .absolute ∧ e.code = TRACKING ∧ 0 ≤ e.value := by
        simpa [begins, and_assoc] using hbegins
      obtain ⟨hkind, hcode, hvalue⟩ := hvalue
      exact absurd hvalue (not_le.mpr ((hshown e he).2 hkind hcode))
  · by_cases hs : s < d.slots
    · rw [hended (htracking hrepair) s hs]
      decide
    · rw [trackingAt_of_le (hwithin.1 ▸ not_lt.mp hs)]
      decide

/-! A pad is given back while a finger rests in slot 1. -/

namespace Held

/-- The touchpad of the strokes. -/
def descriptor : Descriptor := Router.Stroke.descriptor (-1)

/-- A device whose second slot has a finger. -/
def pad : InputDevice where
  state :=
    { slot := 1
      keys := .ofList [TOUCH, 325]
      axes := .ofList [(0, 650), (1, 750)]
      contacts := [.ofList [(TRACKING, -1)], .ofList [(53, 650), (54, 750), (TRACKING, 7)]] }
  staged := 0

theorem sound : pad.Sound descriptor := ⟨rfl, by decide, by decide, by decide⟩

end Held

/-- A pad that is grabbed with a finger and a key down. -/
theorem handoff_synchronizes_held : ∃ k' shown,
    finishPhysicalHandoff ⟨.ok (), .ok (), .ok ()⟩ Held.descriptor true false Held.pad =
    .ok (k', shown) ∧
      ((new Held.descriptor).apply shown).slot = k'.state.slot ∧ k'.state.idle = true ∧
      ((new Held.descriptor).apply shown).idle = true := by
  have hnew : (new Held.descriptor).Within Held.descriptor.slots := ⟨rfl, by decide⟩
  obtain ⟨⟨⟨k', shown⟩, hdone⟩, hall⟩ :=
    handoff_synchronizes (d := Held.descriptor) rfl (by decide) Held.sound hnew
  obtain ⟨hslot, -, hidle, -, hreader, -⟩ := hall _ _ _ _ _ hdone
  exact ⟨k', shown, hdone, hslot, hidle, hreader rfl⟩

end NiriBridge.Touchpad
