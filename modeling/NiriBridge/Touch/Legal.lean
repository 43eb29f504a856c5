import NiriBridge.Model.Protocol
import NiriBridge.Touch.Acquire

/-!
# Touch — Legal

The frames a state gives out.  `Legal` says that a state lies within its descriptor; a new state is
legal, and a frame that the descriptor validates keeps it so.  Of a legal state the snapshot and the
releases are frames that the descriptor validates: their events are those of the state, and the
codes that a descriptor may have bound their number (`length_snapshot_le`).
-/

namespace NiriBridge.Touchpad

open Cursor

/-! ### Codes -/

/-- The keys a descriptor may have. -/
def touchKeys : List ℕ := [272, 273, 274, 325, 328, 330, 333, 334, 335]

/-- The single-touch axes a descriptor may have. -/
def singleAxes : List ℕ := [0, 1, 24, 28]

/-- The axes of a contact a descriptor may have, but for the tracking id. -/
def contactAxes : List ℕ := [48, 49, 50, 51, 52, 53, 54, 55, 56, 58, 59, 60, 61]

/-- The accepted keys are those of the list. -/
theorem mem_touchKeys {code : ℕ} (h : touchKey code = true) : code ∈ touchKeys := by
  simp only [touchKey, Bool.or_eq_true, Bool.and_eq_true, decide_eq_true_eq, beq_iff_eq] at h
  simp only [touchKeys, List.mem_cons, List.not_mem_nil, or_false]
  omega

/-- The accepted axes below the slot. -/
theorem mem_singleAxes {code : ℕ} (h : touchAxis code = true) (hlt : code < SLOT) :
    code ∈ singleAxes := by
  simp only [touchAxis, Bool.or_eq_true, Bool.and_eq_true, decide_eq_true_eq, beq_iff_eq] at h
  simp only [singleAxes, List.mem_cons, List.not_mem_nil, or_false]
  simp only [SLOT] at hlt
  omega

/-- The accepted axes above it, without the tracking id. -/
theorem mem_contactAxes {code : ℕ} (h : touchAxis code = true) (hlt : SLOT < code)
    (hne : code ≠ TRACKING) : code ∈ contactAxes := by
  simp only [touchAxis, Bool.or_eq_true, Bool.and_eq_true, decide_eq_true_eq, beq_iff_eq] at h
  simp only [contactAxes, List.mem_cons, List.not_mem_nil, or_false]
  simp only [SLOT] at hlt
  simp only [TRACKING] at hne
  omega

/-- Distinct codes of a list are not more than its. -/
theorem length_le_of_codes {l codes : List ℕ} (hnodup : l.Nodup) (h : ∀ code ∈ l, code ∈ codes) :
    l.length ≤ codes.length :=
  (List.subperm_of_subset hnodup h).length_le

/-! ### Events of a descriptor -/

namespace Descriptor

variable {d : Descriptor}

/-- An axis of a valid descriptor is a touch axis of bounded range. -/
theorem axis?_spec (hd : d.validate = .ok ()) {code : ℕ} {axis : AxisInfo}
    (h : d.axis? code = some axis) :
    touchAxis code = true ∧ -1000000 ≤ axis.minimum ∧ axis.maximum ≤ 1000000 := by
  have hcode : axis.code = code := by simpa using List.find?_some h
  obtain ⟨htouch, ⟨hlow, -, hhigh⟩, -⟩ :=
    (validateAxes_spec (validate_axes hd)).1 axis (List.mem_of_find?_eq_some h)
  exact ⟨hcode ▸ htouch, hlow, hhigh⟩

/-- A valid event is for a touch axis. -/
theorem touchAxis_of_valid (hd : d.validate = .ok ()) {code : ℕ} {v : ℤ}
    (h : d.validateEvent (.abs code v) = .ok ()) : touchAxis code = true := by
  obtain ⟨axis, haxis, -⟩ := validateEvent_absolute.mp h
  exact (axis?_spec hd haxis).1

/-- A value on an axis of the descriptor has the bounds of every device. -/
theorem admissible_abs (hd : d.validate = .ok ()) {code : ℕ} {v : ℤ}
    (h : d.validateEvent (.abs code v) = .ok ()) : (Event.abs code v).admissible = true := by
  obtain ⟨axis, haxis, hv⟩ := validateEvent_absolute.mp h
  obtain ⟨htouch, hlow, hhigh⟩ := axis?_spec hd haxis
  have hbounds : -1000000 ≤ v ∧ v ≤ 1000000 := by
    rcases hv with ⟨hmin, hmax⟩ | ⟨-, rfl⟩
    · omega
    · omega
  simp [Event.admissible, Event.abs, htouch, hbounds]

/-- A key of a valid descriptor, pressed or released, is admissible on the wire. -/
theorem admissible_key (hd : d.validate = .ok ()) {code : ℕ} {v : ℤ} (h : code ∈ d.keys)
    (hv : 0 ≤ v ∧ v ≤ 1) : (Event.key code v).admissible = true := by
  simp [Event.admissible, Event.key, (validate_keys hd).2.2 code h, hv]

/-- A frame of events that are valid each. -/
theorem validateFrame_of_events {frame : List Event} (hne : frame ≠ []) (hlen : frame.length ≤ 512)
    (h : ∀ e ∈ frame, e.admissible = true ∧ d.validateEvent e = .ok ()) :
    d.validateFrame frame = .ok () := by
  simp only [validateFrame, Touchpad.validateFrame, bind_eq_ok, ensure_eq_ok, forEach_eq_ok]
  exact ⟨(), ⟨(), ⟨hne, hlen⟩, fun e he => (h e he).1⟩, fun e he => (h e he).2⟩

end Descriptor

namespace TouchState

variable {d : Descriptor} {s : TouchState}

/-! ### Releases -/

/-- Two events lift a slot. -/
theorem length_releaseSlots (index n : ℕ) : (releaseSlots index n).length = 2 * n := by
  induction n generalizing index with
  | zero => rfl
  | succ n ih =>
      rw [releaseSlots, List.length_append, ih]
      simp only [List.length_cons, List.length_nil]
      omega

/-- The slots are lifted with tracking id `-1`. -/
theorem mem_releaseSlots {e : Event} {index n : ℕ} (h : e ∈ releaseSlots index n) :
    (∃ k < n, e = .abs SLOT ((index + k : ℕ) : ℤ)) ∨ e = .abs TRACKING (-1) := by
  induction n generalizing index with
  | zero => exact absurd h List.not_mem_nil
  | succ n ih =>
      rcases List.mem_append.mp h with h | h
      · simp only [List.mem_cons, List.not_mem_nil, or_false] at h
        rcases h with rfl | rfl
        · exact .inl ⟨0, Nat.succ_pos n, rfl⟩
        · exact .inr rfl
      · rcases ih h with ⟨k, hk, rfl⟩ | rfl
        · exact .inl ⟨k + 1, by omega, by rw [show index + (k + 1) = index + 1 + k by omega]⟩
        · exact .inr rfl

/-- Ending every contact leaves `-1` in each of the slots it goes through. -/
theorem run_releaseSlots {t : Cursor.Table ℕ ℕ ℤ} {index n : ℕ} (h : index + n ≤ 2 ^ 64)
    (k code : ℕ) :
    (t.run (deltas (releaseSlots index n))).cell k code =
      if (index ≤ k ∧ k < index + n) ∧ code = TRACKING then some (-1) else t.cell k code := by
  induction n generalizing index t with
  | zero => simp [releaseSlots, show ¬ (index ≤ k ∧ k < index) by omega]
  | succ n ih =>
      rw [releaseSlots, deltas_append, Cursor.Table.run_append, ih (by omega),
        deltas_cons, deltas_cons, delta_slot (by omega), delta_tracking]
      rcases lt_trichotomy k index with hk | rfl | hk
      · rw [if_neg (by omega), if_neg (by omega)]
        simp [Cursor.Table.step, Cursor.Table.set, hk.ne]
      · by_cases hc : code = TRACKING <;>
          simp [Cursor.Table.step, Cursor.Table.set, hc]
      · have hiff : (index + 1 ≤ k ∧ k < index + 1 + n) ↔
            (index ≤ k ∧ k < index + (n + 1)) := by omega
        simp only [hiff]
        split_ifs
        · rfl
        · simp [Cursor.Table.step, Cursor.Table.set, hk.ne']

/-- Of the keys only the ones that were not released are left. -/
theorem mem_keys_apply_releases {t : TouchState} {l : List ℕ} {code : ℕ} :
    code ∈ (t.apply (l.map (.key · 0))).keys ↔ code ∉ l ∧ code ∈ t.keys := by
  induction l generalizing t with
  | nil => simp
  | cons c l ih =>
      have hc : (t.applyEvent (.key c 0)).keys = t.keys.erase c := rfl
      rw [List.map_cons, apply_cons, ih, hc, SortedSet.mem_erase, List.mem_cons]
      tauto

/-- **What ending everything does**, to a state that may differ from the one that is ended. -/
theorem apply_releases {s t : TouchState} (hslots : t.contacts.length ≤ 2 ^ 64)
    (hlen : t.contacts.length = s.contacts.length) (hslot : t.slot < t.contacts.length) :
    (∀ k, ¬ (t.apply s.releases).Active k) ∧
      ∀ code, code ∈ (t.apply s.releases).keys ↔ code ∈ t.keys ∧ code ≠ TOUCH ∧ code ∉ s.keys := by
  have hseeks : SeeksBelow t.contacts.length s.releases := by
    intro e he hkind hcode
    simp only [releases, List.mem_append, List.mem_cons, List.not_mem_nil, or_false,
      List.mem_map] at he
    obtain (rfl | he) | ⟨p, -, rfl⟩ := he
    · cases hkind
    · rcases mem_releaseSlots he with ⟨k, hk, rfl⟩ | rfl
      · simpa [Event.abs, asUsize_natCast (n := k) (by omega), hlen] using hk
      · exact absurd hcode (by decide)
    · cases hkind
  -- the releases of keys say nothing about slots
  have hdeltas : deltas s.releases = deltas (releaseSlots 0 s.contacts.length) := by
    have hkeys : deltas ((s.keys.toList.filter (· ≠ TOUCH)).map (.key · 0)) = [] := by
      refine deltas_eq_nil fun e he => ?_
      obtain ⟨p, -, rfl⟩ := List.mem_map.mp he
      exact .inl rfl
    simp only [releases, deltas_append, hkeys, List.append_nil]
    rfl
  refine ⟨fun k hactive => ?_, fun code => ?_⟩
  · obtain ⟨htable, -⟩ := table_apply hslot hseeks
    have hcell : (t.apply s.releases).cell k TRACKING =
        if k < s.contacts.length then some (-1) else t.cell k TRACKING := by
      have := congrArg (fun u => u.cell k TRACKING) htable
      rw [hdeltas] at this
      simpa [run_releaseSlots (show 0 + s.contacts.length ≤ 2 ^ 64 by omega)] using this
    unfold Active trackingAt at hactive
    rw [hcell] at hactive
    split_ifs at hactive with hk
    · exact absurd hactive (by decide)
    · have hnone : t.contacts[k]? = none := List.getElem?_eq_none (by omega)
      simp [cell, hnone] at hactive
  · have htouch : ∀ u : TouchState, (u.applyEvent (.key TOUCH 0)).keys = u.keys.erase TOUCH :=
      fun _ => rfl
    have hslots : ∀ u : TouchState, (u.apply (releaseSlots 0 s.contacts.length)).keys = u.keys := by
      intro u
      refine keys_apply_absolute fun e he => ?_
      rcases mem_releaseSlots he with ⟨k, -, rfl⟩ | rfl <;> rfl
    simp only [releases, apply_append, apply_cons, apply_nil, mem_keys_apply_releases,
      hslots, htouch, SortedSet.mem_erase, List.mem_filter, decide_eq_true_eq, ← SortedSet.mem_def]
    tauto

/-- What ends a state is a frame of its descriptor. -/
theorem validateFrame_releases (hd : d.validate = .ok ()) (hlen : s.contacts.length = d.slots)
    (hkeys : ∀ code ∈ s.keys, code ∈ d.keys) : d.validateFrame s.releases = .ok () := by
  have hle := Descriptor.slots_le hd
  obtain ⟨-, htouch, htouchKey⟩ := Descriptor.validate_keys hd
  have hcount : s.keys.toList.length ≤ touchKeys.length :=
    length_le_of_codes s.keys.nodup fun code hcode =>
      mem_touchKeys (htouchKey code (hkeys code hcode))
  have hfilter := List.length_filter_le (fun code => decide (code ≠ TOUCH)) s.keys.toList
  have hsize : s.releases.length ≤ 512 := by
    simp only [touchKeys, List.length_cons, List.length_nil] at hcount
    simp only [releases, List.length_append, List.length_map, length_releaseSlots, hlen,
      List.length_cons, List.length_nil]
    omega
  refine Descriptor.validateFrame_of_events ?_ hsize fun e he => ?_
  · exact List.append_ne_nil_of_left_ne_nil
      (List.append_ne_nil_of_left_ne_nil (List.cons_ne_nil _ _) _) _
  simp only [releases, List.mem_append, List.mem_cons, List.not_mem_nil, or_false, List.mem_map,
    List.mem_filter] at he
  obtain (rfl | he) | ⟨code, ⟨hcode, -⟩, rfl⟩ := he
  · exact ⟨by decide, Descriptor.validateEvent_key.mpr htouch⟩
  · rcases mem_releaseSlots he with ⟨k, hk, rfl⟩ | rfl
    · rw [Nat.zero_add]
      have hslot := Descriptor.validateEvent_slot hd (hlen ▸ hk)
      exact ⟨Descriptor.admissible_abs hd hslot, hslot⟩
    · exact ⟨by decide, Descriptor.validateEvent_lift hd⟩
  · have hmem := hkeys code hcode
    exact ⟨Descriptor.admissible_key hd hmem ⟨le_rfl, zero_le_one⟩,
      Descriptor.validateEvent_key.mpr hmem⟩

/-! ### Legal states -/

/-- **The state lies within the descriptor.** -/
structure Legal (d : Descriptor) (s : TouchState) : Prop where
  contacts : s.contacts.length = d.slots
  slot : s.slot < d.slots
  keys : ∀ code ∈ s.keys, code ∈ d.keys
  single : ∀ code v, s.axes.get? code = some v →
    code < SLOT ∧ d.validateEvent (.abs code v) = .ok ()
  multi : ∀ k code v, s.cell k code = some v → SLOT < code ∧ d.validateEvent (.abs code v) = .ok ()

/-- A state starts legal. -/
theorem legal_new (hd : d.validate = .ok ()) : Legal d (new d) where
  contacts := List.length_replicate
  slot := (neutral_new hd).slot
  keys code hcode := absurd hcode (SortedSet.not_mem_empty code)
  single code v h := by
    obtain ⟨a, ha, he⟩ := List.mem_map.mp (SortedMap.mem_of_get?_ofList h)
    obtain ⟨rfl, rfl⟩ := Prod.mk.inj he
    obtain ⟨hmem, hlt⟩ := List.mem_filter.mp ha
    obtain ⟨-, ⟨-, hle, -⟩, -⟩ :=
      (Descriptor.validateAxes_spec (Descriptor.validate_axes hd)).1 a hmem
    refine ⟨by simpa using hlt, Descriptor.validateEvent_absolute.mpr ⟨a, ?_, .inl ⟨le_rfl, hle⟩⟩⟩
    exact Descriptor.axis?_of_mem hd hmem
  multi k code v h := by
    simp only [cell, new, List.getElem?_replicate] at h
    split_ifs at h
    · have hmem := SortedMap.mem_of_get?_ofList h
      obtain ⟨rfl, rfl⟩ := Prod.mk.inj (List.mem_singleton.mp hmem)
      exact ⟨by decide, Descriptor.validateEvent_lift hd⟩
    · exact absurd h (by simp)

/-- What is put into a contact is an event of the frame. -/
theorem mem_of_put_mem_deltas {es : List Event} {code : ℕ} {v : ℤ} (h : .put code v ∈ deltas es) :
    .abs code v ∈ es := by
  obtain ⟨⟨kind, c, w⟩, he, hput⟩ := List.mem_flatMap.mp h
  cases kind with
  | key => exact absurd hput List.not_mem_nil
  | absolute =>
      simp only [Event.delta] at hput
      split_ifs at hput with h₁ h₂
      · exact absurd (List.mem_singleton.mp hput) (by simp)
      · cases List.mem_singleton.mp hput
        exact he
      · exact absurd hput List.not_mem_nil

/-- A single-touch value comes from an event of the frame. -/
theorem mem_of_put_mem_axisDeltas {es : List Event} {code : ℕ} {v : ℤ}
    (h : .put code v ∈ axisDeltas es) : .abs code v ∈ es := by
  obtain ⟨⟨kind, c, w⟩, he, hput⟩ := List.mem_flatMap.mp h
  cases kind with
  | key => exact absurd hput List.not_mem_nil
  | absolute =>
      simp only [Event.axisDelta] at hput
      split_ifs at hput with h₁
      · cases List.mem_singleton.mp hput
        exact he
      · exact absurd hput List.not_mem_nil

section Apply

variable {frame : List Event} (hvalid : d.Valid frame)

include hvalid in
/-- After a frame a key is pressed that was, or that the descriptor has. -/
theorem cases_keys_apply {code : ℕ} (h : code ∈ (s.apply frame).keys) :
    code ∈ s.keys ∨ code ∈ d.keys := by
  rcases mem_keys_apply h with h | ⟨⟨kind, c, v⟩, he, ⟨rfl, -⟩, rfl⟩
  · exact .inl h
  · exact .inr (Descriptor.validateEvent_key.mp (hvalid _ he))

include hvalid in
/-- A single-touch value is an old one or a valid one of the frame. -/
theorem cases_axes_apply {code : ℕ} {v : ℤ} (h : (s.apply frame).axes.get? code = some v) :
    s.axes.get? code = some v ∨ code < SLOT ∧ d.validateEvent (.abs code v) = .ok () := by
  have hcell := (congrArg (fun t => t.cell () code) (axisTable_apply s frame)).symm.trans h
  refine (cell_run_eq_some hcell).imp_right fun hput => ?_
  exact ⟨lt_of_put_mem_axisDeltas hput, hvalid _ (mem_of_put_mem_axisDeltas hput)⟩

include hvalid in
/-- After a frame a contact has a value that it had, or that is in the range of the axis. -/
theorem cases_cell_apply (hd : d.validate = .ok ()) (hlen : s.contacts.length = d.slots)
    (hslot : s.slot < d.slots) {k code : ℕ} {v : ℤ} (h : (s.apply frame).cell k code = some v) :
    s.cell k code = some v ∨ SLOT < code ∧ d.validateEvent (.abs code v) = .ok () := by
  have hseeks : SeeksBelow s.contacts.length frame := hlen ▸ hvalid.seeksBelow hd
  obtain ⟨htable, -⟩ := table_apply (hlen ▸ hslot) hseeks
  have hcell := (congrArg (fun t => t.cell k code) htable).symm.trans h
  refine (cell_run_eq_some hcell).imp_right fun hput => ?_
  exact ⟨lt_of_put_mem_deltas hput, hvalid _ (mem_of_put_mem_deltas hput)⟩

include hvalid in
/-- A valid frame selects a slot the device has. -/
theorem slot_apply_lt (hd : d.validate = .ok ()) (hlen : s.contacts.length = d.slots)
    (hslot : s.slot < d.slots) : (s.apply frame).slot < d.slots := by
  have hseeks : SeeksBelow s.contacts.length frame := hlen ▸ hvalid.seeksBelow hd
  exact hlen ▸ (table_apply (hlen ▸ hslot) hseeks).2

end Apply

/-- **A frame that the descriptor validates keeps the state legal.** -/
theorem Legal.apply (hd : d.validate = .ok ()) (h : Legal d s) {frame : List Event}
    (hframe : d.validateFrame frame = .ok ()) : Legal d (s.apply frame) := by
  have hvalid := Descriptor.valid_of_validateFrame hframe
  refine ⟨(length_contacts_apply s frame).trans h.contacts,
    slot_apply_lt hvalid hd h.contacts h.slot, fun code hcode => ?_, fun code v hv => ?_,
    fun k code v hv => ?_⟩
  · exact (cases_keys_apply hvalid hcode).elim (h.keys code) id
  · exact (cases_axes_apply hvalid hv).elim (h.single code v) id
  · exact (cases_cell_apply hvalid hd h.contacts h.slot hv).elim (h.multi k code v) id

/-- Before each event of a frame the current slot is one of the device. -/
theorem Legal.slot_in_range (hd : d.validate = .ok ()) (h : Legal d s) {frame : List Event}
    (hframe : d.validateFrame frame = .ok ()) {before after : List Event} {e : Event}
    (heq : frame = before ++ e :: after) :
    (s.apply before).slot < (s.apply before).contacts.length := by
  have hvalid : d.Valid before := fun e' he' =>
    Descriptor.valid_of_validateFrame hframe e' (heq ▸ List.mem_append_left _ he')
  rw [length_contacts_apply, h.contacts]
  exact slot_apply_lt hvalid hd h.contacts h.slot

/-! ### Snapshots -/

/-- An active contact has a tracking id. -/
theorem get?_tracking {c : SortedMap ℕ ℤ} (h : 0 ≤ tracking c) :
    c.get? TRACKING = some (tracking c) := by
  rw [tracking] at h ⊢
  cases hv : c.get? TRACKING with
  | none => simp [hv] at h
  | some v => rfl

/-- The snapshot of a slot selects it and tells what is in it. -/
theorem mem_snapshotSlot {index : ℕ} {c : SortedMap ℕ ℤ} {e : Event}
    (h : e ∈ snapshotSlot index c) :
    0 ≤ tracking c ∧ (e = .abs SLOT index ∨ ∃ code v, e = .abs code v ∧ c.get? code = some v) := by
  unfold snapshotSlot at h
  split_ifs at h with hactive
  · refine ⟨hactive, ?_⟩
    simp only [List.mem_append, List.mem_cons, List.not_mem_nil, or_false, List.mem_map,
      List.mem_filter] at h
    obtain (rfl | rfl) | ⟨p, ⟨hp, -⟩, rfl⟩ := h
    · exact .inl rfl
    · exact .inr ⟨TRACKING, tracking c, rfl, get?_tracking hactive⟩
    · exact .inr ⟨p.1, p.2, rfl, SortedMap.mem_toList.mp hp⟩
  · exact absurd h List.not_mem_nil

/-- The snapshot of the slots selects them and reports what active contacts hold. -/
theorem cases_snapshotSlots {index : ℕ} {contacts : List (SortedMap ℕ ℤ)} {e : Event}
    (h : e ∈ snapshotSlots index contacts) :
    (∃ k < contacts.length, e = .abs SLOT ((index + k : ℕ) : ℤ)) ∨
      ∃ c ∈ contacts, 0 ≤ tracking c ∧ ∃ code v, e = .abs code v ∧ c.get? code = some v := by
  induction contacts generalizing index with
  | nil => exact absurd h List.not_mem_nil
  | cons c cs ih =>
      rcases List.mem_append.mp h with h | h
      · obtain ⟨hactive, rfl | hvalue⟩ := mem_snapshotSlot h
        · exact .inl ⟨0, Nat.succ_pos _, rfl⟩
        · exact .inr ⟨c, List.mem_cons_self, hactive, hvalue⟩
      · rcases ih h with ⟨k, hk, rfl⟩ | ⟨c', hc', hvalue⟩
        · refine .inl ⟨k + 1, Nat.succ_lt_succ hk, ?_⟩
          rw [show index + (k + 1) = index + 1 + k by omega]
        · exact .inr ⟨c', List.mem_cons_of_mem _ hc', hvalue⟩

/-- What a snapshot shows of the state lies within the descriptor: everything but the values in
slots without a contact. -/
structure Shown (d : Descriptor) (s : TouchState) : Prop where
  contacts : s.contacts.length = d.slots
  slot : s.slot < d.slots
  keys : ∀ code ∈ s.keys, code ∈ d.keys
  single : ∀ code v, s.axes.get? code = some v →
    code < SLOT ∧ d.validateEvent (.abs code v) = .ok ()
  active : ∀ c ∈ s.contacts, 0 ≤ tracking c → ∀ code v, c.get? code = some v →
    SLOT < code ∧ d.validateEvent (.abs code v) = .ok ()

/-- A legal state can be shown. -/
theorem Legal.shown (h : Legal d s) : Shown d s where
  contacts := h.contacts
  slot := h.slot
  keys := h.keys
  single := h.single
  active c hc _ code v hv := by
    obtain ⟨k, hk⟩ := List.mem_iff_getElem?.mp hc
    exact h.multi k code v (by simp [cell, hk, hv])

/-- What a snapshot says are events of the descriptor. -/
theorem Shown.snapshot_event (hd : d.validate = .ok ()) (h : Shown d s) {e : Event}
    (he : e ∈ s.snapshot) : e.admissible = true ∧ d.validateEvent e = .ok () := by
  have hvalue : ∀ {code v}, d.validateEvent (.abs code v) = .ok () →
      (Event.abs code v).admissible = true ∧ d.validateEvent (.abs code v) = .ok () :=
    fun hv => ⟨Descriptor.admissible_abs hd hv, hv⟩
  have hkey : ∀ {code v}, code ∈ d.keys → 0 ≤ v ∧ v ≤ 1 →
      (Event.key code v).admissible = true ∧ d.validateEvent (.key code v) = .ok () :=
    fun hcode hv => ⟨Descriptor.admissible_key hd hcode hv, Descriptor.validateEvent_key.mpr hcode⟩
  simp only [snapshot, List.mem_append, List.mem_cons, List.not_mem_nil, or_false, List.mem_map,
    List.mem_filter] at he
  obtain (((rfl | he) | ⟨p, hp, rfl⟩) | ⟨code, ⟨hcode, -⟩, rfl⟩) | rfl := he
  · refine hkey (Descriptor.validate_keys hd).2.1 ?_
    split_ifs
    · exact ⟨zero_le_one, le_rfl⟩
    · exact ⟨le_rfl, zero_le_one⟩
  · rcases cases_snapshotSlots he with ⟨k, hk, rfl⟩ | ⟨c, hc, hactive, code, v, rfl, hv⟩
    · rw [Nat.zero_add]
      exact hvalue (Descriptor.validateEvent_slot hd (h.contacts ▸ hk))
    · exact hvalue (h.active c hc hactive code v hv).2
  · exact hvalue (h.single p.1 p.2 (SortedMap.mem_toList.mp hp)).2
  · exact hkey (h.keys code hcode) ⟨zero_le_one, le_rfl⟩
  · exact hvalue (Descriptor.validateEvent_slot hd h.slot)

/-- At most 15 events for a contact. -/
theorem Shown.length_snapshotSlot_le (hd : d.validate = .ok ()) (h : Shown d s) {c : SortedMap ℕ ℤ}
    (hc : c ∈ s.contacts) (index : ℕ) : (snapshotSlot index c).length ≤ 15 := by
  unfold snapshotSlot
  split_ifs with hactive
  · have hnodup : ((c.toList.filter fun p => decide (p.1 ≠ TRACKING)).map Prod.fst).Nodup :=
      c.nodup_keys.sublist (List.filter_sublist.map Prod.fst)
    have hcount : ((c.toList.filter fun p => decide (p.1 ≠ TRACKING)).map Prod.fst).length ≤
        contactAxes.length := by
      refine length_le_of_codes hnodup fun code hcode => ?_
      obtain ⟨p, hp, rfl⟩ := List.mem_map.mp hcode
      obtain ⟨hmem, hne⟩ := List.mem_filter.mp hp
      obtain ⟨hlt, hvalid⟩ := h.active c hc hactive _ _ (SortedMap.mem_toList.mp hmem)
      exact mem_contactAxes (Descriptor.touchAxis_of_valid hd hvalid) hlt (by simpa using hne)
    rw [List.length_map] at hcount
    rw [List.length_append, List.length_map]
    simp only [contactAxes, List.length_cons, List.length_nil] at hcount ⊢
    omega
  · exact Nat.zero_le _

/-- The length of a snapshot is bounded by that of one contact. -/
theorem length_snapshotSlots_le {contacts : List (SortedMap ℕ ℤ)} {n : ℕ}
    (h : ∀ c ∈ contacts, ∀ index, (snapshotSlot index c).length ≤ n) (index : ℕ) :
    (snapshotSlots index contacts).length ≤ n * contacts.length := by
  induction contacts generalizing index with
  | nil => exact Nat.zero_le _
  | cons c cs ih =>
      obtain ⟨hc, hcs⟩ := List.forall_mem_cons.mp h
      have hfirst := hc index
      have hrest := ih hcs (index + 1)
      rw [snapshotSlots, List.length_append, List.length_cons, Nat.mul_succ]
      omega

/-- With 32 contacts on every axis a snapshot still fits a frame. -/
theorem Shown.length_snapshot_le (hd : d.validate = .ok ()) (h : Shown d s) :
    s.snapshot.length ≤ 512 := by
  have hslots := Descriptor.slots_le hd
  have hcontacts : (snapshotSlots 0 s.contacts).length ≤ 15 * s.contacts.length :=
    length_snapshotSlots_le (fun c hc index => h.length_snapshotSlot_le hd hc index) 0
  have haxes : (s.axes.toList.map Prod.fst).length ≤ singleAxes.length := by
    refine length_le_of_codes s.axes.nodup_keys fun code hcode => ?_
    obtain ⟨p, hp, rfl⟩ := List.mem_map.mp hcode
    obtain ⟨hlt, hvalid⟩ := h.single p.1 p.2 (SortedMap.mem_toList.mp hp)
    exact mem_singleAxes (Descriptor.touchAxis_of_valid hd hvalid) hlt
  have hkeys : s.keys.toList.length ≤ touchKeys.length :=
    length_le_of_codes s.keys.nodup fun code hcode =>
      mem_touchKeys ((Descriptor.validate_keys hd).2.2 code (h.keys code hcode))
  have hfilter := List.length_filter_le (fun code => decide (code ≠ TOUCH)) s.keys.toList
  rw [List.length_map] at haxes
  rw [h.contacts] at hcontacts
  simp only [singleAxes, touchKeys, List.length_cons, List.length_nil] at haxes hkeys
  simp only [snapshot, List.length_append, List.length_map, List.length_cons, List.length_nil]
  omega

/-- The snapshot of a state that can be shown is a valid frame. -/
theorem Shown.validateFrame_snapshot (hd : d.validate = .ok ()) (h : Shown d s) :
    d.validateFrame s.snapshot = .ok () := by
  refine Descriptor.validateFrame_of_events ?_ (h.length_snapshot_le hd)
    fun e he => h.snapshot_event hd he
  exact List.append_ne_nil_of_right_ne_nil _ (List.cons_ne_nil _ _)

/-- A state ends itself. -/
theorem Legal.idle_apply_releases (hd : d.validate = .ok ()) (h : Legal d s) :
    (s.apply s.releases).idle = true ∧ (s.apply s.releases).keys = ∅ := by
  have hle : s.contacts.length ≤ 2 ^ 64 := by
    have hslots := Descriptor.slots_le hd
    rw [h.contacts]
    omega
  obtain ⟨hcontacts, hkeys⟩ := apply_releases hle rfl (h.contacts ▸ h.slot)
  have hnone : (s.apply s.releases).keys = ∅ := by
    refine SortedSet.eq_empty_iff.mpr fun code hcode => ?_
    obtain ⟨hmem, -, hno⟩ := (hkeys code).mp hcode
    exact hno hmem
  exact ⟨idle_iff.mpr ⟨hnone, fun k => not_le.mp (hcontacts k)⟩, hnone⟩

/-- A frame of a descriptor is one for the connection. -/
theorem validate_touchpad {frame : List Event} (h : d.validateFrame frame = .ok ())
    {device timeUs : ℕ} (hdevice : device < 4) (htime : 1 ≤ timeUs ∧ timeUs ≤ 1000000000000000) :
    (InputEvent.touchpad device timeUs frame).validate = .ok () := by
  simp only [Descriptor.validateFrame, bind_eq_ok] at h
  obtain ⟨_, hframe, -⟩ := h
  simp only [InputEvent.validate, bind_eq_ok, ensure_eq_ok]
  exact ⟨(), hdevice, (), htime, hframe⟩

/-- **Snapshots and releases are legal frames.**  A new state is legal and a validated frame keeps
it so, without selecting a slot that the device has not; of a legal state the snapshot and the
releases pass the checks of the device and of the connection, and the releases end everything. -/
theorem legal_frames (hd : d.validate = .ok ()) :
    Legal d (new d) ∧
    (∀ s frame, Legal d s → d.validateFrame frame = .ok () →
      Legal d (s.apply frame) ∧ ∀ before e after, frame = before ++ e :: after →
        (s.apply before).slot < (s.apply before).contacts.length) ∧
    ∀ s, Legal d s →
      (d.validateFrame s.snapshot = .ok () ∧ d.validateFrame s.releases = .ok ()) ∧
      (∀ device timeUs, device < 4 → 1 ≤ timeUs ∧ timeUs ≤ 1000000000000000 →
        (InputEvent.touchpad device timeUs s.snapshot).validate = .ok () ∧
          (InputEvent.touchpad device timeUs s.releases).validate = .ok ()) ∧
      s.snapshot.length ≤ 512 ∧
      (s.apply s.releases).idle = true ∧ (s.apply s.releases).keys = ∅ := by
  refine ⟨legal_new hd, fun s frame h hframe => ⟨h.apply hd hframe, fun before e after heq =>
    h.slot_in_range hd hframe heq⟩, fun s h => ?_⟩
  have hsnapshot := h.shown.validateFrame_snapshot hd
  have hreleases := validateFrame_releases hd h.contacts h.keys
  exact ⟨⟨hsnapshot, hreleases⟩, fun device timeUs hdevice htime =>
    ⟨validate_touchpad hsnapshot hdevice htime, validate_touchpad hreleases hdevice htime⟩,
    h.shown.length_snapshot_le hd, h.idle_apply_releases hd⟩

section Sample

/-- A pad of two slots. -/
def sampleDescriptor : Descriptor where
  keys := [TOUCH, 325, 272]
  properties := [0]
  axes := [⟨0, 0, 1000, 0, 0, 0⟩, ⟨1, 0, 500, 0, 0, 0⟩, ⟨SLOT, 0, 1, 0, 0, 0⟩,
    ⟨53, 0, 1000, 0, 0, 0⟩, ⟨54, 0, 500, 0, 0, 0⟩, ⟨TRACKING, -1, 65535, 0, 0, 0⟩]

/-- A finger, and a button pressed. -/
def sampleTouch : List Event := [.abs TRACKING 5, .abs 53 10, .key TOUCH 1, .key 272 1]

/-- The sample device with a finger on it. -/
theorem legal_frames_touched :
    Legal sampleDescriptor ((new sampleDescriptor).apply sampleTouch) ∧
      sampleDescriptor.validateFrame ((new sampleDescriptor).apply sampleTouch).snapshot =
      .ok () := by
  have hd : sampleDescriptor.validate = .ok () := by decide
  have hframe : sampleDescriptor.validateFrame sampleTouch = .ok () := by decide
  obtain ⟨hnew, hstep, hframes⟩ := legal_frames hd
  have hlegal := (hstep _ _ hnew hframe).1
  exact ⟨hlegal, (hframes _ hlegal).1.1⟩

end Sample

end TouchState

end NiriBridge.Touchpad
