import NiriBridge.Model.Touchpad
import NiriBridge.Support.Cursor

/-!
# Touch — State

What a frame does to a `TouchState`.  The multi-touch part of a state is a table behind a cursor,
the current slot, and the single-touch axes are a table with one row: a frame is a stream of deltas
to both (`table_apply`, `axisTable_apply`), so what `Support.Cursor` says of streams holds of
frames.

* `table_apply_snapshot`, `axes_apply_snapshot`, `keys_apply_snapshot`: what a state becomes when a
  snapshot of another state is applied to it.
* `Acquired.apply`: the invariant of a pad that has been acquired.
-/

namespace NiriBridge.Touchpad

open Cursor

/-! ### Descriptors -/

theorem asUsize_natCast {n : ℕ} (h : n < 2 ^ 64) : asUsize n = n := by
  unfold asUsize
  omega

theorem asUsize_of_bounds {v : ℤ} (h₀ : 0 ≤ v) (h : v < 2 ^ 64) : (asUsize v : ℤ) = v := by
  unfold asUsize
  omega

namespace Descriptor

variable {d : Descriptor}

/-- A valid descriptor has a slot axis from zero, with at most 32 slots. -/
theorem validate_slot (h : d.validate = .ok ()) :
    ∃ axis, d.axis? SLOT = some axis ∧ axis.minimum = 0 ∧ 0 ≤ axis.maximum ∧ axis.maximum < 32 := by
  simp only [validate, bind_eq_ok, ensure_eq_ok, orError_eq_ok] at h
  obtain ⟨-, -, -, -, -, -, -, -, -, -, -, -, -, -, axis, haxis, hmin, hmax⟩ := h
  exact ⟨axis, haxis, hmin, hmax⟩

/-- A valid device has at most 32 slots. -/
theorem slots_le (h : d.validate = .ok ()) : d.slots ≤ 32 := by
  obtain ⟨axis, haxis, -, -, hmax⟩ := validate_slot h
  simp only [slots, haxis]
  omega

/-- What is checked of each axis, and of an axis against those before it. -/
theorem validateAxes_spec {previous axes : List AxisInfo} {u : Unit}
    (h : validateAxes previous axes = .ok u) :
    (∀ a ∈ axes, touchAxis a.code = true ∧
        (-1000000 ≤ a.minimum ∧ a.minimum ≤ a.maximum ∧ a.maximum ≤ 1000000) ∧
        ∀ v ∈ [a.fuzz, a.flat, a.resolution], 0 ≤ v ∧ v ≤ 100000) ∧
      (∀ a ∈ axes, a.code ∉ previous.map AxisInfo.code) ∧ (axes.map AxisInfo.code).Nodup := by
  induction axes generalizing previous with
  | nil => simp
  | cons axis axes ih =>
      simp only [validateAxes, bind_eq_ok] at h
      obtain ⟨_, haxis, h⟩ := h
      simp only [validateAxis, bind_eq_ok, ensure_eq_ok] at haxis
      obtain ⟨-, ⟨htouch, hfresh⟩, -, ⟨hlow, -, hle, hhigh⟩, hcalibration⟩ := haxis
      obtain ⟨hall, hnew, hnodup⟩ := ih h
      refine ⟨List.forall_mem_cons.mpr ⟨⟨htouch, ⟨hlow, hle, hhigh⟩, hcalibration⟩, hall⟩,
        List.forall_mem_cons.mpr ⟨hfresh, fun a ha hmem => hnew a ha ?_⟩,
        List.nodup_cons.mpr ⟨fun hmem => ?_, hnodup⟩⟩
      · simp [hmem]
      · obtain ⟨a, ha, hcode⟩ := List.mem_map.mp hmem
        exact hnew a ha (by simp [hcode])

/-- The axes of a valid descriptor are valid. -/
theorem validate_axes (h : d.validate = .ok ()) : validateAxes [] d.axes = .ok () := by
  simp only [validate, bind_eq_ok, ensure_eq_ok] at h
  obtain ⟨-, -, -, -, -, -, -, -, -, -, _, haxes, -⟩ := h
  exact haxes

/-- Every axis is the one advertised under its code. -/
theorem axis?_of_mem (h : d.validate = .ok ()) {a : AxisInfo} (ha : a ∈ d.axes) :
    d.axis? a.code = some a := by
  have hnodup := (validateAxes_spec (validate_axes h)).2.2
  cases hfind : d.axis? a.code with
  | none => exact absurd (List.find?_eq_none.mp hfind a ha) (by simp)
  | some b =>
      have hcode : b.code = a.code := by simpa using List.find?_some hfind
      rw [List.inj_on_of_nodup_map hnodup (List.mem_of_find?_eq_some hfind) ha hcode]

/-- The keys of a valid descriptor are touch keys, among them the touch itself. -/
theorem validate_keys (h : d.validate = .ok ()) :
    d.keys.length ≤ 16 ∧ TOUCH ∈ d.keys ∧ ∀ code ∈ d.keys, touchKey code = true := by
  simp only [validate, bind_eq_ok, ensure_eq_ok] at h
  obtain ⟨-, ⟨⟨-, hlen⟩, hkeys⟩, -, -, -, ⟨htouch, -⟩, -⟩ := h
  exact ⟨hlen, htouch, hkeys⟩

/-- A valid descriptor has a tracking axis. -/
theorem validate_tracking (h : d.validate = .ok ()) : ∃ axis, d.axis? TRACKING = some axis := by
  simp only [validate, bind_eq_ok, ensure_eq_ok] at h
  obtain ⟨-, -, -, -, -, -, -, -, -, -, -, -, -, hcodes, -⟩ := h
  have hmem : TRACKING ∈ d.axes.map AxisInfo.code := by
    simpa using List.all_eq_true.mp hcodes TRACKING (by simp)
  obtain ⟨axis, haxis, hcode⟩ := List.mem_map.mp hmem
  exact Option.isSome_iff_exists.mp (List.find?_isSome.mpr ⟨axis, haxis, by simpa using hcode⟩)

/-- A value is valid within its axis; a tracking id may also be `-1`. -/
theorem validateEvent_absolute {code : ℕ} {v : ℤ} :
    d.validateEvent ⟨.absolute, code, v⟩ = .ok () ↔
      ∃ axis, d.axis? code = some axis ∧
        ((axis.minimum ≤ v ∧ v ≤ axis.maximum) ∨ (code = TRACKING ∧ v = -1)) := by
  simp [validateEvent]

/-- A valid event moves to a slot the device has. -/
theorem asUsize_lt_slots (h : d.validate = .ok ()) {v : ℤ}
    (hv : d.validateEvent ⟨.absolute, SLOT, v⟩ = .ok ()) : asUsize v < d.slots := by
  obtain ⟨axis, haxis, hmin, h₀, hmax⟩ := validate_slot h
  obtain ⟨axis', haxis', hv⟩ := validateEvent_absolute.mp hv
  obtain rfl : axis = axis' := Option.some.inj (haxis.symm.trans haxis')
  have hbounds := hv.resolve_right fun hc => absurd hc.1 (by decide)
  have := asUsize_of_bounds (v := v) (by omega) (by omega)
  simp only [slots, haxis]
  omega

/-- A slot of the device may be selected. -/
theorem validateEvent_slot (h : d.validate = .ok ()) {k : ℕ} (hk : k < d.slots) :
    d.validateEvent (.abs SLOT k) = .ok () := by
  obtain ⟨axis, haxis, hmin, hmax, -⟩ := validate_slot h
  simp only [slots, haxis] at hk
  exact validateEvent_absolute.mpr ⟨axis, haxis, .inl ⟨by omega, by omega⟩⟩

/-- A contact may be ended. -/
theorem validateEvent_lift (h : d.validate = .ok ()) :
    d.validateEvent (.abs TRACKING (-1)) = .ok () := by
  obtain ⟨axis, haxis⟩ := validate_tracking h
  exact validateEvent_absolute.mpr ⟨axis, haxis, .inr ⟨rfl, rfl⟩⟩

theorem validateEvent_key {code : ℕ} {v : ℤ} :
    d.validateEvent (.key code v) = .ok () ↔ code ∈ d.keys := ensure_eq_ok

/-- A frame the descriptor validates. -/
def Valid (d : Descriptor) (frame : List Event) : Prop := ∀ e ∈ frame, d.validateEvent e = .ok ()

/-- The events of a valid frame are valid. -/
theorem valid_of_validateFrame {frame : List Event} (h : d.validateFrame frame = .ok ()) :
    d.Valid frame := by
  simp only [validateFrame, bind_eq_ok, forEach_eq_ok] at h
  exact h.choose_spec.2

end Descriptor

/-! ### The tables of a state -/

/-- The change an event makes to the contacts. -/
def Event.delta (e : Event) : List (Delta ℕ ℕ ℤ) :=
  match e.kind with
  | .key => []
  | .absolute =>
      if e.code = SLOT then [.seek (asUsize e.value)]
      else if SLOT < e.code then [.put e.code e.value]
      else []

/-- What the events say about the slots. -/
def deltas (events : List Event) : List (Delta ℕ ℕ ℤ) := events.flatMap Event.delta

/-- The change an event makes to the single-touch axes. -/
def Event.axisDelta (e : Event) : List (Delta Unit ℕ ℤ) :=
  match e.kind with
  | .key => []
  | .absolute => if e.code < SLOT then [.put e.code e.value] else []

/-- What the events say about the other axes. -/
def axisDeltas (events : List Event) : List (Delta Unit ℕ ℤ) := events.flatMap Event.axisDelta

@[simp] theorem deltas_nil : deltas [] = [] := rfl

@[simp] theorem deltas_cons (e : Event) (es : List Event) :
    deltas (e :: es) = e.delta ++ deltas es :=
  rfl

@[simp] theorem deltas_append (es fs : List Event) : deltas (es ++ fs) = deltas es ++ deltas fs :=
  List.flatMap_append

@[simp] theorem axisDeltas_nil : axisDeltas [] = [] := rfl

@[simp] theorem axisDeltas_cons (e : Event) (es : List Event) :
    axisDeltas (e :: es) = e.axisDelta ++ axisDeltas es := rfl

@[simp] theorem axisDeltas_append (es fs : List Event) :
    axisDeltas (es ++ fs) = axisDeltas es ++ axisDeltas fs := List.flatMap_append

/-- The events move the cursor to slots below `n` only. -/
def SeeksBelow (n : ℕ) (events : List Event) : Prop :=
  ∀ e ∈ events, e.kind = .absolute → e.code = SLOT → asUsize e.value < n

/-- A valid frame selects only slots the device has. -/
theorem Descriptor.Valid.seeksBelow {d : Descriptor} (hd : d.validate = .ok ()) {frame : List Event}
    (h : d.Valid frame) : SeeksBelow d.slots frame := by
  rintro ⟨kind, code, v⟩ he rfl rfl
  exact asUsize_lt_slots hd (h _ he)

namespace TouchState

/-- The value of a multi-touch axis in a slot. -/
def cell (s : TouchState) (k code : ℕ) : Option ℤ := s.contacts[k]?.bind (·.get? code)

/-- The slots as a table with a cursor. -/
def table (s : TouchState) : Table ℕ ℕ ℤ := ⟨s.slot, s.cell⟩

/-- The other axes as a table of one row. -/
def axisTable (s : TouchState) : Table Unit ℕ ℤ := ⟨(), fun _ => s.axes.get?⟩

@[simp] theorem table_cursor (s : TouchState) : s.table.cursor = s.slot := rfl

@[simp] theorem table_cell (s : TouchState) : s.table.cell = s.cell := rfl

@[simp] theorem axisTable_cell (s : TouchState) (u : Unit) : s.axisTable.cell u = s.axes.get? := rfl

@[simp] theorem apply_nil (s : TouchState) : s.apply [] = s := rfl

@[simp] theorem apply_cons (s : TouchState) (e : Event) (es : List Event) :
    s.apply (e :: es) = (s.applyEvent e).apply es := rfl

theorem apply_append (s : TouchState) (es fs : List Event) :
    s.apply (es ++ fs) = (s.apply es).apply fs := List.foldl_append

/-- An event adds no slot and removes none. -/
@[simp] theorem length_contacts_applyEvent (s : TouchState) (e : Event) :
    (s.applyEvent e).contacts.length = s.contacts.length := by
  unfold applyEvent
  split <;> split_ifs <;> simp

/-- The effect of an event on the contacts is its delta. -/
theorem table_applyEvent {s : TouchState} {e : Event} (hs : s.slot < s.contacts.length) :
    (s.applyEvent e).table = s.table.run e.delta := by
  obtain ⟨kind, code, v⟩ := e
  cases kind with
  | key => unfold applyEvent; split_ifs <;> rfl
  | absolute =>
      by_cases h₁ : code = SLOT
      · simp only [applyEvent, Event.delta, h₁, if_true]
        rfl
      by_cases h₂ : SLOT < code
      · simp only [applyEvent, Event.delta, h₁, h₂, if_true, if_false, table, Table.run_cons,
          Table.run_nil, Table.step, Table.set, Table.mk.injEq, true_and]
        funext k i
        simp only [cell, List.getElem?_modify]
        by_cases hk : s.slot = k
        · subst hk
          simp [List.getElem?_eq_getElem hs]
        · simp [hk, Ne.symm hk]
      · simp only [applyEvent, Event.delta, h₁, h₂, if_false]
        rfl

/-- On the single-touch axes an event does what it says. -/
theorem axisTable_applyEvent (s : TouchState) (e : Event) :
    (s.applyEvent e).axisTable = s.axisTable.run e.axisDelta := by
  obtain ⟨kind, code, v⟩ := e
  cases kind with
  | key => unfold applyEvent; split_ifs <;> rfl
  | absolute =>
      rcases lt_trichotomy code SLOT with h | rfl | h
      · simp [applyEvent, Event.axisDelta, h, h.ne, h.not_gt, axisTable, Table.step, Table.set,
          funext_iff]
      · simp [applyEvent, Event.axisDelta, axisTable]
      · simp [applyEvent, Event.axisDelta, h, h.ne', h.not_gt, axisTable]

/-- And so does a frame. -/
theorem axisTable_apply (s : TouchState) (es : List Event) :
    (s.apply es).axisTable = s.axisTable.run (axisDeltas es) := by
  induction es generalizing s with
  | nil => rfl
  | cons e es ih =>
      rw [apply_cons, ih, axisTable_applyEvent, axisDeltas_cons, Table.run_append]

/-- A valid event selects a slot the device has. -/
theorem slot_applyEvent {s : TouchState} {e : Event} {n : ℕ} (hs : s.slot < n)
    (he : SeeksBelow n [e]) : (s.applyEvent e).slot < n := by
  unfold applyEvent
  split <;> split_ifs
  all_goals first | exact hs | exact he e (List.mem_singleton_self e) ‹_› ‹_›

/-- **The contacts are a table behind a cursor**, and a frame that stays within the slots is a
stream of deltas to it. -/
theorem table_apply {s : TouchState} {es : List Event} (hs : s.slot < s.contacts.length)
    (hes : SeeksBelow s.contacts.length es) :
    (s.apply es).table = s.table.run (deltas es) ∧ (s.apply es).slot < s.contacts.length := by
  induction es generalizing s with
  | nil => exact ⟨rfl, hs⟩
  | cons e es ih =>
      have he : (s.applyEvent e).slot < s.contacts.length :=
        slot_applyEvent hs fun e' h' => hes e' (by simp_all)
      have hlen := length_contacts_applyEvent s e
      obtain ⟨h₁, h₂⟩ := ih (s := s.applyEvent e) (hlen ▸ he)
        (hlen ▸ fun e' h' => hes e' (List.mem_cons_of_mem _ h'))
      refine ⟨?_, hlen ▸ h₂⟩
      rw [apply_cons, h₁, table_applyEvent hs, deltas_cons, Table.run_append]

/-! ### The state of an acquired pad -/

/-- The tracking id in a slot, `-1` where there is none. -/
def trackingAt (s : TouchState) (k : ℕ) : ℤ := (s.cell k TRACKING).getD (-1)

/-- A contact is in the slot. -/
def Active (s : TouchState) (k : ℕ) : Prop := 0 ≤ s.trackingAt k

instance (s : TouchState) (k : ℕ) : Decidable (s.Active k) := inferInstanceAs (Decidable (0 ≤ _))

/-- **The invariant of an acquired pad**: the state holds the values of the axes the device has. -/
structure Acquired (d : Descriptor) (s : TouchState) : Prop where
  contacts : s.contacts.length = d.slots
  slot : s.slot < d.slots
  /-- Single-touch values are below the slot axis, multi-touch values above it. -/
  single : ∀ code v, s.axes.get? code = some v → code < SLOT
  multi : ∀ k code v, s.cell k code = some v → SLOT < code
  /-- Every axis of the device has a value. -/
  axes : ∀ a ∈ d.axes, a.code < SLOT → s.axes.get? a.code ≠ none
  cells : ∀ a ∈ d.axes, SLOT < a.code → ∀ k < d.slots, s.cell k a.code ≠ none

/-- A destination nothing touches: no key is pressed and no slot holds a contact.  What the slots
hold otherwise is whatever an earlier contact left there. -/
structure Neutral (d : Descriptor) (t : TouchState) : Prop where
  contacts : t.contacts.length = d.slots
  slot : t.slot < d.slots
  keys : t.keys = ∅
  axes : ∀ code v, t.axes.get? code = some v → ∃ a ∈ d.axes, a.code = code ∧ code < SLOT
  tracking : ∀ k < d.slots, t.cell k TRACKING = some (-1)

/-- A new state is neutral. -/
theorem neutral_new {d : Descriptor} (hd : d.validate = .ok ()) : Neutral d (new d) where
  contacts := List.length_replicate
  slot := by
    obtain ⟨axis, haxis, -, hmax, -⟩ := Descriptor.validate_slot hd
    simp only [new, Descriptor.slots, haxis]
    omega
  keys := rfl
  axes code v h := by
    obtain ⟨a, ha, he⟩ := List.mem_map.mp (SortedMap.mem_of_get?_ofList h)
    obtain rfl : a.code = code := congrArg Prod.fst he
    exact ⟨a, (List.mem_filter.mp ha).1, rfl, by simpa using (List.mem_filter.mp ha).2⟩
  tracking k hk := by
    simp only [cell, new, List.getElem?_replicate, hk, if_true, Option.bind_some]
    rfl

/-! ### Acquisition -/

/-- What `TouchState::read` has read so far. -/
structure Partial (d : Descriptor) (s : TouchState) : Prop where
  contacts : s.contacts.length = d.slots
  single : ∀ code v, s.axes.get? code = some v → code < SLOT
  multi : ∀ k code v, s.cell k code = some v → SLOT < code
  axes : ∀ a ∈ d.axes, a.code < SLOT → s.axes.get? a.code ≠ none

/-- A new state is a reading that has just begun. -/
theorem partial_new (d : Descriptor) (keys : SortedSet ℕ) :
    Partial d { new d with keys := keys } where
  contacts := List.length_replicate
  single code v h := by
    obtain ⟨a, ha, he⟩ := List.mem_map.mp (SortedMap.mem_of_get?_ofList h)
    obtain rfl : a.code = code := congrArg Prod.fst he
    simpa using (List.mem_filter.mp ha).2
  multi k code v h := by
    simp only [cell, new, List.getElem?_replicate] at h
    split_ifs at h
    · have hmem := SortedMap.mem_of_get?_ofList h
      obtain rfl : code = TRACKING := congrArg Prod.fst (List.mem_singleton.mp hmem)
      decide
    · exact absurd h (by simp)
  axes a ha hcode := SortedMap.get?_ofList_ne_none (List.mem_map.mpr
    ⟨(a.code, a.minimum), List.mem_map.mpr ⟨a, List.mem_filter.mpr ⟨ha, by simpa using hcode⟩, rfl⟩,
      rfl⟩)

/-- The cells after `read` has filled in one multi-touch axis. -/
theorem cell_mapIdx_insert (s : TouchState) (code : ℕ) (values : ℕ → ℤ) (k c : ℕ) :
    cell { s with contacts := s.contacts.mapIdx fun index m => m.insert code (values index) } k c =
      s.contacts[k]?.bind fun m => if c = code then some (values k) else m.get? c := by
  simp only [cell, List.getElem?_mapIdx]
  cases s.contacts[k]? <;> simp

/-- Reading an axis fills it for every slot, and empties none. -/
theorem readAxis_spec {d : Descriptor} {r : Reading} {s s' : TouchState} {code : ℕ} {v : ℤ}
    (hs : Partial d s) (h : readAxis r s code v = .ok s') :
    Partial d s' ∧ (SLOT < code → ∀ k < d.slots, s'.cell k code ≠ none) ∧
      ∀ k c, s.cell k c ≠ none → s'.cell k c ≠ none := by
  unfold readAxis at h
  split_ifs at h with h₁ h₂
  · cases h
    refine ⟨⟨hs.contacts, fun c w hc => ?_, hs.multi, fun a ha hc => ?_⟩,
      fun hc => ?_, fun k c => id⟩
    · rw [SortedMap.get?_insert] at hc
      split_ifs at hc with he
      · exact he ▸ h₁
      · exact hs.single c w hc
    · rw [SortedMap.get?_insert]
      split_ifs
      · simp
      · exact hs.axes a ha hc
    · exact absurd h₁ hc.not_gt
  · cases h
    exact ⟨⟨hs.contacts, hs.single, hs.multi, hs.axes⟩, fun hc => absurd h₂ hc.ne', fun k c => id⟩
  · simp only [bind_eq_ok, orError_eq_ok] at h
    obtain ⟨values, -, h⟩ := h
    cases h
    refine ⟨⟨by simpa using hs.contacts, hs.single, fun k c w hc => ?_, hs.axes⟩, fun _ k hk => ?_,
      fun k c hc => ?_⟩
    · rw [cell_mapIdx_insert] at hc
      obtain ⟨m, hm, hc⟩ := Option.bind_eq_some_iff.mp hc
      split_ifs at hc with he
      · omega
      · exact hs.multi k c w (Option.bind_eq_some_iff.mpr ⟨m, hm, hc⟩)
    · rw [cell_mapIdx_insert, List.getElem?_eq_getElem (hs.contacts ▸ hk)]
      simp
    · obtain ⟨w, hw⟩ := Option.ne_none_iff_exists'.mp hc
      obtain ⟨m, hm, hw⟩ := Option.bind_eq_some_iff.mp hw
      rw [cell_mapIdx_insert, hm, Option.bind_some]
      split_ifs
      · simp
      · simp [hw]

/-- Reading fills every axis that is read. -/
theorem readAxes_spec {d : Descriptor} {r : Reading} {s s' : TouchState} {axes : List (ℕ × ℤ)}
    (hs : Partial d s) (h : readAxes r s axes = .ok s') :
    Partial d s' ∧ (∀ c ∈ axes.map Prod.fst, SLOT < c → ∀ k < d.slots, s'.cell k c ≠ none) ∧
      ∀ k c, s.cell k c ≠ none → s'.cell k c ≠ none := by
  induction axes generalizing s with
  | nil =>
      cases h
      exact ⟨hs, by simp, fun _ _ => id⟩
  | cons p axes ih =>
      simp only [readAxes, bind_eq_ok] at h
      obtain ⟨s₁, h₁, h⟩ := h
      obtain ⟨hs₁, hnew, hkeep⟩ := readAxis_spec hs h₁
      obtain ⟨hs', hrest, hkeep'⟩ := ih hs₁ h
      refine ⟨hs', fun c hc hlt k hk => ?_, fun k c hc => hkeep' k c (hkeep k c hc)⟩
      rcases List.mem_cons.mp hc with rfl | hc
      · exact hkeep' k _ (hnew hlt k hk)
      · exact hrest c hc hlt k hk

/-- The kernel reports every axis of the device. -/
def Reading.Complete (r : Reading) (d : Descriptor) : Prop :=
  ∀ axes, r.axes = .ok axes → ∀ a ∈ d.axes, a.code ∈ axes.map Prod.fst

/-- A complete reading gives every slot every multi-touch axis. -/
theorem acquired_read {d : Descriptor} {r : Reading} {s : TouchState} (hr : Reading.Complete r d)
    (h : read r d = .ok s) : Acquired d s := by
  simp only [read, bind_eq_ok, ensure_eq_ok] at h
  obtain ⟨keys, -, axes, haxes, s', hread, -, hslot, h⟩ := h
  cases h
  obtain ⟨hs, hcells, -⟩ := readAxes_spec (partial_new d _) hread
  exact ⟨hs.contacts, hs.contacts ▸ hslot, hs.single, hs.multi, hs.axes,
    fun a ha hc => hcells a.code (hr axes haxes a ha) hc⟩

/-- The values put into slots are multi-touch. -/
theorem lt_of_put_mem_deltas {es : List Event} {code : ℕ} {v : ℤ} (h : .put code v ∈ deltas es) :
    SLOT < code := by
  obtain ⟨⟨kind, c, w⟩, -, he⟩ := List.mem_flatMap.mp h
  cases kind with
  | key => exact absurd he List.not_mem_nil
  | absolute =>
      simp only [Event.delta] at he
      split_ifs at he with h₁ h₂ <;> simp_all

/-- The values put beside them are single-touch. -/
theorem lt_of_put_mem_axisDeltas {es : List Event} {code : ℕ} {v : ℤ}
    (h : .put code v ∈ axisDeltas es) : code < SLOT := by
  obtain ⟨⟨kind, c, w⟩, -, he⟩ := List.mem_flatMap.mp h
  cases kind with
  | key => exact absurd he List.not_mem_nil
  | absolute =>
      simp only [Event.axisDelta] at he
      split_ifs at he with h₁ <;> simp_all

/-- A frame adds no slot and removes none. -/
@[simp] theorem length_contacts_apply (s : TouchState) (es : List Event) :
    (s.apply es).contacts.length = s.contacts.length := by
  induction es generalizing s with
  | nil => rfl
  | cons e es ih => rw [apply_cons, ih, length_contacts_applyEvent]

/-- A validated frame of the device keeps the invariant. -/
theorem Acquired.apply {d : Descriptor} {s : TouchState} (hs : Acquired d s) {es : List Event}
    (hes : SeeksBelow d.slots es) : Acquired d (s.apply es) := by
  have hes' : SeeksBelow s.contacts.length es := hs.contacts ▸ hes
  obtain ⟨htable, hslot⟩ := table_apply (hs.contacts ▸ hs.slot) hes'
  have hcell : ∀ k code, (s.apply es).cell k code = (s.table.run (deltas es)).cell k code :=
    fun k code => congrArg (fun t => t.cell k code) htable
  have haxis :
      ∀ code, (s.apply es).axes.get? code = (s.axisTable.run (axisDeltas es)).cell () code :=
    fun code => congrArg (fun t => t.cell () code) (axisTable_apply s es)
  refine ⟨by rw [length_contacts_apply, hs.contacts], hs.contacts ▸ hslot, fun code v h => ?_,
    fun k code v h => ?_, fun a ha hc => ?_, fun a ha hc k hk => ?_⟩
  · exact (cell_run_eq_some ((haxis code).symm.trans h)).elim (hs.single code v)
      lt_of_put_mem_axisDeltas
  · exact (cell_run_eq_some ((hcell k code).symm.trans h)).elim (hs.multi k code v)
      lt_of_put_mem_deltas
  · rw [haxis]
    exact cell_run_ne_none (hs.axes a ha hc)
  · rw [hcell]
    exact cell_run_ne_none (hs.cells a ha hc k hk)

/-! ### Snapshots -/

/-- What a snapshot of contacts, from slot `index` on, says about a cell. -/
def snapshotCell (index : ℕ) (contacts : List (SortedMap ℕ ℤ)) (k code : ℕ) : Option ℤ :=
  if index ≤ k then
    (contacts[k - index]?.filter fun c => 0 ≤ tracking c).bind (·.get? code)
  else none

theorem delta_slot {index : ℕ} (h : index < 2 ^ 64) :
    (Event.abs SLOT index).delta = [.seek index] := by
  simp [Event.delta, Event.abs, asUsize_natCast h]

theorem delta_tracking (v : ℤ) : (Event.abs TRACKING v).delta = [.put TRACKING v] := rfl

/-- Multi-touch values are all put into the selected slot. -/
theorem deltas_abs {l : List (ℕ × ℤ)} (h : ∀ p ∈ l, SLOT < p.1) :
    deltas (l.map fun p => .abs p.1 p.2) = puts l := by
  induction l with
  | nil => rfl
  | cons p l ih =>
      have hp := h p (List.mem_cons_self ..)
      rw [List.map_cons, deltas_cons, ih fun q hq => h q (List.mem_cons_of_mem _ hq)]
      simp [Event.delta, Event.abs, hp, hp.ne', puts]

@[simp] theorem axisDelta_key (code : ℕ) (v : ℤ) : (Event.key code v).axisDelta = [] := rfl

@[simp] theorem axisDelta_slot (v : ℤ) : (Event.abs SLOT v).axisDelta = [] := rfl

/-- Single-touch values are all put on their axes. -/
theorem axisDeltas_abs {l : List (ℕ × ℤ)} (h : ∀ p ∈ l, p.1 < SLOT) :
    axisDeltas (l.map fun p => .abs p.1 p.2) = puts l := by
  induction l with
  | nil => rfl
  | cons p l ih =>
      rw [List.map_cons, axisDeltas_cons, ih fun q hq => h q (List.mem_cons_of_mem _ hq)]
      simp [Event.axisDelta, Event.abs, h p (List.mem_cons_self ..), puts]

/-- The snapshot of a contact puts its values into its slot if it is active. -/
theorem run_snapshotSlot {t : Table ℕ ℕ ℤ} {index : ℕ} {contact : SortedMap ℕ ℤ}
    (hindex : index < 2 ^ 64) (hmulti : ∀ code v, contact.get? code = some v → SLOT < code)
    (k code : ℕ) :
    (t.run (deltas (snapshotSlot index contact))).cell k code =
      (if k = index ∧ 0 ≤ tracking contact then contact.get? code else none).or
        (t.cell k code) := by
  unfold snapshotSlot
  by_cases hact : 0 ≤ tracking contact
  · have htr : contact.get? TRACKING = some (tracking contact) := by
      unfold tracking at hact ⊢
      cases h : contact.get? TRACKING with
      | none => simp [h] at hact
      | some v => rfl
    have hrest : ∀ p ∈ (contact.erase TRACKING).toList, SLOT < p.1 := fun p hp =>
      hmulti p.1 p.2 (SortedMap.mem_toList.mp (List.mem_of_mem_filter hp))
    rw [if_pos hact, deltas_append, Table.run_append]
    rw [show contact.toList.filter (fun p => p.1 ≠ TRACKING) = (contact.erase TRACKING).toList
      from rfl, deltas_abs hrest, run_puts, deltas_cons, deltas_cons, delta_slot hindex,
      delta_tracking]
    by_cases hk : k = index <;> by_cases hc : code = TRACKING <;>
      simp [Table.step, Table.set, hk, hc, hact, htr]
  · simp [hact]

/-- The snapshot of the slots puts the values of the active ones. -/
theorem run_snapshotSlots {t : Table ℕ ℕ ℤ} {index : ℕ} {contacts : List (SortedMap ℕ ℤ)}
    (hindex : index + contacts.length ≤ 2 ^ 64)
    (hmulti : ∀ c ∈ contacts, ∀ code v, c.get? code = some v → SLOT < code) (k code : ℕ) :
    (t.run (deltas (snapshotSlots index contacts))).cell k code =
      (snapshotCell index contacts k code).or (t.cell k code) := by
  induction contacts generalizing index t with
  | nil => simp [snapshotSlots, snapshotCell]
  | cons contact contacts ih =>
      have hcons : index + (contacts.length + 1) ≤ 2 ^ 64 := hindex
      rw [snapshotSlots, deltas_append, Table.run_append,
        ih (by omega) fun c hc => hmulti c (List.mem_cons_of_mem _ hc),
        run_snapshotSlot (by omega) (hmulti contact (List.mem_cons_self ..))]
      rcases lt_trichotomy k index with hk | rfl | hk
      · simp [snapshotCell, hk.not_ge, hk.ne, show ¬ index + 1 ≤ k by omega]
      · rw [snapshotCell, snapshotCell, if_pos le_rfl,
          if_neg (Nat.not_succ_le_self k), Nat.sub_self]
        by_cases hact : 0 ≤ tracking contact <;> simp [hact, Option.filter]
      · have hsub : k - index = k - (index + 1) + 1 := by omega
        simp [snapshotCell, hk.ne', hk.le, show index + 1 ≤ k by omega, hsub]

/-- What is in the snapshot of the slots. -/
theorem mem_snapshotSlots {index : ℕ} {contacts : List (SortedMap ℕ ℤ)} {e : Event}
    (h : e ∈ snapshotSlots index contacts) :
    e.kind = .absolute ∧ ((∃ k < contacts.length, e = .abs SLOT ((index + k : ℕ) : ℤ)) ∨
      e.code = TRACKING ∨ ∃ c ∈ contacts, c.get? e.code = some e.value) := by
  induction contacts generalizing index with
  | nil => exact absurd h List.not_mem_nil
  | cons c cs ih =>
      rcases List.mem_append.mp h with h | h
      · unfold snapshotSlot at h
        split_ifs at h
        · simp only [List.mem_append, List.mem_cons, List.not_mem_nil, or_false, List.mem_map,
            List.mem_filter] at h
          obtain (rfl | rfl) | ⟨p, ⟨hp, -⟩, rfl⟩ := h
          · exact ⟨rfl, .inl ⟨0, by simp, rfl⟩⟩
          · exact ⟨rfl, .inr (.inl rfl)⟩
          · exact ⟨rfl, .inr (.inr ⟨c, by simp, SortedMap.mem_toList.mp hp⟩)⟩
        · exact absurd h List.not_mem_nil
      · obtain ⟨hkind, ⟨k, hk, rfl⟩ | hcode | ⟨c', hc', hv⟩⟩ := ih h
        · exact ⟨hkind,
            .inl ⟨k + 1, by simpa using hk, by rw [show index + (k + 1) = index + 1 + k by omega]⟩⟩
        · exact ⟨hkind, .inr (.inl hcode)⟩
        · exact ⟨hkind, .inr (.inr ⟨c', List.mem_cons_of_mem _ hc', hv⟩)⟩

section Snapshot

variable {d : Descriptor} {s t : TouchState} (hd : d.validate = .ok ()) (hs : Acquired d s)

include hs in
/-- A slot has multi-touch values only. -/
theorem Acquired.multi_mem {c : SortedMap ℕ ℤ} (hc : c ∈ s.contacts) {code : ℕ} {v : ℤ}
    (h : c.get? code = some v) : SLOT < code := by
  obtain ⟨k, hk⟩ := List.mem_iff_getElem?.mp hc
  exact hs.multi k code v (by simp [cell, hk, h])

/-- Keys and single-touch values put nothing into a slot. -/
theorem deltas_eq_nil {es : List Event} (h : ∀ e ∈ es, e.kind = .key ∨ e.code < SLOT) :
    deltas es = [] := by
  refine List.flatMap_eq_nil_iff.mpr fun e he => ?_
  obtain ⟨kind, code, v⟩ := e
  cases kind with
  | key => rfl
  | absolute =>
      have hcode : code < SLOT := (h _ he).resolve_left (by simp)
      simp [Event.delta, hcode.ne, hcode.not_gt]

/-- Keys and multi-touch values put nothing on the other axes. -/
theorem axisDeltas_eq_nil {es : List Event} (h : ∀ e ∈ es, e.kind = .key ∨ SLOT ≤ e.code) :
    axisDeltas es = [] := by
  refine List.flatMap_eq_nil_iff.mpr fun e he => ?_
  obtain ⟨kind, code, v⟩ := e
  cases kind with
  | key => rfl
  | absolute =>
      have hcode : SLOT ≤ code := (h _ he).resolve_left (by simp)
      simp [Event.axisDelta, hcode.not_gt]

include hd hs in
/-- For the slots a snapshot is that of the contacts, and the selected slot at the end. -/
theorem deltas_snapshot :
    deltas s.snapshot = deltas (snapshotSlots 0 s.contacts) ++ [.seek s.slot] := by
  have hslot : s.slot < 2 ^ 64 := by
    have := hs.slot
    have := Descriptor.slots_le hd
    omega
  have haxes : deltas (s.axes.toList.map fun p => .abs p.1 p.2) = [] := by
    refine deltas_eq_nil fun e he => ?_
    obtain ⟨p, hp, rfl⟩ := List.mem_map.mp he
    exact .inr (hs.single p.1 p.2 (SortedMap.mem_toList.mp hp))
  have hkeys : deltas ((s.keys.toList.filter (· ≠ TOUCH)).map (.key · 1)) = [] := by
    refine deltas_eq_nil fun e he => ?_
    obtain ⟨p, -, rfl⟩ := List.mem_map.mp he
    exact .inl rfl
  simp only [snapshot, deltas_append, deltas_cons, deltas_nil, haxes, hkeys, delta_slot hslot,
    List.append_nil]
  rfl

include hd hs in
/-- A snapshot selects only slots the device has. -/
theorem snapshot_seeksBelow : SeeksBelow d.slots s.snapshot := by
  have hle := Descriptor.slots_le hd
  intro e he hkind hcode
  simp only [snapshot, List.mem_append, List.mem_cons, List.not_mem_nil, or_false, List.mem_map]
    at he
  obtain (((rfl | he) | ⟨p, hp, rfl⟩) | ⟨p, -, rfl⟩) | rfl := he
  · cases hkind
  · obtain ⟨-, ⟨k, hk, rfl⟩ | h | ⟨c, hc, hv⟩⟩ := mem_snapshotSlots he
    · have hk : k < d.slots := hs.contacts ▸ hk
      simpa [Event.abs, asUsize_natCast (n := k) (by omega)] using hk
    · exact absurd (hcode.symm.trans h) (by decide)
    · exact absurd (hs.multi_mem hc hv) (by simp [hcode])
  · exact ((hs.single _ _ (SortedMap.mem_toList.mp hp)).ne hcode).elim
  · cases hkind
  · have hslot := hs.slot
    simpa [Event.abs, asUsize_natCast (n := s.slot) (by omega)] using hslot

include hd hs in
/-- **The contacts after a snapshot.**  A slot with a contact gets the contact's values; the other
slots keep what they hold. -/
theorem table_apply_snapshot (hlen : t.contacts.length = d.slots) (hslot : t.slot < d.slots)
    (k code : ℕ) :
    (t.apply s.snapshot).slot = s.slot ∧
      (t.apply s.snapshot).cell k code =
        if s.Active k then (s.cell k code).or (t.cell k code) else t.cell k code := by
  have hseeks : SeeksBelow t.contacts.length s.snapshot := hlen ▸ snapshot_seeksBelow hd hs
  obtain ⟨htable, -⟩ := table_apply (hlen ▸ hslot) hseeks
  rw [deltas_snapshot hd hs, Table.run_append] at htable
  refine ⟨congrArg Table.cursor htable, (congrArg (fun u => u.cell k code) htable).trans ?_⟩
  have hle := Descriptor.slots_le hd
  have hindex : 0 + s.contacts.length ≤ 2 ^ 64 := by rw [hs.contacts]; omega
  refine (run_snapshotSlots hindex (fun c hc code v => hs.multi_mem hc) k code).trans ?_
  cases hk : s.contacts[k]? with
  | none => simp [snapshotCell, Active, trackingAt, cell, hk]
  | some c =>
      have hcell : ∀ code, s.cell k code = c.get? code := fun code => by simp [cell, hk]
      by_cases hact : 0 ≤ (c.get? TRACKING).getD (-1) <;>
        simp [snapshotCell, Active, trackingAt, tracking, hcell, hk, hact, Option.filter]

include hs in
/-- After a snapshot the single-touch axes are those of the state. -/
theorem axes_apply_snapshot (code : ℕ) :
    (t.apply s.snapshot).axes.get? code = (s.axes.get? code).or (t.axes.get? code) := by
  have hslots : axisDeltas (snapshotSlots 0 s.contacts) = [] := by
    refine axisDeltas_eq_nil fun e he => .inr ?_
    obtain ⟨-, ⟨k, -, rfl⟩ | h | ⟨c, hc, hv⟩⟩ := mem_snapshotSlots he
    · exact le_rfl
    · exact h ▸ by decide
    · exact (hs.multi_mem hc hv).le
  have hkeys : axisDeltas ((s.keys.toList.filter (· ≠ TOUCH)).map (.key · 1)) = [] := by
    refine axisDeltas_eq_nil fun e he => ?_
    obtain ⟨p, -, rfl⟩ := List.mem_map.mp he
    exact .inl rfl
  have haxes : axisDeltas (s.axes.toList.map fun p => .abs p.1 p.2) = puts s.axes.toList :=
    axisDeltas_abs fun p hp => hs.single p.1 p.2 (SortedMap.mem_toList.mp hp)
  have htable := axisTable_apply t s.snapshot
  simp only [snapshot, axisDeltas_append, axisDeltas_cons, axisDeltas_nil, hslots, hkeys, haxes,
    axisDelta_key, axisDelta_slot, List.nil_append, List.append_nil] at htable
  refine (congrArg (fun u => u.cell () code) htable).trans ?_
  exact (run_puts (k := ()) t.axisTable s.axes).trans (if_pos rfl)

/-- A frame without keys leaves the keys. -/
theorem keys_apply_absolute {es : List Event} (h : ∀ e ∈ es, e.kind = .absolute) :
    (t.apply es).keys = t.keys := by
  induction es generalizing t with
  | nil => rfl
  | cons e es ih =>
      obtain ⟨he, hes⟩ := List.forall_mem_cons.mp h
      rw [apply_cons, ih hes, applyEvent, he]
      split_ifs <;> rfl

/-- A key is pressed that was, or that the frame presses. -/
theorem mem_keys_apply {t : TouchState} {es : List Event} {code : ℕ}
    (h : code ∈ (t.apply es).keys) :
    code ∈ t.keys ∨ ∃ e ∈ es, (e.kind = .key ∧ e.value ≠ 0) ∧ e.code = code := by
  induction es generalizing t with
  | nil => exact .inl h
  | cons e es ih =>
      rcases ih h with h | ⟨e', he', hkey⟩
      · unfold applyEvent at h
        split at h
        · rename_i hkind
          split_ifs at h with hvalue
          · exact .inl (SortedSet.mem_erase.mp h).2
          · rcases SortedSet.mem_insert.mp h with rfl | h
            · exact .inr ⟨e, List.mem_cons_self .., ⟨hkind, hvalue⟩, rfl⟩
            · exact .inl h
        · split_ifs at h <;> exact .inl h
      · exact .inr ⟨e', List.mem_cons_of_mem _ he', hkey⟩

/-- After presses these keys are pressed too. -/
theorem mem_keys_apply_presses {l : List ℕ} {code : ℕ} :
    code ∈ (t.apply (l.map (.key · 1))).keys ↔ code ∈ l ∨ code ∈ t.keys := by
  induction l generalizing t with
  | nil => simp
  | cons c l ih =>
      have hc : (t.applyEvent (.key c 1)).keys = t.keys.insert c := rfl
      rw [List.map_cons, apply_cons, ih, hc, SortedSet.mem_insert, List.mem_cons]
      tauto

/-- A device without keys has the keys of the snapshot. -/
theorem keys_apply_snapshot (ht : t.keys = ∅) : (t.apply s.snapshot).keys = s.keys := by
  have hslots : ∀ u : TouchState, (u.apply (snapshotSlots 0 s.contacts)).keys = u.keys := by
    intro u
    exact keys_apply_absolute fun e he => (mem_snapshotSlots he).1
  have haxes : ∀ e ∈ s.axes.toList.map fun p => Event.abs p.1 p.2, e.kind = .absolute := by
    rintro _ he
    obtain ⟨p, -, rfl⟩ := List.mem_map.mp he
    rfl
  refine SortedSet.ext fun code => ?_
  simp only [snapshot, apply_append]
  rw [keys_apply_absolute (by simp [Event.abs]), mem_keys_apply_presses,
    keys_apply_absolute haxes, hslots]
  by_cases htouch : TOUCH ∈ s.keys <;> by_cases hcode : code = TOUCH <;>
    simp [applyEvent, Event.key, ht, hcode, htouch, ← SortedSet.mem_def]

end Snapshot

end TouchState

end NiriBridge.Touchpad
