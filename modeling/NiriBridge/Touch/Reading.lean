import NiriBridge.Touch.Legal

/-!
# Touch — Reading

The state of a pad that has just been grabbed is read from the kernel, not built from validated
frames.  `new` starts every single-touch axis at its minimum, and `read` replaces that by the value
the kernel reports, which before the first touch is whatever the driver left there.

* `readAxes_axes`, `readAxes_cell`: what `read` leaves in an axis and in a slot.
* `forwardable_iff`: exactly when the state can be handed to a virtual device of the same
  descriptor.
-/

namespace NiriBridge.Touchpad

open Cursor

namespace TouchState

variable {d : Descriptor} {r : Reading} {s s' : TouchState} {code k : ℕ} {v : ℤ}

/-! ### What is read -/

/-- The value reported last for an axis. -/
def lastValue : List (ℕ × ℤ) → ℕ → Option ℤ
  | [], _ => none
  | (c, v) :: axes, code => (lastValue axes code).or (if c = code then some v else none)

/-- The last value read of an axis has been read. -/
theorem mem_of_lastValue {axes : List (ℕ × ℤ)} (h : lastValue axes code = some v) :
    (code, v) ∈ axes := by
  induction axes with
  | nil => cases h
  | cons p axes ih =>
      rw [lastValue, Option.or_eq_some_iff] at h
      rcases h with h | ⟨-, h⟩
      · exact List.mem_cons_of_mem _ (ih h)
      · obtain ⟨rfl, hv⟩ := Option.ite_none_right_eq_some.mp h
        cases hv
        exact List.mem_cons_self

/-- A single-touch axis reads its own value, and no other. -/
theorem readAxis_axes {c : ℕ} (h : readAxis r s c v = .ok s') (hcode : code < SLOT) :
    s'.axes.get? code = (if c = code then some v else none).or (s.axes.get? code) := by
  unfold readAxis at h
  split_ifs at h with h₁ h₂
  · cases h
    rw [SortedMap.get?_insert]
    by_cases hc : code = c
    · simp [hc]
    · simp [hc, Ne.symm hc]
  · cases h
    rw [if_neg (by omega), Option.none_or]
  · simp only [bind_eq_ok] at h
    obtain ⟨values, -, h⟩ := h
    cases h
    rw [if_neg (by omega), Option.none_or]

/-- A single-touch axis has the value reported last, or what it had. -/
theorem readAxes_axes {axes : List (ℕ × ℤ)} (h : readAxes r s axes = .ok s') (hcode : code < SLOT) :
    s'.axes.get? code = (lastValue axes code).or (s.axes.get? code) := by
  induction axes generalizing s with
  | nil =>
      cases h
      exact Option.none_or.symm
  | cons p axes ih =>
      simp only [readAxes, bind_eq_ok] at h
      obtain ⟨s₁, h₁, h⟩ := h
      rw [ih h, readAxis_axes h₁ hcode, lastValue, Option.or_assoc]

/-- A multi-touch axis reads its values for every slot. -/
theorem readAxis_cell {c : ℕ} (hs : Partial d s) (h : readAxis r s c v = .ok s')
    (hk : k < d.slots) :
    s'.cell k code =
      if c = code ∧ SLOT < code then (r.slotValues code).map (· k) else s.cell k code := by
  unfold readAxis at h
  split_ifs at h with h₁ h₂
  · cases h
    rw [if_neg (by omega)]
    rfl
  · cases h
    rw [if_neg (by omega)]
    rfl
  · simp only [bind_eq_ok, orError_eq_ok] at h
    obtain ⟨values, hvalues, h⟩ := h
    cases h
    rw [cell_mapIdx_insert, List.getElem?_eq_getElem (hs.contacts ▸ hk), Option.bind_some]
    by_cases hc : code = c
    · subst hc
      rw [if_pos rfl, if_pos ⟨rfl, by omega⟩, hvalues, Option.map_some]
    · rw [if_neg hc, if_neg fun hand => hc hand.1.symm, cell,
        List.getElem?_eq_getElem (hs.contacts ▸ hk), Option.bind_some]

/-- A slot has the values reported for it, or what it had. -/
theorem readAxes_cell {axes : List (ℕ × ℤ)} (hs : Partial d s) (h : readAxes r s axes = .ok s')
    (hk : k < d.slots) :
    s'.cell k code = if code ∈ axes.map Prod.fst ∧ SLOT < code then (r.slotValues code).map (· k)
      else s.cell k code := by
  induction axes generalizing s with
  | nil =>
      cases h
      simp
  | cons p axes ih =>
      simp only [readAxes, bind_eq_ok] at h
      obtain ⟨s₁, h₁, h⟩ := h
      rw [ih (readAxis_spec hs h₁).1 h, readAxis_cell hs h₁ hk]
      by_cases hmem : code ∈ axes.map Prod.fst ∧ SLOT < code
      · rw [if_pos hmem, if_pos ⟨List.mem_cons_of_mem _ hmem.1, hmem.2⟩]
      · rw [if_neg hmem]
        refine if_congr ?_ rfl rfl
        rw [List.map_cons, List.mem_cons, eq_comm]
        tauto

/-! ### States to hand over -/

/-- **The state can be handed over**: what it holds lies within the ranges of the descriptor, and a
virtual device of that descriptor, the peer's or the local mirror, takes the snapshot. -/
structure Forwardable (d : Descriptor) (s : TouchState) : Prop where
  single : ∀ code v, s.axes.get? code = some v → d.validateEvent (.abs code v) = .ok ()
  active : ∀ c ∈ s.contacts, 0 ≤ tracking c → ∀ code v, c.get? code = some v →
    d.validateEvent (.abs code v) = .ok ()
  accepted : ∀ (pad : VirtualTouchpad) (tick : Tick) (time : ℕ), pad.descriptor = d →
    time ≤ tick.now ∧ tick.now - time ≤ 200000 → tick.write = .ok () →
    ∃ pad', pad.emitAt tick s.snapshot time = .ok pad'

/-- A state that can be shown can be forwarded. -/
theorem Shown.forwardable (hd : d.validate = .ok ()) (h : Shown d s) : Forwardable d s where
  single code v hv := (h.single code v hv).2
  active c hc hactive code v hv := (h.active c hc hactive code v hv).2
  accepted pad tick time hdescriptor htime hwrite := by
    have hframe := h.validateFrame_snapshot hd
    refine ⟨{ pad with
      lastTime := min (max time pad.lastTime) tick.now, state := pad.state.apply s.snapshot }, ?_⟩
    simp only [VirtualTouchpad.emitAt, hdescriptor, bind_eq_ok, ensure_eq_ok]
    exact ⟨(), hframe, (), htime, (), hwrite, rfl⟩

/-- The device can report a contact. -/
def Touchable (d : Descriptor) : Prop := ∃ v, 0 ≤ v ∧ d.validateEvent (.abs TRACKING v) = .ok ()

/-- No frame makes anything of the state but one that can be handed over.  What is in a slot matters
once a contact begins there. -/
structure Ready (d : Descriptor) (s : TouchState) : Prop where
  contacts : s.contacts.length = d.slots
  slot : s.slot < d.slots
  keys : ∀ code ∈ s.keys, code ∈ d.keys
  single : ∀ code v, s.axes.get? code = some v →
    code < SLOT ∧ d.validateEvent (.abs code v) = .ok ()
  ids : ∀ k v, s.cell k TRACKING = some v → v < 0 ∨ d.validateEvent (.abs TRACKING v) = .ok ()
  multi : ∀ k code v, s.cell k code = some v →
    SLOT < code ∧ (code ≠ TRACKING → Touchable d → d.validateEvent (.abs code v) = .ok ())

/-- A pad that is ready can be shown. -/
theorem Ready.shown (h : Ready d s) : Shown d s where
  contacts := h.contacts
  slot := h.slot
  keys := h.keys
  single := h.single
  active c hc hactive code v hv := by
    obtain ⟨k, hk⟩ := List.mem_iff_getElem?.mp hc
    have hcell : ∀ {code v}, c.get? code = some v → s.cell k code = some v :=
      fun hv => by simp [cell, hk, hv]
    have htracking : d.validateEvent (.abs TRACKING (tracking c)) = .ok () :=
      (h.ids k _ (hcell (get?_tracking hactive))).resolve_left (not_lt.mpr hactive)
    obtain ⟨hlt, hvalid⟩ := h.multi k code v (hcell hv)
    refine ⟨hlt, ?_⟩
    by_cases hcode : code = TRACKING
    · subst hcode
      rwa [← Option.some.inj ((get?_tracking hactive).symm.trans hv)]
    · exact hvalid hcode ⟨_, hactive, htracking⟩

/-- A valid frame keeps a pad ready. -/
theorem Ready.apply (hd : d.validate = .ok ()) (h : Ready d s) {frame : List Event}
    (hframe : d.validateFrame frame = .ok ()) : Ready d (s.apply frame) := by
  have hvalid := Descriptor.valid_of_validateFrame hframe
  refine ⟨(length_contacts_apply s frame).trans h.contacts,
    slot_apply_lt hvalid hd h.contacts h.slot, fun code hcode => ?_, fun code v hv => ?_,
    fun k v hv => ?_, fun k code v hv => ?_⟩
  · exact (cases_keys_apply hvalid hcode).elim (h.keys code) id
  · exact (cases_axes_apply hvalid hv).elim (h.single code v) id
  · rcases cases_cell_apply hvalid hd h.contacts h.slot hv with hold | ⟨-, hnew⟩
    · exact h.ids k v hold
    · exact .inr hnew
  · rcases cases_cell_apply hvalid hd h.contacts h.slot hv with hold | ⟨hlt, hnew⟩
    · exact h.multi k code v hold
    · exact ⟨hlt, fun _ _ => hnew⟩

/-- Valid frames keep a pad ready. -/
theorem Ready.run (hd : d.validate = .ok ()) (h : Ready d s) {frames : List (List Event)}
    (hframes : ∀ frame ∈ frames, d.validateFrame frame = .ok ()) :
    Ready d (frames.foldl TouchState.apply s) := by
  induction frames generalizing s with
  | nil => exact h
  | cons frame frames ih =>
      obtain ⟨hframe, hrest⟩ := List.forall_mem_cons.mp hframes
      exact ih (h.apply hd hframe) hrest

end TouchState

open TouchState

/-- Every value reported last for a single-touch axis is one the axis may have. -/
def Reading.InRange (r : Reading) (d : Descriptor) : Prop :=
  ∀ axes, r.axes = .ok axes → ∀ code v, code < SLOT → lastValue axes code = some v →
    d.validateEvent (.abs code v) = .ok ()

/-- Every value reported for a slot is one the axis may have. -/
def Reading.SlotsInRange (r : Reading) (d : Descriptor) : Prop :=
  ∀ axes, r.axes = .ok axes → ∀ code ∈ axes.map Prod.fst, SLOT < code → code ≠ TRACKING →
    ∀ values, r.slotValues code = some values → ∀ k < d.slots,
      d.validateEvent (.abs code (values k)) = .ok ()

namespace TouchState

variable {d : Descriptor} {r : Reading} {s : TouchState}

/-- What `read` returns for a device that nothing touches. -/
theorem read_spec (h : read r d = .ok s) (hidle : s.idle = true) :
    ∃ axes keys, r.axes = .ok axes ∧ Partial d s ∧ s.slot < d.slots ∧ s.keys = ∅ ∧ Empty s ∧
      readAxes r { new d with keys := keys } axes = .ok s := by
  simp only [read, bind_eq_ok, ensure_eq_ok] at h
  obtain ⟨keys, -, axes, haxes, s', hread, -, hslot, h⟩ := h
  cases h
  have hfresh := (readAxes_spec (partial_new d _) hread).1
  obtain ⟨hkeys, hempty⟩ := idle_iff.mp hidle
  exact ⟨axes, _, haxes, hfresh, hfresh.contacts ▸ hslot, hkeys, hempty, hread⟩

/-- An idle pad within range reads valid single-touch values. -/
theorem read_single (hd : d.validate = .ok ()) (h : read r d = .ok s) (hidle : s.idle = true)
    (hr : r.InRange d) (code : ℕ) (v : ℤ) (hv : s.axes.get? code = some v) :
    code < SLOT ∧ d.validateEvent (.abs code v) = .ok () := by
  obtain ⟨axes, keys, haxes, hfresh, -, -, -, hread⟩ := read_spec h hidle
  have hcode := hfresh.single code v hv
  refine ⟨hcode, ?_⟩
  rw [readAxes_axes hread hcode] at hv
  cases hlast : lastValue axes code with
  | some w =>
      rw [hlast, Option.some_or] at hv
      exact hr axes haxes code v hcode (hlast.trans hv)
  | none =>
      rw [hlast, Option.none_or] at hv
      exact ((legal_new hd).single code v hv).2

/-- An idle device has nothing to show in its slots. -/
theorem shown_read (hd : d.validate = .ok ()) (h : read r d = .ok s) (hidle : s.idle = true)
    (hr : r.InRange d) : Shown d s := by
  obtain ⟨axes, keys, -, hfresh, hslot, hkeys, hempty, -⟩ := read_spec h hidle
  refine ⟨hfresh.contacts, hslot, fun code hcode => ?_, read_single hd h hidle hr,
    fun c hc hactive => ?_⟩
  · exact absurd (hkeys ▸ hcode) (SortedSet.not_mem_empty code)
  · obtain ⟨k, hk⟩ := List.mem_iff_getElem?.mp hc
    have htracking : s.trackingAt k = tracking c := by simp [trackingAt, tracking, cell, hk]
    exact absurd hactive (not_le.mpr (htracking ▸ hempty k))

/-- An idle pad whose reading is within range is ready. -/
theorem ready_read (hd : d.validate = .ok ()) (h : read r d = .ok s) (hidle : s.idle = true)
    (hr : r.InRange d) (hslots : Touchable d → r.SlotsInRange d) : Ready d s := by
  obtain ⟨axes, keys, haxes, hfresh, hslot, hkeys, hempty, hread⟩ := read_spec h hidle
  refine ⟨hfresh.contacts, hslot, fun code hcode => ?_, read_single hd h hidle hr,
    fun k v hv => .inl ?_, fun k code v hv => ⟨hfresh.multi k code v hv, fun hcode htouch => ?_⟩⟩
  · exact absurd (hkeys ▸ hcode) (SortedSet.not_mem_empty code)
  · have htracking : s.trackingAt k = v := by simp [trackingAt, hv]
    exact htracking ▸ hempty k
  · have hk : k < d.slots := by
      by_contra hk
      rw [cell, List.getElem?_eq_none (by rw [hfresh.contacts]; omega)] at hv
      cases hv
    rw [readAxes_cell (partial_new d _) hread hk] at hv
    split_ifs at hv with hmem
    · obtain ⟨values, hvalues, rfl⟩ := Option.map_eq_some_iff.mp hv
      exact hslots htouch axes haxes code hmem.1 hmem.2 hcode values hvalues k hk
    · exact ((legal_new hd).multi k code v hv).2

/-- A contact that begins in a slot shows what is in it. -/
theorem slots_of_forwardable (hd : d.validate = .ok ()) (h : read r d = .ok s)
    (hidle : s.idle = true) (htouch : Touchable d)
    (hforward : ∀ frames : List (List Event), (∀ frame ∈ frames, d.validateFrame frame = .ok ()) →
      Forwardable d (frames.foldl TouchState.apply s)) : r.SlotsInRange d := by
  obtain ⟨axes, keys, haxes, hfresh, -, -, -, hread⟩ := read_spec h hidle
  intro axes' haxes' code hmem hlt hne values hvalues k hk
  obtain rfl := Except.ok.inj (haxes.symm.trans haxes')
  obtain ⟨id, hid, hvalid⟩ := htouch
  have hseek := Descriptor.validateEvent_slot hd hk
  -- a frame that touches the slot shows the value that was read for it
  have hframe : d.validateFrame [.abs SLOT (k : ℤ), .abs TRACKING id] = .ok () := by
    refine Descriptor.validateFrame_of_events (List.cons_ne_nil _ _) (Nat.le_of_ble_eq_true rfl)
      fun e he => ?_
    simp only [List.mem_cons, List.not_mem_nil, or_false] at he
    rcases he with rfl | rfl
    · exact ⟨Descriptor.admissible_abs hd hseek, hseek⟩
    · exact ⟨Descriptor.admissible_abs hd hvalid, hvalid⟩
  obtain ⟨c, hc⟩ : ∃ c, s.contacts[k]? = some c :=
    ⟨_, List.getElem?_eq_getElem (hfresh.contacts ▸ hk)⟩
  have hvalue : c.get? code = some (values k) := by
    have hcell : s.cell k code = _ := readAxes_cell (partial_new d _) hread hk
    rwa [if_pos ⟨hmem, hlt⟩, hvalues, Option.map_some, cell, hc, Option.bind_some] at hcell
  have hafter : (s.apply [.abs SLOT (k : ℤ), .abs TRACKING id]).contacts[k]? =
      some (c.insert TRACKING id) := by
    have hslots := Descriptor.slots_le hd
    have happly : (s.apply [.abs SLOT (k : ℤ), .abs TRACKING id]).contacts =
        s.contacts.modify (asUsize k) fun c => c.insert TRACKING id := rfl
    rw [happly, asUsize_natCast (by omega), List.getElem?_modify_eq, hc]
    rfl
  have hforward := hforward [[.abs SLOT (k : ℤ), .abs TRACKING id]] (by simpa using hframe)
  refine hforward.active _ (List.mem_of_getElem? hafter) ?_ code (values k) ?_
  · rw [tracking, SortedMap.get?_insert, if_pos rfl, Option.getD_some]
    exact hid
  · rw [SortedMap.get?_insert, if_neg hne]
    exact hvalue

end TouchState

namespace Router

/-- **Exactly when an acquired state can be handed over.**  It is so at once if the value of each
single-touch axis is in its range, and whatever frames follow if, on a device that can report a
contact, the values of the slots are too. -/
theorem forwardable_iff {input : PadInput} {pad pad' : PhysicalTouchpad}
    (hd : pad.descriptor.validate = .ok ()) (h : acquire input pad = .ok pad')
    (hg : pad.grabbed = false) (hg' : pad'.grabbed = true) :
    (Forwardable pad.descriptor pad'.state ↔ input.reading.InRange pad.descriptor) ∧
      ((∀ frames : List (List Event),
        (∀ frame ∈ frames, pad.descriptor.validateFrame frame = .ok ()) →
          Forwardable pad.descriptor (frames.foldl TouchState.apply pad'.state)) ↔
        input.reading.InRange pad.descriptor ∧
          (Touchable pad.descriptor → input.reading.SlotsInRange pad.descriptor)) := by
  obtain ⟨state, hread, hidle, rfl⟩ := acquire_spec h hg hg'
  have hnow : Forwardable pad.descriptor state → input.reading.InRange pad.descriptor := by
    intro hforward axes haxes code v hcode hv
    obtain ⟨axes', keys, haxes', -, -, -, -, hstate⟩ := read_spec hread hidle
    obtain rfl := Except.ok.inj (haxes.symm.trans haxes')
    refine hforward.single code v ?_
    rw [readAxes_axes hstate hcode, hv, Option.some_or]
  refine ⟨⟨hnow, fun hr => (shown_read hd hread hidle hr).forwardable hd⟩, fun hforward => ?_, ?_⟩
  · exact ⟨hnow (hforward [] nofun),
      fun htouch => slots_of_forwardable hd hread hidle htouch hforward⟩
  · rintro ⟨hr, hslots⟩ frames hframes
    exact ((ready_read hd hread hidle hr hslots).run hd hframes).shown.forwardable hd

/-! A device whose axes start at 1 and that nothing has touched yet. -/

namespace Untouched

/-- A touchpad whose coordinates start at 1. -/
def descriptor : Descriptor where
  keys := [TOUCH, 325]
  properties := [0]
  axes := [⟨0, 1, 1000, 0, 0, 0⟩, ⟨1, 1, 500, 0, 0, 0⟩, ⟨SLOT, 0, 1, 0, 0, 0⟩,
    ⟨53, 1, 1000, 0, 0, 0⟩, ⟨54, 1, 500, 0, 0, 0⟩, ⟨TRACKING, 0, 65535, 0, 0, 0⟩]

/-- The kernel reports `x` for the axes 0 and 1. -/
def input (x : ℤ) : PadInput where
  events := .ok []
  keyState := .ok []
  grab := .ok ()
  flush := .ok ()
  reading := {
    keys := .ok []
    axes := .ok [(0, x), (1, x), (SLOT, 0), (53, 0), (54, 0), (TRACKING, 0)]
    slotValues := fun code => some fun _ => if code = TRACKING then -1 else 1 }
  handoff := .ok ()
  mirror := ⟨1, 1, .ok ()⟩

/-- The pad once it has been grabbed. -/
def grabbed (x : ℤ) : PhysicalTouchpad :=
  { PhysicalTouchpad.opened descriptor with
    state := ((TouchState.read (input x).reading descriptor).toOption).getD (new descriptor)
    grabbed := true }

end Untouched

/-- A pad that was touched before it was grabbed. -/
theorem forwardable_iff_touched :
    Forwardable Untouched.descriptor (Untouched.grabbed 1).state := by
  have hd : Untouched.descriptor.validate = .ok () := by decide
  have h : acquire (Untouched.input 1) (.opened Untouched.descriptor) = .ok (Untouched.grabbed 1) :=
    rfl
  refine (forwardable_iff hd h rfl rfl).1.mpr ?_
  rintro axes ⟨⟩ code v hcode hv
  have hmem := mem_of_lastValue hv
  simp only [List.mem_cons, Prod.mk.injEq, List.not_mem_nil, or_false] at hmem
  obtain ⟨rfl, rfl⟩ | ⟨rfl, rfl⟩ | ⟨rfl, -⟩ | ⟨rfl, -⟩ | ⟨rfl, -⟩ | ⟨rfl, -⟩ := hmem
  · decide
  · decide
  all_goals exact absurd hcode (by decide)

/-- **The first hand-over of such a device fails**, and with it the session. -/
theorem untouched_not_forwardable :
    Untouched.descriptor.validate = .ok () ∧
      acquire (Untouched.input 0) (.opened Untouched.descriptor) = .ok (Untouched.grabbed 0) ∧
      ¬ Forwardable Untouched.descriptor (Untouched.grabbed 0).state ∧
      routePad false 0 ⟨1, 1, .ok ()⟩ (Untouched.grabbed 0) =
        .error ["Touchpad value is outside its axis range"] := by
  refine ⟨by decide, rfl, fun h => ?_, rfl⟩
  exact absurd (h.single 0 0 rfl) (by decide)

end Router

end NiriBridge.Touchpad
