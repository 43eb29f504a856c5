import NiriBridge.Touch.Route

/-!
# Touch — Switch

A change of destination in the middle of a stroke.  The new destination gets a snapshot of the pad
and from then on every frame the pad completes.

* `contacts_follow_switch`: it has the pad's slot, keys, single-touch axes and tracking ids after
  every drain, and nothing queued for the old destination reaches it.
* `coordinates_follow_switch_iff`: exactly when it has the coordinates of every contact as well.  A
  snapshot says nothing about the slots without a contact, whose values the device still remembers
  and does not report again.
-/

namespace NiriBridge.Touchpad

open Cursor

namespace TouchState

/-- Destination `t` is where the pad's state `s` is.  Below `-1`, which a device may report for a
slot it lifted a contact from, the destination may have `-1`. -/
structure Agrees (t s : TouchState) : Prop where
  slot : t.slot = s.slot
  keys : t.keys = s.keys
  axes : ∀ code, t.axes.get? code = s.axes.get? code
  tracking : ∀ k, t.trackingAt k = s.trackingAt k ∨ (s.trackingAt k < -1 ∧ t.trackingAt k = -1)

/-- The events report a multi-touch axis in slot `k`, applied to a state in slot `slot`. -/
def Reported (k code slot : ℕ) (events : List Event) : Prop := Written k code slot (deltas events)

/-- Alike keys stay alike under the same events. -/
theorem keys_apply_congr {s t : TouchState} (h : t.keys = s.keys) (es : List Event) :
    (t.apply es).keys = (s.apply es).keys := by
  induction es generalizing s t with
  | nil => exact h
  | cons e es ih =>
      refine ih ?_
      unfold applyEvent
      split <;> split_ifs <;> simp only [h]

/-- A neutral device has no contact in any slot. -/
theorem Neutral.trackingAt {d : Descriptor} {t : TouchState} (ht : Neutral d t) (k : ℕ) :
    t.trackingAt k = -1 := by
  by_cases hk : k < d.slots
  · rw [TouchState.trackingAt, ht.tracking k hk]
    rfl
  · have hnone : t.contacts[k]? = none := List.getElem?_eq_none (by rw [ht.contacts]; omega)
    rw [TouchState.trackingAt, cell, hnone]
    rfl

section Follow

variable {d : Descriptor} {s t : TouchState} {es : List Event} (hd : d.validate = .ok ())
  (hs : Acquired d s) (ht : Neutral d t) (hes : SeeksBelow d.slots es)

include hd hs ht in
/-- The snapshot ends with the selected slot. -/
theorem slot_apply_snapshot : (t.apply s.snapshot).slot = s.slot :=
  (table_apply_snapshot hd hs ht.contacts ht.slot 0 0).1

include hd hs ht in
/-- The snapshot brings the values of active slots, and leaves what the others had. -/
theorem cell_apply_snapshot (k code : ℕ) :
    (t.apply s.snapshot).cell k code =
      if s.Active k then (s.cell k code).or (t.cell k code) else t.cell k code :=
  (table_apply_snapshot hd hs ht.contacts ht.slot k code).2

include hd hs ht hes in
/-- The destination and the pad take the frames in step. -/
theorem tables_apply :
    ((t.apply s.snapshot).apply es).table = (t.apply s.snapshot).table.run (deltas es) ∧
      (s.apply es).table = s.table.run (deltas es) := by
  have hlen : (t.apply s.snapshot).contacts.length = d.slots := by
    rw [length_contacts_apply, ht.contacts]
  have hslot : (t.apply s.snapshot).slot < d.slots := slot_apply_snapshot hd hs ht ▸ hs.slot
  exact ⟨(table_apply (hlen ▸ hslot) (hlen.symm ▸ hes)).1,
    (table_apply (hs.contacts ▸ hs.slot) (hs.contacts.symm ▸ hes)).1⟩

include hd hs ht hes in
/-- **Cell by cell**: the destination has the pad's value if the frames report it, if the snapshot
gave it, or if it was there already. -/
theorem cell_follow_iff (k code : ℕ) :
    ((t.apply s.snapshot).apply es).cell k code = (s.apply es).cell k code ↔
      Reported k code s.slot es ∨ (t.apply s.snapshot).cell k code = s.cell k code := by
  obtain ⟨ht', hs'⟩ := tables_apply hd hs ht hes
  have hcursor : (t.apply s.snapshot).table.cursor = s.table.cursor := slot_apply_snapshot hd hs ht
  have hiff := cell_run_eq_iff (k := k) (i := code) hcursor (deltas es)
  rw [← ht', ← hs', hcursor] at hiff
  exact hiff

include hd hs ht hes in
/-- A value that is not reported stays as it was at the switch. -/
theorem cell_of_not_reported {k code : ℕ} (h : ¬ Reported k code s.slot es) :
    ((t.apply s.snapshot).apply es).cell k code = (t.apply s.snapshot).cell k code ∧
      (s.apply es).cell k code = s.cell k code := by
  obtain ⟨ht', hs'⟩ := tables_apply hd hs ht hes
  have hcursor : (t.apply s.snapshot).table.cursor = s.slot := slot_apply_snapshot hd hs ht
  exact ⟨(congrArg (fun u => u.cell k code) ht').trans (cell_run_of_not_written (hcursor ▸ h)),
    (congrArg (fun u => u.cell k code) hs').trans (cell_run_of_not_written (t := s.table) h)⟩

include hd hs ht hes in
/-- Slot, keys, axes and tracking ids agree from the snapshot on. -/
theorem agrees_apply : Agrees ((t.apply s.snapshot).apply es) (s.apply es) where
  slot := by
    obtain ⟨ht', hs'⟩ := tables_apply hd hs ht hes
    have hcursor : (t.apply s.snapshot).table.cursor = s.table.cursor :=
      slot_apply_snapshot hd hs ht
    calc ((t.apply s.snapshot).apply es).slot
        = ((t.apply s.snapshot).table.run (deltas es)).cursor := congrArg Table.cursor ht'
      _ = (s.table.run (deltas es)).cursor := cursor_run hcursor _
      _ = (s.apply es).slot := (congrArg Table.cursor hs').symm
  keys := keys_apply_congr (keys_apply_snapshot ht.keys) es
  axes code := by
    have haxes : (t.apply s.snapshot).axes.get? code = s.axes.get? code := by
      rw [axes_apply_snapshot hs]
      cases hc : t.axes.get? code with
      | none => exact Option.or_none
      | some v =>
          -- what a neutral destination has is an axis of the device, so the pad has a value for it
          obtain ⟨a, ha, rfl, hlt⟩ := ht.axes code v hc
          obtain ⟨w, hw⟩ := Option.ne_none_iff_exists'.mp (hs.axes a ha hlt)
          rw [hw, Option.some_or]
    have hiff := cell_run_eq_iff (k := ()) (i := code) (t := (t.apply s.snapshot).axisTable)
      (u := s.axisTable) rfl (axisDeltas es)
    rw [← axisTable_apply, ← axisTable_apply] at hiff
    exact hiff.mpr (.inr haxes)
  tracking k := by
    by_cases hrep : Reported k TRACKING s.slot es
    · have := (cell_follow_iff hd hs ht hes k TRACKING).mpr (.inl hrep)
      exact .inl (congrArg (·.getD (-1)) this)
    obtain ⟨ht', hs'⟩ := cell_of_not_reported hd hs ht hes hrep
    rw [trackingAt, trackingAt, ht', hs', cell_apply_snapshot hd hs ht]
    by_cases hact : s.Active k
    · cases hc : s.cell k TRACKING with
      | none => simp [Active, trackingAt, hc] at hact
      | some v => simp [hact]
    · have hneutral := ht.trackingAt k
      have hidle : (s.cell k TRACKING).getD (-1) < 0 := not_le.mp hact
      rw [if_neg hact, show (t.cell k TRACKING).getD (-1) = -1 from hneutral]
      omega

/-- The destination has the coordinates of every contact the pad has. -/
def SameCoordinates (d : Descriptor) (t s : TouchState) : Prop :=
  ∀ k, s.Active k → ∀ a ∈ d.axes, SLOT < a.code → t.cell k a.code = s.cell k a.code

/-- Since the switch, when destination and pad were `t` and `s`, every coordinate of the contacts in
`s'` has been reported, unless its slot held a contact at the switch or the destination had the
value. -/
def Recoverable (d : Descriptor) (t s : TouchState) (es : List Event) (s' : TouchState) : Prop :=
  ∀ k, s'.Active k → ∀ a ∈ d.axes, SLOT < a.code →
    Reported k a.code s.slot es ∨ s.Active k ∨ t.cell k a.code = s.cell k a.code

/-- The event changes what the device holds. -/
def Changes (s : TouchState) (e : Event) : Bool :=
  match e.kind with
  | .key => decide (e.code ∈ s.keys) == (e.value == 0)
  | .absolute =>
      if e.code = SLOT then asUsize e.value != s.slot
      else if SLOT < e.code then s.cell s.slot e.code != some e.value
      else s.axes.get? e.code != some e.value

/-- The events report changes only: what the kernel delivers of a device in state `s`. -/
def ReportsChanges : TouchState → List Event → Bool
  | _, [] => true
  | s, e :: es => s.Changes e && ReportsChanges (s.applyEvent e) es

/-- An active slot is one of the device. -/
theorem Active.lt {k : ℕ} (h : s.Active k) : k < s.contacts.length := by
  by_contra hk
  have hnone : s.contacts[k]? = none := List.getElem?_eq_none (not_lt.mp hk)
  simp [Active, trackingAt, cell, hnone] at h

include hd hs ht hes in
/-- The coordinates agree when each that differed at the switch can be recovered. -/
theorem sameCoordinates_iff :
    SameCoordinates d ((t.apply s.snapshot).apply es) (s.apply es) ↔
      Recoverable d t s es (s.apply es) := by
  refine forall₂_congr fun k hact => forall₃_congr fun a ha hcode => ?_
  have hk : k < d.slots := by simpa [hs.contacts] using hact.lt
  obtain ⟨v, hv⟩ := Option.ne_none_iff_exists'.mp (hs.cells a ha hcode k hk)
  rw [cell_follow_iff hd hs ht hes, cell_apply_snapshot hd hs ht, hv]
  by_cases h : s.Active k <;> simp [h]

end Follow

end TouchState

/-! ### The switch -/

namespace Router

open TouchState

/-- Pad `i` of `r` has been acquired when the destination changes to `remote`.  Calls later the
router is `r₂`, and `log` has been handed out for the peer. -/
structure Switch (remote : Bool) (i : ℕ) (pad : PhysicalTouchpad) (r r₂ : Router)
    (log : List CapturedFrame) : Prop where
  inv : r.Inv
  index : r.pads[i]? = some pad
  grabbed : pad.grabbed = true
  changes : r.remote ≠ remote
  run : ∃ ticks r₁ snapshots calls, r.route ticks remote = .ok (snapshots, r₁) ∧
    (∀ ticks b, .route ticks b ∈ calls → b = remote) ∧
    Run.run next (some (r₁, snapshots)) calls = some (r₂, log)

/-! A stroke to run: a pad with two slots, touched at `(100, 200)`, lifted, and touched again at
`(100, 300)` after the switch. -/

namespace Stroke

/-- An axis without fuzz. -/
def axis (code : ℕ) (minimum maximum : ℤ) : AxisInfo := ⟨code, minimum, maximum, 0, 0, 0⟩

/-- The pad lifts a contact with `tracking`. -/
def descriptor (tracking : ℤ) : Descriptor where
  keys := [TOUCH, 325]
  properties := [0]
  axes := [axis 0 0 1000, axis 1 0 1000, axis SLOT 0 1, axis 53 0 1000, axis 54 0 1000,
    axis TRACKING (if tracking = -1 then 0 else tracking) 65535]

/-- The kernel's answers for a pad that nobody touches. -/
def reading : Reading where
  keys := .ok []
  axes := .ok [(0, 0), (1, 0), (SLOT, 0), (53, 0), (54, 0), (TRACKING, 0)]
  slotValues code := some fun _ => if code = TRACKING then -1 else 0

/-- An event as the kernel reports it. -/
def raw (e : Event) : RawEvent := ⟨if e.kind = .key then 1 else 3, e.code, e.value, 10⟩

/-- One complete frame. -/
def inputs (events : List Event) (_ : ℕ) : PadInput where
  events := .ok (events.map raw ++ [⟨0, 0, 0, 10⟩])
  keyState := .ok []
  grab := .ok ()
  flush := .ok ()
  reading := reading
  handoff := .ok ()
  mirror := ⟨10, 10, .ok ()⟩

/-- A finger comes down. -/
def touch : List Event :=
  [.key TOUCH 1, .key 325 1, .abs TRACKING 5, .abs 53 100, .abs 54 200, .abs 0 100, .abs 1 200]

/-- It is lifted. -/
def lift (tracking : ℤ) : List Event := [.abs TRACKING tracking, .key TOUCH 0, .key 325 0]

/-- It comes down once more. -/
def again : List Event := [.abs TRACKING 6, .abs 54 300, .key TOUCH 1, .key 325 1, .abs 1 300]

/-- A router without pads. -/
def nothing : Router × List CapturedFrame := (⟨[], false, []⟩, [])

/-- A router of one pad. -/
def start (tracking : ℤ) : Router := ⟨[.opened (descriptor tracking)], false, []⟩

/-- The finger comes and goes while the pad is local. -/
def before (tracking : ℤ) : List Call :=
  [.sample (inputs []), .sample (inputs touch), .sample (inputs (lift tracking))]

/-- The router when the pad is grabbed, touched and lifted, at the switch. -/
def held (tracking : ℤ) : Router :=
  ((Run.run next (some (start tracking, [])) (before tracking)).getD nothing).1

/-- The pad at the switch. -/
def heldPad (tracking : ℤ) : PhysicalTouchpad :=
  (held tracking).pads[0]?.getD (.opened (descriptor tracking))

/-- The clock at the switch. -/
def ticks (_ : ℕ) : Tick := ⟨20, 20, .ok ()⟩

/-- The router after the switch and the calls that follow it. -/
def finish (tracking : ℤ) (calls : List Call) : Router × List CapturedFrame :=
  (Run.run next (some (held tracking, [])) (.route ticks true :: calls)).getD nothing

/-- The pad after the switch and these calls. -/
def finishPad (tracking : ℤ) (calls : List Call) : PhysicalTouchpad :=
  (finish tracking calls).1.pads[0]?.getD (.opened (descriptor tracking))

/-- The finger comes down while the pad is remote. -/
def after : List Call := [.sample (inputs again), .drain]

/-- The readings of the example are complete. -/
theorem completeCall {s : Running} {events : List Event} {t : ℤ}
    (h : s.all (fun p => p.1.pads.all fun pad => pad.descriptor = descriptor t) = true) :
    CompleteCall s (.sample (inputs events)) := by
  obtain _ | ⟨r, log⟩ := s
  · trivial
  intro i pad hi axes haxes
  have hd : pad.descriptor = descriptor t := by
    simpa using List.all_eq_true.mp h pad (List.mem_of_getElem? hi)
  cases haxes
  rw [hd]
  simp [descriptor, axis]

/-- The router of the example is in order when the finger is down. -/
theorem inv_held {tracking : ℤ} (h : tracking = -1 ∨ tracking = -5) : (held tracking).Inv := by
  have hopened : opened [descriptor tracking] = .ok (start tracking) := by
    rcases h with rfl | rfl <;> rfl
  have halong : Run.Along next CompleteCall (some (start tracking, [])) (before tracking) := by
    rcases h with rfl | rfl
    · exact ⟨completeCall (t := -1) (by decide), completeCall (t := -1) (by decide),
        completeCall (t := -1) (by decide), trivial⟩
    · exact ⟨completeCall (t := -5) (by decide), completeCall (t := -5) (by decide),
        completeCall (t := -5) (by decide), trivial⟩
  have hrun :
      Run.run next (some (start tracking, [])) (before tracking) = some (held tracking, []) := by
    rcases h with rfl | rfl <;> rfl
  exact inv_run hopened halong hrun

/-- The slot is lifted with `-1`, or with a lower number. -/
theorem switch {tracking : ℤ} (h : tracking = -1 ∨ tracking = -5) {calls : List Call}
    (hc : calls = [.drain] ∨ calls = after) :
    Switch true 0 (heldPad tracking) (held tracking) (finish tracking calls).1
      (finish tracking calls).2 := by
  have hcalls : ∀ ticks b, .route ticks b ∈ calls → b = true := by
    rcases hc with rfl | rfl <;> simp [after]
  have hroute : route ticks true (held tracking) =
      .ok ((finish tracking []).2, (finish tracking []).1) := by
    rcases h with rfl | rfl <;> rfl
  have hrun : Run.run next (some ((finish tracking []).1, (finish tracking []).2)) calls =
      some (finish tracking calls) := by
    rcases h with rfl | rfl <;> rcases hc with rfl | rfl <;> rfl
  refine ⟨inv_held h, ?_, ?_, ?_, ticks, _, _, calls, hroute, hcalls, hrun⟩ <;>
    rcases h with rfl | rfl
  all_goals first | rfl | rintro ⟨⟩

end Stroke

variable {remote : Bool} {i : ℕ} {pad : PhysicalTouchpad} {r r₂ : Router} {log : List CapturedFrame}

/-- What the new destination has been given: the snapshot and the pad's events since. -/
theorem Switch.spec (h : Switch remote i pad r r₂ log) :
    ∃ pad₂ events, r₂.pads[i]? = some pad₂ ∧ pad.descriptor.Valid events ∧
      pad₂.state = pad.state.apply events ∧
      (remote = true → r₂.pending = [] → framesOf i log = pad.state.snapshot ++ events) ∧
      (remote = false → Neutral pad.descriptor pad.mirror.state ∧
        pad₂.mirror.state = (pad.mirror.state.apply pad.state.snapshot).apply events) := by
  obtain ⟨hinv, hi, hg, hne, ticks, r₁, snapshots, calls, hroute, hcalls, hrun⟩ := h
  obtain ⟨-, hremote, hpending, hs⟩ := route_spec hinv hne hroute
  obtain ⟨pad₁, hi₁, hrouted⟩ := hs i pad hi hg
  obtain ⟨pad₂, queued, events, hi₂, hlog, hsampled⟩ :=
    run_sampled hremote hcalls hi₁ hrouted.grabbed hrun
  refine ⟨pad₂, events, hi₂, hrouted.descriptor ▸ hsampled.valid, ?_, fun hr hq => ?_, fun hr => ?_⟩
  · rw [hsampled.state, hrouted.state]
  · rw [hq, hpending, List.append_nil, List.append_nil] at hlog
    rw [hlog, framesOf_append, hrouted.snapshot hr, hsampled.queue, if_pos hr]
  · have hpad := hinv pad (List.mem_of_getElem? hi)
    have hshared : r.remote = true := by
      subst hr
      simpa using hne
    refine ⟨hpad.neutral (.inl hshared) ▸ neutral_new hpad.descriptor, ?_⟩
    rw [hsampled.mirror, hrouted.mirror hr, hr]
    rfl

/-- **The contacts follow the switch.**  A neutral peer that applies what it is given, or the mirror
when sharing ends, has the pad's slot, keys, single-touch axes and tracking ids whenever nothing is
left to drain.  What was queued at the switch has no part in it. -/
theorem contacts_follow_switch (h : Switch remote i pad r r₂ log) :
    ∃ pad₂, r₂.pads[i]? = some pad₂ ∧
      (remote = true → r₂.pending = [] → ∀ dest, Neutral pad.descriptor dest →
        Agrees (dest.apply (framesOf i log)) pad₂.state) ∧
      (remote = false → Agrees pad₂.mirror.state pad₂.state) ∧
      ∀ queued ticks, route ticks remote { r with pending := queued } = route ticks remote r := by
  have hpad := h.inv pad (List.mem_of_getElem? h.index)
  have hs := hpad.acquired h.grabbed
  obtain ⟨pad₂, events, hi₂, hvalid, hstate, hpeer, hlocal⟩ := h.spec
  have hes := hvalid.seeksBelow hpad.descriptor
  refine ⟨pad₂, hi₂, fun hr hq dest hdest => ?_, fun hr => ?_, fun queued ticks => ?_⟩
  · rw [hpeer hr hq, apply_append, hstate]
    exact agrees_apply hpad.descriptor hs hdest hes
  · obtain ⟨hneutral, hmirror⟩ := hlocal hr
    rw [hmirror, hstate]
    exact agrees_apply hpad.descriptor hs hneutral hes
  · simp only [route, if_neg h.changes]

/-- A finger comes down while the pad is remote. -/
theorem contacts_follow_switch_stroke :
    ∃ pad₂, (Stroke.finish (-1) Stroke.after).1.pads[0]? = some pad₂ ∧
      Agrees ((new (Stroke.descriptor (-1))).apply (framesOf 0 (Stroke.finish (-1) Stroke.after).2))
        pad₂.state := by
  obtain ⟨pad₂, hi, hpeer, -⟩ := contacts_follow_switch (Stroke.switch (.inl rfl) (.inr rfl))
  exact ⟨pad₂, hi, hpeer rfl rfl _ (neutral_new rfl)⟩

/-- A slot the device lifts with a number below `-1` is not told to the new destination. -/
theorem lifted_below_minus_one_differs :
    ∃ r r₂ pad pad₂ log dest, Switch true 0 pad r r₂ log ∧ r₂.pending = [] ∧
      r₂.pads[0]? = some pad₂ ∧ Neutral pad.descriptor dest ∧
      (dest.apply (framesOf 0 log)).trackingAt 0 ≠ pad₂.state.trackingAt 0 :=
  ⟨_, _, _, Stroke.finishPad (-5) [.drain], _, new (Stroke.descriptor (-5)),
    Stroke.switch (.inr rfl) (.inl rfl), rfl, rfl, neutral_new rfl, by decide⟩

/-- **Exactly when the coordinates follow the switch.** -/
theorem coordinates_follow_switch_iff (h : Switch remote i pad r r₂ log) :
    ∃ pad₂ events, r₂.pads[i]? = some pad₂ ∧ pad₂.state = pad.state.apply events ∧
      (remote = true → r₂.pending = [] → framesOf i log = pad.state.snapshot ++ events ∧
        ∀ dest, Neutral pad.descriptor dest →
          (SameCoordinates pad.descriptor (dest.apply (framesOf i log)) pad₂.state ↔
            Recoverable pad.descriptor dest pad.state events pad₂.state)) ∧
      (remote = false →
        pad₂.mirror.state = (pad.mirror.state.apply pad.state.snapshot).apply events ∧
          (SameCoordinates pad.descriptor pad₂.mirror.state pad₂.state ↔
            Recoverable pad.descriptor pad.mirror.state pad.state events pad₂.state)) := by
  have hpad := h.inv pad (List.mem_of_getElem? h.index)
  have hs := hpad.acquired h.grabbed
  obtain ⟨pad₂, events, hi₂, hvalid, hstate, hpeer, hlocal⟩ := h.spec
  have hes := hvalid.seeksBelow hpad.descriptor
  refine ⟨pad₂, events, hi₂, hstate, fun hr hq => ⟨hpeer hr hq, fun dest hdest => ?_⟩, fun hr => ?_⟩
  · rw [hpeer hr hq, apply_append, hstate]
    exact sameCoordinates_iff hpad.descriptor hs hdest hes
  · obtain ⟨hneutral, hmirror⟩ := hlocal hr
    refine ⟨hmirror, ?_⟩
    rw [hmirror, hstate]
    exact sameCoordinates_iff hpad.descriptor hs hneutral hes

/-- The same stroke, with its coordinates. -/
theorem coordinates_follow_switch_iff_stroke :
    SameCoordinates (Stroke.descriptor (-1))
        ((new (Stroke.descriptor (-1))).apply (framesOf 0 (Stroke.finish (-1) Stroke.after).2))
        (Stroke.finishPad (-1) Stroke.after).state ↔
      Recoverable (Stroke.descriptor (-1)) (new (Stroke.descriptor (-1)))
      (Stroke.heldPad (-1)).state
        Stroke.again (Stroke.finishPad (-1) Stroke.after).state := by
  obtain ⟨pad₂, events, hi, hstate, hpeer, -⟩ :=
    coordinates_follow_switch_iff (Stroke.switch (.inl rfl) (.inr rfl))
  obtain ⟨hframes, hiff⟩ := hpeer rfl rfl
  obtain rfl : Stroke.finishPad (-1) Stroke.after = pad₂ := Option.some.inj (Eq.trans rfl hi)
  obtain rfl : Stroke.again = events := List.append_cancel_left (Eq.trans rfl hframes)
  exact hiff _ (neutral_new rfl)

/-- **A slot that is used again.**  The pad's frames report what changed and nothing else.  The
contact that begins after the switch has the column the slot had before, which no frame reports and
the new destination has never had. -/
theorem reused_slot_loses_coordinate :
    ∃ r r₂ pad pad₂ log events dest, Switch true 0 pad r r₂ log ∧ r₂.pending = [] ∧
      r₂.pads[0]? = some pad₂ ∧ Neutral pad.descriptor dest ∧
      framesOf 0 log = pad.state.snapshot ++ events ∧ pad.state.ReportsChanges events = true ∧
      ¬ SameCoordinates pad.descriptor (dest.apply (framesOf 0 log)) pad₂.state := by
  refine ⟨_, _, _, Stroke.finishPad (-1) Stroke.after, _, Stroke.again,
    new (Stroke.descriptor (-1)), Stroke.switch (.inl rfl) (.inr rfl), rfl, rfl, neutral_new rfl,
    rfl, by decide, fun h => ?_⟩
  have hcolumn := h 0 (by decide) (Stroke.axis 53 0 1000) (by decide) (by decide)
  exact absurd hcolumn (by decide)

end Router

end NiriBridge.Touchpad
