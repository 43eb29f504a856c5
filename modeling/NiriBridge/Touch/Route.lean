import Mathlib.Tactic.Tauto
import NiriBridge.Support.Run
import NiriBridge.Touch.State

/-!
# Touch — Route

What the router does to one acquired pad.  `Sampled` says it of `Router::sample`: the pad's state
takes in complete frames of the device, each validated, and the same frames go to the mirror or,
while sharing, to the end of the queue; `sample_spec` proves it.  `Router.Inv` is the invariant of
every router, `inv_run` that it is kept.
-/

namespace NiriBridge.Touchpad

/-- The events a log of captured frames holds for pad `i`, in order. -/
def framesOf (i : ℕ) (log : List CapturedFrame) : List Event :=
  (log.filter (·.1 == i)).flatMap (·.2.2)

@[simp] theorem framesOf_append (i : ℕ) (log log' : List CapturedFrame) :
    framesOf i (log ++ log') = framesOf i log ++ framesOf i log' := by
  simp [framesOf]

theorem framesOf_eq_nil {i : ℕ} {log : List CapturedFrame} (h : ∀ f ∈ log, f.1 ≠ i) :
    framesOf i log = [] := by
  rw [framesOf, List.filter_eq_nil_iff.mpr fun f hf => by simpa using h f hf, List.flatMap_nil]

namespace Router

/-- Pad `index` went from `pad` to `pad'`, and `queued` was added to the queue, because the device
delivered `events` in complete frames. -/
structure Sampled (remote : Bool) (index : ℕ) (pad pad' : PhysicalTouchpad)
    (queued : List CapturedFrame) (events : List Event) : Prop where
  descriptor : pad'.descriptor = pad.descriptor
  grabbed : pad'.grabbed = true
  valid : pad.descriptor.Valid events
  state : pad'.state = pad.state.apply events
  device : pad'.mirror.descriptor = pad.mirror.descriptor
  mirror : pad'.mirror.state = if remote then pad.mirror.state else pad.mirror.state.apply events
  queue : framesOf index queued = if remote then events else []

namespace Sampled

variable {remote : Bool} {index : ℕ} {pad pad' pad'' : PhysicalTouchpad}
  {queued queued' : List CapturedFrame} {events events' : List Event}

theorem refl (h : pad.grabbed = true) : Sampled remote index pad pad [] [] where
  descriptor := rfl
  grabbed := h
  valid := nofun
  state := rfl
  device := rfl
  mirror := by split_ifs <;> rfl
  queue := by split_ifs <;> rfl

theorem trans (h : Sampled remote index pad pad' queued events)
    (h' : Sampled remote index pad' pad'' queued' events') :
    Sampled remote index pad pad'' (queued ++ queued') (events ++ events') where
  descriptor := h'.descriptor.trans h.descriptor
  grabbed := h'.grabbed
  valid e he := (List.mem_append.mp he).elim (h.valid e) fun he => h.descriptor ▸ h'.valid e he
  state := by rw [h'.state, h.state, TouchState.apply_append]
  device := h'.device.trans h.device
  mirror := by
    rw [h'.mirror, h.mirror]
    split_ifs
    · rfl
    · rw [TouchState.apply_append]
  queue := by
    rw [framesOf_append, h.queue, h'.queue]
    split_ifs <;> rfl

end Sampled

/-- A frame that is written is applied to the device. -/
theorem emitAt_spec {tick : Tick} {events : List Event} {time : ℕ} {pad pad' : VirtualTouchpad}
    (h : VirtualTouchpad.emitAt tick events time pad = .ok pad') :
    pad'.state = pad.state.apply events ∧ pad'.descriptor = pad.descriptor := by
  simp only [VirtualTouchpad.emitAt, bind_eq_ok] at h
  obtain ⟨_, _, _, _, _, _, h⟩ := h
  cases h
  exact ⟨rfl, rfl⟩

variable {remote : Bool} {index : ℕ} {input : PadInput} {pad pad' : PhysicalTouchpad}
  {pending pending' : List CapturedFrame}

/-- A complete frame is sampled, and queued while the pad is remote. -/
theorem completeFrame_spec {time : ℕ} (hg : pad.grabbed = true)
    (h : completeFrame remote index input time pad pending = .ok (pad', pending')) :
    ∃ queued events, pending' = pending ++ queued ∧ (∀ f ∈ queued, f.1 = index) ∧
      Sampled remote index pad pad' queued events := by
  simp only [completeFrame, bind_eq_ok] at h
  obtain ⟨_, _, _, hv, h⟩ := h
  have hvalid := Descriptor.valid_of_validateFrame hv
  cases remote with
  | true =>
      cases h
      refine ⟨[(index, time, pad.frame)], pad.frame, rfl, by simp, ?_⟩
      exact ⟨rfl, hg, hvalid, rfl, rfl, rfl, by simp [framesOf]⟩
  | false =>
      simp only [Bool.false_eq_true, if_false, bind_eq_ok] at h
      obtain ⟨mirror, hm, h⟩ := h
      cases h
      obtain ⟨hstate, hdevice⟩ := emitAt_spec hm
      exact ⟨[], pad.frame, by simp, by simp, rfl, hg, hvalid, rfl, hdevice, hstate, rfl⟩

/-- An event of the kernel is kept, or completes a frame. -/
theorem sampleEvent_spec {event : RawEvent} (hg : pad.grabbed = true)
    (h : sampleEvent remote index input event pad pending = .ok (pad', pending')) :
    ∃ queued events, pending' = pending ++ queued ∧ (∀ f ∈ queued, f.1 = index) ∧
      Sampled remote index pad pad' queued events := by
  rw [sampleEvent, if_pos hg] at h
  simp only [bind_eq_ok] at h
  obtain ⟨⟨p, q⟩, hp, _, _, h⟩ := h
  cases h
  split_ifs at hp
  · exact completeFrame_spec hg hp
  all_goals
    cases hp
    exact ⟨[], [], by simp, nofun, rfl, hg, nofun, rfl, rfl, by split_ifs <;> rfl,
      by split_ifs <;> rfl⟩

/-- The events of a pad are sampled in order. -/
theorem sampleEvents_spec {events : List RawEvent} (hg : pad.grabbed = true)
    (h : sampleEvents remote index input events pad pending = .ok (pad', pending')) :
    ∃ queued events, pending' = pending ++ queued ∧ (∀ f ∈ queued, f.1 = index) ∧
      Sampled remote index pad pad' queued events := by
  induction events generalizing pad pending with
  | nil =>
      cases h
      exact ⟨[], [], by simp, by simp, .refl hg⟩
  | cons e es ih =>
      simp only [sampleEvents, bind_eq_ok] at h
      obtain ⟨⟨p, q⟩, hp, h⟩ := h
      obtain ⟨queued, fs, rfl, hq, hs⟩ := sampleEvent_spec hg hp
      obtain ⟨queued', fs', rfl, hq', hs'⟩ := ih hs.grabbed h
      refine ⟨queued ++ queued', fs ++ fs', List.append_assoc .., fun f hf => ?_, hs.trans hs'⟩
      exact (List.mem_append.mp hf).elim (hq f) (hq' f)

/-- The events of a pad that is not acquired are the compositor's. -/
theorem sampleEvents_of_not_grabbed {events : List RawEvent} (hg : pad.grabbed = false) :
    sampleEvents remote index input events pad pending = .ok (pad, pending) := by
  induction events with
  | nil => rfl
  | cons e es ih =>
      simpa [sampleEvents, sampleEvent, hg, bind, Except.bind, pure, Except.pure] using ih

/-- A pad of a router, between two calls. -/
structure PadInv (remote : Bool) (pad : PhysicalTouchpad) : Prop where
  descriptor : pad.descriptor.validate = .ok ()
  mirror : pad.mirror.descriptor = pad.descriptor
  acquired : pad.grabbed = true → TouchState.Acquired pad.descriptor pad.state
  /-- Nothing touches the mirror of a pad that is not acquired, or is shared. -/
  neutral : (remote = true ∨ pad.grabbed = false) → pad.mirror.state = .new pad.descriptor

theorem acquire_of_grabbed (hg : pad.grabbed = true) : acquire input pad = .ok pad := by
  rw [acquire, if_pos hg]
  rfl

/-- A pad that is grabbed is in order. -/
theorem padInv_acquire (hinv : PadInv remote pad)
    (hr : TouchState.Reading.Complete input.reading pad.descriptor)
    (h : acquire input pad = .ok pad') : PadInv remote pad' := by
  unfold acquire at h
  split_ifs at h with hg
  · cases h
    exact hinv
  simp only [bind_eq_ok] at h
  obtain ⟨keys, -, h⟩ := h
  split_ifs at h
  · cases h
    exact hinv
  simp only [bind_eq_ok] at h
  obtain ⟨_, -, _, -, state, hread, h⟩ := h
  split_ifs at h
  · cases h
    exact ⟨hinv.descriptor, hinv.mirror, fun _ => TouchState.acquired_read hr hread,
      fun _ => hinv.neutral (.inr (by simpa using hg))⟩
  · simp only [bind_eq_ok] at h
    obtain ⟨_, -, h⟩ := h
    cases h
    exact hinv

/-- A pad stays in order while it is sampled. -/
theorem Sampled.padInv {queued : List CapturedFrame} {events : List Event}
    (h : Sampled remote index pad pad' queued events) (hinv : PadInv remote pad)
    (hg : pad.grabbed = true) : PadInv remote pad' where
  descriptor := h.descriptor ▸ hinv.descriptor
  mirror := by rw [h.device, hinv.mirror, h.descriptor]
  acquired _ := by
    rw [h.descriptor, h.state]
    exact (hinv.acquired hg).apply (h.valid.seeksBelow hinv.descriptor)
  neutral hr := by
    obtain rfl := hr.resolve_right (by simp [h.grabbed])
    rw [h.mirror, h.descriptor, if_pos rfl, hinv.neutral (.inl rfl)]

/-- A sample of one pad queues only frames of that pad. -/
theorem samplePad_spec {active : Bool}
    (h : samplePad remote index input pad pending = .ok (active, pad', pending')) :
    ∃ queued, pending' = pending ++ queued ∧ (∀ f ∈ queued, f.1 = index) ∧
      (pad.grabbed = true → ∃ events, Sampled remote index pad pad' queued events) := by
  simp only [samplePad, bind_eq_ok] at h
  obtain ⟨raw, -, _, -, ⟨p, q⟩, hp, p', hacq, h⟩ := h
  cases h
  cases hg : pad.grabbed with
  | true =>
      obtain ⟨queued, events, hq, hindex, hs⟩ := sampleEvents_spec hg hp
      obtain rfl := Except.ok.inj ((acquire_of_grabbed hs.grabbed).symm.trans hacq)
      exact ⟨queued, hq, hindex, fun _ => ⟨events, hs⟩⟩
  | false =>
      obtain ⟨rfl, rfl⟩ :=
        Prod.mk.inj (Except.ok.inj ((sampleEvents_of_not_grabbed hg).symm.trans hp))
      exact ⟨[], by simp, by simp, by simp⟩

/-- A sample keeps the pad in order. -/
theorem padInv_samplePad {active : Bool} (hinv : PadInv remote pad)
    (hr : TouchState.Reading.Complete input.reading pad.descriptor)
    (h : samplePad remote index input pad pending = .ok (active, pad', pending')) :
    PadInv remote pad' := by
  cases hg : pad.grabbed with
  | true =>
      obtain ⟨_, _, _, hs⟩ := samplePad_spec h
      exact (hs hg).choose_spec.padInv hinv hg
  | false =>
      simp only [samplePad, bind_eq_ok] at h
      obtain ⟨raw, -, _, -, ⟨p, q⟩, hp, p', hacq, h⟩ := h
      cases h
      obtain ⟨rfl, rfl⟩ :=
        Prod.mk.inj (Except.ok.inj ((sampleEvents_of_not_grabbed hg).symm.trans hp))
      exact padInv_acquire hinv hr hacq

/-- A sample of all pads queues for each the frames that were sampled of it. -/
theorem samplePads_spec {inputs : ℕ → PadInput} {active : Bool} {pads pads' : List PhysicalTouchpad}
    (h : samplePads remote inputs index pads pending = .ok (active, pads', pending')) :
    ∃ queued, pending' = pending ++ queued ∧ (∀ f ∈ queued, index ≤ f.1) ∧
      ∀ i pad, pads[i]? = some pad → pad.grabbed = true →
        ∃ pad' events,
        pads'[i]? = some pad' ∧ Sampled remote (index + i) pad pad' queued events := by
  induction pads generalizing index pending active pads' with
  | nil =>
      cases h
      exact ⟨[], by simp, by simp, by simp⟩
  | cons pad pads ih =>
      simp only [samplePads, bind_eq_ok] at h
      obtain ⟨⟨a, p, q⟩, hp, ⟨a', ps, q'⟩, hps, h⟩ := h
      cases h
      obtain ⟨queued, rfl, hindex, hs⟩ := samplePad_spec hp
      obtain ⟨queued', rfl, hindex', hs'⟩ := ih hps
      refine ⟨queued ++ queued', List.append_assoc .., fun f hf => ?_, fun i pad hi hg => ?_⟩
      · rcases List.mem_append.mp hf with hf | hf
        · exact (hindex f hf).ge
        · exact le_of_lt (hindex' f hf)
      -- what the other pads queued is not of this pad
      cases i with
      | zero =>
          obtain rfl := Option.some.inj hi
          obtain ⟨events, hs⟩ := hs hg
          have hrest : framesOf index queued' = [] :=
            framesOf_eq_nil fun f hf => Nat.ne_of_gt (hindex' f hf)
          refine ⟨p, events, rfl, { hs with queue := ?_ }⟩
          rw [Nat.add_zero, framesOf_append, hs.queue, hrest, List.append_nil]
      | succ i =>
          obtain ⟨pad', events, hi', hs'⟩ := hs' i pad hi hg
          have hrest : framesOf (index + (i + 1)) queued = [] :=
            framesOf_eq_nil fun f hf => by have := hindex f hf; omega
          have hqueue := hs'.queue
          rw [show index + 1 + i = index + (i + 1) by omega] at hqueue
          exact ⟨pad', events, hi',
            { hs' with queue := by rw [framesOf_append, hrest, hqueue]; rfl }⟩

/-- A sample keeps every pad in order. -/
theorem padInv_samplePads {inputs : ℕ → PadInput} {active : Bool}
    {pads pads' : List PhysicalTouchpad} (hinv : ∀ pad ∈ pads, PadInv remote pad)
    (hr : ∀ i pad, pads[i]? = some pad →
      TouchState.Reading.Complete (inputs (index + i)).reading pad.descriptor)
    (h : samplePads remote inputs index pads pending = .ok (active, pads', pending')) :
    ∀ pad ∈ pads', PadInv remote pad := by
  induction pads generalizing index pending active pads' with
  | nil =>
      cases h
      simp
  | cons pad pads ih =>
      simp only [samplePads, bind_eq_ok] at h
      obtain ⟨⟨a, p, q⟩, hp, ⟨a', ps, q'⟩, hps, h⟩ := h
      cases h
      have hr' : ∀ i pad, pads[i]? = some pad →
          TouchState.Reading.Complete (inputs (index + 1 + i)).reading pad.descriptor := by
        intro i pad hi
        rw [Nat.add_right_comm, Nat.add_assoc]
        exact hr (i + 1) pad hi
      exact List.forall_mem_cons.mpr ⟨padInv_samplePad (hinv pad (List.mem_cons_self ..))
        (hr 0 pad rfl) hp, ih (fun p hp => hinv p (List.mem_cons_of_mem _ hp)) hr' hps⟩

/-! ### The router -/

/-- **The invariant of a router.** -/
def Inv (r : Router) : Prop := ∀ pad ∈ r.pads, PadInv r.remote pad

/-- The kernel reports every axis of each pad. -/
def Complete (inputs : ℕ → PadInput) (r : Router) : Prop :=
  ∀ i pad, r.pads[i]? = some pad → TouchState.Reading.Complete (inputs i).reading pad.descriptor

/-- The pads are opened in order. -/
theorem inv_opened {descriptors : List Descriptor} {r : Router} (h : opened descriptors = .ok r) :
    r.Inv := by
  simp only [opened, bind_eq_ok, forEach_eq_ok] at h
  obtain ⟨_, hd, h⟩ := h
  cases h
  intro pad hpad
  obtain ⟨d, hmem, rfl⟩ := List.mem_map.mp hpad
  exact ⟨hd d hmem, rfl, by rintro ⟨⟩, fun _ => rfl⟩

/-- **What `Router::sample` does.** -/
theorem sample_spec {inputs : ℕ → PadInput} {active : Bool} {r r' : Router}
    (h : r.sample inputs = .ok (active, r')) :
    r'.remote = r.remote ∧ ∃ queued, r'.pending = r.pending ++ queued ∧
      ∀ i pad, r.pads[i]? = some pad → pad.grabbed = true →
        ∃ pad' events, r'.pads[i]? = some pad' ∧ Sampled r.remote i pad pad' queued events := by
  simp only [sample, bind_eq_ok] at h
  obtain ⟨⟨a, ps, q⟩, hps, h⟩ := h
  cases h
  obtain ⟨queued, hq, -, hs⟩ := samplePads_spec hps
  refine ⟨rfl, queued, hq, fun i pad hi hg => ?_⟩
  obtain ⟨pad', events, hi', hs⟩ := hs i pad hi hg
  exact ⟨pad', events, hi', Nat.zero_add i ▸ hs⟩

/-- A sample keeps the router in order. -/
theorem inv_sample {inputs : ℕ → PadInput} {active : Bool} {r r' : Router} (hinv : r.Inv)
    (hr : Complete inputs r) (h : r.sample inputs = .ok (active, r')) : r'.Inv := by
  simp only [sample, bind_eq_ok] at h
  obtain ⟨⟨a, ps, q⟩, hps, h⟩ := h
  cases h
  refine padInv_samplePads hinv (fun i pad hi => ?_) hps
  rw [Nat.zero_add]
  exact hr i pad hi

/-- Pad `index` after a change of destination, and the snapshot for it. -/
structure Routed (remote : Bool) (index : ℕ) (pad pad' : PhysicalTouchpad)
    (snapshots : List CapturedFrame) : Prop where
  descriptor : pad'.descriptor = pad.descriptor
  grabbed : pad'.grabbed = true
  state : pad'.state = pad.state
  mirror : remote = false → pad'.mirror.state = pad.mirror.state.apply pad.state.snapshot
  snapshot : remote = true → framesOf index snapshots = pad.state.snapshot

/-- A pad that changes destination gives the peer its snapshot, or the mirror. -/
theorem routePad_spec {tick : Tick} {snapshots : List CapturedFrame} (hinv : PadInv (!remote) pad)
    (h : routePad remote index tick pad = .ok (pad', snapshots)) :
    PadInv remote pad' ∧ (∀ f ∈ snapshots, f.1 = index) ∧
      (pad.grabbed = true → Routed remote index pad pad' snapshots) := by
  cases hg : pad.grabbed with
  | false =>
      simp only [routePad, hg, Bool.false_eq_true, if_false] at h
      cases h
      exact ⟨⟨hinv.descriptor, hinv.mirror, hinv.acquired, fun _ => hinv.neutral (.inr hg)⟩,
        by simp, (by simp)⟩
  | true =>
      rw [routePad, if_pos hg] at h
      cases remote with
      | true =>
          simp only [if_true, bind_eq_ok, VirtualTouchpad.reset] at h
          obtain ⟨mirror, ⟨m, hm, hreset⟩, h⟩ := h
          cases hreset
          cases h
          have hdevice : m.descriptor = pad.descriptor := (emitAt_spec hm).2.trans hinv.mirror
          exact ⟨⟨hinv.descriptor, hdevice, hinv.acquired,
            fun _ => congrArg TouchState.new hdevice⟩, by simp,
            fun _ => ⟨rfl, hg, rfl, by simp, fun _ => by simp [framesOf]⟩⟩
      | false =>
          simp only [Bool.false_eq_true, if_false, bind_eq_ok] at h
          obtain ⟨m, hm, h⟩ := h
          cases h
          obtain ⟨hstate, hdevice⟩ := emitAt_spec hm
          exact ⟨⟨hinv.descriptor, hdevice.trans hinv.mirror, hinv.acquired,
              fun hr => absurd (hr.resolve_left (by simp)) (by simp [hg])⟩, by simp,
            fun _ => ⟨rfl, hg, rfl, fun _ => hstate, by simp⟩⟩

/-- Every grabbed pad changes destination. -/
theorem routePads_spec {ticks : ℕ → Tick} {pads pads' : List PhysicalTouchpad}
    {snapshots : List CapturedFrame} (hinv : ∀ pad ∈ pads, PadInv (!remote) pad)
    (h : routePads remote ticks index pads = .ok (pads', snapshots)) :
    (∀ pad ∈ pads', PadInv remote pad) ∧ (∀ f ∈ snapshots, index ≤ f.1) ∧
      ∀ i pad, pads[i]? = some pad → pad.grabbed = true →
        ∃ pad', pads'[i]? = some pad' ∧ Routed remote (index + i) pad pad' snapshots := by
  induction pads generalizing index pads' snapshots with
  | nil =>
      cases h
      exact ⟨by simp, by simp, by simp⟩
  | cons pad pads ih =>
      simp only [routePads, bind_eq_ok] at h
      obtain ⟨⟨p, q⟩, hp, ⟨ps, q'⟩, hps, h⟩ := h
      cases h
      obtain ⟨hpad, hindex, hs⟩ := routePad_spec (hinv pad (List.mem_cons_self ..)) hp
      obtain ⟨hpads, hindex', hs'⟩ := ih (fun p hp => hinv p (List.mem_cons_of_mem _ hp)) hps
      refine ⟨List.forall_mem_cons.mpr ⟨hpad, hpads⟩, fun f hf => ?_, fun i pad hi hg => ?_⟩
      · rcases List.mem_append.mp hf with hf | hf
        · exact (hindex f hf).ge
        · exact le_of_lt (hindex' f hf)
      cases i with
      | zero =>
          obtain rfl := Option.some.inj hi
          have hs := hs hg
          have hrest : framesOf index q' = [] :=
            framesOf_eq_nil fun f hf => Nat.ne_of_gt (hindex' f hf)
          refine ⟨p, rfl, { hs with snapshot := fun hr => ?_ }⟩
          rw [Nat.add_zero, framesOf_append, hs.snapshot hr, hrest, List.append_nil]
      | succ i =>
          obtain ⟨pad', hi', hs'⟩ := hs' i pad hi hg
          have hrest : framesOf (index + (i + 1)) q = [] :=
            framesOf_eq_nil fun f hf => by have := hindex f hf; omega
          have hsnap := hs'.snapshot
          rw [show index + 1 + i = index + (i + 1) by omega] at hsnap
          refine ⟨pad', hi', { hs' with snapshot := fun hr => ?_ }⟩
          rw [framesOf_append, hrest, hsnap hr]
          rfl

/-- **What `Router::route` does**, when the destination changes. -/
theorem route_spec {ticks : ℕ → Tick} {r r' : Router} {snapshots : List CapturedFrame}
    (hinv : r.Inv) (hne : r.remote ≠ remote) (h : r.route ticks remote = .ok (snapshots, r')) :
    r'.Inv ∧ r'.remote = remote ∧ r'.pending = [] ∧
      ∀ i pad, r.pads[i]? = some pad → pad.grabbed = true →
        ∃ pad', r'.pads[i]? = some pad' ∧ Routed remote i pad pad' snapshots := by
  rw [route, if_neg hne] at h
  simp only [bind_eq_ok] at h
  obtain ⟨⟨ps, q⟩, hps, h⟩ := h
  cases h
  have hremote : r.remote = !remote := by cases hr : r.remote <;> cases remote <;> simp_all
  obtain ⟨hpads, -, hs⟩ := routePads_spec (fun pad hp => hremote ▸ hinv pad hp) hps
  refine ⟨hpads, rfl, rfl, fun i pad hi hg => ?_⟩
  obtain ⟨pad', hi', hs⟩ := hs i pad hi hg
  exact ⟨pad', hi', Nat.zero_add i ▸ hs⟩

/-! ### Runs -/

/-- A call of the router. -/
inductive Call where
  | sample (inputs : ℕ → PadInput)
  | route (ticks : ℕ → Tick) (remote : Bool)
  | drain

/-- A router and everything it has handed out for the peer, `none` after an error: sharing ends. -/
abbrev Running := Option (Router × List CapturedFrame)

/-- A call of a router that has not failed. -/
def next : Running → Call → Running
  | none, _ => none
  | some (r, log), .sample inputs =>
      match r.sample inputs with
      | .ok (_, r') => some (r', log)
      | .error _ => none
  | some (r, log), .route ticks remote =>
      match r.route ticks remote with
      | .ok (snapshots, r') => some (r', log ++ snapshots)
      | .error _ => none
  | some (r, log), .drain => some (r.drain.2, log ++ r.drain.1)

/-- Nothing follows a failure. -/
theorem run_none (calls : List Call) : Run.run next none calls = none := by
  induction calls with
  | nil => rfl
  | cons _ _ ih => exact ih

/-- The kernel's answers in a call are about the devices of the router. -/
def CompleteCall : Running → Call → Prop
  | some (r, _), .sample inputs => Complete inputs r
  | _, _ => True

/-- **Every router has the invariant**, whatever is called in whatever order. -/
theorem inv_run {descriptors : List Descriptor} {r r' : Router} {calls : List Call}
    {log : List CapturedFrame} (h : opened descriptors = .ok r)
    (hc : Run.Along next CompleteCall (some (r, [])) calls)
    (hrun : Run.run next (some (r, [])) calls = some (r', log)) : r'.Inv := by
  have hinv := Run.run_invariant (I := fun s : Running => ∀ r log, s = some (r, log) → r.Inv)
    (P := CompleteCall) (fun s call hs hcall => ?_) (fun r' log' he => ?_) hc
  · exact hinv r' log hrun
  · obtain _ | ⟨r, log⟩ := s
    · intros; contradiction
    have hr : r.Inv := hs r log rfl
    intro r' log' he
    cases call with
    | sample inputs =>
        simp only [next] at he
        split at he
        · cases he
          exact inv_sample hr hcall ‹_›
        · cases he
    | route ticks remote =>
        simp only [next] at he
        split at he
        · cases he
          rename_i hroute
          by_cases hne : r.remote = remote
          · rw [route, if_pos hne] at hroute
            cases hroute
            exact hr
          · exact (route_spec hr hne hroute).1
        · cases he
    | drain =>
        cases he
        exact hr
  · cases he
    exact inv_opened h

/-- **Between two changes of destination** every frame a pad completes is handed out or queued,
after those before it, and nothing else is. -/
theorem run_sampled {r r' : Router} {log log' : List CapturedFrame} {calls : List Call} {i : ℕ}
    (hr : r.remote = remote) (hcalls : ∀ ticks b, .route ticks b ∈ calls → b = remote)
    (hi : r.pads[i]? = some pad) (hg : pad.grabbed = true)
    (hrun : Run.run next (some (r, log)) calls = some (r', log')) :
    ∃ pad' queued events,
    r'.pads[i]? = some pad' ∧ log' ++ r'.pending = log ++ r.pending ++ queued ∧
      Sampled remote i pad pad' queued events := by
  induction calls generalizing r log pad with
  | nil =>
      cases hrun
      exact ⟨pad, [], [], hi, by simp, .refl hg⟩
  | cons call calls ih =>
      have hcalls' : ∀ ticks b, .route ticks b ∈ calls → b = remote :=
        fun ticks b h => hcalls ticks b (List.mem_cons_of_mem _ h)
      rw [Run.run_cons] at hrun
      -- a call to route that changes nothing is none
      cases call with
      | sample inputs =>
          simp only [next] at hrun
          split at hrun
          · rename_i hsample
            obtain ⟨hr', queued, hq, hs⟩ := sample_spec hsample
            obtain ⟨pad₁, events, hi₁, hs⟩ := hs i pad hi hg
            obtain ⟨pad', queued', events', hi', hlog, hs'⟩ :=
              ih (hr'.trans hr) hcalls' hi₁ hs.grabbed hrun
            refine ⟨pad', queued ++ queued', events ++ events', hi', ?_, (hr ▸ hs).trans hs'⟩
            rw [hlog, hq]
            simp only [List.append_assoc]
          · rw [run_none] at hrun
            cases hrun
      | route ticks b =>
          obtain rfl := hcalls ticks b (List.mem_cons_self ..)
          simp only [next, route, if_pos hr, List.append_nil] at hrun
          exact ih hr hcalls' hi hg hrun
      | drain =>
          change Run.run next (some (r.drain.2, log ++ r.pending)) calls = _ at hrun
          have hr' : r.drain.2.remote = remote := hr
          obtain ⟨pad', queued, events, hi', hlog, hs⟩ := ih hr' hcalls' hi hg hrun
          refine ⟨pad', queued, events, hi', ?_, hs⟩
          rw [hlog]
          exact congrArg (· ++ queued) (List.append_nil _)

end Router

end NiriBridge.Touchpad
