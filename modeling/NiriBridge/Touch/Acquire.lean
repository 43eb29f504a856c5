import NiriBridge.Touch.Switch

/-!
# Touch — Acquire

A pad that is grabbed.  From then on a virtual device, the local mirror or the peer's, is given the
frames of the pad; unlike after a change of destination it is given no snapshot.  A slot event is
part of a frame only when the slot changes, so what the device makes of the first contacts depends
on the slot the pad was left in.

* `Acquisition.spec`: what the virtual device is given.
* `contacts_follow_acquisition_iff`: exactly when it has every contact in the slot the pad has it
  in.
-/

namespace NiriBridge.Touchpad

open Cursor

namespace TouchState

/-- The contact in a slot. -/
def contactAt (s : TouchState) (k : ℕ) : Option ℤ :=
  if 0 ≤ s.trackingAt k then some (s.trackingAt k) else none

/-- **Every contact is in the slot the pad has it in**, after each of the events: none is lost, and
none takes the place of another. -/
def SameContacts (t s : TouchState) (events : List Event) : Prop :=
  ∀ n k, (t.apply (events.take n)).contactAt k = (s.apply (events.take n)).contactAt k

/-- The event selects a slot. -/
def selects (e : Event) : Bool := e.kind = .absolute && e.code = SLOT

/-- The event begins a contact in the slot that is selected. -/
def begins (e : Event) : Bool := e.kind = .absolute && e.code = TRACKING && 0 ≤ e.value

/-- A slot is selected only when it is not the one selected already, as the kernel reports it. -/
def SlotsChange : TouchState → List Event → Bool
  | _, [] => true
  | s, e :: es => (!selects e || asUsize e.value != s.slot) && SlotsChange (s.applyEvent e) es

/-- A contact begins before any slot is selected. -/
def BeginsUnselected (events : List Event) : Prop :=
  ∃ e ∈ events.takeWhile (!selects ·), begins e = true

/-- A slot has no contact when its tracking id is negative. -/
theorem contactAt_eq_none {s : TouchState} {k : ℕ} : s.contactAt k = none ↔ s.trackingAt k < 0 := by
  unfold contactAt
  split_ifs with h
  · exact iff_of_false (by simp) (not_lt.mpr h)
  · exact iff_of_true rfl (not_le.mp h)

/-- Only a tracking event changes a contact, the one in the selected slot. -/
theorem trackingAt_applyEvent {s : TouchState} {e : Event}
    (hs : s.slot < s.contacts.length) (k : ℕ) :
    (s.applyEvent e).trackingAt k =
      if e.kind = .absolute ∧ e.code = TRACKING ∧ k = s.slot then e.value else s.trackingAt k := by
  have htable := congrArg (fun t => t.cell k TRACKING) (table_applyEvent (e := e) hs)
  obtain ⟨kind, code, v⟩ := e
  unfold trackingAt
  rw [show (s.applyEvent ⟨kind, code, v⟩).cell k TRACKING = _ from htable]
  cases kind with
  | key => simp [Event.delta]
  | absolute =>
      rcases lt_trichotomy code SLOT with h | rfl | h
      · have hne : code ≠ TRACKING := fun he => absurd (he ▸ h) (by decide)
        simp [Event.delta, h.ne, h.not_gt, hne]
      · simp [Event.delta, Table.step, SLOT, TRACKING]
      · have hdelta : (Event.mk .absolute code v).delta = [.put code v] := by
          simp [Event.delta, h.ne', h]
        rw [hdelta]
        by_cases hc : code = TRACKING
        · by_cases hk : k = s.slot <;> simp [Table.step, Table.set, hc, hk]
        · simp [Table.step, Table.set, hc, Ne.symm hc]

/-- There is no contact in a slot the device does not have. -/
theorem trackingAt_of_le {s : TouchState} {k : ℕ} (h : s.contacts.length ≤ k) :
    s.trackingAt k = -1 := by
  unfold trackingAt cell
  rw [List.getElem?_eq_none h]
  rfl

/-- The state has `n` slots, one of which is selected. -/
def Within (n : ℕ) (s : TouchState) : Prop := s.contacts.length = n ∧ s.slot < n

theorem Within.applyEvent {n : ℕ} {s : TouchState} {e : Event} (h : Within n s)
    (he : SeeksBelow n [e]) : Within n (s.applyEvent e) :=
  ⟨(length_contacts_applyEvent s e).trans h.1, slot_applyEvent h.2 he⟩

/-- The state holds no contact. -/
def Empty (s : TouchState) : Prop := ∀ k, s.trackingAt k < 0

theorem Empty.contactAt {s : TouchState} (h : Empty s) (k : ℕ) : s.contactAt k = none :=
  contactAt_eq_none.mpr (h k)

theorem seeksBelow_head {n : ℕ} {e : Event} {es : List Event} (h : SeeksBelow n (e :: es)) :
    SeeksBelow n [e] := fun e' he' => h e' (by simp_all)

theorem seeksBelow_tail {n : ℕ} {e : Event} {es : List Event} (h : SeeksBelow n (e :: es)) :
    SeeksBelow n es := fun e' he' => h e' (List.mem_cons_of_mem _ he')

/-- The contacts are the same along the events if they are the same now and from the first on. -/
theorem sameContacts_cons {t s : TouchState} {e : Event} {es : List Event} :
    SameContacts t s (e :: es) ↔ (∀ k, t.contactAt k = s.contactAt k) ∧
      SameContacts (t.applyEvent e) (s.applyEvent e) es := by
  constructor
  · exact fun h => ⟨h 0, fun m => h (m + 1)⟩
  · rintro ⟨h₀, h⟩ m
    cases m with
    | zero => exact h₀
    | succ m => exact h m

/-- Once a slot is selected, it does not matter which one was. -/
theorem slot_applyEvent_of_selects {t s : TouchState} {e : Event} (h : selects e = true) :
    (t.applyEvent e).slot = (s.applyEvent e).slot := by
  obtain ⟨hkind, hcode⟩ : e.kind = .absolute ∧ e.code = SLOT := by simpa [selects] using h
  simp [applyEvent, hkind, hcode]

/-- An event that selects no slot leaves the selected one. -/
theorem slot_applyEvent_of_not_selects {s : TouchState} {e : Event} (h : selects e = false) :
    (s.applyEvent e).slot = s.slot := by
  obtain ⟨kind, code, v⟩ := e
  unfold applyEvent
  cases kind with
  | key => split_ifs <;> rfl
  | absolute =>
      have hcode : code ≠ SLOT := by simpa [selects] using h
      simp only [hcode, if_false]
      split_ifs <;> rfl

/-- A frame that takes one state to another slot takes every state there. -/
theorem slot_apply_of_moved {t s : TouchState} {es : List Event}
    (h : (s.apply es).slot = s.slot → t.slot = s.slot) : (t.apply es).slot = (s.apply es).slot := by
  induction es generalizing t s with
  | nil => exact h rfl
  | cons e es ih =>
      refine ih fun he => ?_
      cases hsel : selects e with
      | true => exact slot_applyEvent_of_selects hsel
      | false =>
          rw [slot_applyEvent_of_not_selects hsel] at he ⊢
          rw [slot_applyEvent_of_not_selects hsel]
          exact h he

section Same

variable {n : ℕ} {t s : TouchState} {e : Event} {es : List Event}

/-- One event keeps two states with the same slot and contacts alike. -/
theorem contactAt_applyEvent_congr (ht : Within n t) (hs : Within n s) (hslot : t.slot = s.slot)
    (h : ∀ k, t.contactAt k = s.contactAt k) (k : ℕ) :
    (t.applyEvent e).contactAt k = (s.applyEvent e).contactAt k := by
  have ht' : t.slot < t.contacts.length := ht.1 ▸ ht.2
  have hs' : s.slot < s.contacts.length := hs.1 ▸ hs.2
  by_cases hc : e.kind = .absolute ∧ e.code = TRACKING ∧ k = s.slot
  · simp only [contactAt, trackingAt_applyEvent ht', trackingAt_applyEvent hs', hslot, if_pos hc]
  · simp only [contactAt, trackingAt_applyEvent ht', trackingAt_applyEvent hs', hslot, if_neg hc]
    exact h k

/-- An event that begins no contact leaves a state without contacts empty. -/
theorem Empty.applyEvent (hs : Within n s) (h : Empty s) (he : begins e = false) :
    Empty (s.applyEvent e) := by
  intro k
  rw [trackingAt_applyEvent (hs.1 ▸ hs.2)]
  split_ifs with hc
  · by_contra hv
    simp [begins, hc, not_lt.mp hv] at he
  · exact h k

/-- A state stays empty as long as no contact begins. -/
theorem Empty.apply (hs : Within n s) (h : Empty s) (hes : SeeksBelow n es)
    (hb : ∀ e ∈ es, begins e = false) :
    Empty (s.apply es) := by
  induction es generalizing s with
  | nil => exact h
  | cons e es ih =>
      exact ih (hs.applyEvent (seeksBelow_head hes))
        (h.applyEvent hs (hb e (List.mem_cons_self ..)))
        (seeksBelow_tail hes) fun e' he' => hb e' (List.mem_cons_of_mem _ he')

/-- States in the same slot stay together. -/
theorem sameContacts_of_slot (ht : Within n t) (hs : Within n s) (heq : t.slot = s.slot)
    (hes : SeeksBelow n es) (h : ∀ k, t.contactAt k = s.contactAt k) : SameContacts t s es := by
  induction es generalizing t s with
  | nil => exact fun m k => by simpa using h k
  | cons e es ih =>
      have hslot : (t.applyEvent e).slot = (s.applyEvent e).slot := by
        cases hsel : selects e with
        | true => exact slot_applyEvent_of_selects hsel
        | false =>
            rw [slot_applyEvent_of_not_selects hsel, slot_applyEvent_of_not_selects hsel, heq]
      exact sameContacts_cons.mpr ⟨h,
        ih (ht.applyEvent (seeksBelow_head hes)) (hs.applyEvent (seeksBelow_head hes)) hslot
          (seeksBelow_tail hes)
        (contactAt_applyEvent_congr ht hs heq h)⟩

/-- **Without a snapshot** the contacts agree exactly if the slots did, or are selected before the
first contact begins. -/
theorem sameContacts_iff (ht : Within n t) (hs : Within n s) (hte : Empty t) (hse : Empty s)
    (hes : SeeksBelow n es) : SameContacts t s es ↔ t.slot = s.slot ∨ ¬ BeginsUnselected es := by
  have hsame : ∀ k, t.contactAt k = s.contactAt k :=
    fun k => (hte.contactAt k).trans (hse.contactAt k).symm
  by_cases heq : t.slot = s.slot
  · exact iff_of_true (sameContacts_of_slot ht hs heq hes hsame) (.inl heq)
  rw [or_iff_right heq]
  induction es generalizing t s with
  | nil => exact iff_of_true (fun m k => by simpa using hsame k) (by simp [BeginsUnselected])
  | cons e es ih =>
      have ht' := ht.applyEvent (seeksBelow_head hes)
      have hs' := hs.applyEvent (seeksBelow_head hes)
      rw [sameContacts_cons, and_iff_right hsame]
      cases hsel : selects e with
      | true =>
          -- from here on both are in the slot that is selected
          have hnot : begins e = false := by
            have : e.code = SLOT := by simpa [selects]
              using (by simpa [selects] using hsel : _ ∧ _).2
            simp [begins, this, SLOT, TRACKING]
          refine iff_of_true ?_ (by simp [BeginsUnselected, hsel])
          exact sameContacts_of_slot ht' hs' (slot_applyEvent_of_selects hsel) (seeksBelow_tail hes)
            fun k =>
            ((hte.applyEvent ht hnot).contactAt k).trans ((hse.applyEvent hs hnot).contactAt k).symm
      | false =>
          cases hbeg : begins e with
          | true =>
              -- the contact is in the pad's slot, and not in that slot of the device
              have hunselected :
                  BeginsUnselected (e :: es) := by simp [BeginsUnselected, hsel, hbeg]
              refine iff_of_false (fun h => ?_) (not_not.mpr hunselected)
              obtain ⟨⟨hkind, hcode⟩, hv⟩ :
                  (e.kind = .absolute ∧ e.code = TRACKING) ∧ 0 ≤ e.value := by
                simpa [begins] using hbeg
              have hk := h 0 s.slot
              simp only [List.take_zero, apply_nil, contactAt, trackingAt_applyEvent (hs.1 ▸ hs.2),
                trackingAt_applyEvent (ht.1 ▸ ht.2), hkind, hcode, true_and, if_true, if_pos hv,
                if_neg (Ne.symm heq), if_neg (not_le.mpr (hte s.slot))] at hk
              cases hk
          | false =>
              have htail : BeginsUnselected (e :: es) ↔ BeginsUnselected es := by
                simp [BeginsUnselected, hsel, hbeg]
              have hslots : (t.applyEvent e).slot ≠ (s.applyEvent e).slot := by
                rwa [slot_applyEvent_of_not_selects hsel, slot_applyEvent_of_not_selects hsel]
              have hte' := hte.applyEvent ht hbeg
              have hse' := hse.applyEvent hs hbeg
              rw [htail]
              exact ih ht' hs' hte' hse' (seeksBelow_tail hes)
                (fun k => (hte'.contactAt k).trans (hse'.contactAt k).symm) hslots

end Same

/-- `idle` accepts a device without pressed keys and contacts. -/
theorem idle_iff {s : TouchState} : s.idle = true ↔ s.keys = ∅ ∧ Empty s := by
  rw [idle, Bool.and_eq_true, SortedSet.isEmpty_iff, List.all_eq_true]
  refine and_congr_right fun _ => ⟨fun h k => ?_, fun h c hc => ?_⟩
  · unfold trackingAt cell
    cases hk : s.contacts[k]? with
    | none => simp
    | some c =>
        have hc := h c (List.mem_of_getElem? hk)
        cases hv : c.get? TRACKING with
        | none => simp [hv]
        | some v => simpa [hv] using hc
  · obtain ⟨k, hk⟩ := List.mem_iff_getElem?.mp hc
    have := h k
    unfold trackingAt cell at this
    rw [hk, Option.bind_some] at this
    cases hv : c.get? TRACKING with
    | none => rfl
    | some v => simpa [hv] using this

theorem Neutral.empty {d : Descriptor} {t : TouchState} (h : Neutral d t) : Empty t := fun k => by
  rw [h.trackingAt k]
  decide

end TouchState

/-! ### The grab -/

namespace Router

open TouchState

variable {remote : Bool} {index i : ℕ} {pad pad' : PhysicalTouchpad} {r r₂ : Router}
  {queued : List CapturedFrame}

/-- A pad is grabbed idle, with the state that was read of it. -/
theorem acquire_spec {input : PadInput} (h : acquire input pad = .ok pad')
    (hg : pad.grabbed = false) (hg' : pad'.grabbed = true) :
    ∃ state, TouchState.read input.reading pad.descriptor = .ok state ∧ state.idle = true ∧
      pad' = { pad with state := state, grabbed := true } := by
  rw [acquire, if_neg (by simp [hg])] at h
  simp only [bind_eq_ok] at h
  obtain ⟨keys, -, h⟩ := h
  split_ifs at h
  · cases h
    simp [hg] at hg'
  simp only [bind_eq_ok] at h
  obtain ⟨_, -, _, -, state, hread, h⟩ := h
  split_ifs at h with hidle
  · cases h
    exact ⟨state, hread, hidle, rfl⟩
  · simp only [bind_eq_ok] at h
    obtain ⟨_, -, h⟩ := h
    cases h
    simp [hg] at hg'

/-- Sampling grabs every pad that is not grabbed yet. -/
theorem samplePads_acquire {inputs : ℕ → PadInput} {active : Bool}
    {pads pads' : List PhysicalTouchpad} {pending pending' : List CapturedFrame}
    (h : samplePads remote inputs index pads pending = .ok (active, pads', pending'))
    (hi : pads[i]? = some pad) (hg : pad.grabbed = false) :
    ∃ pad', pads'[i]? = some pad' ∧ acquire (inputs (index + i)) pad = .ok pad' := by
  induction pads generalizing index i pending active pads' with
  | nil => cases hi
  | cons p ps ih =>
      simp only [samplePads, bind_eq_ok] at h
      obtain ⟨⟨a, p', q⟩, hp, ⟨a', ps', q'⟩, hps, h⟩ := h
      cases h
      cases i with
      | zero =>
          obtain rfl := Option.some.inj hi
          simp only [samplePad, bind_eq_ok] at hp
          obtain ⟨raw, -, _, -, ⟨p₁, q₁⟩, hevents, p₂, hacq, h⟩ := hp
          cases h
          obtain ⟨rfl, rfl⟩ :=
            Prod.mk.inj (Except.ok.inj ((sampleEvents_of_not_grabbed hg).symm.trans hevents))
          exact ⟨p', rfl, hacq⟩
      | succ i =>
          obtain ⟨pad', hi', hacq⟩ := ih hps hi
          exact ⟨pad', hi', by rwa [show index + (i + 1) = index + 1 + i by omega]⟩

/-- A call of `Router::sample` grabs pad `i`, which then is `pad`.  Calls later, without a change of
destination, the router is `r₂`, and the frames since have been handed out or are still queued. -/
structure Acquisition (remote : Bool) (i : ℕ) (pad : PhysicalTouchpad) (r₂ : Router)
    (queued : List CapturedFrame) : Prop where
  grabbed : pad.grabbed = true
  run : ∃ r inputs active r₁ p calls log log₂, r.Inv ∧ Complete inputs r ∧ r.remote = remote ∧
    r.pads[i]? = some p ∧ p.grabbed = false ∧ r.sample inputs = .ok (active, r₁) ∧
    r₁.pads[i]? = some pad ∧ (∀ ticks b, .route ticks b ∈ calls → b = remote) ∧
    Run.run next (some (r₁, log)) calls = some (r₂, log₂) ∧
    log₂ ++ r₂.pending = log ++ r₁.pending ++ queued

/-- What the virtual device of a grabbed pad is given. -/
theorem Acquisition.spec (h : Acquisition remote i pad r₂ queued) :
    pad.descriptor.validate = .ok () ∧ Acquired pad.descriptor pad.state ∧ pad.state.idle = true ∧
      ∃ pad₂ events, r₂.pads[i]? = some pad₂ ∧ pad.descriptor.Valid events ∧
        pad₂.state = pad.state.apply events ∧
        (remote = true → framesOf i queued = events) ∧
        (remote = false → pad₂.mirror.state = (new pad.descriptor).apply events) := by
  obtain ⟨hg, r, inputs, active, r₁, p, calls, log, log₂, hinv, hcomplete, hremote, hi,
    hfree, hsample, hi₁, hcalls, hrun, hlog⟩ := h
  have hinv₁ := inv_sample hinv hcomplete hsample
  have hpad := hinv₁ pad (List.mem_of_getElem? hi₁)
  have hremote₁ : r₁.remote = remote := (sample_spec hsample).1.trans hremote
  simp only [sample, bind_eq_ok] at hsample
  obtain ⟨⟨a, ps, q⟩, hps, hsample⟩ := hsample
  cases hsample
  obtain ⟨p', hp', hacq⟩ := samplePads_acquire hps hi hfree
  obtain rfl := Option.some.inj (hp'.symm.trans hi₁)
  obtain ⟨state, hread, hidle, rfl⟩ := acquire_spec hacq hfree hg
  obtain ⟨pad₂, queued', events, hi₂, hlog', hsampled⟩ := run_sampled hremote₁ hcalls hi₁ hg hrun
  obtain rfl : queued = queued' := List.append_cancel_left (hlog.symm.trans hlog')
  refine ⟨hpad.descriptor, hpad.acquired hg, hidle, pad₂, events, hi₂, hsampled.valid,
    hsampled.state, fun hr => by rw [hsampled.queue, if_pos hr], fun hr => ?_⟩
  have hmirror : p.mirror.state = new p.descriptor :=
    (hinv p (List.mem_of_getElem? hi)).neutral (.inr hfree)
  rw [hsampled.mirror, hr]
  exact congrArg (TouchState.apply · events) hmirror

/-- **Exactly when the contacts follow an acquisition.**  The device of the peer may be in any slot,
the mirror of a pad that has not been grabbed before is in slot 0. -/
theorem contacts_follow_acquisition_iff (h : Acquisition remote i pad r₂ queued) :
    ∃ pad₂ events, r₂.pads[i]? = some pad₂ ∧ pad₂.state = pad.state.apply events ∧
      (remote = true → framesOf i queued = events ∧ ∀ dest, Neutral pad.descriptor dest →
        (SameContacts dest pad.state events ↔
          dest.slot = pad.state.slot ∨ ¬ BeginsUnselected events)) ∧
      (remote = false → pad₂.mirror.state = (new pad.descriptor).apply events ∧
        (SameContacts (new pad.descriptor) pad.state events ↔
          0 = pad.state.slot ∨ ¬ BeginsUnselected events)) := by
  obtain ⟨hd, hs, hidle, pad₂, events, hi₂, hvalid, hstate, hpeer, hlocal⟩ := h.spec
  have hiff : ∀ dest, Neutral pad.descriptor dest →
      (SameContacts dest pad.state events ↔
        dest.slot = pad.state.slot ∨ ¬ BeginsUnselected events) :=
    fun dest hdest =>
      sameContacts_iff ⟨hdest.contacts, hdest.slot⟩ ⟨hs.contacts, hs.slot⟩ hdest.empty
      (idle_iff.mp hidle).2 (hvalid.seeksBelow hd)
  exact ⟨pad₂, events, hi₂, hstate, fun hr => ⟨hpeer hr, hiff⟩,
    fun hr => ⟨hlocal hr, hiff _ (neutral_new hd)⟩⟩

/-! A pad that was left in slot 1 is grabbed, touched in that slot, and then in slot 0 as well. -/

namespace Grab

/-- The kernel's answers while the second slot is selected. -/
def reading : Reading :=
  { Stroke.reading with axes := .ok [(0, 0), (1, 0), (SLOT, 1), (53, 0), (54, 0), (TRACKING, 0)] }

/-- A pass with these events and answers. -/
def inputs (events : List Event) (n : ℕ) : PadInput :=
  { Stroke.inputs events n with reading := reading }

/-- A finger in the selected slot. -/
def touch : List Event := [.key TOUCH 1, .abs TRACKING 5, .abs 53 100]

/-- A finger in the first slot. -/
def second : List Event := [.abs SLOT 0, .abs TRACKING 6, .abs 53 300]

/-- Both fingers, one after the other. -/
def calls : List Call := [.sample (inputs touch), .sample (inputs second)]

/-- The router before the grab, with the given destination. -/
def start (remote : Bool) : Router := { Stroke.start (-1) with remote := remote }

/-- The router after the grab and the calls that follow it. -/
def after (remote : Bool) (calls : List Call) : Router :=
  ((Run.run next (some (start remote, [])) (.sample (inputs []) :: calls)).getD Stroke.nothing).1

/-- The pad after these calls. -/
def padAfter (remote : Bool) (calls : List Call) : PhysicalTouchpad :=
  (after remote calls).pads[0]?.getD (.opened (Stroke.descriptor (-1)))

/-- The router of the example has one pad. -/
theorem only {remote : Bool} {i : ℕ} {p : PhysicalTouchpad} (h : (start remote).pads[i]? = some p) :
    p = .opened (Stroke.descriptor (-1)) := by
  rcases i with _ | i
  · exact (Option.some.inj h).symm
  · cases h

/-- The router of the example starts in order. -/
theorem inv_start (remote : Bool) : (start remote).Inv := by
  intro p hp
  obtain ⟨i, hi⟩ := List.mem_iff_getElem?.mp hp
  rw [only hi]
  exact ⟨rfl, rfl, by rintro ⟨⟩, fun _ => rfl⟩

/-- The reading of the example covers every axis. -/
theorem complete (remote : Bool) : Complete (inputs []) (start remote) := by
  intro i p hi axes haxes
  rw [only hi]
  cases haxes
  decide

/-- The example is an acquisition. -/
theorem acquisition (remote : Bool) :
    Acquisition remote 0 (padAfter remote []) (after remote calls)
    (after remote calls).pending := by
  have hcalls : ∀ ticks b, .route ticks b ∈ calls → b = remote := by simp [calls]
  cases remote <;>
    exact ⟨rfl, start _, inputs [], false, after _ [], .opened (Stroke.descriptor (-1)),
      calls, [], [], inv_start _, complete _, rfl, rfl, rfl, rfl, rfl, hcalls, rfl, rfl⟩

end Grab

/-- The grabbed pad with two fingers down. -/
theorem contacts_follow_acquisition_iff_grab :
    SameContacts (new (Stroke.descriptor (-1)))
    (Grab.padAfter true []).state (Grab.touch ++ Grab.second) ↔
      (new (Stroke.descriptor (-1))).slot = (Grab.padAfter true []).state.slot ∨
        ¬ BeginsUnselected (Grab.touch ++ Grab.second) := by
  obtain ⟨pad₂, events, -, -, hpeer, -⟩ := contacts_follow_acquisition_iff (Grab.acquisition true)
  obtain ⟨hframes, hiff⟩ := hpeer rfl
  obtain rfl : Grab.touch ++ Grab.second = events := Eq.trans rfl hframes
  exact hiff _ (neutral_new rfl)

/-- **A pad left in another slot.**  The contact of slot 1 is put into slot 0 of the mirror, where
the second contact replaces it. -/
theorem acquired_in_another_slot_loses_contact :
    ∃ pad r₂ queued pad₂ events, Acquisition false 0 pad r₂ queued ∧ r₂.pads[0]? = some pad₂ ∧
      pad₂.state = pad.state.apply events ∧ SlotsChange pad.state events = true ∧
      pad₂.mirror.state = (new pad.descriptor).apply events ∧
      ¬ SameContacts (new pad.descriptor) pad.state events ∧
      pad₂.state.contactAt 1 = some 5 ∧ ∀ k < 2, pad₂.mirror.state.contactAt k ≠ some 5 := by
  refine ⟨Grab.padAfter false [], Grab.after false Grab.calls, _, Grab.padAfter false Grab.calls,
    Grab.touch ++ Grab.second, Grab.acquisition false, rfl, by decide, by decide,
    by decide, fun h => ?_, by decide, by decide⟩
  exact absurd (h 6 1) (by decide)

end Router

end NiriBridge.Touchpad
