import NiriBridge.Model.Hybrid
import NiriBridge.Receiver.Gate
import NiriBridge.Touch.Legal

/-!
# Receiver — Touchpads

The cleanup of the native touchpads, through the receiver, the hybrid backend and the pad.

* `Pad.Sound`: the invariant of a pad, kept by every call of the receiver (`padsSound_invariant`).
* `reset_spec`: what one reset does, by how the kernel answers it.
* `touchpads_cleaned_iff`: when every pad that takes the write is clean after the session has ended.
-/

namespace NiriBridge

open Touchpad

/-! ### One pad -/

namespace Hybrid

namespace Pad

/-- **The invariant of a pad.**  The device has the slots of the descriptor, and what the pad takes
to be pressed is advertised. -/
structure Sound (p : Pad) : Prop where
  descriptor : p.pad.descriptor.validate = .ok ()
  contacts : p.pad.state.contacts.length = p.pad.descriptor.slots
  device : p.device.state.contacts.length = p.pad.descriptor.slots
  slot : p.device.state.slot < p.pad.descriptor.slots
  keys : ∀ code ∈ p.pad.state.keys, code ∈ p.pad.descriptor.keys

/-- Nothing touches the device: no key is pressed and no slot holds a contact. -/
structure Clean (p : Pad) : Prop where
  keys : p.device.state.keys = ∅
  contacts : ∀ k, ¬ p.device.state.Active k

/-- The kernel takes the next write. -/
def Accepts (p : Pad) : Prop := p.device.answer.tick.write = .ok ()

/-- The next write is not too long after it was asked for. -/
def Timely (p : Pad) : Prop :=
  p.device.answer.tick.asked ≤ p.device.answer.tick.now ∧
    p.device.answer.tick.now - p.device.answer.tick.asked ≤ 200000

instance (p : Pad) : Decidable p.Timely := inferInstanceAs (Decidable (_ ∧ _))

/-- The next reset of the pad works. -/
def Resets (p : Pad) : Prop := p.Accepts ∧ p.Timely

/-- Every key that is pressed at the device is one the pad knows of. -/
def Known (p : Pad) : Prop := ∀ code ∈ p.device.state.keys, code = TOUCH ∨ code ∈ p.pad.state.keys

/-- The releases of a sound pad are a valid frame. -/
theorem releases_valid {p : Pad} (h : p.Sound) :
    p.pad.descriptor.validateFrame p.pad.state.releases = .ok () :=
  TouchState.validateFrame_releases h.descriptor h.contacts h.keys

/-- What has to hold for a write to be taken. -/
def Writes (p : Pad) (events : List Event) (time : ℕ) : Prop :=
  p.pad.descriptor.validateFrame events = .ok () ∧
    (time ≤ p.device.answer.tick.now ∧ p.device.answer.tick.now - time ≤ 200000) ∧ p.Accepts

/-- The pad, and what its device has been told, after a write. -/
inductive Wrote (p : Pad) (events : List Event) (time : ℕ) (r : Result Unit × Pad) : Prop where
  | taken (result : r.1 = .ok ()) (writes : p.Writes events time)
      (descriptor : r.2.pad.descriptor = p.pad.descriptor)
      (state : r.2.pad.state = p.pad.state.apply events)
      (device : r.2.device.state = p.device.state.apply events)
  | failed {e : Error} (result : r.1 = .error e) (writes : ¬ p.Writes events time)
      (pad : r.2.pad = p.pad)
      (device : r.2.device.state = p.device.state ∨
        ¬ p.Accepts ∧ p.pad.descriptor.validateFrame events = .ok () ∧
          r.2.device.state = p.device.state.apply events)

/-- What is written to a pad is what its readers are told. -/
theorem emitAt_wrote (p : Pad) (events : List Event) (time : ℕ) :
    Wrote p events time (p.emitAt events time) := by
  rw [emitAt]
  cases hpad : p.pad.emitAt { p.device.answer.tick with write := .ok () } events time with
  | error e =>
      refine .failed rfl (fun hw => ?_) rfl (.inl rfl)
      simp only [VirtualTouchpad.emitAt, bind_eq_error, ensure_eq_error] at hpad
      rcases hpad with h | ⟨_, -, ⟨h, -⟩ | ⟨_, -, h⟩⟩
      · exact absurd (h.symm.trans hw.1) (by simp)
      · exact h hw.2.1
      · rcases h with h | ⟨_, -, h⟩ <;> cases h
  | ok pad =>
      simp only [VirtualTouchpad.emitAt, bind_eq_ok, ensure_eq_ok] at hpad
      obtain ⟨_, hvalid, _, htime, _, -, hpad⟩ := hpad
      obtain rfl := Except.ok.inj hpad
      cases hwrite : p.device.answer.tick.write with
      | ok => exact .taken rfl ⟨hvalid, htime, hwrite⟩ rfl rfl rfl
      | error e =>
          have hrefused : ¬ p.Accepts := fun ha => absurd (hwrite.symm.trans ha) (by simp)
          refine .failed rfl (fun hw => hrefused hw.2.2) rfl ?_
          cases p.device.answer.landed with
          | true => exact .inr ⟨hrefused, hvalid, rfl⟩
          | false => exact .inl rfl

/-- A frame the pad has validated keeps both states sound. -/
theorem Sound.wrote {p : Pad} {events : List Event} {time : ℕ} {r : Result Unit × Pad}
    (hp : p.Sound) (h : Wrote p events time r) : r.2.Sound := by
  have hdevice : p.pad.descriptor.validateFrame events = .ok () →
      (p.device.state.apply events).contacts.length = p.pad.descriptor.slots ∧
        (p.device.state.apply events).slot < p.pad.descriptor.slots := by
    intro hv
    have hseeks := (Descriptor.valid_of_validateFrame hv).seeksBelow hp.descriptor
    have hslot := (TouchState.table_apply (hp.device ▸ hp.slot) (hp.device ▸ hseeks)).2
    exact ⟨(TouchState.length_contacts_apply _ _).trans hp.device, hp.device ▸ hslot⟩
  cases h with
  | taken _ writes descriptor state device =>
      obtain ⟨hlen, hslot⟩ := hdevice writes.1
      refine ⟨descriptor ▸ hp.descriptor, ?_, ?_, ?_, ?_⟩
      · rw [state, descriptor, TouchState.length_contacts_apply, hp.contacts]
      · rw [device, descriptor, hlen]
      · rw [device, descriptor]
        exact hslot
      · rw [state, descriptor]
        intro code hcode
        rcases TouchState.mem_keys_apply hcode with hcode | ⟨⟨kind, c, v⟩, he, ⟨rfl, -⟩, rfl⟩
        · exact hp.keys code hcode
        · exact Descriptor.validateEvent_key.mp (Descriptor.valid_of_validateFrame writes.1 _ he)
  | failed _ _ pad device =>
      have hkept : r.2.device.state.contacts.length = p.pad.descriptor.slots ∧
          r.2.device.state.slot < p.pad.descriptor.slots := by
        rcases device with h | ⟨-, hv, h⟩ <;> rw [h]
        · exact ⟨hp.device, hp.slot⟩
        · exact hdevice hv
      refine ⟨?_, ?_, ?_, ?_, ?_⟩ <;> rw [pad]
      exacts [hp.descriptor, hp.contacts, hkept.1, hkept.2, hp.keys]

/-- A frame keeps a pad sound. -/
theorem Sound.emitRemote {p : Pad} (hp : p.Sound) (events : List Event) (time : ℕ) :
    (p.emitRemote events time).2.Sound := by
  refine Sound.wrote ?_ (emitAt_wrote _ events _)
  exact ⟨hp.descriptor, hp.contacts, hp.device, hp.slot, hp.keys⟩

/-- A pad that has just been created is sound. -/
theorem sound_create {d : Descriptor} (hd : d.validate = .ok ()) (answers : ℕ → Answer) :
    (create d answers).Sound where
  descriptor := hd
  contacts := List.length_replicate
  device := List.length_replicate
  slot := (TouchState.neutral_new hd).slot
  keys _ := (absurd · (SortedSet.not_mem_empty _))

/-- **What one reset does.**  It works when the kernel takes the write in time, and the device then
holds no contact and no key but those the pad did not know of; otherwise the device is told nothing,
unless the kernel has refused the write. -/
theorem reset_spec {p : Pad} (hp : p.Sound) :
    p.reset.2.Sound ∧ (p.reset.1 = .ok () ↔ p.Resets) ∧
      (p.Resets → (∀ k, ¬ p.reset.2.device.state.Active k) ∧
        ∀ code, code ∈ p.reset.2.device.state.keys ↔
          code ∈ p.device.state.keys ∧ code ≠ TOUCH ∧ code ∉ p.pad.state.keys) ∧
      (¬ p.Resets → p.Accepts → p.reset.2.device.state = p.device.state) := by
  have hwrites : p.Writes p.pad.state.releases p.device.answer.tick.asked ↔ p.Resets :=
    ⟨fun h => ⟨h.2.2, h.2.1⟩, fun h => ⟨releases_valid hp, h.2, h.1⟩⟩
  have hwrote := emitAt_wrote p p.pad.state.releases p.device.answer.tick.asked
  have hsound := hp.wrote hwrote
  have hle : p.device.state.contacts.length ≤ 2 ^ 64 := by
    have := Descriptor.slots_le hp.descriptor
    rw [hp.device]
    omega
  have hreleases := TouchState.apply_releases hle (hp.device.trans hp.contacts.symm)
    (hp.device ▸ hp.slot)
  rw [reset, emit]
  generalize p.emitAt p.pad.state.releases p.device.answer.tick.asked = r at hwrote hsound
  obtain ⟨result, p'⟩ := r
  cases hwrote with
  | taken result writes descriptor state device =>
      obtain rfl := result
      have hresets := hwrites.mp writes
      have hdevice : p'.device.state = p.device.state.apply p.pad.state.releases := device
      refine ⟨?_, iff_of_true rfl hresets, fun _ => ?_, fun hno => absurd hresets hno⟩
      · exact ⟨hsound.descriptor, List.length_replicate, hsound.device, hsound.slot,
          fun code hcode => absurd hcode (SortedSet.not_mem_empty code)⟩
      · show (∀ k, ¬ p'.device.state.Active k) ∧ ∀ code, code ∈ p'.device.state.keys ↔ _
        rw [hdevice]
        exact hreleases
  | failed result writes pad device =>
      obtain rfl := result
      have hno : ¬ p.Resets := fun h => writes (hwrites.mpr h)
      refine ⟨hsound, iff_of_false (by simp) hno, fun h => absurd h hno, fun _ haccepts => ?_⟩
      exact device.resolve_right fun h => h.1 haccepts

/-- A reset leaves a pad that takes the write clean exactly if it was, or if the reset works and the
pad knew of every key. -/
theorem clean_reset_iff {p : Pad} (hp : p.Sound) (ha : p.Accepts) :
    p.reset.2.Clean ↔ p.Clean ∨ (p.Timely ∧ p.Known) := by
  obtain ⟨-, -, hresets, hkept⟩ := reset_spec hp
  by_cases ht : p.Timely
  · obtain ⟨hcontacts, hkeys⟩ := hresets ⟨ha, ht⟩
    have hclean : p.reset.2.Clean ↔ p.Known := by
      constructor
      · intro hclean code hcode
        by_contra hno
        rw [not_or] at hno
        have hmem := (hkeys code).mpr ⟨hcode, hno⟩
        rw [hclean.keys] at hmem
        exact SortedSet.not_mem_empty code hmem
      · intro hknown
        refine ⟨SortedSet.eq_empty_iff.mpr fun code hcode => ?_, hcontacts⟩
        obtain ⟨hmem, hno⟩ := (hkeys code).mp hcode
        exact not_or.mpr hno (hknown code hmem)
    rw [hclean]
    refine ⟨fun h => .inr ⟨ht, h⟩, fun h => h.elim (fun hc code hcode => ?_) And.right⟩
    rw [hc.keys] at hcode
    exact absurd hcode (SortedSet.not_mem_empty code)
  · have hstate := hkept (fun h => ht h.2) ha
    have hclean : p.reset.2.Clean ↔ p.Clean := by
      constructor
      · exact fun h => ⟨hstate ▸ h.keys, fun k => hstate ▸ h.contacts k⟩
      · exact fun h => ⟨hstate.symm ▸ h.keys, fun k => hstate.symm ▸ h.contacts k⟩
    rw [hclean]
    exact ⟨.inl, fun h => h.resolve_right fun h => ht h.1⟩

end Pad

/-! ### The loop over the pads -/

/-- Every pad before the one at `i` resets. -/
def Reached (pads : List Pad) (i : ℕ) : Prop := ∀ j < i, ∀ q, pads[j]? = some q → q.Resets

/-- A pad is reached if those before it have been reset. -/
theorem reached_succ {p : Pad} {pads : List Pad} {i : ℕ} :
    Reached (p :: pads) (i + 1) ↔ p.Resets ∧ Reached pads i := by
  constructor
  · exact fun h => ⟨h 0 (Nat.succ_pos i) p rfl, fun j hj => h (j + 1) (Nat.succ_lt_succ hj)⟩
  · rintro ⟨hp, h⟩ j hj q hq
    cases j with
    | zero => exact Option.some.inj hq ▸ hp
    | succ j => exact h j (Nat.lt_of_succ_lt_succ hj) q hq

/-- **The first reset that fails ends the loop**: the pads before it and itself have been reset,
those after it are left as they were. -/
theorem getElem?_resetPads {pads : List Pad} (hpads : ∀ p ∈ pads, p.Sound) (i : ℕ) :
    (Reached pads i → (resetPads pads).2[i]? = pads[i]?.map fun p => p.reset.2) ∧
      (¬ Reached pads i → (resetPads pads).2[i]? = pads[i]?) := by
  induction pads generalizing i with
  | nil => exact ⟨fun _ => rfl, fun _ => rfl⟩
  | cons p pads ih =>
      obtain ⟨hp, hpads⟩ := List.forall_mem_cons.mp hpads
      obtain ⟨-, hok, -⟩ := Pad.reset_spec hp
      rw [resetPads]
      rcases hreset : p.reset with ⟨e | u, p'⟩
      · have hno : ¬ p.Resets :=
          fun h => absurd ((congrArg Prod.fst hreset).symm.trans (hok.mpr h)) (by simp)
        cases i with
        | zero =>
            exact ⟨fun _ => by rw [List.getElem?_cons_zero, List.getElem?_cons_zero,
              Option.map_some, hreset],
            fun h => absurd nofun h⟩
        | succ i => exact ⟨fun h => absurd (reached_succ.mp h).1 hno, fun _ => rfl⟩
      · have hyes : p.Resets := hok.mp (congrArg Prod.fst hreset)
        cases i with
        | zero =>
            exact ⟨fun _ => by rw [List.getElem?_cons_zero, List.getElem?_cons_zero,
              Option.map_some, hreset],
            fun h => absurd nofun h⟩
        | succ i =>
            obtain ⟨h₁, h₂⟩ := ih hpads i
            rw [reached_succ]
            exact ⟨fun h => h₁ h.2, fun h => h₂ fun hr => h ⟨hyes, hr⟩⟩

/-- Pads that are reset stay sound. -/
theorem sound_resetPads {pads : List Pad} (hpads : ∀ p ∈ pads, p.Sound) :
    ∀ p ∈ (resetPads pads).2, p.Sound := by
  intro p hmem
  obtain ⟨i, hi⟩ := List.mem_iff_getElem?.mp hmem
  obtain ⟨h₁, h₂⟩ := getElem?_resetPads hpads i
  by_cases h : Reached pads i
  · rw [h₁ h, Option.map_eq_some_iff] at hi
    obtain ⟨q, hq, rfl⟩ := hi
    exact (Pad.reset_spec (hpads q (List.mem_of_getElem? hq))).1
  · rw [h₂ h] at hi
    exact hpads p (List.mem_of_getElem? hi)

/-- Every pad that takes the next write is clean afterwards. -/
def AllCleaned (pads pads' : List Pad) : Prop :=
  ∀ (i : ℕ) (p p' : Pad), pads[i]? = some p → p.Accepts → pads'[i]? = some p' → p'.Clean

/-- When the pads have been cleaned. -/
theorem allCleaned_resetPads {pads : List Pad} (hpads : ∀ p ∈ pads, p.Sound) :
    AllCleaned pads (resetPads pads).2 ↔
      ∀ i p, pads[i]? = some p → p.Accepts →
        p.Clean ∨ (p.Timely ∧ p.Known ∧ Reached pads i) := by
  have hpad : ∀ i p, pads[i]? = some p → p.Accepts →
      ((∀ p', (resetPads pads).2[i]? = some p' → p'.Clean) ↔
        p.Clean ∨ (p.Timely ∧ p.Known ∧ Reached pads i)) := by
    intro i p hi ha
    obtain ⟨h₁, h₂⟩ := getElem?_resetPads hpads i
    by_cases h : Reached pads i
    · rw [h₁ h, hi, Option.map_some]
      simp only [Option.some.injEq, forall_eq', h, and_true]
      exact Pad.clean_reset_iff (hpads p (List.mem_of_getElem? hi)) ha
    · rw [h₂ h, hi]
      simp [h]
  constructor
  · exact fun h i p hi ha => (hpad i p hi ha).mp fun p' => h i p p' hi ha
  · exact fun h i p p' hi ha => (hpad i p hi ha).mpr (h i p hi ha) p'

end Hybrid

/-! ### Invariants of the backend -/

namespace Receiver

open Hoare

/-- A property of the backend that every call of it keeps. -/
structure SinkInvariant {B : Type} [InputSink B] (I : B → Prop) : Prop where
  poll : ∀ {b : B}, I b → I (InputSink.poll b).2
  emit : ∀ {event} {b : B}, I b → I (InputSink.emit event b).2
  selectOutput : ∀ {output} {b : B}, I b → I (InputSink.selectOutput output b).2
  configureTouchpads : ∀ {devices} {b : B}, I b → I (InputSink.configureTouchpads devices b).2
  resetTouchpads : ∀ {b : B}, I b → I (InputSink.resetTouchpads b).2

section SinkInvariant

variable {B : Type} [InputSink B] {I : B → Prop}

/-- The backend of the receiver has the property. -/
def OfSink (I : B → Prop) (r : Receiver B) : Prop := I r.sink

omit [InputSink B] in
/-- A call of the backend keeps its invariant. -/
theorem sink_call {f : B → Result Unit × B} (hf : ∀ {b}, I b → I (f b).2) {r : Receiver B}
    (h : OfSink I r) : wp (call f) r (fun _ => OfSink I) (fun _ => OfSink I) := by
  have hnext : ∀ x b, f r.sink = (x, b) → OfSink I { r with sink := b } := by
    intro x b hb
    obtain rfl := congrArg Prod.snd hb
    exact hf h
  exact wp_call (fun b => hnext _ b) fun e b => hnext _ b

variable (hI : SinkInvariant I)
include hI

/-- The release of codes keeps it. -/
theorem sink_releaseCodes (codes : List ℕ) (first : Option Error) {r : Receiver B}
    (h : OfSink I r) :
    wp (releaseCodes codes first) r (fun _ => OfSink I) (fun _ => OfSink I) := by
  induction codes generalizing first r with
  | nil => exact h
  | cons code codes ih =>
      rw [releaseCodes, wp_bind, wp_attempt]
      refine wp_mono (sink_call hI.emit h) (fun _ r' h' => ?_) fun e r' h' => ih _ h'
      rw [wp_bind, wp_modify]
      exact ih _ h'

/-- The release of pending codes keeps it. -/
theorem sink_release (codes : List ℕ) {r : Receiver B} (h : OfSink I r) :
    wp (release codes) r (fun _ => OfSink I) (fun _ => OfSink I) := by
  rw [release, wp_bind, wp_modify, wp_bind, wp_get, wp_bind]
  refine wp_mono (sink_releaseCodes hI _ _ h) (fun res r' h' => ?_) fun _ _ => id
  cases res <;> exact h'

/-- The cleanup keeps it. -/
theorem sink_releaseWithTouchpads (codes : List ℕ) {r : Receiver B} (h : OfSink I r) :
    wp (releaseWithTouchpads codes) r (fun _ => OfSink I) (fun _ => OfSink I) := by
  have hpads : ∀ (keys : Result Unit) (r' : Receiver B), OfSink I r' →
      wp (do let pads ← attempt (call InputSink.resetTouchpads); check keys; check pads) r'
        (fun _ => OfSink I) (fun _ => OfSink I) := by
    intro keys r' h'
    rw [wp_bind, wp_attempt]
    refine wp_mono (sink_call hI.resetTouchpads h') (fun _ r'' h'' => ?_) fun _ r'' h'' => ?_ <;>
      simp only [wp_bind, wp_check] <;>
        exact ⟨fun _ _ => ⟨fun _ _ => h'', fun _ _ => h''⟩, fun _ _ => h''⟩
  rw [releaseWithTouchpads, wp_bind, wp_attempt]
  exact wp_mono (sink_release hI codes h) (fun _ r' => hpads _ r') fun _ r' => hpads _ r'

/-- A stop keeps it. -/
theorem sink_stop (reason : StopReason) {r : Receiver B} (h : OfSink I r) :
    wp (stop reason) r (fun _ => OfSink I) (fun _ => OfSink I) := by
  rw [stop, wp_bind, wp_get, wp_bind, wp_set]
  exact sink_releaseWithTouchpads hI _ h

/-- A change of a lock keeps it. -/
theorem sink_lockChanged (effects : StopEffects) (state : ControlState) {r : Receiver B}
    (h : OfSink I r) :
    wp (lockChanged effects state) r (fun _ => OfSink I) (fun _ => OfSink I) := by
  rw [lockChanged, wp_bind, wp_get, wp_ite]
  refine ⟨fun _ => ?_, fun _ => ?_⟩ <;> rw [wp_bind, wp_set]
  · exact sink_releaseWithTouchpads hI _ h
  · exact sink_release hI _ h

/-- An input keeps it. -/
theorem sink_input (session sequence : ℕ) (event : InputEvent) {r : Receiver B} (h : OfSink I r) :
    wp (input session sequence event) r (fun _ => OfSink I) (fun _ => OfSink I) := by
  rw [input, wp_bind, wp_get, wp_ite]
  refine ⟨fun _ => h, fun _ => ?_⟩
  rw [wp_ite]
  refine ⟨fun _ => wp_bind.mpr (sink_stop hI _ h), fun _ => ?_⟩
  cases event.validate with
  | error e => exact wp_bind.mpr (sink_stop hI _ h)
  | ok =>
      simp only [wp_ite]
      refine ⟨fun _ => wp_bind.mpr (sink_stop hI _ h), fun _ => ?_⟩
      rw [wp_bind, wp_set, wp_bind, wp_attempt]
      refine wp_mono (sink_call hI.emit h) (fun _ r' h' => ?_) fun e r' h' => ?_
      · rw [wp_bind, wp_modify]
        exact h'
      · rw [wp_bind, wp_attempt]
        exact wp_mono (sink_stop hI _ h') (fun _ _ => id) fun _ _ => id

/-- **Every call of the receiver keeps what every call of its backend keeps.** -/
theorem sink_run_call (call : Call) {r : Receiver B} (h : OfSink I r) :
    wp call.run r (fun _ => OfSink I) (fun _ => OfSink I) := by
  cases call with
  | «begin» session =>
      rw [Call.run]
      refine wp_map.mpr ?_
      rw [«begin», wp_bind, wp_check]
      refine ⟨fun _ _ => ?_, fun _ _ => h⟩
      rw [wp_bind, wp_get, wp_bind, wp_check]
      refine ⟨fun _ _ => ?_, fun _ _ => h⟩
      rcases r.state.start .receiving with ⟨started, state⟩
      simp only [wp_ite]
      exact ⟨fun _ => h, fun _ => h⟩
  | input session sequence event => exact wp_map.mpr (sink_input hI session sequence event h)
  | «end» session =>
      rw [Call.run, Receiver.end, wp_bind, wp_get, wp_ite]
      exact ⟨fun _ => sink_stop hI _ h, fun _ => h⟩
  | stop reason => exact sink_stop hI reason h
  | localLock locked =>
      rw [Call.run, Receiver.localLock, wp_bind, wp_get]
      exact sink_lockChanged hI _ _ h
  | peerLock locked =>
      rw [Call.run, Receiver.peerLock, wp_bind, wp_get]
      exact sink_lockChanged hI _ _ h
  | physicalActivity =>
      rw [Call.run, Receiver.physicalActivity, wp_bind, wp_get]
      cases r.state.receiverPhysicalActivity with
      | none => exact h
      | some change => exact sink_releaseWithTouchpads hI _ h
  | position event =>
      rw [Call.run, Receiver.position, wp_bind, wp_check]
      refine ⟨fun _ _ => ?_, fun _ _ => h⟩
      rw [wp_bind, wp_check]
      exact ⟨fun _ _ => sink_call hI.emit h, fun _ _ => h⟩
  | positionOn output event =>
      rw [Call.run, Receiver.positionOn, wp_bind, wp_get, wp_bind, wp_check]
      refine ⟨fun _ _ => ?_, fun _ _ => h⟩
      rw [wp_bind, wp_check]
      refine ⟨fun _ _ => ?_, fun _ _ => h⟩
      rw [wp_bind, wp_check]
      refine ⟨fun _ _ => ?_, fun _ _ => h⟩
      rw [wp_bind]
      exact wp_mono (sink_call hI.selectOutput h) (fun _ _ h' => sink_call hI.emit h') fun _ _ => id
  | poll => exact sink_call hI.poll h
  | configureTouchpads devices =>
      rw [Call.run, Receiver.configureTouchpads, wp_bind, wp_get, wp_bind, wp_check]
      exact ⟨fun _ _ => sink_call hI.configureTouchpads h, fun _ _ => h⟩

/-- The invariant of a backend holds after any calls. -/
theorem sink_run {sink : B} (h : I sink) (calls : List Call) :
    I (Run.run next (new sink) calls).sink :=
  Run.run_invariant_of_step (I := OfSink I) (fun _ call h => next_of_wp (sink_run_call hI call h)) h

end SinkInvariant

/-! ### The cleanup -/

section Cleanup

variable {P K : Type} [InputSink P] [InputSink K]

/-- The touchpads of a receiver on a desktop. -/
def touchpads (r : Receiver (Tapped (Hybrid P K))) : List Hybrid.Pad := r.sink.sink.touchpads

/-- The pads of a backend are sound. -/
def PadsSound (b : Tapped (Hybrid P K)) : Prop := ∀ p ∈ b.sink.touchpads, p.Sound

/-- Pads that are created are sound. -/
theorem sound_createPads {descriptors : List Descriptor}
    {devices rest : ℕ → Result (ℕ → Hybrid.Answer)} {pads : List Hybrid.Pad}
    (h : Hybrid.createPads devices descriptors = (.ok pads, rest)) :
    ∀ p ∈ pads, p.Sound := by
  induction descriptors generalizing devices pads rest with
  | nil =>
      cases h
      simp
  | cons d ds ih =>
      rw [Hybrid.createPads] at h
      split at h
      · cases h
      · rename_i hd
        split at h
        · cases h
        · rename_i answers _
          rcases hrest : Hybrid.createPads (fun n => devices (n + 1)) ds with ⟨result, rest'⟩
          simp only [hrest, Prod.mk.injEq, bind_eq_ok] at h
          obtain ⟨⟨pads', rfl, h⟩, -⟩ := h
          obtain rfl := Except.ok.inj h
          exact List.forall_mem_cons.mpr ⟨Hybrid.Pad.sound_create hd answers, ih hrest⟩

theorem padsSound_invariant : SinkInvariant (PadsSound (P := P) (K := K)) where
  poll h := h
  selectOutput h := h
  emit {event b} h := by
    cases event with
    | touchpad device timeUs events =>
        intro p hp
        change p ∈ (Hybrid.emit (.touchpad device timeUs events) b.sink).2.touchpads at hp
        rw [Hybrid.emit] at hp
        split at hp
        · exact h p hp
        · rename_i q hq
          rcases List.mem_or_eq_of_mem_set hp with hp | rfl
          · exact h p hp
          · exact (h q (List.mem_of_getElem? hq)).emitRemote events timeUs
    | _ => exact h
  configureTouchpads {devices b} h := by
    intro p hp
    change p ∈ (Hybrid.configureTouchpads devices b.sink).2.touchpads at hp
    rw [Hybrid.configureTouchpads] at hp
    split at hp
    · split at hp
      · rename_i pads _ hcreate
        exact sound_createPads hcreate p hp
      · exact h p hp
    · exact h p hp
  resetTouchpads {b} h := Hybrid.sound_resetPads h

/-- Releasing a key or button leaves the touchpads alone. -/
theorem touchpads_release (codes : List ℕ) (r : Receiver (Tapped (Hybrid P K))) :
    wp (release codes) r (fun _ r' => touchpads r' = touchpads r)
      (fun _ r' => touchpads r' = touchpads r) := by
  have hemit : ∀ (code : ℕ) (b : Tapped (Hybrid P K)),
      (InputSink.emit (.release code) b).2.sink.touchpads = b.sink.touchpads := by
    intro code b
    unfold InputEvent.release
    split_ifs <;> rfl
  have hcodes : ∀ codes first (r' : Receiver (Tapped (Hybrid P K))), touchpads r' = touchpads r →
      wp (releaseCodes codes first) r' (fun _ r'' => touchpads r'' = touchpads r)
        (fun _ _ => False) := by
    intro codes
    induction codes with
    | nil => exact fun _ _ h => h
    | cons code codes ih =>
        intro first r' h
        rw [releaseCodes, wp_bind, wp_attempt]
        have hnext : ∀ x b, InputSink.emit (.release code) r'.sink = (x, b) →
            b.sink.touchpads = touchpads r := by
          intro x b hb
          obtain rfl := congrArg Prod.snd hb
          exact (hemit code r'.sink).trans h
        refine wp_call (fun b hb => ?_) fun e b hb => ih _ _ (hnext _ b hb)
        rw [wp_bind, wp_modify]
        exact ih _ _ (hnext _ b hb)
  rw [release, wp_bind, wp_modify, wp_bind, wp_get, wp_bind]
  refine wp_mono (hcodes _ _ _ rfl) (fun res r' h' => ?_) fun _ _ => False.elim
  cases res <;> exact h'

/-- The cleanup resets the pads. -/
theorem touchpads_releaseWithTouchpads (codes : List ℕ) (r : Receiver (Tapped (Hybrid P K))) :
    let Q := fun r' => touchpads r' = (Hybrid.resetPads (touchpads r)).2
    wp (releaseWithTouchpads codes) r (fun _ => Q) (fun _ => Q) := by
  intro Q
  have hpads : ∀ (keys : Result Unit) (r' : Receiver (Tapped (Hybrid P K))),
    touchpads r' = touchpads r →
      wp (do let pads ← attempt (call InputSink.resetTouchpads); check keys; check pads) r'
        (fun _ => Q) (fun _ => Q) := by
    intro keys r' h'
    have hreset : ∀ x b, InputSink.resetTouchpads r'.sink = (x, b) →
        b.sink.touchpads = (Hybrid.resetPads (touchpads r)).2 := by
      intro x b hb
      obtain rfl := congrArg Prod.snd hb
      exact congrArg (fun pads => (Hybrid.resetPads pads).2) h'
    rw [wp_bind, wp_attempt]
    refine wp_call (fun b hb => ?_) fun e b hb => ?_ <;> simp only [wp_bind, wp_check] <;>
      exact ⟨fun _ _ => ⟨fun _ _ => hreset _ b hb, fun _ _ => hreset _ b hb⟩,
        fun _ _ => hreset _ b hb⟩
  rw [releaseWithTouchpads, wp_bind, wp_attempt]
  exact wp_mono (touchpads_release codes r) (fun _ r' => hpads _ r') fun _ r' => hpads _ r'

/-- The calls that end a session, and those that find it ended and clean up once more. -/
def Cleans {B : Type} (r : Receiver B) : Call → Prop
  | .stop _ => True
  | .end session => r.session = some session
  | .localLock locked => (r.state.localLockChanged locked).2.mode ≠ .receiving
  | .peerLock locked => (r.state.peerLockChanged locked).2.mode ≠ .receiving
  | .physicalActivity => r.state.mode = .receiving
  | _ => False

/-- What such a call does: every key held or pending is released, and the touchpads are reset. -/
def CleanedUp (r r' : Receiver (Tapped (Hybrid P K))) : Prop :=
  touchpads r' = (Hybrid.resetPads (touchpads r)).2 ∧ ∃ events, Emits events r r' ∧
    ∀ code, code ∈ r.state.held.keys ∨ code ∈ r.pendingReleases → .release code ∈ events

/-- The cleanup leaves a receiver cleaned up. -/
theorem cleanedUp_releaseWithTouchpads {codes : List ℕ} {r r₁ : Receiver (Tapped (Hybrid P K))}
    (hsink : r₁.sink = r.sink) (hpending : r₁.pendingReleases = r.pendingReleases)
    (hcodes : ∀ code ∈ r.state.held.keys, code ∈ codes) :
    wp (releaseWithTouchpads codes) r₁ (fun _ => CleanedUp r) (fun _ => CleanedUp r) := by
  have hcleaned : ∀ r', touchpads r' = (Hybrid.resetPads (touchpads r₁)).2 ∧
      Emits (releaseEvents r₁ codes) r₁ r' → CleanedUp r r' := by
    rintro r' ⟨hpads, hemits⟩
    refine ⟨by rw [hpads, touchpads, touchpads, hsink], releaseEvents r₁ codes,
      by rw [Emits, ← hsink]; exact hemits, fun code hcode => ?_⟩
    refine List.mem_map.mpr ⟨code, SortedSet.mem_extend.mpr ?_, rfl⟩
    rw [hpending]
    exact hcode.imp_left (hcodes code)
  exact wp_mono (wp_and (touchpads_releaseWithTouchpads codes r₁)
    (emits_releaseWithTouchpads codes r₁))
    (fun _ => hcleaned) fun _ => hcleaned

/-- A change of a lock that ends the session leaves it so. -/
theorem cleanedUp_lockChanged {change : StopEffects × ControlState}
    {r : Receiver (Tapped (Hybrid P K))} (hmode : change.2.mode ≠ .receiving)
    (hcodes : ∀ code ∈ r.state.held.keys, code ∈ change.1.releaseCodes) :
    wp (lockChanged change.1 change.2) r (fun _ => CleanedUp r) (fun _ => CleanedUp r) := by
  rw [lockChanged, wp_bind, wp_get, wp_ite]
  refine ⟨fun _ => ?_, fun h => absurd (not_not.mp h) hmode⟩
  rw [wp_bind, wp_set]
  exact cleanedUp_releaseWithTouchpads rfl rfl hcodes

/-- A lock notification releases what is held, if it says anything new; if it does not and the
receiver is not receiving, nothing is held. -/
theorem held_of_change {B : Type} {r : Receiver B} (state : ControlState) (h : Inv r)
    {change : StopEffects × ControlState} {unchanged : Prop} [Decidable unchanged]
    (hchange : change = if unchanged then (ControlState.noEffects, r.state) else state.stop .locked)
    (hheld : state.held = r.state.held) (hmode : change.2.mode ≠ .receiving) :
    ∀ code ∈ r.state.held.keys, code ∈ change.1.releaseCodes := by
  intro code hcode
  subst hchange
  split_ifs at hmode ⊢
  · have hidle : r.session = none := by simpa using mt h.receiving_iff.mpr hmode
    rw [h.idle hidle] at hcode
    exact absurd hcode (SortedSet.not_mem_empty code)
  · rw [← hheld] at hcode
    exact hcode

/-- A call that cleans leaves it so. -/
theorem cleanedUp_call {call : Call} {r : Receiver (Tapped (Hybrid P K))} (h : Inv r)
    (hc : Cleans r call) : wp call.run r (fun _ => CleanedUp r) (fun _ => CleanedUp r) := by
  have hstop : ∀ reason, wp (stop reason) r (fun _ => CleanedUp r) (fun _ => CleanedUp r) := by
    intro reason
    rw [stop, wp_bind, wp_get, wp_bind, wp_set]
    exact cleanedUp_releaseWithTouchpads rfl rfl fun _ => id
  cases call with
  | stop reason => exact hstop reason
  | «end» session =>
      rw [Call.run, Receiver.end, wp_bind, wp_get, wp_ite]
      exact ⟨fun _ => hstop _, fun hno => absurd hc hno⟩
  | localLock locked =>
      rw [Call.run, Receiver.localLock, wp_bind, wp_get]
      exact cleanedUp_lockChanged hc
        (held_of_change { r.state with localLocked := locked } h rfl rfl hc)
  | peerLock locked =>
      rw [Call.run, Receiver.peerLock, wp_bind, wp_get]
      exact cleanedUp_lockChanged hc
        (held_of_change { r.state with peerLocked := locked } h rfl rfl hc)
  | physicalActivity =>
      have hact : r.state.receiverPhysicalActivity = some (r.state.stop .localTakeover) := if_pos hc
      rw [Call.run, Receiver.physicalActivity, wp_bind, wp_get]
      simp only [hact]
      rw [wp_bind, wp_set]
      exact cleanedUp_releaseWithTouchpads rfl rfl fun _ => id
  | _ => exact hc.elim

/-- **When the touchpads are cleaned.**  After every sequence of calls of a receiver on a desktop,
with any answers of the kernel, a call that ends the session or cleans up once more asks for the
release of every key that is held or pending.  Every touchpad whose device takes the write is clean
afterwards if and only if each of them was clean already, or is reached in time, knows of every key
pressed at its device, and stands behind no touchpad whose reset fails. -/
theorem touchpads_cleaned_iff (pointer : P) (keyboard : K)
    (devices : ℕ → Result (ℕ → Hybrid.Answer)) (calls : List Call) {call : Call} :
    let r :=
      Run.run next (new (⟨.connect pointer keyboard devices, []⟩ : Tapped (Hybrid P K))) calls
    Cleans r call →
      (∃ events, Emits events r (next r call) ∧ ∀ code,
        code ∈ r.state.held.keys ∨ code ∈ r.pendingReleases → .release code ∈ events) ∧
      (Hybrid.AllCleaned (touchpads r) (touchpads (next r call)) ↔
        ∀ (i : ℕ) (p : Hybrid.Pad), (touchpads r)[i]? = some p → p.Accepts →
          p.Clean ∨ (p.Timely ∧ p.Known ∧ Hybrid.Reached (touchpads r) i)) := by
  intro r hc
  have hsound : ∀ p ∈ touchpads r, p.Sound :=
    sink_run padsSound_invariant (fun _ hp => absurd hp List.not_mem_nil) calls
  obtain ⟨hpads, hevents⟩ : CleanedUp r (next r call) :=
    next_of_wp (cleanedUp_call (inv_run _ calls) hc)
  rw [hpads]
  exact ⟨hevents, Hybrid.allCleaned_resetPads hsound⟩

end Cleanup

/-! A desktop with touchpads of two slots, the pointer and the keyboard being scripted. -/

namespace Desk

/-- An axis without fuzz. -/
def axis (code : ℕ) (minimum maximum : ℤ) : AxisInfo := ⟨code, minimum, maximum, 0, 0, 0⟩

/-- A touchpad of two slots. -/
def descriptor : Descriptor where
  keys := [TOUCH, 325, 272]
  properties := [0]
  axes := [axis 0 0 1000, axis 1 0 500, axis SLOT 0 1, axis 53 0 1000, axis 54 0 500,
    axis TRACKING (-1) 65535]

/-- A kernel that takes every write in time, or none. -/
def answers (accepts : Bool) (_ : ℕ) : Hybrid.Answer :=
  ⟨⟨100, 100, if accepts then .ok () else .error ["write failed"]⟩, false⟩

/-- The devices are made in this order. -/
def devices (accepts : List Bool) (n : ℕ) : Result (ℕ → Hybrid.Answer) :=
  .ok (answers (accepts.getD n true))

/-- One finger on the pad, and its button pressed. -/
def touch : List Touchpad.Event := [.abs TRACKING 5, .key TOUCH 1, .key 272 1]

/-- As many pads as there are answers, the last of which is touched in session 1. -/
def touched (accepts : List Bool) : List Call :=
  [.configureTouchpads (accepts.map fun _ => descriptor), .begin 1,
    .input 1 0 (.touchpad (accepts.length - 1) 100 touch)]

/-- A receiver that is not connected yet, with a kernel that takes these writes. -/
def start (accepts : List Bool) : Tapped (Hybrid Scripted Scripted) :=
  ⟨.connect ⟨∅, []⟩ ⟨∅, []⟩ (devices accepts), []⟩

end Desk

theorem touchpads_cleaned_iff_desk :
    let r := Run.run next (new (Desk.start [true, true])) (Desk.touched [true, true])
    Hybrid.AllCleaned (touchpads r) (touchpads (next r (.stop .returned))) := by
  intro r
  have hpads : ∀ (i : ℕ) (p : Hybrid.Pad), (touchpads r)[i]? = some p →
      p.Resets ∧ p.device.state.keys = p.pad.state.keys := by
    intro i p hi
    rcases i with _ | _ | i
    · exact Option.some.inj hi ▸ ⟨⟨rfl, by decide⟩, rfl⟩
    · exact Option.some.inj hi ▸ ⟨⟨rfl, by decide⟩, rfl⟩
    · cases hi
  have hcleaned : Cleans r (.stop .returned) := trivial
  refine (touchpads_cleaned_iff _ _ _ (Desk.touched [true, true]) hcleaned).2.mpr fun i p hi _ => ?_
  obtain ⟨⟨-, htimely⟩, hkeys⟩ := hpads i p hi
  exact .inr ⟨htimely, fun code hcode => .inr (hkeys ▸ hcode), fun j _ q hj => (hpads j q hj).1⟩

/-- **A failing pad hides the ones behind it.** -/
theorem failing_touchpad_hides_the_next :
    let r := Run.run next (new (Desk.start [false, true])) (Desk.touched [false, true])
    ¬ Hybrid.AllCleaned (touchpads r) (touchpads (next r (.stop .returned))) := by
  intro r h
  exact (h 1 _ _ rfl rfl rfl).contacts 0 (by decide)

end Receiver

end NiriBridge
