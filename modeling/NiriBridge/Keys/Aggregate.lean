import NiriBridge.Model.Input
import NiriBridge.Support.Presses
import NiriBridge.Support.Run
import Mathlib.Data.List.Induction

/-!
# Keys — Aggregate

The physical keyboards of the source as one.  `Call` is an operation on `PhysicalKeys`, and `holds`
says what the calls so far mean: a device holds a key if the last of them about it was a press.

* `Follows.next`: a call keeps the queue, with what was drained before, a log of the union.
* `keys_aggregate`: so after every sequence of calls.
-/

namespace NiriBridge.PhysicalKeys

/-! ### One device and all devices -/

/-- The keys of one device. -/
def keysOf (devices : SortedMap ℕ (SortedSet ℕ)) (device : ℕ) : SortedSet ℕ :=
  (devices.get? device).getD ∅

/-- The keys that a keyboard holds. -/
theorem mem_keysOf {devices : SortedMap ℕ (SortedSet ℕ)} {device code : ℕ} :
    code ∈ keysOf devices device ↔ ∃ keys, devices.get? device = some keys ∧ code ∈ keys := by
  unfold keysOf
  cases devices.get? device with
  | none => simp
  | some keys => simp

/-- Only the keyboard that is written changes. -/
theorem keysOf_insert (devices : SortedMap ℕ (SortedSet ℕ)) (device d : ℕ) (keys : SortedSet ℕ) :
    keysOf (devices.insert device keys) d = if d = device then keys else keysOf devices d := by
  unfold keysOf
  rw [SortedMap.get?_insert]
  split_ifs <;> rfl

/-- Only the keyboard that is gone holds nothing any more. -/
theorem keysOf_erase (devices : SortedMap ℕ (SortedSet ℕ)) (device d : ℕ) :
    keysOf (devices.erase device) d = if d = device then ∅ else keysOf devices d := by
  unfold keysOf
  rw [SortedMap.get?_erase]
  split_ifs <;> rfl

/-- A key is held when some keyboard holds it. -/
theorem anyHolds_iff {devices : SortedMap ℕ (SortedSet ℕ)} {code : ℕ} :
    anyHolds devices code = true ↔ ∃ device, code ∈ keysOf devices device := by
  simp only [anyHolds, List.any_eq_true, decide_eq_true_eq, mem_keysOf]
  constructor
  · rintro ⟨⟨device, keys⟩, hmem, hcode⟩
    exact ⟨device, keys, SortedMap.mem_toList.mp hmem, hcode⟩
  · rintro ⟨device, keys, hget, hcode⟩
    exact ⟨(device, keys), SortedMap.mem_toList.mpr hget, hcode⟩

/-- The aggregate holds what some keyboard holds. -/
theorem mem_held {k : PhysicalKeys} {code : ℕ} :
    code ∈ k.held ↔ ∃ device, code ∈ keysOf k.devices device := by
  rw [held, SortedSet.mem_ofList, List.mem_flatMap, ← anyHolds_iff, anyHolds, List.any_eq_true]
  simp only [decide_eq_true_eq, SortedSet.mem_def]

/-! ### The log -/

/-- The presses and releases among events. -/
def presses (events : List InputEvent) : List (ℕ × Bool) :=
  events.filterMap fun e => match e with
    | .key code pressed => some (code, pressed)
    | _ => none

theorem presses_append (events events' : List InputEvent) :
    presses (events ++ events') = presses events ++ presses events' := List.filterMap_append

/-- An event of a keyboard. -/
def IsKey (e : InputEvent) : Prop := ∃ code pressed, e = .key code pressed ∧ 1 ≤ code ∧ code ≤ 255

/-- The events are those of the keyboards, and tell what all of them hold. -/
structure Tells (events : List InputEvent) (k : PhysicalKeys) : Prop where
  keys : ∀ e ∈ events, IsKey e
  tells : Presses.Tells (presses events) fun code => ∃ device, code ∈ keysOf k.devices device

variable {k k' : PhysicalKeys} {device code : ℕ} {pressed : Bool} {log : List InputEvent}

/-- What is not a key of a keyboard is ignored. -/
theorem update_of_not_key (h : ¬ (1 ≤ code ∧ code ≤ 255)) : k.update device code pressed = .ok k :=
  if_neg h

/-- An update, with the union before and after it. -/
theorem update_cases (h : k.update device code pressed = .ok k') (hcode : 1 ≤ code ∧ code ≤ 255) :
    k'.devices = k.devices.insert device (if pressed then (keysOf k.devices device).insert code
        else (keysOf k.devices device).erase code) ∧
      ((anyHolds k.devices code = anyHolds k'.devices code ∧ k'.pending = k.pending) ∨
        (anyHolds k.devices code ≠ anyHolds k'.devices code ∧
          k'.pending = k.pending ++ [.key code (anyHolds k'.devices code)])) := by
  rw [update, if_pos hcode] at h
  dsimp only at h
  generalize hdevices : k.devices.insert device _ = devices at h
  split at h
  case isTrue heq =>
    cases h
    exact ⟨hdevices.symm, .inl ⟨heq, rfl⟩⟩
  case isFalse hne =>
    simp only [bind_eq_ok] at h
    obtain ⟨-, -, h⟩ := h
    cases h
    exact ⟨hdevices.symm, .inr ⟨hne, rfl⟩⟩

/-- A transition is about one key of one keyboard. -/
theorem mem_keysOf_update (h : k.update device code pressed = .ok k')
    (hcode : 1 ≤ code ∧ code ≤ 255) (d c : ℕ) : c ∈ keysOf k'.devices d ↔
      if d = device ∧ c = code then pressed = true else c ∈ keysOf k.devices d := by
  rw [(update_cases h hcode).1, keysOf_insert]
  by_cases hd : d = device
  · subst hd
    cases pressed <;> by_cases hc : c = code <;> simp [hc]
  · simp [hd]

/-- **One update**: the queue tells of a change of the union. -/
theorem Tells.update (htells : Tells (log ++ k.pending) k)
    (h : k.update device code pressed = .ok k') :
    Tells (log ++ k'.pending) k' := by
  by_cases hcode : 1 ≤ code ∧ code ≤ 255
  swap
  · cases (update_of_not_key hcode).symm.trans h
    exact htells
  have hmem := mem_keysOf_update h hcode
  have hother : ∀ c, c ≠ code →
      ((∃ d, c ∈ keysOf k'.devices d) ↔ ∃ d, c ∈ keysOf k.devices d) := by
    intro c hc
    simp only [hmem, hc, and_false, if_false]
  obtain ⟨-, ⟨heq, hpending⟩ | ⟨hne, hpending⟩⟩ := update_cases h hcode
  · refine ⟨hpending ▸ htells.keys, hpending ▸ htells.tells.congr fun c => ?_⟩
    by_cases hc : c = code
    · rw [hc, ← anyHolds_iff, ← anyHolds_iff, heq]
    · exact hother c hc
  · rw [hpending, ← List.append_assoc]
    refine ⟨fun e he => ?_, ?_⟩
    · rcases List.mem_append.mp he with he | he
      · exact htells.keys e he
      · exact ⟨code, _, List.mem_singleton.mp he, hcode⟩
    · rw [presses_append]
      refine htells.tells.push ?_ fun c => ?_
      · rw [← anyHolds_iff, Bool.coe_iff_coe]
        exact hne
      · split_ifs with hc
        · rw [hc, ← anyHolds_iff]
        · exact hother c hc

/-- The loop of `disconnect` releases the keys of one keyboard, and tells those that nobody else
holds. -/
theorem disconnectCodes_spec {codes : List ℕ} (h : k.disconnectCodes device codes = .ok k') :
    (∀ log, Tells (log ++ k.pending) k → Tells (log ++ k'.pending) k') ∧
      ∀ d c, c ∈ keysOf k'.devices d ↔
        c ∈ keysOf k.devices d ∧ ¬ (d = device ∧ c ∈ codes ∧ 1 ≤ c ∧ c ≤ 255) := by
  induction codes generalizing k with
  | nil =>
      cases h
      exact ⟨fun _ => id, fun d c => by simp⟩
  | cons code codes ih =>
      simp only [disconnectCodes, bind_eq_ok] at h
      obtain ⟨k₁, h₁, h⟩ := h
      obtain ⟨htells, hmem⟩ := ih h
      refine ⟨fun log ht => htells log (ht.update h₁), fun d c => ?_⟩
      rw [hmem, List.mem_cons]
      by_cases hcode : 1 ≤ code ∧ code ≤ 255
      · rw [mem_keysOf_update h₁ hcode]
        by_cases hdc : d = device ∧ c = code
        · simp [hdc, hcode]
        · rw [if_neg hdc]
          tauto
      · cases (update_of_not_key hcode).symm.trans h₁
        by_cases hc : c = code
        · rw [hc]
          tauto
        · tauto

/-- Every key a device holds is a key of a keyboard. -/
def InRange (k : PhysicalKeys) : Prop :=
  ∀ device code, code ∈ keysOf k.devices device → 1 ≤ code ∧ code ≤ 255

/-- **A device goes**: what it held alone is released. -/
theorem disconnect_spec (hr : k.InRange) (h : k.disconnect device = .ok k') :
    (∀ log, Tells (log ++ k.pending) k → Tells (log ++ k'.pending) k') ∧
      ∀ d c, c ∈ keysOf k'.devices d ↔ d ≠ device ∧ c ∈ keysOf k.devices d := by
  simp only [disconnect, bind_eq_ok] at h
  obtain ⟨k₁, h₁, h⟩ := h
  cases h
  obtain ⟨htells, hmem⟩ := disconnectCodes_spec h₁
  have hfree : ∀ c, c ∉ keysOf k₁.devices device := by
    intro c hc
    obtain ⟨hheld, hnot⟩ := (hmem device c).mp hc
    exact hnot ⟨rfl, hheld, hr device c hheld⟩
  have hsame : ∀ d c, c ∈ keysOf (k₁.devices.erase device) d ↔ c ∈ keysOf k₁.devices d := by
    intro d c
    rw [keysOf_erase]
    split_ifs with hd
    · exact iff_of_false (SortedSet.not_mem_empty c) (hd ▸ hfree c)
    · exact Iff.rfl
  refine ⟨fun log ht => ⟨(htells log ht).keys, (htells log ht).tells.congr fun c => ?_⟩,
    fun d c => ?_⟩
  · exact exists_congr fun d => hsame d c
  · rw [hsame, hmem]
    by_cases hd : d = device
    · subst hd
      exact iff_of_false (fun h => h.2 ⟨rfl, h.1, hr d c h.1⟩) fun h => h.1 rfl
    · simp [hd]

/-! ### Sequences of calls -/

/-- The calls of the aggregate. -/
inductive Call where
  | update (device code : ℕ) (pressed : Bool)
  | disconnect (device : ℕ)
  | drain
deriving DecidableEq

/-- The call, with the events drained so far.  Nothing follows a queue that was full. -/
def next (s : Result (PhysicalKeys × List InputEvent)) (call : Call) :
    Result (PhysicalKeys × List InputEvent) := do
  let (k, log) ← s
  match call with
  | .update device code pressed => do
      let k ← k.update device code pressed
      return (k, log)
  | .disconnect device => do
      let k ← k.disconnect device
      return (k, log)
  | .drain =>
      let (events, k) := k.drain
      return (k, log ++ events)

/-- What a call means for a key of a device. -/
def hold (device code : ℕ) (held : Bool) : Call → Bool
  | .update d c pressed => if d = device ∧ c = code ∧ 1 ≤ code ∧ code ≤ 255 then pressed else held
  | .disconnect d => if d = device then false else held
  | .drain => held

/-- The device holds the key after the calls. -/
def holds (calls : List Call) (device code : ℕ) : Bool := calls.foldl (hold device code) false

/-- What a keyboard holds after one more call. -/
theorem holds_concat (calls : List Call) (call : Call) (device code : ℕ) :
    holds (calls ++ [call]) device code = hold device code (holds calls device code) call := by
  rw [holds, List.foldl_append]
  rfl

/-- Only keys of a keyboard are held. -/
theorem range_of_holds {calls : List Call} (h : holds calls device code = true) :
    1 ≤ code ∧ code ≤ 255 := by
  induction calls using List.reverseRecOn with
  | nil => cases h
  | append_singleton calls call ih =>
      rw [holds_concat] at h
      cases call with
      | update d c pressed =>
          rw [hold] at h
          split_ifs at h with hcode
          · exact hcode.2.2
          · exact ih h
      | disconnect d =>
          rw [hold] at h
          split_ifs at h
          exact ih h
      | drain => exact ih h

/-- **What the keys are after the calls.** -/
structure Follows (calls : List Call) (k : PhysicalKeys) (log : List InputEvent) : Prop where
  devices : ∀ device code, code ∈ keysOf k.devices device ↔ holds calls device code = true
  tells : Tells (log ++ k.pending) k

theorem Follows.inRange {calls : List Call} (h : Follows calls k log) : k.InRange :=
  fun device code hcode => range_of_holds ((h.devices device code).mp hcode)

theorem follows_nil : Follows [] default [] where
  devices _ code := iff_of_false (SortedSet.not_mem_empty code) (by rintro ⟨⟩)
  tells := ⟨by intros; contradiction, Presses.tells_nil.congr fun code =>
    iff_of_false (fun ⟨_, h⟩ => SortedSet.not_mem_empty code h) id⟩

/-- A call keeps the relation with the calls. -/
theorem Follows.next {calls : List Call} {call : Call} {log' : List InputEvent}
    (hf : Follows calls k log) (h : next (.ok (k, log)) call = .ok (k', log')) :
    Follows (calls ++ [call]) k' log' := by
  simp only [PhysicalKeys.next, bind_eq_ok] at h
  obtain ⟨_, ⟨⟩, h⟩ := h
  cases call with
  | update device code pressed =>
      simp only [bind_eq_ok] at h
      obtain ⟨k₁, h₁, h⟩ := h
      cases h
      refine ⟨fun d c => ?_, hf.tells.update h₁⟩
      rw [holds_concat, hold]
      -- codes of no keyboard key are ignored
      by_cases hcode : 1 ≤ code ∧ code ≤ 255
      · rw [mem_keysOf_update h₁ hcode]
        by_cases hdc : d = device ∧ c = code
        · obtain ⟨rfl, rfl⟩ := hdc
          simp [hcode]
        · rw [if_neg hdc, if_neg fun hand => hdc ⟨hand.1.symm, hand.2.1.symm⟩]
          exact hf.devices d c
      · cases (update_of_not_key hcode).symm.trans h₁
        rw [if_neg (by rintro ⟨-, rfl, hrange⟩; exact hcode hrange)]
        exact hf.devices d c
  | disconnect device =>
      simp only [bind_eq_ok] at h
      obtain ⟨k₁, h₁, h⟩ := h
      cases h
      obtain ⟨htells, hmem⟩ := disconnect_spec hf.inRange h₁
      refine ⟨fun d c => ?_, htells log hf.tells⟩
      rw [hmem, holds_concat, hold, hf.devices]
      by_cases hd : d = device
      · simp [hd]
      · simp [hd, Ne.symm hd]
  | drain =>
      cases h
      refine ⟨fun d c => ?_, ?_⟩
      · rw [holds_concat]
        exact hf.devices d c
      · have hnil : log ++ k.pending ++ [] = log ++ k.pending := List.append_nil _
        exact ⟨hnil.symm ▸ hf.tells.keys, hnil.symm ▸ hf.tells.tells⟩

/-- The aggregate follows its calls. -/
theorem follows_run {calls : List Call}
    (h : Run.run next (.ok (default, [])) calls = .ok (k, log)) :
    Follows calls k log := by
  induction calls using List.reverseRecOn generalizing k log with
  | nil =>
      cases h
      exact follows_nil
  | append_singleton calls call ih =>
      rw [Run.run_append, Run.run_cons, Run.run_nil] at h
      cases hbefore : Run.run next (.ok (default, [])) calls with
      | error e =>
          rw [hbefore] at h
          cases h
      | ok s =>
          rw [hbefore] at h
          exact (ih hbefore).next h

/-- **The keyboards as one.**  After any calls that did not overflow the queue, what was drained and
is pending tells of each key in turn a press and a release, and last a press exactly if some device
holds the key, as `held` has it; other codes change nothing. -/
theorem keys_aggregate {calls : List Call} {k : PhysicalKeys} {log : List InputEvent}
    (h : Run.run next (.ok (default, [])) calls = .ok (k, log)) :
    (∀ e ∈ log ++ k.pending, IsKey e) ∧
      (∀ code,
        Presses.Alternates false (Presses.of code (presses (log ++ k.pending))) ∧
        ((Presses.of code (presses (log ++ k.pending))).getLast? = some true ↔
          ∃ device, holds calls device code = true) ∧
        (code ∈ k.held ↔ ∃ device, holds calls device code = true)) ∧
      ∀ device code pressed, ¬ (1 ≤ code ∧ code ≤ 255) → k.update device code pressed = .ok k := by
  have hf := follows_run h
  have hheld : ∀ code, (∃ device, code ∈ keysOf k.devices device) ↔
      ∃ device, holds calls device code = true :=
    fun code => exists_congr fun device => hf.devices device code
  refine ⟨hf.tells.keys, fun code => ⟨hf.tells.tells.alternates code, ?_, ?_⟩,
    fun device code pressed hcode => update_of_not_key hcode⟩
  · exact (hf.tells.tells.last code).trans (hheld code)
  · exact mem_held.trans (hheld code)

/-- Two keyboards hold a key, one of them goes, and the other releases it. -/
theorem keys_aggregate_overlapping :
    Presses.Alternates false (Presses.of 42 [(42, true), (42, false), (30, true)]) := by
  have hrun : Run.run next (.ok (default, [])) [.update 0 42 true, .update 1 42 true,
    .disconnect 0, .drain,
      .update 1 42 false, .update 1 30 true] =
    .ok (⟨.ofList [(1, .ofList [30])], [.key 42 false, .key 30 true]⟩, [.key 42 true]) := by
    decide
  exact ((keys_aggregate hrun).2.1 42).1

end NiriBridge.PhysicalKeys
