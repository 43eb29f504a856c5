import NiriBridge.Model.Hybrid
import NiriBridge.Support.Run

/-!
# Touch — Clock

The times a virtual touchpad writes, over its life.  `RemoteClock` keeps the smallest difference of
the two clocks it has seen and the last time it gave; the pad keeps the last time it wrote, also
over a reset.

* `Inv.next`: the times never decrease and are never in the future.
* `intervals_kept`: what the remote clock does not have to correct is written as the source timed
  it.
* `call_prompt`: with clocks that differ by a constant no prompt frame is late.
-/

namespace NiriBridge

open Touchpad

/-! ### The remote clock -/

namespace Touchpad.RemoteClock

/-- The smallest difference of the clocks, with one more observation. -/
def offsetAfter (c : RemoteClock) (source now : ℕ) : ℤ :=
  match c.offset with
  | some previous => min previous ((now : ℤ) - (source : ℤ))
  | none => (now : ℤ) - (source : ℤ)

/-- The local time of a frame before it is corrected. -/
def aligned (c : RemoteClock) (source now : ℕ) : ℤ := source + c.offsetAfter source now

/-- A frame is never aligned past the current time. -/
theorem aligned_le (c : RemoteClock) (source now : ℕ) : c.aligned source now ≤ now := by
  have hle : c.offsetAfter source now ≤ (now : ℤ) - source := by
    cases hoffset : c.offset with
    | none => simp [offsetAfter, hoffset]
    | some previous => simp [offsetAfter, hoffset]
  rw [aligned]
  omega

/-- The mapped time is the aligned one, no earlier than the last and no later than now. -/
theorem map_eq (c : RemoteClock) (source now : ℕ) :
    c.map source now =
      ({ offset := some (c.offsetAfter source now)
         last := min (max (max (c.aligned source now) 1).toNat c.last) now },
        min (max (max (c.aligned source now) 1).toNat c.last) now) := by
  cases hoffset : c.offset <;> simp [map, offsetAfter, aligned, hoffset]

/-- The clock keeps the smaller offset. -/
theorem map_fst (c : RemoteClock) (source now : ℕ) :
    (c.map source now).1.offset = some (c.offsetAfter source now) := by
  rw [map_eq]

/-- A mapped time is not in the future. -/
theorem map_le (c : RemoteClock) (source now : ℕ) : (c.map source now).2 ≤ now := by
  rw [map_eq]
  exact min_le_right ..

/-- Nothing but the end of time keeps a frame from its place. -/
theorem le_map {c : RemoteClock} {source now : ℕ} {t : ℤ} (h : t ≤ c.aligned source now) :
    t ≤ (c.map source now).2 := by
  have hle := c.aligned_le source now
  rw [map_eq]
  simp only [Nat.cast_min, Nat.cast_max]
  omega

/-- A frame that neither bound corrects. -/
theorem map_of_free {c : RemoteClock} {source now : ℕ} (hpos : 1 ≤ c.aligned source now)
    (hlast : (c.last : ℤ) ≤ c.aligned source now) :
    ((c.map source now).2 : ℤ) = c.aligned source now := by
  have hle := c.aligned_le source now
  rw [map_eq]
  simp only [Nat.cast_min, Nat.cast_max]
  omega

/-- Every observation is at least `δ`. -/
def Above (δ : ℤ) (c : RemoteClock) : Prop := ∀ offset ∈ c.offset, δ ≤ offset

/-- A frame seen no earlier than `δ` after it was captured keeps the offset above `δ`. -/
theorem Above.offsetAfter {δ : ℤ} {c : RemoteClock} (h : c.Above δ) {source now : ℕ}
    (hseen : source + δ ≤ now) : δ ≤ c.offsetAfter source now := by
  unfold RemoteClock.offsetAfter
  cases hoffset : c.offset with
  | none => exact by simp only; omega
  | some previous => exact le_min (h previous hoffset) (by omega)

end Touchpad.RemoteClock

namespace Hybrid

/-! ### Calls -/

/-- What a virtual touchpad is asked to do. -/
inductive Pad.Call where
  | emit (events : List Event)
  | emitRemote (events : List Event) (source : ℕ)
  | reset

/-- What a call does to a pad. -/
def Pad.call : Pad.Call → Pad → Result Unit × Pad
  | .emit events => Pad.emit events
  | .emitRemote events source => Pad.emitRemote events source
  | .reset => Pad.reset

/-- The frame that a call writes. -/
def Pad.Call.frame (p : Pad) : Pad.Call → List Event
  | .emit events | .emitRemote events _ => events
  | .reset => p.pad.state.releases

/-- The clock goes on, within a call and from one to the next. -/
def Device.Steady (device : Device) : Prop :=
  ∀ n, (device.answers n).tick.asked ≤ (device.answers n).tick.now ∧
    (device.answers n).tick.now ≤ (device.answers (n + 1)).tick.asked

/-- A device whose clock has been asked is still steady. -/
theorem Device.Steady.asked {device device' : Device} (h : device.Steady)
    (hd : device'.answers = device.asked.answers) : device'.Steady := by
  intro n
  rw [hd]
  exact h (n + 1)

namespace Pad

/-- What `emit_at` answers. -/
theorem emitAt_fst (events : List Event) (time : ℕ) (p : Pad) :
    (p.emitAt events time).1 = (do
      p.pad.descriptor.validateFrame events
      ensure (time ≤ p.device.answer.tick.now ∧ p.device.answer.tick.now - time ≤ 200000)
        "Touchpad input became too delayed; restoring local control"
      p.device.answer.tick.write) := by
  rw [emitAt, VirtualTouchpad.emitAt]
  cases p.pad.descriptor.validateFrame events with
  | error e => rfl
  | ok u =>
      cases hin :
        ensure (time ≤ p.device.answer.tick.now ∧ p.device.answer.tick.now - time ≤ 200000)
          "Touchpad input became too delayed; restoring local control" with
      | error e => simp only [bind, Except.bind]
      | ok u =>
          simp only [bind, Except.bind, pure, Except.pure]
          cases p.device.answer.tick.write <;> rfl

/-- A write uses up one answer of the kernel, whatever comes of it. -/
theorem emitAt_answers (events : List Event) (time : ℕ) (p : Pad) :
    (p.emitAt events time).2.device.answers = p.device.asked.answers := by
  rw [emitAt]
  split
  · rfl
  · split
    · rfl
    · dsimp only
      split_ifs <;> rfl

/-- A frame that is written moves the time of the pad; any other leaves the pad. -/
theorem emitAt_pad (events : List Event) (time : ℕ) (p : Pad) :
    (p.emitAt events time).2.pad =
      if (p.emitAt events time).1 = .ok () then
        { p.pad with
          lastTime := min (max time p.pad.lastTime) p.device.answer.tick.now
          state := p.pad.state.apply events }
      else p.pad := by
  rw [emitAt]
  cases hemit : p.pad.emitAt { p.device.answer.tick with write := .ok () } events time with
  | error e => exact (if_neg (by simp)).symm
  | ok pad =>
      obtain ⟨_, -, h⟩ := bind_eq_ok.mp hemit
      obtain ⟨_, -, h⟩ := bind_eq_ok.mp h
      obtain ⟨_, -, h⟩ := bind_eq_ok.mp h
      obtain rfl := Except.ok.inj h
      cases p.device.answer.tick.write with
      | ok u => exact (if_pos rfl).symm
      | error e => exact (if_neg (by simp)).symm

/-! ### A call -/

/-- The time a call asks for: its own, or what the remote clock makes of the source's. -/
def Call.time (p : Pad) : Call → ℕ
  | .emit _ | .reset => p.device.answer.tick.asked
  | .emitRemote _ source => (p.pad.remoteClock.map source p.device.answer.tick.asked).2

/-- The pad when the frame is checked; an observation is kept whatever becomes of its frame. -/
def Call.before (p : Pad) : Call → Pad
  | .emit _ | .reset => p
  | .emitRemote _ source =>
      { p with pad := { p.pad with
          remoteClock := (p.pad.remoteClock.map source p.device.answer.tick.asked).1 } }

/-- A call returns what the write at its time returns. -/
theorem call_fst (c : Call) (p : Pad) :
    (p.call c).1 = ((c.before p).emitAt (c.frame p) (c.time p)).1 := by
  cases c with
  | emit | emitRemote => rfl
  | reset =>
      change (p.reset).1 = (p.emit p.pad.state.releases).1
      rw [reset]
      cases p.emit p.pad.state.releases with
      | mk result p' => cases result <;> rfl

/-- A call uses up one answer of the kernel. -/
theorem call_answers (c : Call)
    (p : Pad) : (p.call c).2.device.answers = p.device.asked.answers := by
  cases c with
  | emit | emitRemote => exact emitAt_answers ..
  | reset =>
      change (p.reset).2.device.answers = _
      have h := emitAt_answers p.pad.state.releases p.device.answer.tick.asked p
      rw [reset]
      change (p.emit p.pad.state.releases).2.device.answers = _ at h
      cases hrun : p.emit p.pad.state.releases with
      | mk result p' =>
          rw [hrun] at h
          cases result <;> exact h

/-- Only a frame that is written moves the time of the pad. -/
theorem call_lastTime (c : Call) (p : Pad) :
    (p.call c).2.pad.lastTime =
      if (p.call c).1 = .ok () then min (max (c.time p) p.pad.lastTime) p.device.answer.tick.now
      else p.pad.lastTime := by
  have h := congrArg VirtualTouchpad.lastTime (emitAt_pad (c.frame p) (c.time p) (c.before p))
  rw [← call_fst] at h
  have hlast : (c.before p).pad.lastTime = p.pad.lastTime ∧ (c.before p).device = p.device := by
    cases c <;> exact ⟨rfl, rfl⟩
  have hsame : (p.call c).2.pad.lastTime =
      ((c.before p).emitAt (c.frame p) (c.time p)).2.pad.lastTime := by
    cases c with
    | emit | emitRemote => rfl
    | reset =>
        change (p.reset).2.pad.lastTime = (p.emit p.pad.state.releases).2.pad.lastTime
        rw [reset]
        cases p.emit p.pad.state.releases with
        | mk result p' => cases result <;> rfl
  rw [hsame, h]
  split_ifs with hok
  · rw [hlast.1, hlast.2]
  · exact hlast.1

/-- The remote clock after a call: with the new observation, or without any. -/
theorem call_remoteClock (c : Call) (p : Pad) :
    (p.call c).2.pad.remoteClock = (c.before p).pad.remoteClock ∨
      (p.call c).2.pad.remoteClock = {} := by
  have hkeep : ((c.before p).emitAt (c.frame p) (c.time p)).2.pad.remoteClock =
      (c.before p).pad.remoteClock := by
    rw [emitAt_pad]
    split_ifs <;> rfl
  cases c with
  | emit | emitRemote => exact .inl hkeep
  | reset =>
      change (p.emit p.pad.state.releases).2.pad.remoteClock = p.pad.remoteClock at hkeep
      change (p.reset).2.pad.remoteClock = p.pad.remoteClock ∨ (p.reset).2.pad.remoteClock = {}
      rw [reset]
      cases hrun : p.emit p.pad.state.releases with
      | mk result p' =>
          rw [hrun] at hkeep
          cases result with
          | error e => exact .inl hkeep
          | ok u => exact .inr rfl

end Pad

/-! ### The life of a pad -/

/-- A pad with the times of the frames it has written, each with the clock at its write. -/
structure Life where
  pad : Pad
  written : List (ℕ × ℕ)

namespace Life

/-- A call, and when a frame was written. -/
def next (l : Life) (c : Pad.Call) : Life where
  pad := (l.pad.call c).2
  written :=
    if (l.pad.call c).1 = .ok () then
      l.written ++ [((l.pad.call c).2.pad.lastTime, l.pad.device.answer.tick.now)]
    else l.written

/-- A pad that has just been created. -/
def start (d : Descriptor) (answers : ℕ → Answer) : Life := ⟨.create d answers, []⟩

/-- What has been written is in order, and nothing is ahead of the pad or of the clock. -/
structure Inv (l : Life) : Prop where
  steady : l.pad.device.Steady
  past : l.pad.pad.lastTime ≤ l.pad.device.answer.tick.asked
  below : ∀ w ∈ l.written, w.1 ≤ l.pad.pad.lastTime
  sorted : l.written.Pairwise fun w w' => w.1 ≤ w'.1
  present : ∀ w ∈ l.written, w.1 ≤ w.2

/-- A pad starts with nothing written. -/
theorem inv_start (d : Descriptor) {answers : ℕ → Answer}
    (h : ∀ n, (answers n).tick.asked ≤ (answers n).tick.now ∧
      (answers n).tick.now ≤ (answers (n + 1)).tick.asked) : (start d answers).Inv :=
  ⟨h, Nat.zero_le _, by intros; contradiction, .nil, by intros; contradiction⟩

/-- Every call keeps the life of the pad in order. -/
theorem Inv.next {l : Life} (h : l.Inv) (c : Pad.Call) : (l.next c).Inv := by
  have hanswers := Pad.call_answers c l.pad
  have hlast := Pad.call_lastTime c l.pad
  have hclock : l.pad.device.answer.tick.asked ≤ l.pad.device.answer.tick.now ∧
      l.pad.device.answer.tick.now ≤ (l.pad.device.answers 1).tick.asked := h.steady 0
  have hask : (l.pad.call c).2.device.answer = l.pad.device.answers 1 := congrFun hanswers 0
  have hsteady := h.steady.asked hanswers
  by_cases hok : (l.pad.call c).1 = .ok ()
  · -- a frame is written no earlier than the last one, and no later than now
    rw [if_pos hok] at hlast
    have hge : l.pad.pad.lastTime ≤ (l.pad.call c).2.pad.lastTime := by
      rw [hlast]
      exact le_min (le_max_right ..) (h.past.trans hclock.1)
    have hnow : (l.pad.call c).2.pad.lastTime ≤ l.pad.device.answer.tick.now :=
      hlast ▸ min_le_right ..
    have hwritten : (l.next c).written =
        l.written ++ [((l.pad.call c).2.pad.lastTime, l.pad.device.answer.tick.now)] := if_pos hok
    refine ⟨hsteady, ?_, fun w hw => ?_, ?_, fun w hw => ?_⟩
    · change (l.pad.call c).2.pad.lastTime ≤ (l.pad.call c).2.device.answer.tick.asked
      rw [hask]
      exact hnow.trans hclock.2
    · rw [hwritten] at hw
      rcases List.mem_append.mp hw with hw | hw
      · exact (h.below w hw).trans hge
      · obtain rfl := List.mem_singleton.mp hw
        exact le_rfl
    · rw [hwritten, List.pairwise_append]
      refine ⟨h.sorted, List.pairwise_singleton .., fun w hw w' hw' => ?_⟩
      obtain rfl := List.mem_singleton.mp hw'
      exact (h.below w hw).trans hge
    · rw [hwritten] at hw
      rcases List.mem_append.mp hw with hw | hw
      · exact h.present w hw
      · obtain rfl := List.mem_singleton.mp hw
        exact hnow
  · -- nothing is written
    rw [if_neg hok] at hlast
    have hwritten : (l.next c).written = l.written := if_neg hok
    refine ⟨hsteady, ?_,
      fun w hw => ?_, hwritten ▸ h.sorted, fun w hw => h.present w (hwritten ▸ hw)⟩
    · change (l.pad.call c).2.pad.lastTime ≤ (l.pad.call c).2.device.answer.tick.asked
      rw [hask, hlast]
      exact h.past.trans (hclock.1.trans hclock.2)
    · change w.1 ≤ (l.pad.call c).2.pad.lastTime
      rw [hlast]
      exact h.below w (hwritten ▸ hw)

/-! ### Prompt frames -/

/-- The clock of the source differs from the local one by `δ`, and the frame is written at most 200
ms after it was captured; the frames of this device itself are captured when they are asked for. -/
def Prompt (δ : ℤ) (l : Life) : Pad.Call → Prop
  | .emitRemote _ source => source + δ ≤ l.pad.device.answer.tick.asked ∧
      l.pad.device.answer.tick.now ≤ source + δ + 200000
  | .emit _ | .reset => l.pad.device.answer.tick.now ≤ l.pad.device.answer.tick.asked + 200000

/-- Prompt frames keep the offset above the delay they have in common. -/
theorem above_next {δ : ℤ} {l : Life} (h : l.pad.pad.remoteClock.Above δ) {c : Pad.Call}
    (hp : l.Prompt δ c) : (l.next c).pad.pad.remoteClock.Above δ := by
  change (l.pad.call c).2.pad.remoteClock.Above δ
  rcases Pad.call_remoteClock c l.pad with hclock | hclock
  · rw [hclock]
    cases c with
    | emit | reset => exact h
    | emitRemote events source =>
        intro offset hoffset
        change offset ∈ (l.pad.pad.remoteClock.map source l.pad.device.answer.tick.asked).1.offset
          at hoffset
        rw [RemoteClock.map_fst] at hoffset
        obtain rfl := Option.mem_some_iff.mp hoffset
        exact h.offsetAfter hp.1
  · rw [hclock]
    exact fun _ hoffset => absurd hoffset (by simp)

/-- A prompt frame is in time: it is refused only as a frame, or by the kernel. -/
theorem call_prompt {δ : ℤ} {l : Life} (h : l.pad.pad.remoteClock.Above δ)
    (hsteady : l.pad.device.Steady) {c : Pad.Call} (hp : l.Prompt δ c) :
    (l.pad.call c).1 = (do
      l.pad.pad.descriptor.validateFrame (c.frame l.pad)
      l.pad.device.answer.tick.write) := by
  have hclock := (hsteady 0).1
  change l.pad.device.answer.tick.asked ≤ l.pad.device.answer.tick.now at hclock
  have htime : c.time l.pad ≤ l.pad.device.answer.tick.now ∧
      l.pad.device.answer.tick.now - c.time l.pad ≤ 200000 := by
    cases c with
    | emit | reset =>
        simp only [Prompt] at hp
        simp only [Pad.Call.time]
        omega
    | emitRemote events source =>
        have hle := l.pad.pad.remoteClock.map_le source l.pad.device.answer.tick.asked
        have hoffset := h.offsetAfter hp.1
        have hge : (source : ℤ) + δ ≤
            (l.pad.pad.remoteClock.map source l.pad.device.answer.tick.asked).2 :=
          RemoteClock.le_map (by rw [RemoteClock.aligned]; omega)
        have hnow := hp.2
        simp only [Pad.Call.time]
        omega
  rw [Pad.call_fst, Pad.emitAt_fst]
  have hsame : (c.before l.pad).pad.descriptor = l.pad.pad.descriptor ∧
      (c.before l.pad).device = l.pad.device := by
    cases c <;> exact ⟨rfl, rfl⟩
  have hin : ensure (c.time l.pad ≤ l.pad.device.answer.tick.now ∧
      l.pad.device.answer.tick.now - c.time l.pad ≤ 200000)
      "Touchpad input became too delayed; restoring local control" = .ok () :=
        ensure_eq_ok.mpr htime
  rw [hsame.1, hsame.2, hin]
  rfl

/-! ### Intervals -/

/-- Neither the beginning of time nor an earlier frame keeps the frame from its place. -/
structure Free (l : Life) (source : ℕ) : Prop where
  positive : 1 ≤ l.pad.pad.remoteClock.aligned source l.pad.device.answer.tick.asked
  mapped : (l.pad.pad.remoteClock.last : ℤ) ≤
    l.pad.pad.remoteClock.aligned source l.pad.device.answer.tick.asked
  written : (l.pad.pad.lastTime : ℤ) ≤
    l.pad.pad.remoteClock.aligned source l.pad.device.answer.tick.asked

/-- A frame that is free is written at its place. -/
theorem Free.lastTime {l : Life} {events : List Event} {source : ℕ} (h : l.Free source)
    (hsteady : l.pad.device.Steady) (hok : (l.pad.call (.emitRemote events source)).1 = .ok ()) :
    ((l.pad.call (.emitRemote events source)).2.pad.lastTime : ℤ) =
      l.pad.pad.remoteClock.aligned source l.pad.device.answer.tick.asked := by
  have hclock := (hsteady 0).1
  change l.pad.device.answer.tick.asked ≤ l.pad.device.answer.tick.now at hclock
  have htime := RemoteClock.map_of_free h.positive h.mapped
  have hle := l.pad.pad.remoteClock.map_le source l.pad.device.answer.tick.asked
  have hwritten := h.written
  rw [Pad.call_lastTime, if_pos hok, Pad.Call.time]
  omega

/-- The smallest offset after a remote frame. -/
theorem next_offset (l : Life) (events : List Event) (source : ℕ) :
    (l.next (.emitRemote events source)).pad.pad.remoteClock.offset =
      some (l.pad.pad.remoteClock.offsetAfter source l.pad.device.answer.tick.asked) := by
  change (l.pad.emitRemote events source).2.pad.remoteClock.offset = _
  rw [Pad.emitRemote, Pad.emitAt_pad]
  dsimp only
  split_ifs
  · exact RemoteClock.map_fst ..
  · exact RemoteClock.map_fst ..

/-- A call records at most one time, and only if it succeeds. -/
theorem next_written {l : Life} {c : Pad.Call} :
    (l.next c).written = l.written ∨ (l.pad.call c).1 = .ok () ∧
      (l.next c).written =
        l.written ++ [((l.pad.call c).2.pad.lastTime, l.pad.device.answer.tick.now)] := by
  by_cases hok : (l.pad.call c).1 = .ok ()
  · exact .inr ⟨hok, if_pos hok⟩
  · exact .inl (if_neg hok)

/-- Two calls that have written two frames have written one each. -/
theorem written_both {l : Life} {c c' : Pad.Call} {w w' : ℕ × ℕ}
    (h : ((l.next c).next c').written = l.written ++ [w, w']) :
    ((l.pad.call c).1 = .ok () ∧ w.1 = (l.pad.call c).2.pad.lastTime) ∧
      ((l.next c).pad.call c').1 = .ok () ∧ w'.1 = ((l.next c).pad.call c').2.pad.lastTime := by
  rcases next_written (l := l) (c := c) with h₁ | ⟨hok, h₁⟩
  · rcases next_written (l := l.next c) (c := c') with h₂ | ⟨-, h₂⟩
    · rw [h₂, h₁] at h
      simp at h
    · rw [h₂, h₁] at h
      simp at h
  · rcases next_written (l := l.next c) (c := c') with h₂ | ⟨hok', h₂⟩
    · rw [h₂, h₁] at h
      simp at h
    · rw [h₂, h₁, List.append_assoc, List.append_cancel_left_eq] at h
      simp only [List.singleton_append, List.cons.injEq, and_true] at h
      exact ⟨⟨hok, by rw [← h.1]⟩, hok', by rw [← h.2]⟩

/-- Frames that are not corrected are as far apart as at the source. -/
theorem intervals_kept {l : Life} (h : l.Inv) {events events' : List Event} {source source' : ℕ}
    {w w' : ℕ × ℕ}
    (hwritten : ((l.next (.emitRemote events source)).next (.emitRemote events' source')).written =
      l.written ++ [w, w'])
    (hoffset : ((l.next (.emitRemote events source)).next
        (.emitRemote events' source')).pad.pad.remoteClock.offset =
      (l.next (.emitRemote events source)).pad.pad.remoteClock.offset)
    (hfree : l.Free source) (hfree' : (l.next (.emitRemote events source)).Free source') :
    (w'.1 : ℤ) - w.1 = source' - source := by
  obtain ⟨⟨hok, hw⟩, hok', hw'⟩ := written_both hwritten
  have hfirst := hfree.lastTime h.steady hok
  have hsecond := hfree'.lastTime (h.next _).steady hok'
  rw [next_offset, next_offset] at hoffset
  have hsame := Option.some.inj hoffset
  rw [hw, hw', hfirst, hsecond, RemoteClock.aligned, RemoteClock.aligned, hsame]
  ring

/-! ### Every life -/

/-- **The times of a virtual touchpad**: over every life, with resets and frames that fail, they
never decrease and are never in the future; consecutive frames that are not corrected keep the
source's interval; and with clocks that differ by a constant no prompt frame is refused as too
delayed. -/
theorem remote_clock (d : Descriptor) {answers : ℕ → Answer}
    (hsteady : ∀ n, (answers n).tick.asked ≤ (answers n).tick.now ∧
      (answers n).tick.now ≤ (answers (n + 1)).tick.asked) (calls : List Pad.Call) :
    let l := Run.run next (start d answers) calls
    (l.written.Pairwise (fun w w' => w.1 ≤ w'.1) ∧ ∀ w ∈ l.written, w.1 ≤ w.2) ∧
    (∀ events source events' source' w w',
      ((l.next (.emitRemote events source)).next (.emitRemote events' source')).written =
          l.written ++ [w, w'] →
        ((l.next (.emitRemote events source)).next
            (.emitRemote events' source')).pad.pad.remoteClock.offset =
          (l.next (.emitRemote events source)).pad.pad.remoteClock.offset →
        l.Free source → (l.next (.emitRemote events source)).Free source' →
          (w'.1 : ℤ) - w.1 = source' - source) ∧
    ∀ δ, Run.Along next (Prompt δ) (start d answers) calls → ∀ c, l.Prompt δ c →
      (l.pad.call c).1 = (do
        l.pad.pad.descriptor.validateFrame (c.frame l.pad)
        l.pad.device.answer.tick.write) := by
  intro l
  have hinv : l.Inv :=
    Run.run_invariant_of_step (I := Inv) (fun _ c h => h.next c) (inv_start d hsteady)
  refine ⟨⟨hinv.sorted, hinv.present⟩, fun _ _ _ _ _ _ hwritten hoffset hfree hfree' =>
    intervals_kept hinv hwritten hoffset hfree hfree', fun δ halong c hp => ?_⟩
  have habove : l.pad.pad.remoteClock.Above δ :=
    Run.run_invariant (I := fun l => l.pad.pad.remoteClock.Above δ) (P := Prompt δ)
      (fun _ _ h hp => above_next h hp) (fun _ hoffset => nomatch hoffset) halong
  exact call_prompt habove hinv.steady hp

section Sample

/-- Frames of 8 ms that arrive in bursts. -/
def sampleArrivals : List ℕ := [2000000, 2010000, 2018000, 2040000, 2040000]

/-- Every write succeeds, at the arrival of its frame. -/
def sampleAnswers (n : ℕ) : Answer :=
  ⟨⟨sampleArrivals.getD n 2040000, sampleArrivals.getD n 2040000, .ok ()⟩, false⟩

/-- A touchpad of two slots. -/
def samplePad : Descriptor where
  keys := [TOUCH, 325]
  properties := [0]
  axes := [⟨0, 0, 1000, 0, 0, 0⟩, ⟨1, 0, 500, 0, 0, 0⟩, ⟨SLOT, 0, 1, 0, 0, 0⟩,
    ⟨53, 0, 1000, 0, 0, 0⟩, ⟨54, 0, 500, 0, 0, 0⟩, ⟨TRACKING, -1, 65535, 0, 0, 0⟩]

/-- Five frames that the source has timed 8 ms apart. -/
def sampleCalls : List Pad.Call :=
  [100000, 108000, 116000, 124000, 132000].map (.emitRemote [.abs 0 5])

/-- The answers of the example do not go back in time. -/
theorem sampleAnswers_steady (n : ℕ) :
    (sampleAnswers n).tick.asked ≤ (sampleAnswers n).tick.now ∧
      (sampleAnswers n).tick.now ≤ (sampleAnswers (n + 1)).tick.asked := by
  refine ⟨le_rfl, ?_⟩
  rcases n with _ | _ | _ | _ | _ | n
  · decide
  · decide
  · decide
  · decide
  · decide
  · exact le_rfl

/-- The bursts are written 8 ms apart, and none is late. -/
theorem remote_clock_bursts :
    let l := Run.run next (start samplePad sampleAnswers) sampleCalls
    l.written.map Prod.fst = [2000000, 2008000, 2016000, 2024000, 2032000] ∧
      l.written.Pairwise fun w w' => w.1 ≤ w'.1 := by
  refine ⟨by decide, ?_⟩
  exact (remote_clock samplePad sampleAnswers_steady sampleCalls).1.1

end Sample

end Life

end Hybrid

end NiriBridge
