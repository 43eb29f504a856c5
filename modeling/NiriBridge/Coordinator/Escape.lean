import NiriBridge.Coordinator.Guard
import NiriBridge.Session.Devices

/-!
# Coordinator — Escape

The emergency chord over the runs of a device.  `Node.chord_ends_session` is for the runs in which
it is always Escape that completes the chord; `Node.chord_unnoticed` is a run in which it is not.
-/

namespace NiriBridge

open Hoare Session

variable {B T D : Type}

namespace Coordinator

theorem calm_open [InputSink B] (env : Env T) :
    Moves Calm («open» env : CoordinatorM ActivityMonitor B T Unit) := by
  have hprepare : Moves Calm (onActivity ActivitySource.prepareTouchpads :
      CoordinatorM ActivityMonitor B T (List Touchpad.Descriptor)) := by
    intro s
    rw [wp_onActivity]
    have hcalm :
        ∀ m : ActivityMonitor, m.keyboard = s.activity.keyboard → Calm s { s with activity := m } :=
      fun m hm => ⟨rfl, hm, id, fun hr => ⟨hr, rfl⟩, fun _ => id⟩
    exact wp_mono (ActivityMonitor.keeps_prepareTouchpads s.activity) (fun _ m => hcalm m)
      fun _ m => hcalm m
  refine .get_bind fun s =>
    (moves_calm (still_own _)).bind (fun _ => hprepare.bind fun touchpads => ?_) s
  refine .bind (.modify fun _ => ⟨rfl, rfl, id, fun hr => ⟨hr, rfl⟩, fun _ => id⟩) fun _ => ?_
  refine (moves_calm (still_onReceiver _)).bind fun _ =>
    (moves_calm (still_send rfl)).bind fun _ => ?_
  exact (moves_calm (still_send rfl)).bind fun _ =>
    (moves_calm (still_send rfl)).bind fun _ => calm_head env

end Coordinator

namespace Node

open Coordinator

variable [InputSink B] {F : Format T D} {env : Env T} {n : Node ActivityMonitor B T}

/-- What a device finds in one pass. -/
abbrev Input (T : Type) := (Coordinator.Event × Env T) × Option Frame

/-- It is Escape that completes the chord in this step, if the step completes it. -/
def EscapeCompletes (n : Node ActivityMonitor B T) (l : Input T) : Prop :=
  n.stopped = none → l.2 = none → Coordinator.Permitted n.coordinator l.1.1

/-- The device plays a party that numbers its sessions. -/
def Numbers (n : Node ActivityMonitor B T) : Prop := ∃ p, n.Plays p ∧ p.Numbered

/-- The invariant of the runs in which Escape completes the chord. -/
structure Watches (n : Node ActivityMonitor B T) : Prop where
  numbers : n.Numbers
  guarded : n.stopped = none → Guarded n.coordinator

omit [InputSink B] in
/-- A device that sends has found both desktops ready. -/
theorem Numbers.ready (h : n.Numbers) (hn : n.stopped = none)
    (hs : n.coordinator.role.isSending = true) :
    n.coordinator.localReady = true ∧ n.coordinator.peerReady = true := by
  obtain ⟨p, hplays, -⟩ := h
  have hrole : n.coordinator.role ≠ .local := by
    intro hr
    rw [hr] at hs
    cases hs
  have hrelated := (hplays.good.relations hn).related (hplays.good.receiver hn)
  exact ⟨(hrelated.active hrole).1, (hrelated.active hrole).2.1⟩

omit [InputSink B] in
theorem guarded_unsent {s : Watched B T} (h : Guarded s) : Guarded { s with outbox := [] } :=
  ⟨h.since, h.keys, h.pending, h.chord⟩

/-- A pass that keeps the guard keeps it when the outbox is sent. -/
theorem guarded_after {s : Watched B T} {m : CoordinatorM ActivityMonitor B T Unit}
    (h : wp m { s with outbox := [] } (fun _ => Guarded) fun _ _ => True) :
    (after F env m s).1.stopped = none → Guarded (after F env m s).1.coordinator := by
  intro hn
  rcases after_spec F env h with ⟨-, hguarded, -⟩ | ⟨stop, s', hstop, -⟩
  · exact hguarded
  · cases hn.symm.trans hstop

/-- The invariant holds when the device has connected. -/
theorem watches_opened (F : Format T D) (x : Setup ActivityMonitor B T)
    (hx : x.activity.keyboard = default) : (Devices.opened F x).1.Watches := by
  obtain ⟨p, hplays, hpass, -⟩ := Devices.opened_plays F x
  have hstranger : Devices.stranger.Numbered := by
    intro n hs
    cases hs
  refine ⟨⟨p, hplays, (hpass.numbered hstranger).1⟩, guarded_after ?_⟩
  have hnew :
      Guarded (Coordinator.new x.config x.desktop x.sink x.activity x.unlocked x.now x.files) :=
    guarded_of_not_sending ∅ (hx ▸ PhysicalKeys.since_default) rfl
  exact (guarded_unsent hnew).moves (calm_open x.env)

/-- A step keeps the numbers of the sessions. -/
theorem numbers_next (h : n.Numbers) (l : Input T) :
    (next F n l).Numbers := by
  obtain ⟨p, hplays, hnumbered⟩ := h
  rcases step_plays F hplays l.1 l.2 with ⟨-, q, hq, hpass, -⟩ | ⟨-, hstep⟩
  · exact ⟨q, hq, (hpass.numbered hnumbered).1⟩
  · rw [next, hstep]
    exact ⟨p, hplays, hnumbered⟩

/-- A step in which Escape completes the chord keeps the invariant. -/
theorem watches_next (h : n.Watches) (l : Input T)
    (hl : n.EscapeCompletes l) : (next F n l).Watches := by
  refine ⟨numbers_next h.numbers l, ?_⟩
  unfold next step
  cases hn : n.stopped with
  | some stop => exact fun hn' => absurd (hn.symm.trans hn') (by simp)
  | none =>
      exact guarded_after (pass_guarded (guarded_unsent (h.guarded hn))
        (h.numbers.ready hn) (hl hn))

/-- The signals of a step are those of its pass. -/
theorem signals_step {l : Input T} {Q E : Watched B T → Prop}
    (hn : n.stopped = none)
    (h : wp (pass F l.1.2 l.1.1 l.2) { n.coordinator with outbox := [] } (fun _ => Q) fun _ => E) :
    ((next F n l).stopped = none ∧ Q (next F n l).coordinator ∧
      (n.step F l.1 l.2).2 = (next F n l).coordinator.outbox) ∨
    ((next F n l).stopped ≠ none ∧ ∃ s', E s' ∧ (n.step F l.1 l.2).2 = s'.outbox) := by
  have hstep :
      n.step F l.1 l.2 = after F l.1.2 (pass F l.1.2 l.1.1 l.2) n.coordinator := by rw [step, hn]
  rw [next, hstep]
  rcases after_spec F l.1.2 h with ⟨hrun, hQ, hout⟩ | ⟨stop, s', hstop, hE, hout, -⟩
  · exact .inl ⟨hrun, hQ, hout⟩
  · exact .inr ⟨fun hn' => absurd (hn'.symm.trans hstop) (by simp), s', hE, hout⟩

/-- A session begins with a reading of the devices that finds no chord. -/
theorem step_begins (hn : n.stopped = none) (l : Input T) {session : ℕ}
    (h : .begin session ∈ signals (n.step F l.1 l.2).2) :
    ¬ Chord (sampledKeys n.coordinator.activity) := by
  have hbegins : ∀ {s' : Watched B T}, Begins { n.coordinator with outbox := [] } s' →
      .begin session ∈ signals s'.outbox → ¬ Chord (sampledKeys n.coordinator.activity) :=
    fun hb hmem => (hb session hmem).resolve_left List.not_mem_nil
  rcases signals_step hn (pass_begins l.1.1 l.2 _) with ⟨-, hb, hout⟩ | ⟨-, s', hb, hout⟩
  · exact hbegins hb (hout ▸ h)
  · exact hbegins hb (hout ▸ h)

/-! ### The session is over -/

/-- The device has had this session of its own. -/
def Done (session : ℕ) (n : Node ActivityMonitor B T) : Prop := ∃ p, n.Plays p ∧ p.Over session

variable {session : ℕ}

/-- A session that is over stays over, and nothing more is sent in it. -/
theorem done_next (h : n.Done session) (l : Input T) :
    (next F n l).Done session ∧
    ∀ k event, .input session k event ∉ signals (n.step F l.1 l.2).2 := by
  obtain ⟨p, hplays, hover⟩ := h
  rcases step_plays F hplays l.1 l.2 with ⟨-, q, hq, hpass, -⟩ | ⟨-, hstep⟩
  · exact ⟨⟨q, hq, (hover.pass hpass).1⟩, (hover.pass hpass).2⟩
  · rw [next, hstep]
    exact ⟨⟨p, hplays, hover⟩, fun _ _ => List.not_mem_nil⟩

/-- A session that is over has no more inputs, whatever happens. -/
theorem done_silent (h : n.Done session) (ls : List (Input T))
    (l : Input T) (k : ℕ) (event : InputEvent) :
    .input session k event ∉ signals ((Run.run (next F) n ls).step F l.1 l.2).2 := by
  have hstep : ∀ (n : Node ActivityMonitor B T) (l : Input T),
      n.Done session → (next F n l).Done session :=
    fun n l h => (done_next h l).1
  exact (done_next (Run.run_invariant_of_step hstep h) l).2 k event

/-- A session that the device sends is over when it is sent no more. -/
theorem done_of_left {k edge : ℕ} {fraction : ℚ} (h : n.Numbers) (hn : n.stopped = none)
    (hrole : n.coordinator.role = .sending session k edge fraction)
    (l : Input T)
    (hleft : (next F n l).stopped = none → (next F n l).coordinator.role = .local) :
    (next F n l).stopped = none → (next F n l).Done session := by
  intro hrun
  obtain ⟨p, hplays, hnumbered⟩ := h
  have hsends : p.sends = some session := by
    rw [hplays.running hn, Party.sends, Core.party, core, hrole]
    rfl
  rcases step_plays F hplays l.1 l.2 with ⟨-, q, hq, hpass, -⟩ | ⟨hstopped, -⟩
  · have hq' : (next F n l).Plays q := hq
    refine ⟨q, hq', Nat.lt_of_lt_of_le (hnumbered session hsends) (hpass.numbered hnumbered).2, ?_⟩
    rw [hq'.running hrun, Party.sends, Core.party, core, hleft hrun]
    rintro ⟨⟩
  · exact absurd hn hstopped

/-- A device that has stopped writes nothing. -/
theorem stopped_silent {n : Node ActivityMonitor B T} (hn : n.stopped ≠ none)
    (ls : List (Input T))
    (l : Input T) :
    ((Run.run (next F) n ls).step F l.1 l.2).2 = [] := by
  have hstays : (Run.run (next F) n ls).stopped ≠ none := by
    have hstep : ∀ (n : Node ActivityMonitor B T) (l : Input T), n.stopped ≠ none →
        (next F n l).stopped ≠ none := by
      intro n l hn
      unfold next step
      cases hs : n.stopped with
      | none => exact absurd hs hn
      | some stop => exact fun hn' => hn hn'
    exact Run.run_invariant_of_step hstep hn
  rw [step]
  cases hs : (Run.run (next F) n ls).stopped with
  | none => exact absurd hs hstays
  | some stop => rfl

/-- **The emergency chord.**  No session begins while the chord is held.  In a run in which it is
always Escape that completes the chord, a device that sends does not hold it; the step in which it
is completed sends what comes before it and the end of the session, and the session has no more
inputs. -/
theorem chord_ends_session (F : Format T D) (x : Setup ActivityMonitor B T)
    (hx : x.activity.keyboard = default) (ls : List (Input T)) :
    let start := (Devices.opened F x).1
    let n := Run.run (next F) start ls
    n.stopped = none →
      (∀ (l : Input T) session, .begin session ∈ signals (n.step F l.1 l.2).2 →
        ¬ Chord (sampledKeys n.coordinator.activity)) ∧
      (Run.Along (next F) EscapeCompletes start ls →
        (n.coordinator.role.isSending = true → ¬ Chord n.coordinator.activity.keyboard.held) ∧
        ∀ ready env session k edge fraction before e after,
          let l : Input T := ((.tick ready, env), none)
          n.EscapeCompletes l → n.coordinator.role = .sending session k edge fraction →
          transitions n.coordinator.activity = before ++ e :: after →
          Chordless n.coordinator.activity.keyboard.held before →
          Chord (keysAfter n.coordinator.activity.keyboard.held (before ++ [e])) →
            let ended := inputSignals session k before ++ [.end session true]
            signals (n.step F l.1 l.2).2 <+: ended ∧
            ((next F n l).stopped = none → (next F n l).coordinator.role = .local ∧
              signals (n.step F l.1 l.2).2 = ended) ∧
            ∀ ms (m : Input T) k event, .input session k event ∉
              signals ((Run.run (next F) (next F n l) ms).step F m.1 m.2).2) := by
  intro start n hn
  refine ⟨fun l session h => step_begins hn l h, fun halong => ?_⟩
  have hwatch : ∀ (n : Node ActivityMonitor B T) (l : Input T), n.Watches → n.EscapeCompletes l →
      (next F n l).Watches := fun n l h hl => watches_next h l hl
  have hwatches : n.Watches := Run.run_invariant hwatch (watches_opened F x hx) halong
  have hguarded := hwatches.guarded hn
  refine ⟨fun hs => ?_, ?_⟩
  · rw [← hguarded.keys hs]
    exact hguarded.chord hs
  intro ready env session k edge fraction before e after l hl hrole heq hquiet hchord ended
  have hs : n.coordinator.role.isSending = true := by
    rw [hrole]
    rfl
  have hkeys := hguarded.keys hs
  obtain rfl := hl hn rfl ready rfl hs before e after heq hquiet hchord
  rw [← hkeys] at hquiet hchord
  -- a device that sends reads its devices, so the transitions are forwarded
  have hready := hwatches.numbers.ready hn hs
  have hstep := signals_step (F := F) (l := l) hn
    (pass_chord (guarded_unsent hguarded) hrole hready heq hquiet hchord)
  -- the session is left unless the loop fails on the way
  have hleft : (next F n l).stopped = none → (next F n l).coordinator.role = .local ∧
      signals (n.step F l.1 l.2).2 = ended := by
    intro hrun
    rcases hstep with ⟨-, ⟨hlocal, hsignals⟩, hout⟩ | ⟨hstopped, -⟩
    · exact ⟨hlocal, hout ▸ hsignals⟩
    · exact absurd hrun hstopped
  refine ⟨?_, hleft, fun ms m k event => ?_⟩
  · rcases hstep with ⟨hrun, -⟩ | ⟨-, s', hs', hout⟩
    · exact (hleft hrun).2 ▸ List.prefix_rfl
    · exact hout ▸ hs'
  · by_cases hrun : (next F n l).stopped = none
    · exact done_silent (done_of_left hwatches.numbers hn hrole l
        (fun h => (hleft h).1) hrun) ms m k event
    · rw [stopped_silent hrun ms m]
      exact List.not_mem_nil

end Node

/-! ### A sample device that types -/

namespace Sample

/-- A keyboard on which these keys are found pressed at the first tick of a session. -/
def typing (codes : List ℕ) (call : ℕ) : DeviceReading :=
  if call = 6 then ⟨.open [], .events (codes.map fun code => ⟨1, code, 1, 0⟩)⟩ else absent

/-- A device whose keyboard types the codes, one in each pass. -/
def typist (codes : List ℕ) : Setup ActivityMonitor Sink Unit :=
  ⟨config .top, desktop .top, ⟨⟩, monitor (typing codes), true, 0, files, env 0⟩

/-- A tick without a message. -/
def tick : Label := ((.tick (.ok ()), env 0), none)

end Sample

namespace Node

open Coordinator Sample

/-- Escape completes the chord: of Control, Alt, Shift and Escape the peer sees the first three. -/
theorem chord_ends_session_escape :
    let n := Run.run (next format) (Devices.opened format (typist [29, 56, 42, 1])).1
      (greeting .bottom ++ [crossing 1])
    let sent := signals (n.step format tick.1 tick.2).2
    sent = [.input 1 0 (.key 29 true), .input 1 1 (.key 56 true), .input 1 2 (.key 42 true),
      .end 1 true] ∧ ∀ ms (m : Input Unit) k event, .input 1 k event ∉
        signals ((Run.run (next format) (next format n tick) ms).step format m.1 m.2).2 := by
  intro n sent
  have hrunning : n.stopped.isNone = true := by decide +kernel
  have hgreeting : ∀ n : Node ActivityMonitor Sink Unit,
      Run.Along (next format) EscapeCompletes n (greeting .bottom) := fun n =>
    ⟨fun _ => nofun, fun _ => nofun, fun _ => nofun, trivial⟩
  have hcrossing : ∀ n : Node ActivityMonitor Sink Unit, n.EscapeCompletes (crossing 1) :=
    fun n _ _ _ => nofun
  have halong :
    Run.Along (next format) EscapeCompletes (Devices.opened format (typist [29, 56, 42, 1])).1
      (greeting .bottom ++ [crossing 1]) :=
    Run.along_append.mpr ⟨hgreeting _, hcrossing _, trivial⟩
  have hrun : (next format n tick).stopped.isNone = true := by decide +kernel
  have h :=
    chord_ends_session format (typist [29, 56, 42, 1]) rfl (greeting .bottom ++ [crossing 1])
    (Option.isNone_iff_eq_none.mp hrunning)
  have hstep := (h.2 halong).2 (.ok ()) (env 0) 1 0 0 (1 / 2) [.key 29 true,
    .key 56 true, .key 42 true]
    (.key 1 true) [] (fun _ _ _ _ _ => by decide +kernel) (by decide +kernel) (by decide +kernel)
    (by decide +kernel) (by decide +kernel)
  exact ⟨(hstep.2.1 (Option.isNone_iff_eq_none.mp hrun)).2, hstep.2.2⟩

/-- **Escape is held first**: with Control, Alt and Shift pressed after it the session goes on. -/
theorem chord_unnoticed :
    let n := Run.run (next format) (Devices.opened format (typist [1, 29, 56, 42])).1
      (greeting .bottom ++ [crossing 1, tick])
    n.stopped.isNone = true ∧ n.coordinator.role = .sending 1 4 0 (1 / 2) ∧
      Chord n.coordinator.activity.keyboard.held := by
  decide +kernel

end Node

end NiriBridge
