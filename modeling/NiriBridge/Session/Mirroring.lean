import NiriBridge.Coordinator.Escape
import NiriBridge.Coordinator.Mirror
import NiriBridge.Coordinator.Stuck
import NiriBridge.Receiver.Replay
import NiriBridge.Session.Races

/-!
# Session — Mirroring

The keyboards of the device that sends, as the device that receives holds them.  `Tracks` is the
invariant of the sender: what it has written in its session leads from nothing to what its keyboards
hold.  `Replays` is that of the receiver: it holds what it has passed on leads to.  Between them is
the law of conservation (`Flows`): what has been passed on is a prefix of what has been written, and
all of it when nothing is on its way.

`keyboard_mirrored` is the result.
-/

namespace NiriBridge

open Hoare Session Duplex PhysicalKeys

variable {B T D : Type}

/-! ### The events of a session -/

/-- The inputs that are written of the session. -/
def eventsOf (n : ℕ) (l : List Frame) : List InputEvent := (inputsOf n (signals l)).map Prod.snd

theorem eventsOf_append (n : ℕ) (l l' : List Frame) :
    eventsOf n (l ++ l') = eventsOf n l ++ eventsOf n l' := by
  rw [eventsOf, signals_append, inputsOf_append, List.map_append]
  rfl

/-- Only keys count. -/
theorem keysAfter_filter (keys : SortedSet ℕ) (events : List InputEvent) :
    keysAfter keys (events.filter (·.typed)) = keysAfter keys events := by
  induction events generalizing keys with
  | nil => rfl
  | cons e events ih => cases e <;> exact ih _

/-- Only keys toggle. -/
theorem toggles_filter {keys : SortedSet ℕ} {events : List InputEvent} :
    Toggles keys (events.filter (·.typed)) ↔ Toggles keys events := by
  induction events generalizing keys with
  | nil => exact Iff.rfl
  | cons e events ih =>
      cases e with
      | key code pressed => exact and_congr_right fun _ => ih
      | _ => exact ih.trans (iff_of_eq (true_and _)).symm

/-- What is written of one session alone. -/
theorem filter_eventsOf {n : ℕ} {l : List Frame} (h : ∀ m k e, .input m k e ∈ signals l → m = n) :
    (eventsOf n l).filter (·.typed) = strokes l := by
  rw [eventsOf, strokes, typed_eq]
  generalize signals l = w at h
  induction w with
  | nil => rfl
  | cons signal w ih =>
      have ih := ih fun m k e hmem => h m k e (List.mem_cons_of_mem _ hmem)
      cases signal with
      | «begin» | «end» => exact ih
      | input m k e =>
          obtain rfl := h m k e List.mem_cons_self
          cases he : e.typed with
          | false => simpa [inputsOf, Signal.typed, he] using ih
          | true => simpa [inputsOf, Signal.typed, he] using ih

/-! ### One device -/

namespace Node

open Coordinator

variable [InputSink B] {F : Format T D} {n : Node ActivityMonitor B T}

/-- A step that leaves the device running. -/
theorem step_mirrored (hn : n.stopped = none) (h : n.coordinator.Mirrors)
    (hkeyboard : n.coordinator.physicalKeyboard = true)
    (hready : n.coordinator.role.isSending = true →
      n.coordinator.localReady = true ∧ n.coordinator.peerReady = true)
    (input : Coordinator.Event × Env T) (frame : Option Frame)
    (hrun : (n.step F input frame).1.stopped = none) :
    Mirrored { n.coordinator with outbox := [] } (n.step F input frame).1.coordinator ∧
      (n.step F input frame).1.coordinator.physicalKeyboard = true ∧
      (n.step F input frame).2 = (n.step F input frame).1.coordinator.outbox := by
  have hstep :
      n.step F input frame = after F input.2 (pass F input.2 input.1 frame) n.coordinator := by
    rw [step, hn]
  rw [hstep] at hrun ⊢
  have hunsent : Mirrors { n.coordinator with outbox := [] } := ⟨h.since, h.keys, h.pending⟩
  have hmirrored : wp (pass F input.2 input.1 frame) { n.coordinator with outbox := [] }
      (fun _ => Mirrored { n.coordinator with outbox := [] }) (fun _ _ => True) :=
    pass_mirrors hunsent hkeyboard hready
  have hpass := wp_and hmirrored (drives_pass input.1 frame { n.coordinator with outbox := [] })
  rcases after_spec F input.2 hpass with ⟨-, ⟨hmirrored, hdrives⟩, hout⟩ | ⟨stop, s', hstop, -⟩
  · exact ⟨hmirrored, hdrives.keyboard.trans hkeyboard, hout⟩
  · cases hrun.symm.trans hstop

end Node

namespace Devices

open Coordinator

variable [InputSink B] {F : Format T D} {d : World ActivityMonitor B T}
  {a : Side → Party InputEvent}

/-- A device that has opened its connection reads its keyboards, and sends nothing. -/
theorem opened_mirrors (F : Format T D) (x : Setup ActivityMonitor B T)
    (hx : x.activity.keyboard = default) (hrun : (opened F x).1.stopped = none) :
    (opened F x).1.coordinator.Mirrors ∧ (opened F x).1.coordinator.physicalKeyboard = true ∧
      (opened F x).1.coordinator.role.isSending = false := by
  let s := Coordinator.new x.config x.desktop x.sink x.activity x.unlocked x.now x.files
  have hopen := wp_and (calm_open x.env s) (open_drives x.env s (.inl True.intro))
  rcases Node.after_spec F x.env (s := s) hopen with ⟨-, ⟨hcalm, a, hdrives⟩, -⟩ |
    ⟨stop, s', hstop, -⟩
  · have hnot : (opened F x).1.coordinator.role.isSending = false :=
      eq_false_of_ne_true fun hs =>
        absurd (hcalm.sending hs) (by simp [s, Coordinator.new, Role.isSending])
    have hsince : Since ∅ (opened F x).1.coordinator.activity.keyboard :=
      hcalm.keyboard.trans hx ▸ since_default
    exact ⟨mirrors_of_not_sending ∅ hsince hnot, hdrives.keyboard, hnot⟩
  · cases hrun.symm.trans hstop

/-- What a device that sends has written of its session leads from nothing to what its keyboards
hold. -/
structure Tracks (d : World ActivityMonitor B T) (s : Side) : Prop where
  mirrors : (d.node s).stopped = none → (d.node s).coordinator.Mirrors
  keyboard : (d.node s).stopped = none → (d.node s).coordinator.physicalKeyboard = true
  written : ∀ n k edge fraction, (d.node s).stopped = none →
    (d.node s).coordinator.role = .sending n k edge fraction →
    Toggles ∅ (eventsOf n (d.sent s)) ∧
    keysAfter ∅ (eventsOf n (d.sent s)) = (d.node s).coordinator.sourceKeys

/-- A device that sends is ready, and its peer too. -/
theorem Flows.ready {s : Side} (h : Flows d a) (hn : (d.node s).stopped = none)
    (hs : (d.node s).coordinator.role.isSending = true) :
    (d.node s).coordinator.localReady = true ∧ (d.node s).coordinator.peerReady = true := by
  refine Node.Numbers.ready ⟨a s, h.plays s, fun n hsends => ?_⟩ hn hs
  unfold Party.sends at hsends
  split at hsends
  · next session k hpart =>
      obtain rfl := Option.some.inj hsends
      exact (h.stream s).freshSends _ k hpart
  · cases hsends

/-- What the peer has been told of the session that the device sends after the step. -/
theorem written_before {s : Side} {n : ℕ} {p : Party InputEvent} {t w : List (Signal InputEvent)}
    (hflows : Flows d a) (h : Tracks d s) (hn : (d.node s).stopped = none)
    (hpass : Pass (a s) t p w) (hsends : p.sends = some n) (hbegun : ∀ m, .begin m ∈ w →
      (d.node s).coordinator.role = .local ∧ m = (d.node s).coordinator.nextSession) :
    (∀ m k e, .input m k e ∈ w → m = n) ∧ Toggles ∅ (eventsOf n (d.sent s)) ∧
      keysAfter ∅ (eventsOf n (d.sent s)) = toldKeys (d.node s).coordinator := by
  have hparty : a s = (d.node s).coordinator.core.party := (hflows.plays s).running hn
  have hown := hpass.own.1 hsends
  by_cases hlocal : (d.node s).coordinator.role = .local
  -- the session has begun in this step, with a number that nothing has been written for
  · have hnot : ∀ m, (a s).sends ≠ some m := by
      intro m hm
      rw [hparty, sends_party] at hm
      obtain ⟨_, _, _, hrole⟩ := hm
      cases hlocal.symm.trans hrole
    have hnext : n = (d.node s).coordinator.nextSession := (hbegun n (hown.resolve_left (hnot n))).2
    have hfresh : eventsOf n (d.sent s) = [] := by
      refine congrArg (List.map Prod.snd) (inputsOf_eq_nil fun k e hmem => ?_)
      have hlt := (hflows.stream s).freshInput n k e hmem
      rw [hparty] at hlt
      exact absurd hnext (Nat.ne_of_lt hlt)
    refine ⟨fun m k e hmem => ?_, ?_, ?_⟩
    · exact (hbegun m ((hpass.inputs hmem).resolve_left (hnot m))).2.trans hnext.symm
    · rw [hfresh]
      trivial
    · rw [hfresh, toldKeys, hlocal]
      rfl
  · have hnone : ∀ m, .begin m ∉ w := fun m hm => hlocal (hbegun m hm).1
    have hsent := hown.resolve_right (hnone n)
    have hrole := hsent
    rw [hparty, sends_party] at hrole
    obtain ⟨k, edge, fraction, hrole⟩ := hrole
    obtain ⟨htoggles, hkeys⟩ := h.written n k edge fraction hn hrole
    refine ⟨fun m k e hmem => ?_, htoggles, ?_⟩
    · exact Option.some.inj (((hpass.inputs hmem).resolve_right (hnone m)).symm.trans hsent)
    · rw [hkeys, toldKeys, hrole]
      rfl

/-- A step of a running device. -/
theorem Tracks.run {s : Side} {input : Coordinator.Event × Env T} {frame : Option Frame}
    {rest : List Frame} (h : Tracks d s) (hflows : Flows d a) (hn : (d.node s).stopped = none) :
    Tracks
      (d.move s ((d.node s).step F input frame).1 rest ((d.node s).step F input frame).2) s := by
  rcases Node.step_plays F (hflows.plays s) input frame with ⟨-, q, hq, hpass, -⟩ | ⟨hstopped, -⟩
  swap
  · exact absurd hn hstopped
  have hstep :=
    Node.step_mirrored (F := F) hn (h.mirrors hn) (h.keyboard hn) (hflows.ready hn) input frame
  refine ⟨?_, ?_, ?_⟩ <;> simp only [move_node, move_sent]
  · exact fun hrun => (hstep hrun).1.1
  · exact fun hrun => (hstep hrun).2.1
  · intro n k edge fraction hrun hrole
    obtain ⟨⟨-, hspells⟩, -, hout⟩ := hstep hrun
    have hsends : q.sends = some n := by
      rw [hq.running hrun, sends_party]
      exact ⟨k, edge, fraction, hrole⟩
    obtain ⟨hof, htoggles, hkeys⟩ := written_before hflows h hn hpass hsends fun m hm =>
      (hspells.begun m (hout ▸ hm)).resolve_left List.not_mem_nil
    obtain ⟨events, hevents, htyped, hsource⟩ := hspells.typed (by rw [hrole]; rfl)
    have hfilter : (eventsOf n ((d.node s).step F input frame).2).filter (·.typed) = events := by
      rw [filter_eventsOf hof, hout]
      exact hevents
    have htold :
        toldKeys { (d.node s).coordinator with outbox := [] } = toldKeys (d.node s).coordinator :=
          rfl
    rw [htold, ← hkeys, ← hfilter] at htyped hsource
    rw [keysAfter_filter] at hsource
    rw [eventsOf_append, toggles_append, keysAfter_append]
    exact ⟨⟨htoggles, toggles_filter.mp htyped⟩, hsource.symm⟩

omit [InputSink B] in
/-- The other device has moved. -/
theorem Tracks.other {s : Side} {n : Node ActivityMonitor B T} {rest out : List Frame}
    (h : Tracks d s.other) :
    Tracks (d.move s n rest out) s.other := by
  refine ⟨?_, ?_, ?_⟩ <;> simp only [move_node_other, move_sent_other]
  · exact h.mirrors
  · exact h.keyboard
  · exact h.written

omit [InputSink B] in
/-- A device that has stopped. -/
theorem tracks_of_stopped {s : Side} (h : (d.node s).stopped ≠ none) : Tracks d s :=
  ⟨fun hn => absurd hn h, fun hn => absurd hn h, fun _ _ _ _ hn => absurd hn h⟩

/-! ### Runs -/

/-- The invariant of a run. -/
structure Mirroring (x : Side → Setup ActivityMonitor B T)
    (d : World ActivityMonitor B T) : Prop where
  parties : ∃ a, Flows d a
  driven : ∀ s, (d.node s).Driven (x s).sink
  tracks : ∀ s, Tracks d s

/-- A step keeps the keyboards mirrored. -/
theorem mirroring_next {x : Side → Setup ActivityMonitor B T} (h : Mirroring x d) (l : Step T) :
    Mirroring x (next F d l) := by
  obtain ⟨a, hflows⟩ := h.parties
  refine ⟨flows_next F hflows l, fun t => ?_, fun t => ?_⟩ <;> rw [next] <;>
    rcases Duplex.next_cases (Node.step F) d l with hsame | ⟨frame, rest, -, -, hmove⟩
  · exact hsame.symm ▸ h.driven t
  · rw [hmove]
    rcases Side.eq_or_eq_other t l.side with rfl | rfl
    · rw [move_node]
      exact Node.driven_next F (h.driven l.side) (l.input, frame)
    · rw [move_node_other]
      exact h.driven l.side.other
  · exact hsame.symm ▸ h.tracks t
  · rw [hmove]
    rcases Side.eq_or_eq_other t l.side with rfl | rfl
    · by_cases hn : (d.node l.side).stopped = none
      · exact (h.tracks l.side).run hflows hn
      · rcases Node.step_plays F (hflows.plays l.side) l.input frame with ⟨hrun, -⟩ | ⟨-, hstep⟩
        · exact absurd hrun hn
        · refine tracks_of_stopped ?_
          rw [move_node, hstep]
          exact hn
    · exact (h.tracks l.side.other).other

/-- The keyboards are mirrored at the start. -/
theorem mirroring_start (F : Format T D) (x : Side → Setup ActivityMonitor B T)
    (hx : ∀ s, (x s).activity.keyboard = default) : Mirroring x (start F x) := by
  refine ⟨flows_start F x, fun s => ?_, fun s => ?_⟩
  · exact Node.driven_connect F (x s).env (x s).config (x s).desktop (x s).sink (x s).activity
      (x s).unlocked
      (x s).now (x s).files
  · have hopened := opened_mirrors F (x s) (hx s)
    refine ⟨fun hn =>
      (hopened hn).1, fun hn => (hopened hn).2.1, fun n k edge fraction hn hrole => ?_⟩
    have hnot := (hopened hn).2.2
    have hrole : (opened F (x s)).1.coordinator.role = .sending n k edge fraction := hrole
    rw [hrole] at hnot
    cases hnot

omit [InputSink B] in
/-- Of the session that is received everything that has been passed on is what is held. -/
theorem replays_passed {r : Receiver B} {n : ℕ} (h : r.Replays) (hsession : r.session = some n)
    (hcount : r.expectedSequence = (passedOf n r.passed).length) :
    Receiver.SameKeys r.state.held.keys (keysAfter ∅ ((passedOf n r.passed).map Prod.snd)) := by
  obtain ⟨before, since, hpassed, hlength, hof, hkeys⟩ := h n hsession
  have hsince : passedOf n since = since.map Prod.snd := by
    rw [passedOf, List.filter_eq_self.mpr]
    simpa using hof
  have hbefore : passedOf n before = [] := by
    rw [hpassed, passedOf_append, List.length_append, hsince, List.length_map] at hcount
    exact List.eq_nil_of_length_eq_zero (by omega)
  rw [hpassed, passedOf_append, hbefore, hsince, List.nil_append, List.map_map]
  exact hkeys

/-- **The keyboards are mirrored**, in every run: of a device that sends, the keys it has written in
the session each change what is down, and lead to what its keyboards hold.  A peer that receives the
session has passed on a prefix of them, and holds what that leads to; when no input of the session
is on its way, it holds exactly the keys that are down on one of the keyboards. -/
theorem keyboard_mirrored (F : Format T D) (x : Side → Setup ActivityMonitor B T)
    (hx : ∀ s, (x s).activity.keyboard = default) (ls : List (Step T)) :
    let d := Run.run (next F) (start F x) ls
    ∀ s n k edge fraction, (d.node s).stopped = none →
      (d.node s).coordinator.role = .sending n k edge fraction →
        let keyboard := (d.node s).coordinator.activity.keyboard
        let sent := eventsOf n (d.sent s)
        (keyboard.pending = [] ∧ Toggles ∅ sent ∧ keysAfter ∅ sent = keyboard.held) ∧
        ((d.node s.other).stopped = none → (d.node s.other).coordinator.role = .receiving n →
          let r := (d.node s.other).coordinator.receiver
          let passed := (passedOf n r.passed).map Prod.snd
          passed <+: sent ∧ (∀ code ≤ 255, code ∈ r.state.held.keys ↔ code ∈ keysAfter ∅ passed) ∧
            (inputsOf n (signals (d.chan s.other)) = [] → ∀ code ≤ 255,
              (code ∈ r.state.held.keys ↔ ∃ device, code ∈ keysOf keyboard.devices device))) := by
  intro d s n k edge fraction hn hrole keyboard sent
  have hstep : ∀ (d : World ActivityMonitor B T) (l : Step T),
      Mirroring x d → Mirroring x (next F d l) :=
    fun _ l h => mirroring_next h l
  have hmirroring : Mirroring x d := Run.run_invariant_of_step hstep (mirroring_start F x hx)
  obtain ⟨a, hflows⟩ := hmirroring.parties
  have hs : (d.node s).coordinator.role.isSending = true := by
    rw [hrole]
    rfl
  have hmirrors := (hmirroring.tracks s).mirrors hn
  obtain ⟨htoggles, hkeys⟩ := (hmirroring.tracks s).written n k edge fraction hn hrole
  have hheld : keysAfter ∅ sent = keyboard.held := hkeys.trans (hmirrors.keys hs)
  refine ⟨⟨hmirrors.pending hs, htoggles, hheld⟩, ?_⟩
  intro hn' hrole' r passed
  -- the receiver has the session, and the number it expects is that of the inputs passed on
  have hplays := hflows.plays s.other
  have hinv := hplays.good.receiver hn'
  have hsession : r.session = some n :=
    (((hplays.good.relations hn').related hinv).receiving n).mp hrole' |>.1
  have hpart : (a s.other).part = .receiving n r.expectedSequence := by
    rw [hplays.running hn', Core.party, core, hrole']
    simp [Role.part, Core.expected, hsession, r]
  have hup : (a s.other).up = true := hflows.running hn'
  obtain ⟨-, hlaw, hcount⟩ := (hflows.stream s).receives n _ hup hpart
  rw [hplays.passed] at hlaw hcount
  have hreplays : r.Replays := by
    obtain ⟨calls, hcalls⟩ := (hmirroring.driven s.other).calls
    show Receiver.Replays (d.node s.other).coordinator.receiver
    rw [hcalls]
    exact Receiver.replays_run (x s.other).sink calls
  -- the receiver holds what the inputs it has passed on leave down
  have hsame := replays_passed hreplays hsession hcount
  -- and the inputs on the way are the rest of what was sent
  have hall : passed ++ (inputsOf n (signals (d.chan s.other))).map Prod.snd = sent := by
    rw [← List.map_append]
    exact congrArg (List.map Prod.snd) hlaw
  refine ⟨⟨_, hall⟩, hsame, fun hquiet code hcode => ?_⟩
  rw [hquiet, List.map_nil, List.append_nil] at hall
  rw [hsame code hcode, ← mem_held]
  exact (congrArg (code ∈ keysAfter ∅ ·) hall).trans (congrArg (code ∈ ·) hheld) |>.to_iff

open Sample

/-- A left device on whose keyboard two keys are pressed in its session. -/
def typists : Side → Setup ActivityMonitor Sink Unit
  | .left => { device .bottom with activity := monitor (typing [30, 42]) }
  | .right => device .top

/-- Both keys reach the right device. -/
theorem keyboard_mirrored_typing :
    let d :=
      Run.run (next format) (start format typists) (greetings ++ [crosses .left 1 0, takes .right,
      acts .left (.tick (.ok ())) 0, takes .right, takes .right])
    (d.node .right).coordinator.receiver.state.held.keys = .ofList [30, 42] ∧
      ∀ code ≤ 255, code ∈ (d.node .right).coordinator.receiver.state.held.keys ↔
        ∃ device, code ∈ keysOf (d.node .left).coordinator.activity.keyboard.devices device := by
  intro d
  have h :=
    keyboard_mirrored format typists (by intro s; cases s <;> rfl) (greetings ++ [crosses .left 1 0,
    takes .right, acts .left (.tick (.ok ())) 0, takes .right, takes .right]) .left 1 2 0 (1 / 2)
  generalize hd :
    Run.run (next format) (start format typists) (greetings ++ [crosses .left 1 0, takes .right,
    acts .left (.tick (.ok ())) 0, takes .right, takes .right]) = e at h
  have hrun : (e.node .left).stopped.isNone = true ∧
      (e.node .left).coordinator.role = .sending 1 2 0 (1 / 2) ∧
      (e.node .right).stopped.isNone = true ∧ (e.node .right).coordinator.role = .receiving 1 ∧
      (inputsOf 1 (signals (e.chan .right))).isEmpty = true ∧
      (e.node .right).coordinator.receiver.state.held.keys = .ofList [30, 42] := by
    rw [← hd]
    decide +kernel
  obtain ⟨hleft, hsends, hright, hreceives, hquiet, hheld⟩ := hrun
  have hmirrored := (h (Option.isNone_iff_eq_none.mp hleft) hsends).2
    (Option.isNone_iff_eq_none.mp hright) hreceives
  show (d.node .right).coordinator.receiver.state.held.keys = .ofList [30, 42] ∧ _
  rw [show d = e from hd]
  exact ⟨hheld, hmirrored.2.2 (List.isEmpty_iff.mp hquiet)⟩

end Devices

end NiriBridge
