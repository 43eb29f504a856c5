import NiriBridge.Coordinator.Waiting
import NiriBridge.Session.Devices

/-!
# Session — Races

Two devices that start and end sessions on their own number them alike, and an `End` carries nothing
but a number.  `Apart` excludes the two races in which an `End` finds a session with its number that
it was not sent about: a device starts a session while an `End` with its number is on its way to it,
or a device gives up its session while a `Begin` with its number is on its way to it.

`ends_reach_their_session` is about the runs without these races.  In the run `quarrel` both occur,
and at its end, with no message on its way, one device receives a session that nobody sends.
-/

namespace NiriBridge

open Hoare Session Duplex

variable {A B T D : Type}

namespace Coordinator

variable [ActivitySource A] {F : Format T D} {env : Env T} {s : Coordinator A B T} {event : Event}
  {frame : Option Frame}

omit [ActivitySource A] in
theorem Says.unsent {w : List Frame} (h : Says { s with outbox := [] } event frame w) :
    Says s event frame w := by
  cases h with
  | nothing => exact .nothing
  | outputs outputs => exact .outputs outputs
  | crossed hcapture h =>
      refine .crossed hcapture ?_
      cases h with
      | nothing => exact .nothing
      | starts hrole hedge havailable => exact .starts hrole hedge havailable
      | returns hrole hedge havailable => exact .returns hrole hedge havailable

omit [ActivitySource A] in
theorem sends_party {n : ℕ} :
    s.core.party.sends = some n ↔
    ∃ sequence edge fraction, s.role = .sending n sequence edge fraction := by
  cases hrole : s.role <;> simp [Party.sends, Core.party, core, hrole, Role.part, eq_comm]

omit [ActivitySource A] in
theorem serves_party {n : ℕ} : s.core.party.serves = some n ↔ s.role = .receiving n := by
  cases hrole : s.role <;> simp [Party.serves, Core.party, core, hrole, Role.part]

/-- What starts a session gives none up. -/
theorem Starts.keeps (h : s.Starts event frame) : ¬ s.GivesUp F env event frame := by
  cases frame with
  | some frame => exact h.elim
  | none =>
      cases event with
      | capture report =>
          obtain _ | ⟨generation, event⟩ := report
          · exact h.elim
          · cases event <;> first | exact h.elim | exact id
      | _ => exact h.elim

omit [ActivitySource A] in
/-- A begin that is said starts a session, under the next number. -/
theorem Says.starts {w : List Frame} {n : ℕ} (h : Says s event frame w)
    (hn : .begin n ∈ signals w) :
    s.Starts event frame ∧ n = s.nextSession := by
  cases h with
  | nothing => exact absurd hn List.not_mem_nil
  | outputs outputs => exact absurd hn List.not_mem_nil
  | crossed hcapture h =>
      cases h with
      | nothing => exact absurd hn List.not_mem_nil
      | starts hrole hedge havailable =>
          refine ⟨⟨hrole, hcapture, rfl⟩, ?_⟩
          simpa [signals, Frame.signal] using hn
      | returns hrole hedge havailable => simp [signals, Frame.signal] at hn

end Coordinator

/-- A beginning is one of the frames about edges. -/
theorem begin_mem_located {frames : List Frame} {n : ℕ} (h : .begin n ∈ signals frames) :
    .begin n ∈ signals (located frames) := by
  obtain ⟨frame, hframe, hsignal⟩ := List.mem_filterMap.mp h
  refine List.mem_filterMap.mpr ⟨frame, mem_located.mpr ⟨hframe, ?_⟩, hsignal⟩
  obtain ⟨message, own⟩ := frame
  cases message <;> first | rfl | cases hsignal

/-! ### Steps of one device -/

namespace Node

variable [ActivitySource A] [InputSink B] {F : Format T D} {n : Node A B T}

/-- Where a device that runs waits, its edges are current. -/
def Current (n : Node A B T) : Prop := n.stopped = none → n.coordinator.Current

/-- What a step says of displays and edges. -/
theorem step_edges (h : n.Current) (hn : n.stopped = none) (input : Coordinator.Event × Env T)
    (frame : Option Frame) :
    let r := n.step F input frame
    n.coordinator.Says input.1 frame (located r.2) ∧
      (¬ n.coordinator.GivesUp F input.2 input.1 frame →
        ∀ session, .end session true ∉ signals r.2) ∧
      (r.1.stopped = none → r.1.coordinator.config = n.coordinator.config ∧
        { n.coordinator with outbox := [] }.Waits input.1 frame r.1.coordinator ∧
        r.1.coordinator.outbox = r.2) := by
  intro r
  have hcurrent : Coordinator.Current { n.coordinator with outbox := [] } :=
    ⟨(h hn).available, (h hn).session, (h hn).capture⟩
  have hstep : r = after F input.2 (Coordinator.pass F input.2 input.1 frame) n.coordinator := by
    show n.step F input frame = _
    rw [step, hn]
  have hwrote :
    ∀ {s'}, Coordinator.Wrote F input.2 { n.coordinator with outbox := [] } input.1 frame s' →
      r.2 = s'.outbox → n.coordinator.Says input.1 frame (located r.2) ∧
        (¬ n.coordinator.GivesUp F input.2 input.1 frame →
          ∀ session, .end session true ∉ signals r.2) := by
    intro s' hs' hout
    obtain ⟨w, hw, hlocated⟩ := hs'.located
    have hlocated : located s'.outbox = w := hlocated
    rw [hout, hlocated]
    exact ⟨hw.unsent, fun hgives session hmem => List.not_mem_nil (hs'.ended hgives session hmem)⟩
  have hspec := after_spec F input.2 (Coordinator.pass_edges F input.2 input.1 frame hcurrent)
  rw [← hstep] at hspec
  rcases hspec with ⟨-, ⟨hs', hwaits⟩, hout⟩ | ⟨stop, s', hstop, hs', hout, -⟩
  · obtain ⟨hlocated, hended⟩ := hwrote hs' hout
    exact ⟨hlocated, hended, fun _ => ⟨hs'.config, hwaits, hout.symm⟩⟩
  · obtain ⟨hlocated, hended⟩ := hwrote hs' hout
    exact ⟨hlocated, hended, fun hrun => absurd (hrun.symm.trans hstop) (by simp)⟩

/-- A step leaves the variables of a device current. -/
theorem step_current (h : n.Current) (input : Coordinator.Event × Env T) (frame : Option Frame) :
    (n.step F input frame).1.Current := by
  cases hn : n.stopped with
  | none => exact fun hrun => ((step_edges h hn input frame).2.2 hrun).2.1.current
  | some stop =>
      rw [step, hn]
      exact h

/-- A session begins only when the pointer crosses an edge, and has the next number. -/
theorem step_starts (h : n.Current) (hn : n.stopped = none) (input : Coordinator.Event × Env T)
    (frame : Option Frame) {session : ℕ}
    (hbegin : .begin session ∈ signals (n.step F input frame).2) :
    n.coordinator.Starts input.1 frame ∧ session = n.coordinator.nextSession :=
  (step_edges h hn input frame).1.starts (begin_mem_located hbegin)

end Node

namespace Devices

variable [ActivitySource A] [InputSink B]

/-! ### The races -/

/-- The step meets no message about another session with the same number: the device that moves
starts no session while an end with its number is on its way to it, and gives up none while a begin
with its number is. -/
def Apart (F : Format T D) (d : World A B T) (l : Step T) : Prop :=
  ∀ frame rest, frame.isSome = l.takes → d.chan l.side = frame.toList ++ rest →
    let s := (d.node l.side).coordinator
    (s.Starts l.input.1 frame → ∀ own, .end s.nextSession own ∉ signals rest) ∧
    (s.GivesUp F l.input.2 l.input.1 frame →
      ∀ session sequence edge fraction, s.role = .sending session sequence edge fraction →
        .begin session ∉ signals rest)

variable {F : Format T D} {d : World A B T} {a : Side → Party InputEvent}

/-- What a step that is apart writes is permitted. -/
theorem Apart.permitted {l : Step T} {frame : Option Frame} {rest : List Frame}
    {p : Party InputEvent} (h : Apart F d l) (htakes : frame.isSome = l.takes)
    (hchan : d.chan l.side = frame.toList ++ rest) (hcurrent : (d.node l.side).Current)
    (hn : (d.node l.side).stopped = none) (hplays : (d.node l.side).Plays (a l.side))
    (hpass : Pass (a l.side) (signals frame.toList) p
      (signals ((d.node l.side).step F l.input frame).2)) :
    Session.Permitted (signals rest) (signals ((d.node l.side).step F l.input frame).2) := by
  obtain ⟨hstarts, hgives⟩ := h frame rest htakes hchan
  refine fun n => ⟨fun hbegin => ?_, fun hend => ?_⟩
  · obtain ⟨hs, rfl⟩ := Node.step_starts hcurrent hn l.input frame hbegin
    exact hstarts hs
  · have hgivesUp : (d.node l.side).coordinator.GivesUp F l.input.2 l.input.1 frame := by
      by_contra hnot
      exact (Node.step_edges hcurrent hn l.input frame).2.1 hnot n hend
    rcases hpass.own.2 hend with hsends | hbegin
    · rw [hplays.running hn] at hsends
      obtain ⟨sequence, edge, fraction, hrole⟩ := Coordinator.sends_party.mp hsends
      exact hgives hgivesUp n sequence edge fraction hrole
    · exact absurd hgivesUp (Node.step_starts hcurrent hn l.input frame hbegin).1.keeps

/-! ### The runs without races -/

/-- What holds between two devices while every end reaches the session it is about. -/
structure Agrees (d : World A B T) : Prop where
  parties : ∃ a, Flows d a ∧
    ∀ s, Accords (a s) (a s.other) (signals (d.chan s.other)) (signals (d.chan s))
  current : ∀ s, (d.node s).Current
  stops : ∀ s stop, (d.node s).stopped = some stop → stop.Ordinary B

theorem current_opened (F : Format T D) (x : Setup A B T) : (opened F x).1.Current := by
  intro hrun
  let s := Coordinator.new x.config x.desktop x.sink x.activity x.unlocked x.now x.files
  rcases Node.after_spec F x.env
    (s := s) (Coordinator.open_edges x.config x.desktop x.sink x.activity
    x.unlocked x.now x.files x.env) with ⟨-, hs, -⟩ | ⟨stop, s', hstop, -⟩
  · exact hs.2
  · exact absurd (hrun.symm.trans hstop) (by simp)

omit [ActivitySource A] [InputSink B] in
/-- The accord does not depend on the side. -/
theorem accords_symm {x y : Party InputEvent} {c ch : List (Signal InputEvent)}
    (h : Accords x y c ch) :
    Accords y x ch c := ⟨h.right, h.left⟩

/-- The devices agree at the start. -/
theorem agrees_start (F : Format T D) (x : Side → Setup A B T) : Agrees (start F x) := by
  choose a hplays hpass hsignals hstop using fun s => opened_plays F (x s)
  have hpermitted : Session.Permitted ([] : List (Signal InputEvent)) [] :=
    fun _ => ⟨by simp, by simp⟩
  refine ⟨⟨a, flows_opened F hplays hpass hsignals hstop, fun s => ?_⟩,
    fun s => current_opened F (x s), hstop⟩
  rw [signals_start F hsignals, signals_start F hsignals]
  have hright : Accords (a s.other) stranger [] [] :=
    accords_stranger.pass (hpass s.other) hpermitted
  exact (accords_symm hright).pass (hpass s) hpermitted

/-- A running device makes a pass that is permitted. -/
theorem Agrees.run {l : Step T} {frame : Option Frame} {rest : List Frame} (h : Agrees d)
    (hl : Apart F d l) (htakes : frame.isSome = l.takes)
    (hchan : d.chan l.side = frame.toList ++ rest) (hn : (d.node l.side).stopped = none) :
    Agrees (d.move l.side ((d.node l.side).step F l.input frame).1 rest
      ((d.node l.side).step F l.input frame).2) := by
  obtain ⟨⟨a, hflows, haccords⟩, hcurrent, hstops⟩ := h
  rcases Node.step_plays F (hflows.plays l.side) l.input frame with
    ⟨-, p, hplays, hpass, hstop⟩ | ⟨hstopped, -⟩
  · have hpermitted := hl.permitted htakes hchan (hcurrent l.side) hn (hflows.plays l.side) hpass
    have hother : Function.update a l.side p l.side.other = a l.side.other :=
      Function.update_of_ne l.side.other_ne ..
    have haccord := haccords l.side
    have hchan' : signals (d.chan l.side) = signals frame.toList ++ signals rest := by
      rw [hchan, signals_append]
    rw [hchan'] at haccord
    refine ⟨⟨Function.update a l.side p, hflows.pass hchan hn hplays hpass hstop, fun t => ?_⟩,
      fun t => ?_, fun t stop ht => ?_⟩
    · have hnext := haccord.pass hpass hpermitted
      rcases Side.eq_or_eq_other t l.side with rfl | rfl
      · rwa [move_chan_other, move_chan, Function.update_self, hother, signals_append]
      · rw [Side.other_other, move_chan_other, move_chan, Function.update_self, hother,
          signals_append]
        exact accords_symm hnext
    · rcases Side.eq_or_eq_other t l.side with rfl | rfl
      · rw [move_node]
        exact Node.step_current (hcurrent l.side) l.input frame
      · rw [move_node_other]
        exact hcurrent l.side.other
    · rcases Side.eq_or_eq_other t l.side with rfl | rfl
      · rw [move_node] at ht
        refine (hstop stop ht).resolve_right fun hclash => ?_
        -- no beginning finds a session still being received
        obtain ⟨-, hserves, n, hbegin⟩ := hflows.clash hchan hn hclash
        rw [hbegin] at haccord
        exact hserves (haccord.no_overlap (hflows.running hn))
      · rw [move_node_other] at ht
        exact hstops l.side.other stop ht
  · exact absurd hn hstopped

omit [ActivitySource A] in
/-- A device that has stopped loses its frames. -/
theorem Agrees.lose {s : Side} {frame : Option Frame} {rest : List Frame} (h : Agrees d)
    (hchan : d.chan s = frame.toList ++ rest) (hn : (d.node s).stopped ≠ none) :
    Agrees (d.move s (d.node s) rest []) := by
  obtain ⟨⟨a, hflows, haccords⟩, hcurrent, hstops⟩ := h
  have hnode : ∀ t, (d.move s (d.node s) rest []).node t = d.node t := by
    intro t
    rcases Side.eq_or_eq_other t s with rfl | rfl <;> simp
  have hlost : Accords (a s) (a s.other) (signals (d.chan s.other)) (signals rest) := by
    have haccord := haccords s
    rw [hchan, signals_append] at haccord
    cases frame with
    | none => exact haccord
    | some frame =>
        cases hsignal : frame.signal with
        | none => simpa [signals, hsignal] using haccord
        | some signal =>
            have hcons :
                signals (Option.toList (some frame)) ++ signals rest = signal :: signals rest := by
              simp [signals, hsignal]
            exact (hcons ▸ haccord).lose ((hflows.plays s).stopped hn)
  refine ⟨⟨a, hflows.lose hchan hn, fun t => ?_⟩, fun t => (hnode t).symm ▸ hcurrent t,
    fun t stop ht => hstops t stop (hnode t ▸ ht)⟩
  rcases Side.eq_or_eq_other t s with rfl | rfl
  · rwa [move_chan_other, move_chan, List.append_nil]
  · rw [Side.other_other, move_chan_other, move_chan, List.append_nil]
    exact accords_symm hlost

/-- A step without race keeps the accord. -/
theorem agrees_next (h : Agrees d) {l : Step T} (hl : Apart F d l) : Agrees (next F d l) := by
  rw [next]
  rcases Duplex.next_cases (Node.step F) d l with hsame | ⟨frame, rest, htakes, hchan, hmove⟩
  · rw [hsame]
    exact h
  · rw [hmove]
    cases hn : (d.node l.side).stopped with
    | none => exact h.run hl htakes hchan hn
    | some stop =>
        have hstep : (d.node l.side).step F l.input frame = (d.node l.side, []) := by
          rw [Node.step, hn]
        rw [hstep]
        exact h.lose hchan fun hrun => absurd (hrun.symm.trans hn) (by simp)

/-- The devices agree in every run of sessions that do not meet. -/
theorem agrees_run {x : Side → Setup A B T} {ls : List (Step T)}
    (h : Run.Along (next F) (Apart F) (start F x) ls) :
    Agrees (Run.run (next F) (start F x) ls) := by
  have hstep : ∀ (d : World A B T) (l : Step T), Agrees d → Apart F d l → Agrees (next F d l) :=
    fun _ _ hd hl => agrees_next hd hl
  exact Run.run_invariant hstep (agrees_start F x) h

omit [ActivitySource A] in
/-- An end that a device takes for its session was sent about it. -/
theorem Agrees.about (h : Agrees d) {s : Side} {frame : Frame} {rest : List Frame} {session : ℕ}
    {exit : Option EdgePosition}
    (hn : (d.node s).stopped = none)
    (hchan : d.chan s = frame :: rest)
    (hmessage : frame.message = .end session exit)
    (hsession : (d.node s).coordinator.role.session = some session) :
    frame.own = !(d.node s).coordinator.role.isSending := by
  obtain ⟨⟨a, hflows, haccords⟩, -, -⟩ := h
  have haccord := haccords s
  have hsignal : signals (d.chan s) = .end session frame.own :: signals rest := by
    obtain ⟨message, own⟩ := frame
    obtain rfl : message = .end session exit := hmessage
    rw [hchan]
    rfl
  rw [hsignal] at haccord
  obtain ⟨hsends, hserves⟩ := haccord.about (hflows.running hn)
  rw [(hflows.plays s).running hn, Coordinator.sends_party] at hsends
  rw [(hflows.plays s).running hn, Coordinator.serves_party] at hserves
  cases hrole : (d.node s).coordinator.role with
  | «local» =>
      rw [hrole] at hsession
      cases hsession
  | sending n sequence edge fraction =>
      rw [hrole] at hsession
      obtain rfl : n = session := Option.some.inj hsession
      exact hsends ⟨sequence, edge, fraction, hrole⟩
  | receiving n =>
      rw [hrole] at hsession
      obtain rfl : n = session := Option.some.inj hsession
      exact hserves hrole

/-- One device sends what the other receives, or both are on their own. -/
inductive Paired : Role → Role → Prop where
  | alone : Paired .local .local
  | sends (session sequence edge : ℕ) (fraction : ℚ) :
      Paired (.sending session sequence edge fraction) (.receiving session)
  | receives (session sequence edge : ℕ) (fraction : ℚ) :
      Paired (.receiving session) (.sending session sequence edge fraction)

/-- Roles that name the same sessions are paired. -/
theorem paired_of_iff {r r' : Role}
    (h : ∀ n, (∃ sequence edge fraction, r = .sending n sequence edge fraction) ↔ r' = .receiving n)
    (h' : ∀ n, (∃ sequence edge fraction, r' = .sending n sequence edge fraction) ↔
      r = .receiving n) :
    Paired r r' := by
  cases r with
  | sending n sequence edge fraction =>
      rw [(h n).mp ⟨sequence, edge, fraction, rfl⟩]
      exact .sends n sequence edge fraction
  | receiving n =>
      obtain ⟨sequence, edge, fraction, rfl⟩ := (h' n).mpr rfl
      exact .receives n sequence edge fraction
  | «local» =>
      cases r' with
      | «local» => exact .alone
      | sending n sequence edge fraction =>
          exact absurd ((h' n).mp ⟨sequence, edge, fraction, rfl⟩) (by simp)
      | receiving n =>
          obtain ⟨sequence, edge, fraction, heq⟩ := (h n).mpr rfl
          cases heq

/-- **Every end reaches the session it is about**, in the runs without races: an `End` that a device
takes for its session was sent about that session; with no message on its way one device sends what
the other receives; and no beginning finds a session still being received. -/
theorem ends_reach_their_session (F : Format T D) (x : Side → Setup A B T) (ls : List (Step T))
    (h : Run.Along (next F) (Apart F) (start F x) ls) :
    let d := Run.run (next F) (start F x) ls
    (∀ s frame rest session exit, (d.node s).stopped = none → d.chan s = frame :: rest →
      frame.message = .end session exit → (d.node s).coordinator.role.session = some session →
      frame.own = !(d.node s).coordinator.role.isSending) ∧
    ((∀ s, d.chan s = [] ∧ (d.node s).stopped = none) →
      Paired (d.node .left).coordinator.role (d.node .right).coordinator.role) ∧
    ∀ s, (d.node s).stopped = some (.failed ["Unexpected overlapping input session"]) →
      Receiver.BackendError B ["Unexpected overlapping input session"] := by
  intro d
  have hagrees : Agrees d := agrees_run h
  obtain ⟨a, hflows, haccords⟩ := hagrees.parties
  refine ⟨fun s frame rest session exit =>
    Agrees.about hagrees, fun hquiet => ?_, fun s hstop => ?_⟩
  · have haccord : ∀ s n, (a s).sends = some n ↔ (a s.other).serves = some n := by
      intro s n
      have haccord := haccords s
      rw [(hquiet s).1, (hquiet s.other).1] at haccord
      exact haccord.quiet (hflows.running (hquiet s).2) (hflows.running (hquiet s.other).2)
    have hplays : ∀ s, a s = (d.node s).coordinator.core.party :=
      fun s => (hflows.plays s).running (hquiet s).2
    have hleft : ∀ n, (∃ sequence edge fraction,
        (d.node .left).coordinator.role = .sending n sequence edge fraction) ↔
        (d.node .right).coordinator.role = .receiving n := fun n => by
      rw [← Coordinator.sends_party, ← Coordinator.serves_party, ← hplays, ← hplays]
      exact haccord .left n
    have hright : ∀ n, (∃ sequence edge fraction,
        (d.node .right).coordinator.role = .sending n sequence edge fraction) ↔
        (d.node .left).coordinator.role = .receiving n := fun n => by
      rw [← Coordinator.sends_party, ← Coordinator.serves_party, ← hplays, ← hplays]
      exact haccord .right n
    exact paired_of_iff hleft hright
  · refine (hagrees.stops s _ hstop).resolve_right fun hnot => hnot ?_
    decide

end Devices

/-! ### Two sample devices that share an edge -/

namespace Sample

/-- A device of one connection, at this edge. -/
def device (edge : Edge) : Setup ActivityMonitor Sink Unit :=
  ⟨config edge, desktop edge, ⟨⟩, monitor fun _ => absent, true, 0, files, env 0⟩

/-- Two devices, one above the other. -/
def devices : Side → Setup ActivityMonitor Sink Unit
  | .left => device .bottom
  | .right => device .top

/-- The device takes the message that has waited longest. -/
def takes (side : Side) : Devices.Step Unit := ⟨side, (.exit, env 0), true⟩

/-- A device acts on an event and takes no frame. -/
def acts (side : Side) (event : Coordinator.Event) (now : ℕ) : Devices.Step Unit :=
  ⟨side, (event, env now), false⟩

/-- The pointer of a device crosses its edge. -/
def crosses (side : Side) (generation now : ℕ) : Devices.Step Unit :=
  acts side (.capture (some ⟨generation, .started 0 (1 / 2)⟩)) now

/-- Each device learns of the other. -/
def greetings : List (Devices.Step Unit) :=
  List.replicate 3 (takes .left) ++ List.replicate 3 (takes .right)

/-- The left device starts its session 1 and is released; the right one returns the pointer before
it learns of that, and starts a session 1 of its own. -/
def quarrel : List (Devices.Step Unit) :=
  greetings ++ [crosses .left 1 0, acts .left (.release 0) 0, takes .right, crosses .right 1 0,
    acts .right (.tick (.ok ())) 199, crosses .right 2 199]

end Sample

namespace Devices

open Sample

/-- No session message is behind the one that is taken. -/
def Unhindered (d : World A B T) (l : Step T) : Prop :=
  (signals (if l.takes then (d.chan l.side).tail else d.chan l.side)).isEmpty = true

instance (d : World A B T) (l : Step T) : Decidable (Unhindered d l) :=
  inferInstanceAs (Decidable (_ = true))

/-- In a step that nothing hinders the sessions do not meet. -/
theorem Unhindered.apart [ActivitySource A] {F : Format T D} {d : World A B T} {l : Step T}
    (h : Unhindered d l) : Apart F d l := by
  intro frame rest htakes hchan
  have hrest : signals rest = [] := by
    rw [← List.isEmpty_iff.mp h, ← htakes, hchan]
    cases frame <;> rfl
  rw [hrest]
  exact ⟨fun _ _ => List.not_mem_nil, fun _ _ _ _ _ _ => List.not_mem_nil⟩

/-- A session that starts and is received. -/
theorem ends_reach_their_session_crossing :
    let d :=
      Run.run (next format) (start format devices) (greetings ++ [crosses .left 1 0, takes .right])
    (d.node .left).coordinator.role = .sending 1 0 0 (1 / 2) ∧
      Paired (d.node .left).coordinator.role (d.node .right).coordinator.role := by
  have hunhindered : Run.Along (next format) Unhindered (start format devices)
      (greetings ++ [crosses .left 1 0, takes .right]) := by decide +kernel
  have hquiet : ∀ s, ((Run.run (next format) (start format devices)
      (greetings ++ [crosses .left 1 0, takes .right])).chan s).isEmpty = true ∧
      ((Run.run (next format) (start format devices)
        (greetings ++ [crosses .left 1 0, takes .right])).node s).stopped.isNone = true := by
    intro s
    cases s <;> decide +kernel
  obtain ⟨-, hpaired, -⟩ := ends_reach_their_session format devices
    (greetings ++ [crosses .left 1 0, takes .right])
    (Run.along_mono (fun _ _ => Unhindered.apart) hunhindered)
  refine ⟨by decide +kernel, hpaired fun s => ?_⟩
  exact ⟨List.isEmpty_iff.mp (hquiet s).1, Option.isNone_iff_eq_none.mp (hquiet s).2⟩

/-- **An end kills another session.**  The right device sends its session 1 when it takes the end of
the left device's session 1, and gives its own up; in the end no message is on its way, and the left
device receives what nobody sends. -/
theorem end_kills_other_session :
    let d := Run.run (next format) (start format devices) quarrel
    let d' := Run.run (next format) d [takes .right, takes .left, takes .left]
    ((d.node .right).coordinator.role = .sending 1 0 0 (1 / 2) ∧
      d.chan .right = [⟨.end 1 none, true⟩] ∧
      ((next format d (takes .right)).node .right).coordinator.role = .local) ∧
    d'.chan .left = [] ∧ d'.chan .right = [] ∧
      (d'.node .left).stopped.isNone = true ∧ (d'.node .right).stopped.isNone = true ∧
      (d'.node .left).coordinator.role = .receiving 1 ∧
      (d'.node .right).coordinator.role = .local := by
  decide +kernel

end Devices

end NiriBridge
