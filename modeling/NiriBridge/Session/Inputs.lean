import NiriBridge.Session.Races

/-!
# Session — Inputs

What becomes of the inputs of a session.  The law of conservation (`Flows`) holds in every run,
whatever ends meet whatever session: what a device passes on of a session is a prefix of what its
peer has written for it.  That a message of a session that is over has no effect holds of inputs in
every run, and of ends in the runs without races.
-/

namespace NiriBridge

open Hoare Session Duplex

variable {A B T D : Type} [ActivitySource A] [InputSink B]

namespace Coordinator

variable {env : Env T} {s : Coordinator A B T}

/-- An input of a session that is not being received has no effect. -/
theorem peerInput_other {session sequence : ℕ} {event : InputEvent}
    (h : s.role ≠ .receiving session) (helapsed : env.elapsed < 200) :
    peerInput env session sequence event s = .ok () s := by
  have hspec :
      wp (peerInput env session sequence event) s (fun _ s' => s' = s) (fun _ _ => False) := by
    rw [peerInput, wp_bind, wp_own]
    refine ⟨fun _ _ => ?_, fun e he => ?_⟩
    · rw [wp_bind, wp_get, if_neg h]
      exact rfl
    · exact absurd helapsed (ensure_eq_error.mp he).1
  cases hm : peerInput env session sequence event s with
  | ok a s' => rw [wp_of_ok hspec hm]
  | error e s' => exact (wp_of_error hspec hm).elim

omit [ActivitySource A] in
/-- An end of a session that there is not has no effect. -/
theorem peerEnd_other {session : ℕ} {exit : Option EdgePosition}
    (h : s.role.session ≠ some session) :
    peerEnd env session exit s = .ok () s := by
  have hspec : wp (peerEnd env session exit) s (fun _ s' => s' = s) (fun _ _ => False) := by
    rw [peerEnd, wp_bind, wp_get, if_neg h]
    exact rfl
  cases hm : peerEnd env session exit s with
  | ok a s' => rw [wp_of_ok hspec hm]
  | error e s' => exact (wp_of_error hspec hm).elim

omit [ActivitySource A] [InputSink B] in
/-- Only a device on its own starts a session. -/
theorem Starts.local {event : Event} {frame : Option Frame} (h : s.Starts event frame) :
    s.role = .local := by
  unfold Starts at h
  grind

end Coordinator

namespace Devices

/-- The end is about the session that the device has. -/
def IsAbout (s : Coordinator A B T) (session : ℕ) (own : Bool) : Prop :=
  s.role.session = some session ∧ own = !s.role.isSending

/-- **The inputs of a session arrive**: what a device passes on of a session is a prefix of what its
peer has written for it; the devices never disagree about a number, nor is the receiver busy; an
input of a session that is not being received has no effect; and in the runs without races neither
has an end of another session than the device has. -/
theorem inputs_arrive (F : Format T D) (x : Side → Setup A B T) (ls : List (Step T)) :
    let d := Run.run (next F) (start F x) ls
    (∀ s n,
      passedOf n (d.node s).coordinator.receiver.passed <+: inputsOf n (signals (d.sent s.other))) ∧
    (∀ s e, e = ["Input sequence mismatch"] ∨ e = ["Receiver is busy"] →
      (d.node s).stopped = some (.failed e) → Receiver.BackendError B e) ∧
    (∀ s session sequence event (env : Env T), (d.node s).coordinator.role ≠ .receiving session →
      env.elapsed < 200 →
      Coordinator.peerInput env session sequence event (d.node s).coordinator =
        .ok () (d.node s).coordinator) ∧
    (Run.Along (next F) (Apart F) (start F x) ls →
      ∀ s frame rest session exit (env : Env T),
      (d.node s).stopped = none → d.chan s = frame :: rest →
        frame.message = .end session exit → ¬ IsAbout (d.node s).coordinator session frame.own →
        Coordinator.peerEnd env session exit (d.node s).coordinator =
        .ok () (d.node s).coordinator) := by
  intro d
  have hstep : ∀ (d : World A B T) (l : Step T), (∃ a, Flows d a) → ∃ a, Flows (next F d l) a :=
    fun d l ⟨a, ha⟩ => flows_next F ha l
  obtain ⟨a, hflows⟩ : ∃ a, Flows d a := Run.run_invariant_of_step hstep (flows_start F x)
  refine ⟨fun s n => ?_, fun s e he hstop => ?_, fun s session sequence event env => ?_, ?_⟩
  · have hstream := hflows.stream s.other
    rw [Side.other_other] at hstream
    rw [← (hflows.plays s).passed]
    exact hstream.is_prefix n
  · rcases hflows.stop s _ hstop with hordinary | hoverlap
    · refine hordinary.resolve_right fun hnot => hnot ?_
      rcases he with rfl | rfl <;> decide
    · rcases he with rfl | rfl <;> exact absurd (Stop.failed.inj hoverlap) (by decide)
  · exact Coordinator.peerInput_other
  · intro halong s frame rest session exit env hn hchan hmessage habout
    refine Coordinator.peerEnd_other fun hsession => habout ⟨hsession, ?_⟩
    exact (agrees_run halong).about hn hchan hmessage hsession

open Sample

omit [InputSink B] in
/-- A device that receives a session neither starts one nor gives one up. -/
theorem apart_of_receiving {F : Format T D} {d : World A B T} {l : Step T} {session : ℕ}
    (h : (d.node l.side).coordinator.role = .receiving session) : Apart F d l := by
  intro frame rest _ _ s
  refine ⟨fun hstarts => ?_, fun _ session' sequence edge fraction hrole => ?_⟩
  · exact absurd (h.symm.trans hstarts.local) (by simp)
  · exact absurd (h.symm.trans hrole) (by simp)

omit [InputSink B] in
/-- Nor does a device on its own that takes a message. -/
theorem apart_of_takes {F : Format T D} {d : World A B T} {l : Step T} (hl : l.takes = true)
    (h : (d.node l.side).coordinator.role = .local) : Apart F d l := by
  intro frame rest htakes _ s
  obtain ⟨message, rfl⟩ := Option.isSome_iff_exists.mp (htakes.trans hl)
  refine ⟨fun hstarts => hstarts.elim, fun _ session sequence edge fraction hrole => ?_⟩
  exact absurd (h.symm.trans hrole) (by simp)

/-- The pointer moves twice and the session is released. -/
def moving : List (Step Unit) :=
  greetings ++ [crosses .left 1 0, takes .right,
    acts .left (.capture (some ⟨1, .input (.motion 1 0)⟩)) 0, takes .right,
    acts .left (.capture (some ⟨1, .input (.motion 0 1)⟩)) 0, acts .left (.release 0) 0]

/-- The other device returns the pointer before it learns of the second motion and of the end. -/
def parting : List (Step Unit) := moving ++ [crosses .right 1 0, takes .right]

/-- No end of this run meets the begin of the same number. -/
theorem parting_apart : Run.Along (next format) (Apart format) (start format devices) parting := by
  have hmoving :
      Run.Along (next format) Unhindered (start format devices) moving := by decide +kernel
  have hrole : let d := Run.run (next format) (start format devices) moving
      (d.node .right).coordinator.role = .receiving 1 ∧
        ((next format d (crosses .right 1 0)).node .right).coordinator.role = .local := by
    decide +kernel
  refine Run.along_append.mpr ⟨Run.along_mono (fun _ _ => Unhindered.apart) hmoving, ?_⟩
  generalize Run.run (next format) (start format devices) moving = d at hrole ⊢
  obtain ⟨hreceiving, hlocal⟩ := hrole
  exact ⟨apart_of_receiving hreceiving, apart_of_takes rfl hlocal, trivial⟩

/-- Of the two motions the first has arrived; the second came too late, and so does the end. -/
theorem inputs_arrive_parting :
    let d := Run.run (next format) (start format devices) parting
    [(0, .motion 1 0)] <+: inputsOf 1 (signals (d.sent .left)) ∧
      (∀ s, (d.node s).stopped ≠ some (.failed ["Input sequence mismatch"])) ∧
      Coordinator.peerInput (env 0) 1 1 (.motion 0 1) (d.node .right).coordinator =
        .ok () (d.node .right).coordinator ∧
      d.chan .right = [⟨.end 1 none, true⟩] ∧
      Coordinator.peerEnd (env 0) 1 none (d.node .right).coordinator =
        .ok () (d.node .right).coordinator := by
  have hfacts : let d := Run.run (next format) (start format devices) parting
      passedOf 1 (d.node .right).coordinator.receiver.passed = [(0, .motion 1 0)] ∧
        d.chan .right = [⟨.end 1 none, true⟩] ∧
        (d.node .right).coordinator.role = .local ∧ (d.node .right).stopped.isNone = true := by
    decide +kernel
  obtain ⟨hwritten, herrors, hinput, hend⟩ := inputs_arrive format devices parting
  replace hend := hend parting_apart
  generalize Run.run (next format) (start format devices) parting = d
    at hfacts hwritten herrors hinput hend ⊢
  obtain ⟨hpassed, hchan, hrole, hruns⟩ := hfacts
  refine ⟨hpassed ▸ hwritten .right 1, fun s hstop => ?_, ?_, hchan, ?_⟩
  · cases herrors s _ (.inl rfl) hstop with
    | poll h | emit h | selectOutput h | configureTouchpads h | resetTouchpads h => cases h
  · exact hinput .right 1 1 (.motion 0 1) (env 0) (by rw [hrole]; simp) (by decide)
  · refine hend .right ⟨.end 1 none, true⟩ [] 1 none (env 0)
      (Option.isNone_iff_eq_none.mp hruns) hchan
      rfl fun habout => ?_
    rw [IsAbout, hrole] at habout
    cases habout.1

/-- **An end of a session that is over has an effect**: the left device's session 1 has ended on
both sides when its end reaches the right device, which sends a session 1 of its own and gives it
up. -/
theorem stale_end_has_effect :
    let d := Run.run (next format) (start format devices) quarrel
    d.chan .right = [⟨.end 1 none, true⟩] ∧ (d.node .left).coordinator.role = .local ∧
      (d.node .right).coordinator.role = .sending 1 0 0 (1 / 2) ∧
      ((next format d (takes .right)).node .right).coordinator.role = .local := by
  decide +kernel

end Devices

end NiriBridge
