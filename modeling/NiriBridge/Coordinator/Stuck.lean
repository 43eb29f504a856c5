import NiriBridge.Coordinator.Drives
import NiriBridge.Coordinator.Relations
import Mathlib.Data.List.Induction

/-!
# Coordinator — Stuck

Nothing stays down.  The receiver of a device that has run is a receiver after some calls
(`Driven`), so what is known of receivers is known of devices; when the loop has ended, the one it
left (`LoopLeaves`) has been stopped (`stopped_run`).

* `nothing_stuck`: what is down at the backend is held for the session that is being received, or
  its release has failed and is still owed; when the loop has ended, only the latter is left.
-/

namespace NiriBridge

open Hoare

variable {A B T D : Type} [ActivitySource A] [InputSink B]

namespace Receiver

/-- A receiver that has been stopped has no session; if that has not failed, it owes no release. -/
theorem stop_next (reason : StopReason) (r : Receiver B) :
    (next r (.stop reason)).session = none ∧ ∀ r', stop reason r = .ok () r' →
      (next r (.stop reason)).pendingReleases = ∅ ∧ TouchpadsReset (next r (.stop reason)) := by
  cases hstop : stop reason r with
  | ok a r' =>
      have hnext : next r (.stop reason) = r' := by simp only [next, Call.run, hstop]
      rw [hnext]
      obtain ⟨hended, hpending, hreset⟩ := wp_of_ok (stop_spec reason r) hstop
      exact ⟨hended.session, fun _ _ => ⟨hpending, hreset⟩⟩
  | error e r' =>
      have hnext : next r (.stop reason) = r' := by simp only [next, Call.run, hstop]
      rw [hnext]
      exact ⟨(wp_of_error (stop_spec reason r) hstop).1.session, fun _ h => by cases h⟩

end Receiver

namespace Node

/-- The receiver is one after some calls. -/
structure Driven (sink : B) (n : Node A B T) : Prop where
  calls : ∃ calls, n.coordinator.receiver = Run.run Receiver.next (Receiver.new sink) calls

/-- A pass that only calls the receiver leaves it driven. -/
theorem driven_after {F : Format T D} {env : Env T} {sink : B} {s : Coordinator A B T}
    {m : CoordinatorM A B T Unit}
    (hs : ∃ calls, s.receiver = Run.run Receiver.next (Receiver.new sink) calls)
    (hm : wp m { s with outbox := [] }
      (fun _ s' => ∃ calls, s'.receiver = Run.run Receiver.next s.receiver calls)
      (fun _ s' => ∃ calls, s'.receiver = Run.run Receiver.next s.receiver calls)) :
    Driven sink (after F env m s).1 := by
  obtain ⟨calls, hcalls⟩ := hs
  have hreached : ∀ {s' : Coordinator A B T},
      (∃ calls, s'.receiver = Run.run Receiver.next s.receiver calls) →
        ∃ calls, s'.receiver = Run.run Receiver.next (Receiver.new sink) calls := by
    rintro s' ⟨calls', hcalls'⟩
    exact ⟨calls ++ calls', by rw [Run.run_append, ← hcalls, hcalls']⟩
  unfold after
  cases hrun : m { s with outbox := [] } with
  | ok a s' => exact ⟨hreached (wp_of_ok hm hrun)⟩
  | error stop s' =>
      obtain ⟨calls', hcalls'⟩ := hreached (wp_of_error hm hrun)
      have hstops := Coordinator.close_stops F env s'
      cases hclose : (Coordinator.close F env).run s' with
      | ok a s'' =>
          have hstop := wp_of_ok hstops hclose
          simp only [hclose]
          refine ⟨calls' ++ [.stop .disconnected], ?_⟩
          rw [Run.run_append, ← hcalls', Run.run_cons, Run.run_nil, hstop]
      | error e s'' => exact (wp_of_error hstops hclose).elim

/-- The greeting only calls the receiver. -/
theorem driven_connect (F : Format T D) (env : Env T) (config : Config)
    (desktop : Desktop) (sink : B) (activity : A) (unlocked : Bool) (now : ℕ)
    (files : Files T) : Driven sink
      (connect F env (Coordinator.new config desktop sink activity unlocked now files)).1 :=
  driven_after ⟨[], rfl⟩ (wp_mono (Coordinator.open_drives env _ (.inl trivial))
    (fun _ _ ⟨_, h⟩ => h.calls) fun _ _ ⟨_, _, h⟩ => h.calls)

/-- A step only calls the receiver. -/
theorem driven_next (F : Format T D) {sink : B} {n : Node A B T} (h : Driven sink n)
    (l : (Coordinator.Event × Env T) × Option Frame) : Driven sink (next F n l) := by
  unfold next step
  cases hn : n.stopped with
  | some stop => exact h
  | none =>
      exact driven_after h.calls (wp_mono (Coordinator.drives_pass l.1.1 l.2 _)
        (fun _ _ h => h.calls) fun _ _ h => h.calls)

/-- **The receiver of a device is a receiver after some calls**, in every run. -/
theorem driven_run (F : Format T D) (env : Env T) (config : Config) (desktop : Desktop) (sink : B)
    (activity : A) (unlocked : Bool) (now : ℕ) (files : Files T)
    (ls : List ((Coordinator.Event × Env T) × Option Frame)) : Driven sink (Run.run (next F)
      (connect F env (Coordinator.new config desktop sink activity unlocked now files)).1 ls) := by
  have hstep : ∀ (n : Node A B T) l, Driven sink n → Driven sink (next F n l) :=
    fun _ l h => driven_next F h l
  exact Run.run_invariant_of_step hstep
    (driven_connect F env config desktop sink activity unlocked now files)

/-! ### The end of the loop -/

/-- `m`, run from `s`, fails and leaves the receiver `r`. -/
def Leaves (m : CoordinatorM A B T Unit) (s : Coordinator A B T) (r : Receiver B) : Prop :=
  ∃ stop s', m { s with outbox := [] } = .error stop s' ∧ s'.receiver = r

/-- The loop of a device that connects in `s` has ended and left the receiver `r`: the greeting has
failed, or a pass of the loop while it ran. -/
def LoopLeaves (F : Format T D) (env : Env T) (s : Coordinator A B T)
    (ls : List ((Coordinator.Event × Env T) × Option Frame)) (r : Receiver B) : Prop :=
  Leaves (Coordinator.open env) s r ∨ ∃ ls₁ l ls₂, ls = ls₁ ++ l :: ls₂ ∧
    let n := Run.run (next F) (connect F env s).1 ls₁
    n.stopped = none ∧ Leaves (Coordinator.pass F l.1.2 l.1.1 l.2) n.coordinator r

/-- What the loop left is left whatever is attempted later. -/
theorem LoopLeaves.append {F : Format T D} {env : Env T} {s : Coordinator A B T}
    {ls : List ((Coordinator.Event × Env T) × Option Frame)} {r : Receiver B}
    (h : LoopLeaves F env s ls r) (ms : List ((Coordinator.Event × Env T) × Option Frame)) :
    LoopLeaves F env s (ls ++ ms) r := by
  rcases h with hopen | ⟨ls₁, l, ls₂, rfl, hleaves⟩
  · exact .inl hopen
  · exact .inr ⟨ls₁, l, ls₂ ++ ms, by simp, hleaves⟩

/-- A node that has ended has stopped the receiver it was left. -/
theorem after_stopped {F : Format T D} {env : Env T} {m : CoordinatorM A B T Unit}
    {s : Coordinator A B T} (h : (after F env m s).1.stopped ≠ none) :
    ∃ r, Leaves m s r ∧
      (after F env m s).1.coordinator.receiver = Receiver.next r (.stop .disconnected) := by
  unfold after at h ⊢
  cases hrun : m { s with outbox := [] } with
  | ok a s' =>
      rw [hrun] at h
      exact absurd rfl h
  | error stop s' =>
      have hstops := Coordinator.close_stops F env s'
      refine ⟨s'.receiver, ⟨stop, s', hrun, rfl⟩, ?_⟩
      cases hclose : (Coordinator.close F env).run s' with
      | ok a s'' =>
          have hstop := wp_of_ok hstops hclose
          simp only [hclose]
          exact hstop
      | error e s'' => exact (wp_of_error hstops hclose).elim

/-- When the loop has ended, the receiver it left has been stopped. -/
theorem stopped_run (F : Format T D) (env : Env T) (s : Coordinator A B T)
    (ls : List ((Coordinator.Event × Env T) × Option Frame))
    (h : (Run.run (next F) (connect F env s).1 ls).stopped ≠ none) :
    ∃ r, LoopLeaves F env s ls r ∧
      (Run.run (next F) (connect F env s).1 ls).coordinator.receiver =
        Receiver.next r (.stop .disconnected) := by
  induction ls using List.reverseRecOn with
  | nil =>
      obtain ⟨r, hleaves, hstop⟩ := after_stopped h
      exact ⟨r, .inl hleaves, hstop⟩
  | append_singleton ls l ih =>
      rw [Run.run_append, Run.run_cons, Run.run_nil] at h ⊢
      cases hn : (Run.run (next F) (connect F env s).1 ls).stopped with
      | some stop =>
          -- nothing happens any more
          have hsame : next F (Run.run (next F) (connect F env s).1 ls) l =
              Run.run (next F) (connect F env s).1 ls := by
            simp only [next, step, hn]
          obtain ⟨r, hleaves, hstop⟩ := ih (by simp [hn])
          exact ⟨r, hleaves.append [l], hsame.symm ▸ hstop⟩
      | none =>
          have hpass : next F (Run.run (next F) (connect F env s).1 ls) l =
              (after F l.1.2 (Coordinator.pass F l.1.2 l.1.1 l.2)
                (Run.run (next F) (connect F env s).1 ls).coordinator).1 := by
            simp only [next, step, hn]
          rw [hpass] at h ⊢
          obtain ⟨r, hleaves, hstop⟩ := after_stopped h
          exact ⟨r, .inr ⟨ls, l, [], rfl, hn, hleaves⟩, hstop⟩

/-- **Nothing stays down.**  Whatever a device finds and whatever its backend fails at: what is down
at the backend is held, or its release is still owed; a device that receives no session holds
nothing, and one that owes no release either has nothing down.  When the loop has ended the receiver
it left has been stopped; if that has not failed, nothing is down, on the touchpads neither. -/
theorem nothing_stuck (law : Receiver.SinkLaw B) (F : Format T D) (env : Env T) (config : Config)
    (desktop : Desktop) (sink : B) (hsink : ∀ c, ¬ law.down sink c) (activity : A) (unlocked : Bool)
    (now : ℕ) (files : Files T) (ls : List ((Coordinator.Event × Env T) × Option Frame)) :
    let n := Run.run (next F)
      (connect F env (Coordinator.new config desktop sink activity unlocked now files)).1 ls
    let r := n.coordinator.receiver
    (∀ c, law.down r.sink c → c ∈ r.state.held.keys ∨ c ∈ r.pendingReleases) ∧
      ((n.stopped = none → ∀ session, n.coordinator.role ≠ .receiving session) →
        r.state.held.keys = ∅ ∧ (r.pendingReleases = ∅ → ∀ c, ¬ law.down r.sink c)) ∧
      (n.stopped ≠ none → ∃ r₀,
        LoopLeaves F env (Coordinator.new config desktop sink activity unlocked now files) ls r₀ ∧
        r = Receiver.next r₀ (.stop .disconnected) ∧
        ((∃ r', Receiver.stop .disconnected r₀ = .ok () r') →
          (∀ c, ¬ law.down r.sink c) ∧ ¬ law.touched r.sink)) := by
  intro n r
  have hdriven : Driven sink n :=
    driven_run F env config desktop sink activity unlocked now files ls
  have hgood : Good False n := Run.run_invariant_of_step (fun n l h => good_next F h False.elim)
    (good_connect F env config desktop sink activity unlocked now files)
  obtain ⟨calls, hcalls⟩ := hdriven.calls
  have hinv : r.Inv := by
    show n.coordinator.receiver.Inv
    rw [hcalls]
    exact Receiver.inv_run sink calls
  have hcovers : Receiver.HeldCovers law r := by
    show Receiver.HeldCovers law n.coordinator.receiver
    rw [hcalls]
    exact Receiver.held_run hsink calls
  have hstopped :=
    stopped_run F env (Coordinator.new config desktop sink activity unlocked now files) ls
  -- the loop receives nothing, or it has ended and has stopped the receiver
  have hidle : (n.stopped = none → ∀ session, n.coordinator.role ≠ .receiving session) →
      r.session = none := by
    intro hrole
    by_cases hn : n.stopped = none
    · by_contra hsession
      obtain ⟨session, hsession⟩ := Option.ne_none_iff_exists'.mp hsession
      have hrelated := (hgood.relations hn).related (hgood.receiver hn)
      refine hrole hn session
        ((hrelated.receiving session).mpr ⟨hsession, hinv.receiving_iff.mpr ?_⟩)
      rw [hsession]
      rfl
    · obtain ⟨r₀, -, hstop⟩ := hstopped hn
      exact (congrArg Receiver.session hstop).trans (Receiver.stop_next _ r₀).1
  -- a code that is down is held or owed, and without a session none is held
  have hclear : r.session = none → r.pendingReleases = ∅ → ∀ c, ¬ law.down r.sink c := by
    intro hsession hpending c hc
    rcases hcovers c hc with hheld | howed
    · rw [hinv.idle hsession] at hheld
      exact SortedSet.not_mem_empty c hheld
    · rw [hpending] at howed
      exact SortedSet.not_mem_empty c howed
  refine ⟨hcovers, fun hrole => ⟨hinv.idle (hidle hrole), hclear (hidle hrole)⟩, fun hn => ?_⟩
  obtain ⟨r₀, hleaves, hstop⟩ := hstopped hn
  refine ⟨r₀, hleaves, hstop, fun ⟨r', hok⟩ => ?_⟩
  obtain ⟨hsession, hspec⟩ := Receiver.stop_next .disconnected r₀
  obtain ⟨hpending, b, hreset⟩ := hspec r' hok
  refine ⟨hclear (hidle fun h => absurd h hn)
    ((congrArg Receiver.pendingReleases hstop).trans hpending), ?_⟩
  rw [← hstop] at hreset
  exact law.reset_ok hreset

open Sample in
/-- The press of a key fails, and then one release after the other: the release of key 30 is still
owed when the loop has ended. -/
theorem nothing_stuck_failing :
    let sink : Receiver.Scripted :=
      ⟨∅, [(true, true), (true, true), (false, true), (false, false), (false, false),
      (false, false)]⟩
    let n := Run.run (next format)
      (connect format (env 0)
        (Coordinator.new (config .top) (desktop .top) sink (monitor fun _ => absent) true 0
        files)).1
      (greeting .bottom ++ [message (.begin 1 ⟨"default", 1 / 2⟩) true,
        message (.input 1 0 (.key 30 true)) false, message (.input 1 1 (.key 31 true)) false])
    n.stopped.isSome = true ∧ 30 ∈ n.coordinator.receiver.sink.down ∧
      ∀ c, c ∈ n.coordinator.receiver.sink.down → c = 30 := by
  intro sink
  have h := nothing_stuck Receiver.Scripted.sinkLaw format (env 0) (config .top) (desktop .top) sink
    (fun c => SortedSet.not_mem_empty c) (monitor fun _ => absent) true 0 files
    (greeting .bottom ++ [message (.begin 1 ⟨"default", 1 / 2⟩) true,
      message (.input 1 0 (.key 30 true)) false, message (.input 1 1 (.key 31 true)) false])
  generalize hn :
    Run.run (next format) (connect format (env 0) (Coordinator.new (config .top) (desktop .top)
    sink (monitor fun _ => absent) true 0 files)).1
      (greeting .bottom ++ [message (.begin 1 ⟨"default", 1 / 2⟩) true,
      message (.input 1 0 (.key 30 true)) false,
      message (.input 1 1 (.key 31 true)) false]) = n at h ⊢
  have hrun : n.stopped.isSome = true ∧ n.coordinator.receiver.pendingReleases = .ofList [30] ∧
      30 ∈ n.coordinator.receiver.sink.down := by
    rw [← hn]
    decide +kernel
  obtain ⟨hstopped, hpending, hdown⟩ := hrun
  have hheld := (h.2.1 fun hrun => absurd hrun (Option.isSome_iff_ne_none.mp hstopped)).1
  refine ⟨hstopped, hdown, fun c hc => ?_⟩
  rcases h.1 c hc with hc | hc
  · exact absurd (hheld ▸ hc) (SortedSet.not_mem_empty c)
  · simpa [hpending] using hc

end Node

end NiriBridge
