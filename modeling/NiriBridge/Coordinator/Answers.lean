import NiriBridge.Coordinator.Turns

/-!
# Coordinator — Answers

Every control client that asks for a layout is answered once, also when the loop fails in the middle
of the save: a turn that takes a request answers it or keeps its client waiting (`Turn.balance`),
and the end of the loop answers the one who waits.

`layouts_answered` is the result: at any point of a run the answers to a client, and one more while
it waits, are as many as its requests for layouts, up to the releases it has asked for; when the
loop has ended nobody waits.
-/

namespace NiriBridge

variable {A B T D : Type} {F : Format T D}

/-- The answers that a client has got, and one more while it waits for a layout. -/
def Hand.served (h : Hand T) (client : ℕ) : ℕ :=
  h.replies.countP (·.1 == client) + (h.pending.bind PendingLayout.reply).toList.count client

/-- A reply counts for the client it is given to. -/
theorem Hand.served_replies (h : Hand T) (client client' : ℕ) (reply : Reply) :
    Hand.served { h with replies := h.replies ++ [(client', reply)] } client =
      h.served client + if client' = client then 1 else 0 := by
  rw [Hand.served, Hand.served, List.countP_append, List.countP_cons, List.countP_nil, zero_add]
  simp only [beq_iff_eq]
  omega

namespace Coordinator

variable {env : Env T} {event : Option Event} {heard : Option LayoutMessage} {h h' : Hand T}
  {ended : Bool} {out : List LayoutMessage}

/-- The client asks for a layout. -/
def asks (client : ℕ) (event : Option Event) : ℕ := (asking event).toList.count client

/-- The client asks for the release of control. -/
def asksRelease (client : ℕ) : Option Event → ℕ
  | some (.release other) => if other = client then 1 else 0
  | _ => 0

/-- The client of a layout that is given up is told so instead of waiting. -/
theorem served_given (client : ℕ) {pending : PendingLayout T} {config : Option T} {code : String}
    (hpending : h.pending = some pending) :
    Hand.served
      { h with
        pending := none, config := config, replies := h.replies ++ told pending code } client =
      h.served client := by
  rw [Hand.served, Hand.served, hpending, List.countP_append, told, Option.bind_some]
  cases hreply : pending.reply with
  | none => rfl
  | some other =>
      simp only [Option.map_some, Option.toList_some, Option.bind_none, Option.toList_none,
        List.count_nil, List.countP_cons, List.countP_nil, List.count_cons]
      omega

/-- A turn serves the one who asks, and nobody else; a release may end in a failure of the loop. -/
theorem Turn.balance (client : ℕ) (ht : Turn F env event heard h ended h' out)
    (hheard : heard ≠ none → event = none) :
    h.served client + asks client event ≤ h'.served client ∧
      h'.served client ≤ h.served client + asks client event + asksRelease client event := by
  -- where nobody asks, who has been served is who was
  have hsame : asking event = none → h'.served client = h.served client →
      h.served client + asks client event ≤ h'.served client ∧
        h'.served client ≤ h.served client + asks client event + asksRelease client event := by
    intro hevent heq
    rw [asks, hevent, heq]
    exact ⟨Nat.le_refl _, Nat.le_add_right ..⟩
  -- what is heard from the peer comes without a request
  have hquiet : ∀ {m}, heard = some m → asking event = none := fun hm => by
    rw [hheard (by simp [hm])]
    rfl
  cases ht with
  | rest hevent => exact hsame hevent rfl
  | @answers _ other reply hevent =>
      rw [Hand.served_replies]
      rcases hevent with ⟨rfl, -⟩ | ⟨layout, code, rfl, -⟩
      · simp only [asks, asking, asksRelease, Option.toList_none, List.count_nil]
        omega
      · simp only [asks, asking, asksRelease, Option.toList_some, List.count_cons,
          List.count_nil, beq_iff_eq]
        omega
  | @proposes _ other layout id p deadline _ hevent hid hfree hp hout =>
      subst hevent
      simp only [Hand.served, hfree, asks, asking, asksRelease, Option.bind_some, Option.bind_none,
        Option.toList_some, Option.toList_none, List.count_nil]
      omega
  | refuses hm => exact hsame (hquiet hm) rfl
  | promises hm hfree =>
      exact hsame (hquiet hm) (by simp only [Hand.served, hfree, Option.bind_some,
        Option.bind_none])
  | installs hm hpending =>
      exact hsame (hquiet hm) (by simp only [Hand.served, hpending, Option.bind_some])
  | keeps hm hpending hreply =>
      exact hsame (hquiet hm) (by simp only [Hand.served, hpending, Option.bind_some,
        Option.bind_none, hreply])
  | @concludes pending other revision error hm hpending hreply =>
      refine hsame (hquiet hm) ?_
      simp only [Hand.served, hpending, hreply, Option.bind_some, Option.bind_none,
        Option.toList_some, Option.toList_none, List.count_nil, List.countP_append,
        List.countP_cons, List.countP_nil, List.count_cons]
      omega
  | gives hevent hpending => exact hsame hevent (served_given client hpending)

/-- The end of the loop answers the client that waits, and no other. -/
theorem Closes.served (client : ℕ) (hc : Closes F env h h') :
    h'.served client = h.served client := by
  cases hc with
  | free => exact rfl
  | drops hpending => exact served_given client hpending

/-- Nobody waits after the loop has ended. -/
theorem Closes.gone (hc : Closes F env h h') : h'.pending = none := by
  cases hc with
  | free hfree => exact hfree
  | drops => exact rfl

end Coordinator

namespace Node

open Coordinator

variable [ActivitySource A] [InputSink B]

/-- The requests of a kind that a device takes in a run: those of its steps while its loop goes
on. -/
def requests (F : Format T D) (kind : Option Event → ℕ) :
    Node A B T → List ((Event × Env T) × Option Frame) → ℕ
  | _, [] => 0
  | n, l :: ls =>
      (if n.stopped.isNone then kind (waited l.1.1 l.2) else 0) + requests F kind (next F n l) ls

/-- A step answers once for a layout that is asked for, and at most once for a release. -/
theorem served_next (F : Format T D) (client : ℕ) (n : Node A B T)
    (l : (Event × Env T) × Option Frame) :
    n.coordinator.hand.served client +
    (if n.stopped.isNone then asks client (waited l.1.1 l.2) else 0) ≤
        (next F n l).coordinator.hand.served client ∧
      (next F n l).coordinator.hand.served client ≤
        n.coordinator.hand.served client +
        (if n.stopped.isNone then asks client (waited l.1.1 l.2) else 0) +
          (if n.stopped.isNone then asksRelease client (waited l.1.1 l.2) else 0) := by
  cases hn : n.stopped with
  | some stop =>
      rw [next, step, hn]
      exact ⟨Nat.le_refl _, Nat.le_refl _⟩
  | none =>
      obtain ⟨ended, hand, hturn, hend⟩ := step_turn F hn l.1 l.2
      have hheard : l.2.bind Frame.layout ≠ none → waited l.1.1 l.2 = none := by
        cases l.2 with
        | none => exact fun h => absurd rfl h
        | some f => exact fun _ => rfl
      have hbalance := hturn.balance client hheard
      have hserved : (next F n l).coordinator.hand.served client = hand.served client := by
        rcases hend with ⟨-, -, hhand⟩ | ⟨-, -, hcloses⟩
        · exact congrArg (Hand.served · client) hhand
        · exact hcloses.served client
      rw [hserved]
      exact hbalance

/-- Nobody waits when the loop has ended. -/
def Free (n : Node A B T) : Prop := n.stopped ≠ none → n.coordinator.pendingLayout = none

/-- Once the loop has ended nobody begins to wait. -/
theorem free_next {n : Node A B T} (h : Free n) (l : (Event × Env T) × Option Frame) :
    Free (next F n l) := by
  cases hn : n.stopped with
  | some stop =>
      rw [next, step, hn]
      exact h
  | none =>
      obtain ⟨ended, hand, -, ⟨-, hruns, -⟩ | ⟨-, -, hcloses⟩⟩ := step_turn F hn l.1 l.2
      · exact fun hstopped => absurd hruns hstopped
      · exact fun _ => hcloses.gone

/-- Over a run the answers are the requests for layouts, and at most those for a release. -/
theorem served_run (F : Format T D) (client : ℕ) (n : Node A B T)
    (ls : List ((Event × Env T) × Option Frame)) :
    n.coordinator.hand.served client + requests F (asks client) n ls ≤
        (Run.run (next F) n ls).coordinator.hand.served client ∧
      (Run.run (next F) n ls).coordinator.hand.served client ≤
        n.coordinator.hand.served client + requests F (asks client) n ls +
          requests F (asksRelease client) n ls := by
  induction ls generalizing n with
  | nil => exact ⟨Nat.le_refl _, Nat.le_refl _⟩
  | cons l ls ih =>
      obtain ⟨hleast, hmost⟩ := ih (next F n l)
      obtain ⟨hleast', hmost'⟩ := served_next F client n l
      rw [Run.run_cons, requests, requests]
      omega

/-- **Every request for a layout is answered once.**  However a run of a device goes on and ends, a
client has as many answers as it has asked for layouts, counting one more while it waits, and at
most one more for each release it has asked for; when the loop has ended nobody waits for an
answer. -/
theorem layouts_answered (F : Format T D) (config : Config) (desktop : Desktop) (sink : B)
    (activity : A) (unlocked : Bool) (now : ℕ) (files : Files T) (env : Env T)
    (ls : List ((Event × Env T) × Option Frame)) (client : ℕ) :
    let start := (connect F env (Coordinator.new config desktop sink activity unlocked now files)).1
    let n := Run.run (next F) start ls
    requests F (asks client) start ls ≤ n.coordinator.hand.served client ∧
      n.coordinator.hand.served client ≤
        requests F (asks client) start ls + requests F (asksRelease client) start ls ∧
      (n.stopped ≠ none → n.coordinator.pendingLayout = none) := by
  intro start n
  have hopens : Turns F env none none (Coordinator.open env : CoordinatorM A B T Unit) :=
    turns_of_keeps rfl (keeps_open env)
  obtain ⟨ended, hand, hturn, hend⟩ := after_turn F env hopens
    (Coordinator.new config desktop sink activity unlocked now files)
  have hserved : start.coordinator.hand.served client = 0 := by
    have hnone : hand.served client ≤ 0 := (hturn.balance client fun _ => rfl).2
    rcases hend with ⟨-, -, hhand⟩ | ⟨-, -, hcloses⟩
    · exact Nat.le_zero.mp ((congrArg (Hand.served · client) hhand).le.trans hnone)
    · exact Nat.le_zero.mp ((hcloses.served client).le.trans hnone)
  have hfree : Free start := by
    rcases hend with ⟨-, hruns, -⟩ | ⟨-, -, hcloses⟩
    · exact fun hstopped => absurd hruns hstopped
    · exact fun _ => hcloses.gone
  have hrun := served_run F client start ls
  rw [hserved, zero_add] at hrun
  have hnext : ∀ (n : Node A B T) l, Free n → Free (next F n l) := fun _ l h => free_next h l
  exact ⟨hrun.1, hrun.2, Run.run_invariant_of_step hnext hfree⟩

end Node

end NiriBridge
