import NiriBridge.Session.Saves

/-!
# Session — Refusals

The messages of one layout go back and forth in rounds: prepare, prepared, commit, result.  Each is
written at most once, because it answers the one before (`Rounds`); so a device that has taken a
refusal knows that its peer never keeps its half.

* `save_refused`: a client that is told of a failure other than `layout_unconfirmed` has the old
  text on the file of its device, and in no step of the run, before or after, does the peer install
  its half.
-/

namespace NiriBridge

open Hoare Duplex

variable {A B T D : Type} {F : Format T D}

/-- How far the exchange about a layout has come. -/
def LayoutMessage.round : LayoutMessage → Option (ℕ × String)
  | .prepare id _ _ => some (0, id)
  | .prepared id _ _ => some (1, id)
  | .commit id => some (2, id)
  | .result id _ _ _ => some (3, id)
  | .abort _ => none

/-- Whether a message is the one of this round. -/
def LayoutMessage.isRound (k : ℕ) (id : String) (m : LayoutMessage) : Bool :=
  m.round == some (k, id)

/-- Whether a frame is the one of this round. -/
def Frame.isRound (k : ℕ) (id : String) (frame : Frame) : Bool :=
  frame.layout.any (LayoutMessage.isRound k id)

/-- The messages of a round among the frames. -/
theorem countP_layouts (k : ℕ) (id : String) (l : List Frame) :
    l.countP (Frame.isRound k id) = (layouts l).countP (LayoutMessage.isRound k id) := by
  induction l with
  | nil => rfl
  | cons f l ih =>
      cases hf : f.layout with
      | none =>
          rw [layouts, List.filterMap_cons_none hf, List.countP_cons, ih]
          simp [Frame.isRound, hf, layouts]
      | some m =>
          rw [layouts, List.filterMap_cons_some hf, List.countP_cons, List.countP_cons, ih]
          simp [Frame.isRound, hf, layouts]

namespace Coordinator

variable {env : Env T} {event : Option Event} {heard : Option LayoutMessage} {h h' : Hand T}
  {ended : Bool} {out : List LayoutMessage} {k : ℕ} {id : String}

/-- At most one message answers. -/
theorem countP_of_sublist {m : LayoutMessage} (hout : List.Sublist out [m]) :
    out.countP (LayoutMessage.isRound k id) ≤ if m.round = some (k, id) then 1 else 0 := by
  refine hout.countP_le.trans ?_
  rw [List.countP_cons, List.countP_nil]
  simp [LayoutMessage.isRound]

/-- Every round but the first answers the one before. -/
theorem Turn.answers_round (ht : Turn F env event heard h ended h' out) :
    out.countP (LayoutMessage.isRound (k + 1) id) ≤
    heard.toList.countP (LayoutMessage.isRound k id) := by
  have hround : ∀ {m m' : LayoutMessage} {j i}, heard = some m' → List.Sublist out [m] →
      m'.round = some (j, i) → m.round = some (j + 1, i) →
      out.countP (LayoutMessage.isRound (k + 1) id) ≤
      heard.toList.countP (LayoutMessage.isRound k id) := by
    rintro m m' j i rfl hout hm' hm
    refine (countP_of_sublist hout).trans ?_
    rw [hm]
    split_ifs with heq
    · obtain ⟨hj, rfl⟩ := Prod.mk.inj (Option.some.inj heq)
      obtain rfl := Nat.succ.inj hj
      simp [LayoutMessage.isRound, hm']
    · exact Nat.zero_le _
  have hnone : ∀ {m : LayoutMessage}, List.Sublist out [m] → m.round ≠ some (k + 1, id) →
      out.countP (LayoutMessage.isRound (k + 1) id) ≤
      heard.toList.countP (LayoutMessage.isRound k id) := by
    intro m hout hm
    exact (countP_of_sublist hout).trans (by rw [if_neg hm]; exact Nat.zero_le _)
  cases ht with
  | rest | answers | concludes => exact Nat.zero_le _
  | proposes _ _ _ _ hout => exact hnone hout (by simp [LayoutMessage.round])
  | refuses hheard hout => exact hround hheard hout rfl rfl
  | promises hheard _ _ hout => exact hround hheard hout rfl rfl
  | installs hheard _ _ hout => exact hround hheard hout rfl rfl
  | keeps hheard _ _ hout => exact hround hheard hout rfl rfl
  | gives _ _ _ _ hout =>
      rcases hout with hout | ⟨hheard, error, hout⟩
      · exact hnone hout (by simp [LayoutMessage.round])
      · exact hround hheard hout rfl rfl

/-- A layout is proposed once, for a client, under the name that was drawn. -/
theorem Turn.proposes_round (id : String) (ht : Turn F env event heard h ended h' out) :
    out.countP (LayoutMessage.isRound 0 id) ≤ 1 ∧ (out.countP (LayoutMessage.isRound 0 id) ≠ 0 →
      ∃ client layout, event = some (.applyLayout client layout) ∧ env.transactionId = .ok id) := by
  have hnone : ∀ {m : LayoutMessage}, List.Sublist out [m] → m.round ≠ some (0, id) →
      out.countP (LayoutMessage.isRound 0 id) = 0 := by
    intro m hout hm
    have hle : out.countP (LayoutMessage.isRound 0 id) ≤ _ := countP_of_sublist hout
    rw [if_neg hm] at hle
    exact Nat.le_zero.mp hle
  have hzero : out.countP (LayoutMessage.isRound 0 id) = 0 →
      out.countP (LayoutMessage.isRound 0 id) ≤ 1 ∧ (out.countP (LayoutMessage.isRound 0 id) ≠ 0 →
        ∃ client layout, event = some (.applyLayout client layout) ∧ env.transactionId = .ok id) :=
    fun h => ⟨h.le.trans (Nat.zero_le 1), fun hne => absurd h hne⟩
  cases ht with
  | rest | answers | concludes => exact hzero rfl
  | @proposes _ client layout id' _ _ _ hevent hid _ _ hout =>
      by_cases heq : id' = id
      · subst heq
        refine ⟨(countP_of_sublist hout).trans ?_, fun _ => ⟨client, layout, hevent, hid⟩⟩
        split_ifs
        · exact Nat.le_refl 1
        · exact Nat.zero_le 1
      · exact hzero (hnone hout (by simp [LayoutMessage.round, heq]))
  | refuses _ hout => exact hzero (hnone hout (by simp [LayoutMessage.round]))
  | promises _ _ _ hout => exact hzero (hnone hout (by simp [LayoutMessage.round]))
  | installs _ _ _ hout => exact hzero (hnone hout (by simp [LayoutMessage.round]))
  | keeps _ _ _ hout => exact hzero (hnone hout (by simp [LayoutMessage.round]))
  | gives _ _ _ _ hout =>
      rcases hout with hout | ⟨-, error, hout⟩
      · exact hzero (hnone hout (by simp [LayoutMessage.round]))
      · exact hzero (hnone hout (by simp [LayoutMessage.round]))

/-! ### The end of a pending layout -/

/-- A layout that is given up with another answer than `layout_unconfirmed` has been refused by the
peer, or has failed on this device after the peer has answered. -/
theorem Turn.refused (id : String) {h₁ : Hand T} {pending : PendingLayout T} {client : ℕ}
    {code : String} (ht : Turn F env event heard h ended h₁ out)
    (hend : ended = false ∧ h' = h₁ ∨ ended = true ∧ Closes F env h₁ h')
    (hpending : h.pending = some pending) (hreply : pending.reply = some client)
    (hgone : h'.pending = none) (hanswer : h'.replies = h.replies ++ [(client, .failure code)])
    (hcode : code ≠ "layout_unconfirmed") :
    Undone F env.rollback pending.prepared h.config h'.config ∧
      ((∃ ok error, heard = some (.prepared pending.id ok error)) ∨
        ∃ revision error, heard = some (.result pending.id false revision error)) ∧
      out.countP (LayoutMessage.isRound 2 id) = 0 := by
  -- a layout that is still pending when the loop ends is given up as unconfirmed
  have hstays : h₁.pending.isSome = true → h₁.replies = h.replies →
      ∀ q, h₁.pending = some q → q.reply = some client → False := by
    intro _ hreplies q hq hqreply
    rcases hend with ⟨-, rfl⟩ | ⟨-, hcloses⟩
    · cases hgone.symm.trans hq
    · cases hcloses with
      | free hfree => cases hfree.symm.trans hq
      | @drops q' config hq' hconfig =>
          obtain rfl := Option.some.inj (hq.symm.trans hq')
          have hlist :
              h₁.replies ++ told q "layout_unconfirmed" = h.replies ++ [(client, .failure code)] :=
                hanswer
          rw [hreplies, told, hqreply] at hlist
          have heq := List.append_cancel_left hlist
          simp only [Option.map_some, Option.toList_some, List.cons.injEq, Prod.mk.injEq,
            Reply.failure.injEq] at heq
          exact hcode heq.1.2.symm
  have hlength : h'.replies.length = h.replies.length + 1 := by
    rw [hanswer, List.length_append, List.length_singleton]
  cases ht with
  | rest | refuses => exact (hstays (by rw [hpending]; rfl) rfl pending hpending hreply).elim
  | answers =>
      rcases hend with ⟨-, rfl⟩ | ⟨-, hcloses⟩
      · cases hgone.symm.trans hpending
      · cases hcloses with
        | free hfree => cases hfree.symm.trans hpending
        | @drops q config hq hconfig =>
            obtain rfl := Option.some.inj (hpending.symm.trans hq)
            simp [told, hreply] at hlength
  | proposes _ _ hfree => cases hfree.symm.trans hpending
  | promises _ hfree => cases hfree.symm.trans hpending
  | @installs _ q error _ hheard hq hqreply hout =>
      obtain rfl := Option.some.inj (hpending.symm.trans hq)
      exact (hstays rfl rfl _ rfl hreply).elim
  | @keeps q _ hheard hq hqreply hout =>
      obtain rfl := Option.some.inj (hpending.symm.trans hq)
      cases hqreply.symm.trans hreply
  | @concludes q client' revision error hheard hq hqreply =>
      rcases hend with ⟨hended, -⟩ | ⟨-, hcloses⟩
      · cases hended
      · cases hcloses with
        | free =>
            have heq := List.append_cancel_left hanswer
            cases (Prod.mk.inj (List.cons.inj heq).1).2
        | drops hq' => cases hq'
  | @gives _ q code' config _ hevent hq hconfig hcode' hout =>
      -- the only turn that answers the client with such a code
      obtain rfl := Option.some.inj (hpending.symm.trans hq)
      have hsame : h' = { h with
          pending := none, config := config, replies := h.replies ++ told pending code' } := by
        rcases hend with ⟨-, rfl⟩ | ⟨-, hcloses⟩
        · rfl
        · cases hcloses with
          | free => rfl
          | drops hq' => cases hq'
      subst hsame
      have heq := List.append_cancel_left hanswer
      simp only [told, hreply, Option.map_some, Option.toList_some, List.cons.injEq, Prod.mk.injEq,
        Reply.failure.injEq, true_and, and_true] at heq
      refine ⟨hconfig, hcode'.resolve_left fun hu => hcode (heq.symm.trans hu), ?_⟩
      rcases hout with hout | ⟨-, error, hout⟩
      · exact Nat.le_zero.mp (countP_of_sublist hout)
      · exact Nat.le_zero.mp (countP_of_sublist hout)

/-- A device that has promised its half does not change its file, unless it is asked to keep it. -/
theorem Turn.promised_config {h₁ : Hand T} {pending : PendingLayout T}
    (ht : Turn F env event heard h ended h₁ out)
    (hend : ended = false ∧ h' = h₁ ∨ ended = true ∧ Closes F env h₁ h')
    (hpending : h.pending = some pending) (hreply : pending.reply = none)
    (hp : pending.prepared.committed = false) :
    h'.config = h.config ∨ heard = some (.commit pending.id) ∧ ended = true ∧
      List.Sublist out [.result pending.id true (some pending.prepared.afterRevision) none] := by
  have hstays : h₁.pending = some pending → h₁.config = h.config → h'.config = h.config := by
    intro hq hconfig₁
    rcases hend with ⟨-, rfl⟩ | ⟨-, hcloses⟩
    · exact hconfig₁
    · cases hcloses with
      | free => exact hconfig₁
      | @drops q config hq' hconfig =>
          obtain rfl := Option.some.inj (hq.symm.trans hq')
          exact (hconfig.eq_of_not_committed hp).trans hconfig₁
  cases ht with
  | rest | refuses | answers => exact .inl (hstays hpending rfl)
  | proposes _ _ hfree => cases hfree.symm.trans hpending
  | promises _ hfree => cases hfree.symm.trans hpending
  | @installs _ q error _ hheard hq hqreply hout =>
      obtain rfl := Option.some.inj (hpending.symm.trans hq)
      rw [hreply] at hqreply
      cases hqreply
  | @keeps q _ hheard hq hqreply hout =>
      obtain rfl := Option.some.inj (hpending.symm.trans hq)
      exact .inr ⟨hheard, rfl, hout⟩
  | @concludes q client' revision error hheard hq hqreply =>
      obtain rfl := Option.some.inj (hpending.symm.trans hq)
      cases hreply.symm.trans hqreply
  | @gives _ q code config _ hevent hq hconfig hcode hout =>
      obtain rfl := Option.some.inj (hpending.symm.trans hq)
      have hsame := hconfig.eq_of_not_committed hp
      rcases hend with ⟨-, rfl⟩ | ⟨-, hcloses⟩
      · exact .inl hsame
      · cases hcloses with
        | free => exact .inl hsame
        | drops hq' => cases hq'

end Coordinator

namespace Devices

variable {d : World A B T} {k : ℕ} {id : String}

/-- Of the messages about a layout, each answers the one before; the first is written once. -/
structure Rounds (d : World A B T) : Prop where
  unanswered : ∀ k id s, Unanswered (Frame.isRound k id) (Frame.isRound (k + 1) id) 0 d s
  once : ∀ id s, (d.sent s).countP (Frame.isRound 0 id) ≤ 1

theorem Rounds.bound (h : Rounds d) (s : Side) (id : String) {j : ℕ} (hj : k + 1 = j) :
    (d.chan s).countP (Frame.isRound k id) + (d.sent s).countP (Frame.isRound j id) ≤
      (d.sent s.other).countP (Frame.isRound k id) := hj ▸ h.unanswered k id s

/-- What is written second is written once. -/
theorem Rounds.prepared_once (h : Rounds d) (s : Side) (id : String) :
    (d.sent s).countP (Frame.isRound 1 id) ≤ 1 :=
  ((Nat.le_add_left ..).trans (h.bound s id (zero_add 1))).trans (h.once id s.other)

variable [ActivitySource A] [InputSink B]

/-- A device answers a round at most as often as it is asked. -/
theorem step_answers (F : Format T D) (n : Node A B T) (input : Coordinator.Event × Env T)
    (frame : Option Frame) :
    (n.step F input frame).2.countP (Frame.isRound (k + 1) id) ≤
    frame.toList.countP (Frame.isRound k id) := by
  cases hn : n.stopped with
  | some stop =>
      rw [Node.step, hn]
      exact Nat.zero_le _
  | none =>
      obtain ⟨ended, hand, hturn, -⟩ := Node.step_turn F hn input frame
      rw [countP_layouts, countP_layouts]
      have hheard : layouts frame.toList = (frame.bind Frame.layout).toList := by
        cases frame with
        | none => rfl
        | some f => cases hf : f.layout <;> simp [layouts, hf]
      rw [hheard]
      exact hturn.answers_round

/-- No round is answered at the start. -/
theorem rounds_start (F : Format T D) (x : Side → Setup A B T) : Rounds (start F x) := by
  have hsilent : ∀ s k id, ((start F x).sent s).countP (Frame.isRound k id) = 0 := by
    intro s k id
    rw [countP_layouts, show layouts ((start F x).sent s) = [] from
      (opened_accounted (F := F) (x s) fun _ _ => True).1]
    rfl
  refine ⟨fun k id s => ?_, fun id s => (hsilent s 0 id).le.trans (Nat.zero_le 1)⟩
  unfold Unanswered
  rw [hsilent s, show (start F x).chan s = (start F x).sent s.other from rfl]
  exact Nat.le_refl _

/-- A step keeps the rounds. -/
theorem rounds_next (h : Rounds d) {l : Step T} (hfresh : Fresh d l) : Rounds (next F d l) := by
  refine ⟨fun k id s => (h.unanswered k id s).next (step_answers F) l, fun id s => ?_⟩
  rw [next]
  rcases Duplex.next_cases (Node.step F) d l with hsame | ⟨frame, rest, htakes, hchan, hmove⟩
  · rw [hsame]
    exact h.once id s
  rw [hmove]
  rcases Side.eq_or_eq_other s l.side with rfl | rfl
  swap
  · rw [move_sent_other]
    exact h.once id l.side.other
  -- only the side that steps has written more
  rw [move_sent, List.countP_append]
  cases hn : (d.node l.side).stopped with
  | some stop =>
      rw [Node.step, hn]
      exact h.once id l.side
  | none =>
      obtain ⟨ended, hand, hturn, -⟩ := Node.step_turn F hn l.input frame
      obtain ⟨hle, hproposes⟩ := hturn.proposes_round id
      rw [← countP_layouts] at hle hproposes
      -- a proposal bears a new id, so it is the first with it
      by_cases hzero : ((d.node l.side).step F l.input frame).2.countP (Frame.isRound 0 id) = 0
      · rw [hzero]
        exact h.once id l.side
      · obtain ⟨client, layout, hwaited, hid⟩ := hproposes hzero
        obtain rfl : frame = none := by
          cases frame with
          | none => rfl
          | some f => cases hwaited
        have hnew := hfresh client layout id htakes.symm (Option.some.inj hwaited) hid
        have hnone : (d.sent l.side).countP (Frame.isRound 0 id) = 0 := by
          rw [countP_layouts, List.countP_eq_zero]
          intro m hm hround
          cases m with
          | prepare id' edges revision =>
              obtain rfl :
                  id' = id := by simpa [LayoutMessage.isRound, LayoutMessage.round] using hround
              exact hnew edges revision hm
          | _ => simp [LayoutMessage.isRound, LayoutMessage.round] at hround
        rw [hnone, Nat.zero_add]
        exact hle

/-- What has been written stays written. -/
theorem sent_run (d : World A B T) (ls : List (Step T)) (s : Side) :
    d.sent s <+: (Run.run (next F) d ls).sent s := by
  induction ls generalizing d with
  | nil => exact List.prefix_refl _
  | cons l ls ih =>
      refine List.IsPrefix.trans ?_ (ih (next F d l))
      rw [next]
      rcases Duplex.next_cases (Node.step F) d l with hsame | ⟨frame, rest, -, -, hmove⟩
      · exact hsame.symm ▸ List.prefix_rfl
      · rw [hmove]
        rcases Side.eq_or_eq_other s l.side with rfl | rfl
        · rw [move_sent]
          exact List.prefix_append ..
        · exact (move_sent_other ..).symm ▸ List.prefix_rfl

/-- A device that has stopped writes nothing more. -/
theorem sent_stopped {d : World A B T} {s : Side} (hstopped : (d.node s).stopped ≠ none)
    (ls : List (Step T)) :
    (Run.run (next F) d ls).sent s = d.sent s := by
  induction ls generalizing d with
  | nil => rfl
  | cons l ls ih =>
      have hnext : (next F d l).node s = d.node s ∧ (next F d l).sent s = d.sent s := by
        rw [next]
        rcases Duplex.next_cases (Node.step F) d l with hsame | ⟨frame, rest, -, -, hmove⟩
        · rw [hsame]
          exact ⟨rfl, rfl⟩
        · rw [hmove]
          rcases Side.eq_or_eq_other s l.side with rfl | rfl
          · obtain ⟨stop, hstop⟩ := Option.ne_none_iff_exists'.mp hstopped
            rw [move_node, move_sent, Node.step, hstop]
            exact ⟨rfl, List.append_nil _⟩
          · exact ⟨move_node_other .., move_sent_other ..⟩
      rw [Run.run_cons, ih (hnext.1.symm ▸ hstopped), hnext.2]

/-! ### A refusal -/

/-- In this step the device gives up the layout that it has proposed, and its client is told
`code`. -/
structure Refuses (F : Format T D) (d : World A B T) (l : Step T)
    (pending : PendingLayout T) (client : ℕ) (code : String) : Prop where
  held : (d.node l.side).coordinator.pendingLayout = some pending
  reply : pending.reply = some client
  gone : ((next F d l).node l.side).coordinator.pendingLayout = none
  answer : ((next F d l).node l.side).coordinator.replies =
    (d.node l.side).coordinator.replies ++ [(client, .failure code)]

/-- A refusal answers a message of the peer, and undoes what was installed. -/
theorem Refuses.spec {l : Step T} {pending : PendingLayout T} {client : ℕ} {code : String}
    (h : Refuses F d l pending client code) (hcode : code ≠ "layout_unconfirmed") :
    ∃ f rest m, d.chan l.side = f :: rest ∧ f.layout = some m ∧
      ((∃ ok error, m = .prepared pending.id ok error) ∨
        ∃ revision error, m = .result pending.id false revision error) ∧
      Coordinator.Undone F l.input.2.rollback pending.prepared
        (d.node l.side).coordinator.files.config
        ((next F d l).node l.side).coordinator.files.config ∧
      ∃ n out,
      next F d l = d.move l.side n rest out ∧ out.countP (Frame.isRound 2 pending.id) = 0 := by
  have hgone := h.gone
  have hanswer := h.answer
  rw [next] at hgone hanswer ⊢
  rcases Duplex.next_cases (Node.step F) d l with hsame | ⟨frame, rest, -, hchan, hmove⟩
  · rw [hsame] at hgone
    cases hgone.symm.trans h.held
  rw [hmove, move_node] at hgone hanswer
  cases hn : (d.node l.side).stopped with
  | some stop =>
      rw [Node.step, hn] at hgone
      cases hgone.symm.trans h.held
  | none =>
      obtain ⟨ended, hand, hturn, hend⟩ := Node.step_turn F hn l.input frame
      have hend : ended = false ∧ ((d.node l.side).step F l.input frame).1.coordinator.hand = hand ∨
          ended = true ∧ Coordinator.Closes F l.input.2 hand
            ((d.node l.side).step F l.input frame).1.coordinator.hand :=
        hend.imp (fun h => ⟨h.1, h.2.2⟩) fun h => ⟨h.1, h.2.2⟩
      obtain ⟨hundone, hheard, hcount⟩ :=
        hturn.refused pending.id hend h.held h.reply hgone hanswer hcode
      obtain ⟨m, hm, hcases⟩ : ∃ m, frame.bind Frame.layout = some m ∧
          ((∃ ok error, m = .prepared pending.id ok error) ∨
            ∃ revision error, m = .result pending.id false revision error) := by
        rcases hheard with ⟨ok, error, hm⟩ | ⟨revision, error, hm⟩
        · exact ⟨_, hm, .inl ⟨ok, error, rfl⟩⟩
        · exact ⟨_, hm, .inr ⟨revision, error, rfl⟩⟩
      obtain ⟨f, rfl, hf⟩ := Option.bind_eq_some_iff.mp hm
      refine ⟨f, rest, m, hchan, hf, hcases, ?_, _, _, hmove, ?_⟩
      · rw [hmove, move_node]
        exact hundone
      · rw [countP_layouts]
        exact hcount

/-- A peer that has promised its half changes its file only when it is asked to keep it. -/
theorem promised_step {l : Step T} {pending : PendingLayout T}
    {asked : Side → ℕ → LayoutRequest → Prop} (hsaves : Saves F asked d)
    (hpending : (d.node l.side).coordinator.pendingLayout = some pending)
    (hreply : pending.reply = none) :
    ((next F d l).node l.side).coordinator.files.config = (d.node l.side).coordinator.files.config ∨
      (d.chan l.side).countP (Frame.isRound 2 pending.id) ≠ 0 ∧
      ((next F d l).node l.side).stopped ≠ none ∧
        ∃ out, (next F d l).sent l.side = d.sent l.side ++ out ∧
          List.Sublist (layouts out)
          [.result pending.id true (some pending.prepared.afterRevision) none] := by
  rw [next]
  rcases Duplex.next_cases (Node.step F) d l with hsame | ⟨frame, rest, -, hchan, hmove⟩
  · rw [hsame]
    exact .inl rfl
  rw [hmove, move_node, move_sent]
  cases hn : (d.node l.side).stopped with
  | some stop =>
      rw [Node.step, hn]
      exact .inl rfl
  | none =>
      obtain ⟨ended, hand, hturn, hend⟩ := Node.step_turn F hn l.input frame
      have hp := ((hsaves.accounted l.side).promised hpending hreply).1
      rcases hturn.promised_config (hend.imp (fun h => ⟨h.1, h.2.2⟩) fun h =>
        ⟨h.1, h.2.2⟩) hpending hreply hp with
        hsame | ⟨hheard, hended, hout⟩
      · exact .inl hsame
      · obtain ⟨f, rfl, hf⟩ := Option.bind_eq_some_iff.mp hheard
        refine .inr ⟨?_, ?_, _, rfl, hout⟩
        · rw [hchan, Option.toList_some, List.singleton_append, List.countP_cons_of_pos]
          · exact Nat.succ_ne_zero _
          · simp [Frame.isRound, hf, LayoutMessage.isRound, LayoutMessage.round]
        · rcases hend with ⟨hnot, -⟩ | ⟨-, hstopped, -⟩
          · cases hnot.symm.trans hended
          · exact hstopped

/-- No round is answered twice in a run. -/
theorem rounds_run {d : World A B T} (h : Rounds d) {ls : List (Step T)}
    (hfresh : Run.Along (next F) Fresh d ls) :
    Rounds (Run.run (next F) d ls) := by
  have hstep : ∀ (d : World A B T) (l : Step T), Rounds d → Fresh d l → Rounds (next F d l) :=
    fun _ _ hd hl => rounds_next hd hl
  exact Run.run_invariant hstep h hfresh

omit [ActivitySource A] [InputSink B] in
/-- The other half of a layout is asked for once. -/
theorem Rounds.commit_once (h : Rounds d) (s : Side) (id : String) :
    (d.sent s).countP (Frame.isRound 2 id) ≤ 1 :=
  ((Nat.le_add_left ..).trans (h.bound (j := 2) s id rfl)).trans (h.prepared_once s.other id)

omit [ActivitySource A] [InputSink B] in
/-- A message that is there is counted. -/
theorem countP_ne_zero {f : Frame} {m : LayoutMessage} {l : List Frame} (hmem : f ∈ l)
    (hf : f.layout = some m) (hm : m.round = some (k, id)) : l.countP (Frame.isRound k id) ≠ 0 := by
  rw [Ne, List.countP_eq_zero]
  intro hnone
  exact hnone f hmem (by simp [Frame.isRound, hf, LayoutMessage.isRound, hm])

section
variable {ms : List (Step T)} {l l' : Step T} {pending : PendingLayout T} {client : ℕ}
  {code : String} {d' : World A B T}

/-- When a layout has been refused, its other half is never asked for again. -/
theorem Refuses.not_asked (h : Refuses F d l pending client code)
    (hcode : code ≠ "layout_unconfirmed") (hrounds : Rounds d)
    (hd : d' = Run.run (next F) (next F d l) ms) (hrounds' : Rounds d') :
    (d'.chan l.side.other).countP (Frame.isRound 2 pending.id) = 0 := by
  obtain ⟨f, rest, m, hchan, hf, hm, -, n, out, hmove, hout⟩ := h.spec hcode
  have hmem : f ∈ d.chan l.side := hchan ▸ List.mem_cons_self
  have hasked := hrounds'.bound (j := 3) l.side.other pending.id rfl
  rw [Side.other_other] at hasked
  rcases hm with ⟨ok, error, rfl⟩ | ⟨revision, error, rfl⟩
  · -- the question whether the other half is there is left without an answer for good
    have hdropped :
        Unanswered (Frame.isRound 1 pending.id) (Frame.isRound 2 pending.id)
          (0 + 1) (next F d l) l.side := by
      rw [hmove]
      refine (hrounds.unanswered 1 pending.id l.side).drop (m := some f) hchan ?_
      rw [hout]
      simp [Frame.isRound, hf, LayoutMessage.isRound, LayoutMessage.round]
    have hkeeps : ∀ (e : World A B T) (i : Step T),
        Unanswered (Frame.isRound 1 pending.id) (Frame.isRound 2 pending.id) (0 + 1) e l.side →
        Unanswered (Frame.isRound 1 pending.id) (Frame.isRound 2 pending.id)
          (0 + 1) (next F e i) l.side :=
      fun _ i he => he.next (step_answers F) i
    have hleft : Unanswered (Frame.isRound 1 pending.id) (Frame.isRound 2 pending.id) (0 + 1)
        (Run.run (next F) (next F d l) ms) l.side := Run.run_invariant_of_step hkeeps hdropped
    rw [← hd] at hleft
    have honce := hrounds'.prepared_once l.side.other pending.id
    unfold Unanswered at hleft
    omega
  · -- the other half has been asked for once, and that has been answered
    have hanswered := hrounds.bound (j := 4) l.side pending.id rfl
    have hthere := countP_ne_zero (k := 3) hmem hf rfl
    have hgrows :=
      (sent_run (F := F) d (l :: ms) l.side.other).sublist.countP_le
        (p := Frame.isRound 3 pending.id)
    rw [Run.run_cons, ← hd] at hgrows
    have honce := hrounds'.commit_once l.side pending.id
    omega

/-- A layout that is refused has not been kept by the peer before. -/
theorem Refuses.not_kept {asked : Side → ℕ → LayoutRequest → Prop} {promised : PendingLayout T}
    (h : Refuses F d l pending client code) (hcode : code ≠ "layout_unconfirmed")
    (hrounds : Rounds d) (hlinked : Linked d) (hd : d = Run.run (next F) (next F d' l') ms)
    (hrounds' : Rounds d') (hsaves' : Saves F asked d') (hside : l'.side = l.side.other)
    (hpromised : (d'.node l'.side).coordinator.pendingLayout = some promised)
    (hreply : promised.reply = none) (hid : promised.id = pending.id) :
    ((next F d' l').node l'.side).coordinator.files.config =
    (d'.node l'.side).coordinator.files.config := by
  obtain ⟨f, rest, m, hchan, hf, hm, -, -⟩ := h.spec hcode
  have hmem : f ∈ d.chan l.side := hchan ▸ List.mem_cons_self
  rcases promised_step hsaves' hpromised hreply with hsame | ⟨hcommit, hstopped, out, hsent, hkept⟩
  · exact hsame
  rw [hid] at hcommit hkept
  rw [hside] at hcommit hstopped hsent
  exfalso
  have hasked := hrounds'.bound (j := 3) l.side.other pending.id rfl
  rw [Side.other_other] at hasked
  rcases hm with ⟨ok, error, rfl⟩ | ⟨revision, error, rfl⟩
  · have hthere := countP_ne_zero (k := 1) hmem hf rfl
    have hgrows :=
      (sent_run (F := F) d' (l' :: ms) l.side).sublist.countP_le (p := Frame.isRound 2 pending.id)
    rw [Run.run_cons, ← hd] at hgrows
    have hlaw := hrounds.bound (j := 2) l.side pending.id rfl
    have honce := hrounds.prepared_once l.side.other pending.id
    omega
  · -- the peer has stopped, and what it has written last is no refusal
    have honce := hrounds'.commit_once l.side pending.id
    have hall : d.sent l.side.other = d'.sent l.side.other ++ out := by
      rw [hd, sent_stopped hstopped, hsent]
    have hwritten := hlinked.mem hmem
    rw [hall, List.mem_append] at hwritten
    rcases hwritten with hwritten | hwritten
    · have hthere := countP_ne_zero (k := 3) hwritten hf rfl
      omega
    · have hlast := hkept.subset (List.mem_filterMap.mpr ⟨f, hwritten, hf⟩)
      cases List.mem_singleton.mp hlast

end

/-- **A refused layout is on neither device.**  When a client is told of another failure than
`layout_unconfirmed`, after its device has proposed the layout, the file of the device is as it was
when the layout was asked for, if it can be written back; and in no step of the run, before or
after, does the peer change its file while it has promised its half. -/
theorem save_refused (F : Format T D) (x : Side → Setup A B T) (ls ms : List (Step T)) (l : Step T)
    (h : Run.Along (next F) Fresh (start F x) (ls ++ l :: ms))
    (pending : PendingLayout T) (client : ℕ) (code : String)
    (hrefuses : Refuses F (Run.run (next F) (start F x) ls) l pending client code)
    (hcode : code ≠ "layout_unconfirmed") :
    let d := Run.run (next F) (start F x) ls
    (∃ layout,
      Asked ls l.side client layout ∧ F.digest pending.prepared.before = layout.localRevision) ∧
      (l.input.2.rollback.read = none → l.input.2.rollback.replace = none →
        ((next F d l).node l.side).coordinator.files.config = some pending.prepared.before) ∧
      ∀ ls₁ l' ls₂, ls ++ l :: ms = ls₁ ++ l' :: ls₂ → l'.side = l.side.other →
        let d' := Run.run (next F) (start F x) ls₁
        ∀ promised, (d'.node l'.side).coordinator.pendingLayout = some promised →
        promised.reply = none →
          promised.id = pending.id →
          ((next F d' l').node l'.side).coordinator.files.config =
            (d'.node l'.side).coordinator.files.config := by
  intro d
  have hrounds :
      ∀ ls₁ ls₂, ls ++ l :: ms = ls₁ ++ ls₂ → Rounds (Run.run (next F) (start F x) ls₁) :=
    fun ls₁ ls₂ hsplit => rounds_run (rounds_start F x) (Run.along_append.mp (hsplit ▸ h)).1
  have hsaves : Saves F (Asked ls) d := saves_run (Run.along_append.mp h).1 fun _ _ _ => id
  obtain ⟨layout, hasked, hproposal⟩ :=
    (hsaves.accounted l.side).proposed hrefuses.held hrefuses.reply
  refine ⟨⟨layout, hasked, hproposal.half.digest⟩, fun hread hreplace => ?_, ?_⟩
  · obtain ⟨-, -, -, -, -, -, hundone, -⟩ := hrefuses.spec hcode
    -- the own half is undone if it had come to that
    cases hc : pending.prepared.committed with
    | false => exact (hundone.eq_of_not_committed hc).trans (hproposal.before hc).2
    | true =>
        exact hundone.back hc hproposal.half.finished
          (hproposal.installed hc) hproposal.half.afterRevision hread
          hreplace
  · intro ls₁ l' ls₂ hsplit hside d' promised hpromised hreply hid
    have hrounds' := hrounds ls₁ _ hsplit
    have hsaves' : Saves F (Asked ls₁) d' :=
      saves_run (Run.along_append.mp (hsplit ▸ h)).1 fun _ _ _ => id
    have hne : l' ≠ l := by
      rintro rfl
      exact Side.ne_other _ hside
    rcases List.append_eq_append_iff.mp hsplit with ⟨as, hls₁, hrest⟩ | ⟨as, hls, hrest⟩
    · -- the step comes after the refusal
      cases as with
      | nil => exact absurd (List.cons.inj hrest).1.symm hne
      | cons i as =>
          obtain ⟨rfl, -⟩ := List.cons.inj hrest
          have hd : d' = Run.run (next F) (next F d l) as := by
            show Run.run (next F) (start F x) ls₁ = _
            rw [hls₁, Run.run_append, Run.run_cons]
          rcases promised_step hsaves' hpromised hreply with hsame | ⟨hcommit, -⟩
          · exact hsame
          · rw [hid, hside] at hcommit
            exact absurd (hrefuses.not_asked hcode (hrounds ls _ rfl) hd hrounds') hcommit
    · -- the step comes before the refusal
      cases as with
      | nil => exact absurd (List.cons.inj hrest).1 hne
      | cons i as =>
          obtain ⟨rfl, -⟩ := List.cons.inj hrest
          have hd : d = Run.run (next F) (next F d' l') as := by
            show Run.run (next F) (start F x) ls = _
            rw [hls, Run.run_append, Run.run_cons]
          exact hrefuses.not_kept hcode (hrounds ls _ rfl) hsaves.linked hd hrounds' hsaves' hside
            hpromised hreply hid

open Sample in
/-- The right device cannot install its half, and the left one takes its own back. -/
theorem save_refused_full :
    let d := Run.run (next paper) (start paper desks) halfway
    let d' := next paper d (hears .right full)
    (d.node .left).coordinator.files.config = some true ∧
      (∃ pending : PendingLayout Bool, mark pending.prepared.before = mark false ∧
        ((next paper d' (hears .left calm)).node .left).coordinator.files.config =
          some pending.prepared.before) ∧
      (d'.node .right).coordinator.files.config = (d.node .right).coordinator.files.config := by
  have hsplit : halfway ++ [hears .right full] ++ hears .left calm :: [] =
      halfway ++ hears .right full :: [hears .left calm] := List.append_assoc ..
  have hrefused :=
    fun pending client code => save_refused paper desks (halfway ++ [hears .right full]) []
    (hears .left calm) (Run.along_append.mpr ⟨Run.along_append.mpr
      ⟨fresh_halfway, fresh_hears _ _ _, trivial⟩, fresh_hears _ _ _, trivial⟩) pending client code
  have hpeer := fun pending client code hrefuses hcode =>
    (hrefused pending client code hrefuses hcode).2.2 halfway (hears .right full)
      [hears .left calm] hsplit rfl
  rw [Run.run_append, Run.run_cons, Run.run_nil] at hrefused hpeer
  have hstart :
    ((Run.run (next paper) (start paper desks) halfway).node .left).coordinator.files.config =
        some true ∧
      ((Run.run (next paper) (start paper desks) halfway).node .right).coordinator.pendingLayout.map
        (fun p => (p.id, p.reply)) = some ("00000000000000000000000000000000", none) := by
    decide +kernel
  have hheld :
    ((next paper (Run.run (next paper) (start paper desks) halfway) (hears .right full)).node
      .left).coordinator.pendingLayout.map (fun p => (p.id, mark p.prepared.before, p.reply)) =
        some ("00000000000000000000000000000000", mark false, some 7) := by
    decide +kernel
  have hgone : ((next paper (next paper (Run.run (next paper) (start paper desks) halfway)
        (hears .right full)) (hears .left calm)).node .left).coordinator.pendingLayout.isNone =
        true ∧
      ((next paper (next paper (Run.run (next paper) (start paper desks) halfway)
        (hears .right full)) (hears .left calm)).node .left).coordinator.replies =
      ((next paper (Run.run (next paper) (start paper desks) halfway)
        (hears .right full)).node .left).coordinator.replies ++
        [(7, .failure "operation_failed")] := by
    decide +kernel
  generalize Run.run (next paper) (start paper desks) halfway = d at *
  obtain ⟨hinstalled, hpromised⟩ := hstart
  obtain ⟨promised, hpromised, hparts⟩ := Option.map_eq_some_iff.mp hpromised
  obtain ⟨hid, hreply⟩ := Prod.mk.inj hparts
  obtain ⟨pending, hpending, hparts⟩ := Option.map_eq_some_iff.mp hheld
  obtain ⟨hid', hrest⟩ := Prod.mk.inj hparts
  obtain ⟨hbefore, hclient⟩ := Prod.mk.inj hrest
  have hrefuses : Refuses paper (next paper d (hears .right full)) (hears .left calm) pending 7
      "operation_failed" := ⟨hpending, hclient, Option.isNone_iff_eq_none.mp hgone.1, hgone.2⟩
  exact ⟨hinstalled, ⟨pending, hbefore, (hrefused pending 7 _ hrefuses (by decide)).2.1 rfl rfl⟩,
    hpeer pending 7 _ hrefuses (by decide) promised hpromised hreply (hid.trans hid'.symm)⟩

end Devices

end NiriBridge
