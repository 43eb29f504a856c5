import NiriBridge.Coordinator.Turns
import NiriBridge.Session.Devices
import NiriBridge.Support.Exchange

/-!
# Session — Saves

A layout of both devices is saved in two halves: one device proposes it, the other promises its
half, the first installs its own half before it asks the other to keep its half, and concludes when
that is confirmed.  Either may give the layout up at any time, either connection may break, and both
may propose at once.

`Accounted` is the invariant of one device, given what both have written; a turn keeps it
(`Accounted.turn`), and so does the end of the loop.

* `paired_save`: a client that is told of success has both halves on the two files, and two saves
  that oppose each other never both succeed.
-/

namespace NiriBridge

open Duplex

variable {A B T D : Type} {F : Format T D}

/-- The answer tells of a layout that has been saved. -/
def Reply.Saved (r : Reply) : Prop := ∃ fields, r = .success fields ∧ fields ≠ []

namespace Coordinator

/-- What a device holds of a layout that it has proposed. -/
structure Proposal (F : Format T D) (layout : LayoutRequest) (mine : List LayoutMessage)
    (pending : PendingLayout T) (config : Option T) : Prop where
  half : Half F layout.localRevision layout.localEdges pending.prepared
  peer : ∀ edges revision, .prepare pending.id edges revision ∈ mine →
    edges = layout.peerEdges ∧ revision = layout.peerRevision
  before : pending.prepared.committed = false →
    .commit pending.id ∉ mine ∧ config = some pending.prepared.before
  installed : pending.prepared.committed = true → config = some pending.prepared.next

/-- Half of a saved layout is on the file. -/
structure Kept (F : Format T D) (theirs : List LayoutMessage) (id : String)
    (revision : Option String) (config : Option T) : Prop where
  commit : .commit id ∈ theirs
  half : ∃ edges r p, .prepare id edges r ∈ theirs ∧ Half F r edges p ∧ config = some p.next ∧
    revision = some (F.digest p.next)

/-- A layout that a client has asked for is saved. -/
structure Concluded (F : Format T D) (layout : LayoutRequest) (mine theirs : List LayoutMessage)
    (config : Option T) (fields : List (String × Option String)) : Prop where
  saved :
    ∃ p id revision error, Half F layout.localRevision layout.localEdges p ∧ config = some p.next ∧
    (∀ edges r, .prepare id edges r ∈ mine → edges = layout.peerEdges ∧ r = layout.peerRevision) ∧
    .result id true revision error ∈ theirs ∧
    fields = [("local_revision", some (F.digest p.next)), ("peer_revision", revision),
      ("reconnecting", some "true")]

/-- A device accounts for what it holds and has written, by what it was asked and what its peer has
written. -/
structure Accounted (F : Format T D) (asked : ℕ → LayoutRequest → Prop) (h : Hand T)
    (stopped : Prop) (mine theirs : List LayoutMessage) : Prop where
  proposed : ∀ {pending client}, h.pending = some pending → pending.reply = some client →
    ∃ layout, asked client layout ∧ Proposal F layout mine pending h.config
  promised : ∀ {pending}, h.pending = some pending → pending.reply = none →
    pending.prepared.committed = false ∧
      ∃ edges revision,
      .prepare pending.id edges revision ∈ theirs ∧ Half F revision edges pending.prepared
  commits : ∀ {id}, .commit id ∈ mine → ∃ edges revision, .prepare id edges revision ∈ mine
  answered :
    ∀ {id ok error},
    .prepared id ok error ∈ mine → ∃ edges revision, .prepare id edges revision ∈ theirs
  kept : ∀ {id revision error}, .result id true revision error ∈ mine →
    stopped ∧ h.pending = none ∧ (∀ r ∈ h.replies, ¬ r.2.Saved) ∧ Kept F theirs id revision h.config
  saved : ∀ {client fields}, (client, .success fields) ∈ h.replies → fields ≠ [] →
    stopped ∧ h.pending = none ∧
    ∃ layout, asked client layout ∧ Concluded F layout mine theirs h.config fields

namespace Accounted

variable {asked : ℕ → LayoutRequest → Prop} {h h' : Hand T} {stopped : Prop}
  {mine theirs theirs' : List LayoutMessage} {env : Env T} {event : Option Event}
  {heard : Option LayoutMessage} {ended : Bool} {out : List LayoutMessage}

/-- What the peer writes takes nothing back. -/
theorem hears (ha : Accounted F asked h stopped mine theirs) (hsub : ∀ m ∈ theirs, m ∈ theirs') :
    Accounted F asked h stopped mine theirs' where
  proposed := ha.proposed
  promised hpending hreply := by
    obtain ⟨hfree, edges, revision, hprepare, hhalf⟩ := ha.promised hpending hreply
    exact ⟨hfree, edges, revision, hsub _ hprepare, hhalf⟩
  commits := ha.commits
  answered hprepared := by
    obtain ⟨edges, revision, hprepare⟩ := ha.answered hprepared
    exact ⟨edges, revision, hsub _ hprepare⟩
  kept hresult := by
    obtain ⟨hstopped, hfree, hmodest, hcommit, edges, r, p, hprepare, hhalf⟩ := ha.kept hresult
    exact ⟨hstopped, hfree, hmodest, hsub _ hcommit, edges, r, p, hsub _ hprepare, hhalf⟩
  saved hreply hfields := by
    obtain ⟨hstopped, hfree, layout, hasked, p, id, revision, error, hhalf, hconfig, hpeer,
        hresult, heq⟩ :=
      ha.saved hreply hfields
    exact ⟨hstopped, hfree, layout, hasked, p, id, revision, error, hhalf, hconfig, hpeer,
      hsub _ hresult, heq⟩

/-- A device that keeps no save has told nobody of one. -/
theorem modest (ha : Accounted F asked h False mine theirs) : ∀ r ∈ h.replies, ¬ r.2.Saved := by
  rintro ⟨client, reply⟩ hr ⟨fields, rfl, hfields⟩
  exact (ha.saved hr hfields).1

/-- A device that has not kept or concluded anything. -/
theorem of_modest
    (proposed : ∀ {pending client}, h.pending = some pending → pending.reply = some client →
      ∃ layout, asked client layout ∧ Proposal F layout mine pending h.config)
    (promised : ∀ {pending}, h.pending = some pending → pending.reply = none →
      pending.prepared.committed = false ∧
      ∃ edges revision, .prepare pending.id edges revision ∈ theirs ∧
        Half F revision edges pending.prepared)
    (commits : ∀ {id}, .commit id ∈ mine → ∃ edges revision, .prepare id edges revision ∈ mine)
    (answered : ∀ {id ok error}, .prepared id ok error ∈ mine →
      ∃ edges revision, .prepare id edges revision ∈ theirs)
    (quiet : ∀ id revision error, .result id true revision error ∉ mine)
    (modest : ∀ r ∈ h.replies, ¬ r.2.Saved) : Accounted F asked h stopped mine theirs where
  proposed := proposed
  promised := promised
  commits := commits
  answered := answered
  kept hresult := absurd hresult (quiet _ _ _)
  saved hreply hfields := absurd ⟨_, rfl, hfields⟩ (modest _ hreply)

/-- A message that neither proposes a layout, nor asks for its other half, nor confirms it; and
answers a proposal only if there is one. -/
def Minor (theirs : List LayoutMessage) : LayoutMessage → Prop
  | .prepare .. | .commit _ | .result _ true _ _ => False
  | .prepared id _ _ => ∃ edges revision, .prepare id edges revision ∈ theirs
  | _ => True

theorem mem_of_sublist {m x : LayoutMessage} (hout : List.Sublist out [m]) (hx : x ∈ mine ++ out) :
    x ∈ mine ∨ x = m :=
  (List.mem_append.mp hx).imp_right fun h => List.mem_singleton.mp (hout.subset h)

/-- A device that still ran says something minor, and holds what it held. -/
theorem says_minor (ha : Accounted F asked h False mine theirs) (hout : ∀ m ∈ out, Minor theirs m)
    (hpending : h'.pending = h.pending ∨ h'.pending = none)
    (hconfig : h'.pending = h.pending → h'.config = h.config)
    (hmodest : ∀ r ∈ h'.replies, ¬ r.2.Saved) :
    Accounted F asked h' stopped (mine ++ out) theirs := by
  have hmine : ∀ m, ¬ Minor theirs m → m ∈ mine ++ out → m ∈ mine := fun m hm hx =>
    (List.mem_append.mp hx).resolve_right fun hx => hm (hout m hx)
  have hheld :
      ∀ {pending}, h'.pending = some pending → h.pending = some pending ∧ h'.config = h.config := by
    intro pending hp
    rcases hpending with hsame | hfree
    · exact ⟨hsame ▸ hp, hconfig hsame⟩
    · cases hfree.symm.trans hp
  refine of_modest (fun hp hreply => ?_) (fun hp hreply => ha.promised (hheld hp).1 hreply)
    (fun hcommit => ?_) (fun hprepared => ?_) (fun _ _ _ hresult =>
      (ha.kept (hmine _ id hresult)).1) hmodest
  · obtain ⟨hp, hsame⟩ := hheld hp
    obtain ⟨layout, hasked, hproposal⟩ := ha.proposed hp hreply
    rw [hsame]
    exact ⟨layout, hasked, hproposal.half, fun edges r hx => hproposal.peer edges r (hmine _ id hx),
      fun hc => ⟨fun hx => (hproposal.before hc).1 (hmine _ id hx), (hproposal.before hc).2⟩,
      hproposal.installed⟩
  · obtain ⟨edges, r, hprepare⟩ := ha.commits (hmine _ id hcommit)
    exact ⟨edges, r, List.mem_append_left _ hprepare⟩
  · rcases List.mem_append.mp hprepared with hx | hx
    · exact ha.answered hx
    · exact hout _ hx

/-- More may be told that is no save. -/
theorem modest_push (ha : Accounted F asked h False mine theirs) {told : List (ℕ × Reply)}
    (htold : ∀ r ∈ told, ¬ r.2.Saved) : ∀ r ∈ h.replies ++ told, ¬ r.2.Saved := fun r hr =>
  (List.mem_append.mp hr).elim (ha.modest r) (htold r)

theorem not_saved_failure {client : ℕ} {code : String} :
    ¬ Reply.Saved (client, Reply.failure code).2 := by
  rintro ⟨fields, heq, -⟩
  cases heq

/-- A failure tells of no save. -/
theorem told_modest (pending : PendingLayout T) (code : String) :
    ∀ r ∈ told pending code, ¬ r.2.Saved := by
  intro r hr
  obtain ⟨client, -, rfl⟩ := Option.map_eq_some_iff.mp (Option.mem_toList.mp hr)
  exact not_saved_failure

/-- A turn of a device keeps its account. -/
theorem turn (ha : Accounted F asked h False mine theirs)
    (ht : Turn F env event heard h ended h' out) (hheard : ∀ m, heard = some m → m ∈ theirs)
    (hanswered : ∀ id ok error,
      .prepared id ok error ∈ theirs → ∃ edges r, .prepare id edges r ∈ mine)
    (hkept : ∀ id revision error, .result id true revision error ∈ theirs → .commit id ∈ mine)
    (hasked : ∀ client layout, event = some (.applyLayout client layout) → asked client layout)
    (hfresh : ∀ client layout id, event = some (.applyLayout client layout) →
      env.transactionId = .ok id → ∀ edges revision, .prepare id edges revision ∉ mine) :
    Accounted F asked h' (ended = true) (mine ++ out) theirs := by
  cases ht with
  | rest =>
      exact ha.says_minor (fun m hm => absurd hm List.not_mem_nil) (.inl rfl)
        (fun _ => rfl) ha.modest
  | @answers _ client reply hevent =>
      refine ha.says_minor (fun m hm => absurd hm List.not_mem_nil) (.inl rfl)
        (fun _ => rfl) (ha.modest_push ?_)
      rintro r hr
      obtain rfl := List.mem_singleton.mp hr
      rcases hevent with ⟨-, rfl⟩ | ⟨layout, code, -, rfl⟩
      · rintro ⟨fields, heq, hfields⟩
        exact hfields (Reply.success.inj heq).symm
      · exact not_saved_failure
  | @proposes _ client layout id p deadline _ hevent hid hfree hp hout =>
      -- the id is new, so nothing that has been said is about it
      have hnew := hfresh client layout id hevent hid
      refine of_modest (fun hpending hreply => ?_) (fun hpending hreply => ?_) (fun hcommit => ?_)
        (fun hprepared => ?_) (fun _ _ _ hresult => ?_) ha.modest
      · obtain rfl := Option.some.inj hpending
        obtain rfl := Option.some.inj hreply
        refine ⟨layout, hasked client layout hevent, hp.toHalf,
          fun edges r hx => ?_, fun _ => ⟨fun hx => ?_, hp.before⟩,
          fun hc => absurd (hp.committed.symm.trans hc) (by simp)⟩
        · obtain hx | heq := mem_of_sublist hout hx
          · exact absurd hx (hnew edges r)
          · injection heq with _ hedges hr
            exact ⟨hedges, hr⟩
        · obtain hx | heq := mem_of_sublist hout hx
          · obtain ⟨edges, r, hprepare⟩ := ha.commits hx
            exact hnew edges r hprepare
          · cases heq
      · obtain rfl := Option.some.inj hpending
        cases hreply
      · obtain hx | heq := mem_of_sublist hout hcommit
        · obtain ⟨edges, r, hprepare⟩ := ha.commits hx
          exact ⟨edges, r, List.mem_append_left _ hprepare⟩
        · cases heq
      · obtain hx | heq := mem_of_sublist hout hprepared
        · exact ha.answered hx
        · cases heq
      · obtain hx | heq := mem_of_sublist hout hresult
        · exact (ha.kept hx).1
        · cases heq
  | @refuses _ id edges revision error _ hprepare hout =>
      -- an answer to what the peer has asked leaves the account alone
      refine ha.says_minor (fun m hm => ?_) (.inl rfl) (fun _ => rfl) ha.modest
      exact List.mem_singleton.mp (hout.subset hm) ▸ ⟨edges, revision, hheard _ hprepare⟩
  | @promises _ id edges revision p deadline _ hprepare hfree hp hout =>
      -- the promise is now in hand, for what the peer has asked
      have hrest : Accounted F asked { h with pending := none } False (mine ++ out) theirs := by
        refine ha.says_minor (fun m hm => ?_) (.inr rfl) (fun _ => rfl) ha.modest
        exact List.mem_singleton.mp (hout.subset hm) ▸ ⟨edges, revision, hheard _ hprepare⟩
      refine of_modest (fun hpending hreply => ?_)
        (fun hpending _ => ?_) hrest.commits hrest.answered
        (fun _ _ _ hresult => (hrest.kept hresult).1) ha.modest
      · obtain rfl := Option.some.inj hpending
        cases hreply
      · obtain rfl := Option.some.inj hpending
        exact ⟨hp.committed, edges, revision, hheard _ hprepare, hp.toHalf⟩
  | @installs _ pending error _ hprepared hpending hreply hout =>
      -- the own half is committed before the peer is asked to commit
      obtain ⟨client, hclient⟩ := Option.isSome_iff_exists.mp hreply
      obtain ⟨layout, hlayout, hproposal⟩ := ha.proposed hpending hclient
      refine of_modest (fun hpending' hreply' => ?_) (fun hpending' hreply' => ?_)
        (fun hcommit => ?_)
        (fun hprepared => ?_) (fun _ _ _ hresult => ?_) ha.modest
      · obtain rfl := Option.some.inj hpending'
        obtain rfl := Option.some.inj (hclient.symm.trans hreply')
        refine ⟨layout, hlayout,
          ⟨hproposal.half.digest, hproposal.half.edited, hproposal.half.afterRevision,
          hproposal.half.finished⟩,
          fun edges r hx => ?_, fun hc => absurd hc (by simp), fun _ => rfl⟩
        obtain hx | heq := mem_of_sublist hout hx
        · exact hproposal.peer edges r hx
        · cases heq
      · obtain rfl := Option.some.inj hpending'
        exact absurd (hclient.symm.trans hreply') (by simp)
      · obtain hx | heq := mem_of_sublist hout hcommit
        · obtain ⟨edges, r, hprepare⟩ := ha.commits hx
          exact ⟨edges, r, List.mem_append_left _ hprepare⟩
        · obtain rfl := LayoutMessage.commit.inj heq
          obtain ⟨edges, r, hprepare⟩ := hanswered _ _ _ (hheard _ hprepared)
          exact ⟨edges, r, List.mem_append_left _ hprepare⟩
      · obtain hx | heq := mem_of_sublist hout hprepared
        · exact ha.answered hx
        · cases heq
      · obtain hx | heq := mem_of_sublist hout hresult
        · exact (ha.kept hx).1
        · cases heq
  | @keeps pending _ hcommit hpending hreply hout =>
      -- the loop ends with the save kept: what was promised is what the file holds
      obtain ⟨-, edges, r, hprepare, hhalf⟩ := ha.promised hpending hreply
      refine ⟨fun hpending' _ => ?_, fun hpending' _ => ?_, fun hcommit => ?_, fun hprepared => ?_,
        fun hresult => ?_, fun hsaved hfields => absurd ⟨_, rfl, hfields⟩ (ha.modest _ hsaved)⟩
      · cases hpending'
      · cases hpending'
      · obtain hx | heq := mem_of_sublist hout hcommit
        · obtain ⟨edges, r, hprepare⟩ := ha.commits hx
          exact ⟨edges, r, List.mem_append_left _ hprepare⟩
        · cases heq
      · obtain hx | heq := mem_of_sublist hout hprepared
        · exact ha.answered hx
        · cases heq
      · obtain hx | heq := mem_of_sublist hout hresult
        · exact (ha.kept hx).1.elim
        · injection heq with hid _ hrevision _
          subst hid
          refine ⟨rfl, rfl, ha.modest, hheard _ hcommit, edges, r, pending.prepared, hprepare,
            hhalf, rfl, ?_⟩
          rw [hrevision, hhalf.afterRevision]
  | @concludes pending client revision error hresult hpending hclient =>
      -- and here with the save told to the client
      obtain ⟨layout, hlayout, hproposal⟩ := ha.proposed hpending hclient
      -- the peer has kept it, so it was asked to, and that is after the commit here
      have hcommitted : pending.prepared.committed = true := by
        by_contra hc
        exact (hproposal.before (eq_false_of_ne_true hc)).1 (hkept _ _ _ (hheard _ hresult))
      rw [List.append_nil]
      refine ⟨fun hpending' _ => ?_, fun hpending' _ => ?_, ha.commits, ha.answered,
        fun hresult => (ha.kept hresult).1.elim, fun hsaved hfields => ?_⟩
      · cases hpending'
      · cases hpending'
      · rcases List.mem_append.mp hsaved with hold | hnew
        · exact (ha.saved hold hfields).1.elim
        · obtain ⟨rfl, heq⟩ := Prod.mk.inj (List.mem_singleton.mp hnew)
          refine ⟨rfl, rfl, layout, hlayout, pending.prepared, pending.id, revision, error,
            hproposal.half, hproposal.installed hcommitted, hproposal.peer, hheard _ hresult, ?_⟩
          rw [← hproposal.half.afterRevision]
          exact Reply.success.inj heq
  | @gives _ pending code config _ hevent hpending hconfig hcode hout =>
      refine ha.says_minor (fun m hm => ?_) (.inr rfl)
        (fun hsame => absurd (hsame.trans hpending) (by simp))
        (ha.modest_push (told_modest pending code))
      rcases hout with hout | ⟨-, error, hout⟩
      · exact List.mem_singleton.mp (hout.subset hm) ▸ trivial
      · exact List.mem_singleton.mp (hout.subset hm) ▸ trivial

/-- When the loop ends, a pending layout is given up. -/
theorem closes (ha : Accounted F asked h True mine theirs) (hc : Closes F env h h') :
    Accounted F asked h' True mine theirs := by
  cases hc with
  | free => exact ha
  | @drops pending config hpending hconfig =>
      refine ⟨fun hpending' _ =>
        ?_, fun hpending' _ => ?_, ha.commits, ha.answered, fun hresult => ?_,
        fun hsaved hfields => ?_⟩
      · cases hpending'
      · cases hpending'
      · cases (ha.kept hresult).2.1.symm.trans hpending
      · rcases List.mem_append.mp hsaved with hold | hnew
        · cases (ha.saved hold hfields).2.1.symm.trans hpending
        · exact absurd ⟨_, rfl, hfields⟩ (told_modest pending _ _ hnew)

end Accounted

end Coordinator

namespace Devices

variable {d : World A B T} {asked : Side → ℕ → LayoutRequest → Prop}

/-- Both devices account for what they hold. -/
structure Saves (F : Format T D) (asked : Side → ℕ → LayoutRequest → Prop)
    (d : World A B T) : Prop where
  linked : Linked d
  accounted :
    ∀ s, Coordinator.Accounted F (asked s) (d.node s).coordinator.hand ((d.node s).stopped ≠ none)
    (layouts (d.sent s)) (layouts (d.sent s.other))

/-- The name that a device draws for a layout is not one that it has used. -/
def Fresh (d : World A B T) (l : Step T) : Prop :=
  ∀ client layout id, l.takes = false → l.input.1 = .applyLayout client layout →
    l.input.2.transactionId = .ok id →
    ∀ edges revision, .prepare id edges revision ∉ layouts (d.sent l.side)

/-- In a run along these steps the client of a device asks for the layout. -/
def Asked (ls : List (Step T)) (s : Side) (client : ℕ) (layout : LayoutRequest) : Prop :=
  ∃ l ∈ ls, l.side = s ∧ l.takes = false ∧ l.input.1 = .applyLayout client layout

/-- A device that accounts for what it sends keeps the saves in order. -/
theorem Saves.move {s : Side} {n : Node A B T} {frame : Option Frame} {rest out : List Frame}
    (h : Saves F asked d) (hchan : d.chan s = frame.toList ++ rest)
    (hn : Coordinator.Accounted F (asked s) n.coordinator.hand (n.stopped ≠ none)
      (layouts (d.sent s ++ out)) (layouts (d.sent s.other))) :
      Saves F asked (d.move s n rest out) := by
  refine ⟨h.linked.move hchan, fun t => ?_⟩
  rcases Side.eq_or_eq_other t s with rfl | rfl
  · rwa [move_node, move_sent, move_sent_other]
  · rw [move_node_other, move_sent_other, Side.other_other, move_sent]
    refine (h.accounted s.other).hears fun m hm => ?_
    rw [Side.other_other] at hm
    rw [layouts_append]
    exact List.mem_append_left _ hm

/-- What holds after a turn holds when the step is over. -/
theorem accounted_after {n : Node A B T} {env : Env T} {asked : ℕ → LayoutRequest → Prop}
    {ended : Bool} {hand : Hand T} {mine theirs : List LayoutMessage}
    (ha : Coordinator.Accounted F asked hand (ended = true) mine theirs)
    (hend : ended = false ∧ n.stopped = none ∧ n.coordinator.hand = hand ∨
      ended = true ∧ n.stopped ≠ none ∧ Coordinator.Closes F env hand n.coordinator.hand) :
    Coordinator.Accounted F asked n.coordinator.hand (n.stopped ≠ none) mine theirs := by
  rcases hend with ⟨rfl, hstopped, rfl⟩ | ⟨rfl, hstopped, hcloses⟩
  · simpa only [hstopped, ne_eq, not_true_eq_false, Bool.false_eq_true] using ha
  · have hclosed := (eq_self true ▸ ha : Coordinator.Accounted _ _ _ True _ _).closes hcloses
    simpa only [ne_eq, hstopped, not_false_eq_true] using hclosed

variable [ActivitySource A] [InputSink B]

/-- A step with an unused id keeps the saves in order. -/
theorem saves_next (h : Saves F asked d) {l : Step T} (hfresh : Fresh d l)
    (hasked : ∀ client layout, l.takes = false → l.input.1 = .applyLayout client layout →
      asked l.side client layout) : Saves F asked (next F d l) := by
  rw [next]
  rcases Duplex.next_cases (Node.step F) d l with hsame | ⟨frame, rest, htakes, hchan, hmove⟩
  · rwa [hsame]
  rw [hmove]
  refine h.move hchan ?_
  have ha := h.accounted l.side
  have hb := h.accounted l.side.other
  rw [Side.other_other] at hb
  cases hn : (d.node l.side).stopped with
  | some stop =>
      rw [Node.step, hn]
      simpa only [List.append_nil, hn] using ha
  | none =>
      -- a request of a client is only taken where no frame is
      have hwaits :
        ∀ client layout, Coordinator.waited l.input.1 frame = some (.applyLayout client layout) →
          l.takes = false ∧ l.input.1 = .applyLayout client layout := by
        intro client layout hwaited
        cases frame with
        | some frame => cases hwaited
        | none => exact ⟨htakes.symm, Option.some.inj hwaited⟩
      obtain ⟨ended, hand, hturn, hend⟩ := Node.step_turn F hn l.input frame
      have ha : Coordinator.Accounted F (asked l.side) (d.node l.side).coordinator.hand False
          (layouts (d.sent l.side)) (layouts (d.sent l.side.other)) := by
        simpa only [hn, ne_eq, not_true_eq_false] using ha
      have hafter := ha.turn hturn (fun m hm => ?_) (fun id ok error hx => hb.answered hx)
        (fun id revision error hx => (hb.kept hx).2.2.2.commit)
        (fun client layout hw =>
          hasked client layout (hwaits client layout hw).1 (hwaits client layout hw).2)
        (fun client layout id hw =>
          hfresh client layout id (hwaits client layout hw).1 (hwaits client layout hw).2)
      · rw [layouts_append]
        exact accounted_after hafter hend
      · obtain ⟨f, rfl, hf⟩ := Option.bind_eq_some_iff.mp hm
        have hmem : f ∈ d.chan l.side := hchan ▸ List.mem_append_left _ (List.mem_singleton.mpr rfl)
        exact List.mem_filterMap.mpr ⟨f, h.linked.mem hmem, hf⟩

/-- A device that has opened its connection has said nothing of layouts. -/
theorem opened_accounted (x : Setup A B T) (asked : ℕ → LayoutRequest → Prop) :
    layouts (opened F x).2 = [] ∧ Coordinator.Accounted F asked (opened F x).1.coordinator.hand
      ((opened F x).1.stopped ≠ none) [] [] := by
  let s : Coordinator A B T :=
    Coordinator.new x.config x.desktop x.sink x.activity x.unlocked x.now x.files
  have hsilent : layouts (opened F x).2 = [] := by
    rcases Node.after_spec F x.env (s := s) (Coordinator.keeps_open x.env _) with
      ⟨-, hdesk, hout⟩ | ⟨_, _, -, hdesk, hout, -⟩
    · exact (congrArg layouts hout).trans (congrArg Prod.snd hdesk)
    · exact (congrArg layouts hout).trans (congrArg Prod.snd hdesk)
  have hnew : Coordinator.Accounted F asked s.hand False [] [] :=
    .of_modest (fun hpending => by cases hpending) (fun hpending => by cases hpending)
      (fun hx => absurd hx List.not_mem_nil) (fun hx => absurd hx List.not_mem_nil)
      (fun _ _ _ hx => absurd hx List.not_mem_nil) fun _ hx => absurd hx List.not_mem_nil
  have hopens :
      Coordinator.Turns F x.env none none (Coordinator.open x.env : CoordinatorM A B T Unit) :=
    Coordinator.turns_of_keeps rfl (Coordinator.keeps_open x.env)
  obtain ⟨ended, hand, hturn, hend⟩ := Node.after_turn F x.env hopens s
  have hafter :=
    hnew.turn hturn (fun _ hm => by cases hm) (fun _ _ _ hx => absurd hx List.not_mem_nil)
    (fun _ _ _ hx => absurd hx List.not_mem_nil) (fun _ _ hw => by cases hw)
      fun _ _ _ hw => by cases hw
  refine ⟨hsilent, accounted_after ?_ hend⟩
  have hout : layouts (Node.after F x.env (Coordinator.open x.env) s).2 = [] := hsilent
  rwa [hout] at hafter

/-- Nothing has been saved at the start. -/
theorem saves_start (F : Format T D) (x : Side → Setup A B T) : Saves F asked (start F x) := by
  refine ⟨fun s => List.suffix_refl _, fun s => ?_⟩
  obtain ⟨hsilent, haccounted⟩ := opened_accounted (F := F) (x s) (asked s)
  obtain ⟨hsilent', -⟩ := opened_accounted (F := F) (x s.other) (asked s)
  have hmine : layouts ((start F x).sent s) = [] := hsilent
  have htheirs : layouts ((start F x).sent s.other) = [] := hsilent'
  rw [hmine, htheirs]
  exact haccounted

/-- The saves are in order in every run with unused ids. -/
theorem saves_run {x : Side → Setup A B T} {ls : List (Step T)}
    (h : Run.Along (next F) Fresh (start F x) ls)
    (hasked : ∀ s client layout, Asked ls s client layout →
      asked s client layout) : Saves F asked (Run.run (next F) (start F x) ls) := by
  have hgeneral : ∀ d : World A B T, Saves F asked d → Run.Along (next F) Fresh d ls →
      Saves F asked (Run.run (next F) d ls) := by
    clear h
    induction ls with
    | nil => exact fun d hd _ => hd
    | cons l ls ih =>
        intro d hd h
        refine ih (fun s client layout hasked' =>
          hasked s client layout ?_) _ (saves_next hd h.1 ?_) h.2
        · obtain ⟨l', hl', hrest⟩ := hasked'
          exact ⟨l', List.mem_cons_of_mem _ hl', hrest⟩
        · exact fun client layout htakes hevent =>
            hasked l.side client layout ⟨l, List.mem_cons_self, rfl, htakes, hevent⟩
  exact hgeneral _ (saves_start F x) h

/-- **A layout is saved on both devices.**  In every run in which a device draws a new name for each
layout, a client is told of success only when its device and the peer have both stopped and both
files hold their half of the layout it has asked for, made from the texts whose revisions it has
named; the answer gives the revisions of both files.  Two saves that oppose each other never both
succeed. -/
theorem paired_save (F : Format T D) (x : Side → Setup A B T) (ls : List (Step T))
    (h : Run.Along (next F) Fresh (start F x) ls) :
    let d := Run.run (next F) (start F x) ls
    ∀ s client fields, fields ≠ [] → (client, .success fields) ∈ (d.node s).coordinator.replies →
      (∃ layout p q, Asked ls s client layout ∧
        Coordinator.Half F layout.localRevision layout.localEdges p ∧
        Coordinator.Half F layout.peerRevision layout.peerEdges q ∧
        (d.node s).coordinator.files.config = some p.next ∧
        (d.node s.other).coordinator.files.config = some q.next ∧
        fields = [("local_revision", some (F.digest p.next)),
          ("peer_revision", some (F.digest q.next)), ("reconnecting", some "true")]) ∧
      (∀ t, (d.node t).stopped ≠ none) ∧
      ∀ r ∈ (d.node s.other).coordinator.replies, ¬ r.2.Saved := by
  intro d s client fields hfields hreply
  have hsaves : Saves F (Asked ls) d := saves_run h fun _ _ _ => id
  obtain ⟨hstopped, -, layout, hasked, p, id, revision, error, hhalf, hconfig, hpeer,
      hresult, rfl⟩ :=
    (hsaves.accounted s).saved hreply hfields
  obtain ⟨hstopped', -, hmodest, -, edges, r, q, hprepare, hhalf', hconfig', rfl⟩ :=
    (hsaves.accounted s.other).kept hresult
  rw [Side.other_other] at hprepare
  obtain ⟨rfl, rfl⟩ := hpeer edges r hprepare
  refine ⟨⟨layout, p, q, hasked, hhalf, hhalf', hconfig, hconfig', rfl⟩, fun t => ?_, hmodest⟩
  rcases Side.eq_or_eq_other t s with rfl | rfl
  · exact hstopped
  · exact hstopped'

end Devices

/-! ### Two sample devices with a layout on file -/

namespace Sample

open Coordinator

/-- Revisions of 64 characters, for a text from before a layout and one from after it. -/
def mark (text : Bool) : String := String.ofList (List.replicate 64 (if text then '1' else '0'))

/-- Where the configuration is. -/
def path : Path := ⟨true, ["config.toml"]⟩

/-- A format of two texts, the one before the save and the one after it. -/
def paper : Format Bool Bool :=
  ⟨mark, .ok, id, fun _ => .ok { config .top with activityDevices := [path] }, fun _ _ => true⟩

/-- Nothing fails. -/
def calm : Env Bool where
  now := 0
  headNow := 0
  fault _ := none
  outputs := .ok [("screen", some ⟨0, 0, 1920, 1080, 1, .normal⟩)]
  stopCapture := none
  captureFinished := false
  captureEventsEmpty := true
  elapsed := 0
  transactionId := .ok "00000000000000000000000000000000"
  edit := {}
  rollback := {}

/-- The disk on which a device installs its half is full. -/
def full : Env Bool := { calm with edit := { replace := some ["Disk full"] } }

/-- A device with this edge, and the text from before the save. -/
def desk (edge : Edge) : Setup ActivityMonitor Sink Bool :=
  ⟨{ config edge with sourcePath := some path }, { desktop edge with revision := mark false }, ⟨⟩,
    monitor fun _ => absent, true, 0, ⟨some false, none, false, ⟨none, fun _ => none⟩⟩, calm⟩

/-- Two devices, one above the other. -/
def desks : Side → Setup ActivityMonitor Sink Bool
  | .left => desk .bottom
  | .right => desk .top

/-- A device takes the next frame. -/
def hears (side : Side) (env : Env Bool) : Devices.Step Bool := ⟨side, (.exit, env), true⟩

/-- Each device learns of the other, and the client of the left one asks for a layout, which the
right one promises and the left one installs. -/
def halfway : List (Devices.Step Bool) :=
  List.replicate 3 (hears .left calm) ++ List.replicate 3 (hears .right calm) ++
    [⟨.left, (.applyLayout 7 ⟨edges .bottom, edges .top, mark false, mark false⟩, calm), false⟩,
      hears .right calm, hears .left calm]

end Sample

namespace Devices

open Sample

theorem fresh_hears (d : World A B Bool) (side : Side) (env : Env Bool) :
    Fresh d (hears side env) :=
  fun _ _ _ htakes => by cases htakes

/-- A device that has not spoken of layouts may draw any id. -/
theorem fresh_of_silent {l : Step T} (h : (layouts (d.sent l.side)).isEmpty = true) :
    Fresh d l := by
  intro _ _ _ _ _ _ edges revision
  rw [List.isEmpty_iff.mp h]
  exact List.not_mem_nil

theorem fresh_halfway : Run.Along (next paper) Fresh (start paper desks) halfway := by
  refine ⟨fresh_hears _ _ _, fresh_hears _ _ _, fresh_hears _ _ _, fresh_hears _ _ _,
    fresh_hears _ _ _, fresh_hears _ _ _, fresh_of_silent ?_, fresh_hears _ _ _, fresh_hears _ _ _,
    trivial⟩
  decide +kernel

/-- Both halves of a layout are kept. -/
theorem paired_save_kept :
    let d :=
      Run.run (next paper) (start paper desks) (halfway ++ [hears .right calm, hears .left calm])
    (∃ r, (7, r) ∈ (d.node .left).coordinator.replies ∧ r.Saved) ∧
    (∀ t, (d.node t).stopped ≠ none) ∧
      ∃ q, (d.node .right).coordinator.files.config = some q ∧ mark q = mark true := by
  have hsave := paired_save paper desks (halfway ++ [hears .right calm, hears .left calm])
    (Run.along_append.mpr ⟨fresh_halfway, fresh_hears _ _ _, fresh_hears _ _ _, trivial⟩)
  generalize hd :
    Run.run (next paper) (start paper desks) (halfway ++ [hears .right calm, hears .left calm]) = d
    at hsave ⊢
  have hreply : (7, .success [("local_revision", some (mark true)),
      ("peer_revision", some (mark true)), ("reconnecting", some "true")]) ∈
        (d.node .left).coordinator.replies := by
    rw [← hd]
    decide +kernel
  obtain ⟨⟨_, p, q, -, -, -, -, hconfig, heq⟩, hstopped, -⟩ :=
    hsave .left 7 _ (List.cons_ne_nil _ _) hreply
  simp only [List.cons.injEq, Prod.mk.injEq, Option.some.injEq, true_and, and_true] at heq
  exact ⟨⟨_, hreply, _, rfl, List.cons_ne_nil _ _⟩, hstopped, q.next, hconfig, heq.2.symm⟩

end Devices

end NiriBridge
