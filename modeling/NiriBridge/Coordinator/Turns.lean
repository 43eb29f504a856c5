import NiriBridge.Coordinator.Layouts

/-!
# Coordinator — Turns

`Turn` is all that one pass of the loop can do with a layout, from the event it has waited for, or
the message about a layout it has taken, to what it holds and writes afterwards.  A layout is
proposed for a control client and promised for a peer; the device that has proposed one installs its
half first, the other one keeps its half for good, and the first then concludes.

* `pass_turn`: every pass is a turn.
* `Node.step_turn`: a step of a device is a turn; when the loop ends the pending layout is closed.
-/

namespace NiriBridge

open Hoare Session

variable {A B T D : Type} {α : Type}

namespace Coordinator

/-- The control client that asks for a layout. -/
def asking : Option Event → Option ℕ
  | some (.applyLayout client _) => some client
  | _ => none

/-- All that a pass can do with a layout.  The loop ends where `ended` is set. -/
inductive Turn (F : Format T D) (env : Env T) (event : Option Event) (heard : Option LayoutMessage)
    (h : Hand T) : Bool → Hand T → List LayoutMessage → Prop where
  | rest {ended} (hevent : asking event = none) : Turn F env event heard h ended h []
  /-- A control client is answered at once. -/
  | answers {ended client reply} (hevent : event = some (.release client) ∧ reply = .success [] ∨
      ∃ layout code, event = some (.applyLayout client layout) ∧ reply = .failure code) :
      Turn F env event heard h ended { h with replies := h.replies ++ [(client, reply)] } []
  | proposes {ended client layout id p deadline out} (hevent : event =
      some (.applyLayout client layout))
      (hid : env.transactionId = .ok id) (hfree : h.pending = none)
      (hp : Offer F layout.localRevision layout.localEdges h.config p)
      (hout : List.Sublist out [.prepare id layout.peerEdges layout.peerRevision]) :
      Turn F env event heard h ended { h with pending := some ⟨id, p, some client, deadline⟩ } out
  | refuses {ended id edges revision error out} (hheard : heard = some (.prepare id edges revision))
      (hout : List.Sublist out [.prepared id false error]) : Turn F env event heard h ended h out
  | promises {ended id edges revision p deadline out} (hheard : heard =
      some (.prepare id edges revision))
      (hfree : h.pending = none) (hp : Offer F revision edges h.config p)
      (hout : List.Sublist out [.prepared id true none]) :
      Turn F env event heard h ended { h with pending := some ⟨id, p, none, deadline⟩ } out
  /-- The device that has proposed the layout installs its half. -/
  | installs {ended pending error out} (hheard : heard = some (.prepared pending.id true error))
      (hpending : h.pending = some pending) (hreply : pending.reply.isSome = true)
      (hout : List.Sublist out [.commit pending.id]) :
      Turn F env event heard h ended { h with
        pending := some { pending with prepared := { pending.prepared with committed := true } }
        config := some pending.prepared.next } out
  /-- The other device installs its half for good. -/
  | keeps {pending out} (hheard : heard = some (.commit pending.id))
      (hpending : h.pending = some pending)
      (hreply : pending.reply = none)
      (hout : List.Sublist out
        [.result pending.id true (some pending.prepared.afterRevision) none]) :
      Turn F env event heard h true
        { h with pending := none, config := some pending.prepared.next } out
  | concludes {pending client revision error} (hheard : heard =
      some (.result pending.id true revision error))
      (hpending : h.pending = some pending) (hreply : pending.reply = some client) :
      Turn F env event heard h true { h with
        pending := none
        replies := h.replies ++ [(client, .success
          [("local_revision", some pending.prepared.afterRevision), ("peer_revision", revision),
            ("reconnecting", some "true")])] } []
  /-- The layout is given up. -/
  | gives {ended pending code config out} (hevent : asking event = none)
      (hpending : h.pending = some pending)
      (hconfig : Undone F env.rollback pending.prepared h.config config)
      (hcode : code = "layout_unconfirmed" ∨
        (∃ ok error, heard = some (.prepared pending.id ok error)) ∨
        ∃ revision error, heard = some (.result pending.id false revision error))
      (hout : List.Sublist out [.abort pending.id] ∨ heard = some (.commit pending.id) ∧
        ∃ error, List.Sublist out [.result pending.id false none error]) :
      Turn F env event heard h ended
        { h with pending := none, config := config, replies := h.replies ++ told pending code } out

section Turns

variable {F : Format T D} {env : Env T} {event : Option Event} {heard : Option LayoutMessage}
  {s : Coordinator A B T}

/-- A turn may be the last one. -/
theorem Turn.ended {h h' : Hand T} {ended : Bool} {out : List LayoutMessage}
    (ht : Turn F env event heard h ended h' out) : Turn F env event heard h true h' out := by
  cases ht with
  | rest hevent => exact .rest hevent
  | answers hevent => exact .answers hevent
  | proposes hevent hid hfree hp hout => exact .proposes hevent hid hfree hp hout
  | refuses hheard hout => exact .refuses hheard hout
  | promises hheard hfree hp hout => exact .promises hheard hfree hp hout
  | installs hheard hpending hreply hout => exact .installs hheard hpending hreply hout
  | keeps hheard hpending hreply hout => exact .keeps hheard hpending hreply hout
  | concludes hheard hpending hreply => exact .concludes hheard hpending hreply
  | gives hevent hpending hconfig hcode hout => exact .gives hevent hpending hconfig hcode hout

/-- From `s₀` the loop has come to a state by a turn, and goes on. -/
def Taken (F : Format T D) (env : Env T) (event : Option Event) (heard : Option LayoutMessage)
    (ended : Bool) (s₀ s : Coordinator A B T) : Prop :=
  Turn F env event heard s₀.hand ended s.hand (layouts s.outbox)

/-- A part of the loop that takes a turn. -/
def Turns (F : Format T D) (env : Env T) (event : Option Event) (heard : Option LayoutMessage)
    (m : CoordinatorM A B T α) : Prop :=
  ∀ s, layouts s.outbox = [] →
    wp m s (fun _ => Taken F env event heard false s) (fun _ => Taken F env event heard true s)

theorem Taken.ended {ended : Bool} {s₀ : Coordinator A B T}
    (h : Taken F env event heard ended s₀ s) :
    Taken F env event heard true s₀ s := Turn.ended h

/-- A turn that was taken stays taken while layouts are left alone. -/
theorem Taken.keep {ended : Bool} {s₀ s s' : Coordinator A B T}
    (h : Taken F env event heard ended s₀ s) (hdesk : s'.desk = s.desk) :
    Taken F env event heard ended s₀ s' := by
  obtain ⟨hhand, hout⟩ := Prod.mk.injEq .. ▸ hdesk
  rw [Taken, hhand, hout]
  exact h

/-- Where layouts are left alone nothing has been taken. -/
theorem taken_rest {ended : Bool} {s' : Coordinator A B T} (hevent : asking event = none)
    (hs : layouts s.outbox = [])
    (hdesk : s'.desk = s.desk) : Taken F env event heard ended s s' := by
  have hrest : Taken F env event heard ended s s := by
    rw [Taken, hs]
    exact .rest hevent
  exact hrest.keep hdesk

/-- A part that leaves layouts alone takes the turn of rest. -/
theorem turns_of_keeps {m : CoordinatorM A B T α} (hevent : asking event = none)
    (h : Keeps desk m) :
    Turns F env event heard m := fun s hs =>
  wp_mono (h s) (fun _ _ => taken_rest hevent hs) fun _ _ => taken_rest hevent hs

/-- What follows a turn in the pass leaves layouts alone. -/
theorem taken_bind {β : Type} {s₀ : Coordinator A B T} {m : CoordinatorM A B T α}
    {k : α → CoordinatorM A B T β}
    (hm : wp m s (fun _ => Taken F env event heard false s₀)
      (fun _ => Taken F env event heard true s₀))
    (hk : ∀ a, Keeps desk (k a)) :
    wp (m >>= k) s (fun _ => Taken F env event heard false s₀)
    (fun _ => Taken F env event heard true s₀) := by
  refine wp_seq hm fun a s₁ h₁ => ?_
  exact wp_mono (hk a s₁) (fun _ _ => h₁.keep) fun _ _ hdesk => h₁.ended.keep hdesk

/-- A turn may be followed by a part that leaves layouts alone. -/
theorem Turns.before {β : Type} {m : CoordinatorM A B T α} {k : α → CoordinatorM A B T β}
    (hm : Turns F env event heard m) (hk : ∀ a, Keeps desk (k a)) :
    Turns F env event heard (m >>= k) :=
  fun s hs => taken_bind (hm s hs) hk

/-- What comes before a turn in the pass leaves layouts alone. -/
theorem Turns.after {β : Type} {m : CoordinatorM A B T α} {k : α → CoordinatorM A B T β}
    (hevent : asking event = none) (hm : Keeps desk m) (hk : ∀ a, Turns F env event heard (k a)) :
    Turns F env event heard (m >>= k) := by
  intro s hs
  rw [wp_bind]
  refine wp_mono (hm s) (fun a s₁ hdesk => ?_) fun _ _ => taken_rest hevent hs
  obtain ⟨hhand, hout⟩ := Prod.mk.injEq .. ▸ hdesk
  refine wp_mono (hk a s₁ (hout.trans hs)) (fun _ s₂ h => ?_) fun _ s₂ h => ?_
  · rw [Taken, ← show s₁.hand = s.hand from hhand]
    exact h
  · rw [Taken, ← show s₁.hand = s.hand from hhand]
    exact h

/-- A message about a layout is the last thing that a turn has to write. -/
theorem send_layout {m : LayoutMessage} (hs : layouts s.outbox = []) :
    wp (send env (.layout m) : CoordinatorM A B T Unit) s
      (fun _ s' => s'.hand = s.hand ∧ layouts s'.outbox = [m])
      (fun _ s' => s'.hand = s.hand ∧ List.Sublist (layouts s'.outbox) [m]) := by
  have hsent : layouts (s.outbox ++ [⟨.layout m, false⟩]) = [m] := by
    rw [layouts_append, hs]
    rfl
  refine wp_mono (sendFrame_spec env _ s) (fun _ s' hs' => ?_) fun _ s' hs' => ?_
  · rw [hs']
    exact ⟨rfl, hsent⟩
  · obtain ⟨-, rfl | rfl⟩ := hs'
    · exact ⟨rfl, hs ▸ List.nil_sublist _⟩
    · exact ⟨rfl, hsent ▸ List.Sublist.refl _⟩

/-- What may be written is written in a turn. -/
theorem taken_send {m : LayoutMessage} {s₀ : Coordinator A B T} (hs : layouts s.outbox = [])
    (ht : ∀ ended out, List.Sublist out [m] → Turn F env event heard s₀.hand ended s.hand out) :
    wp (send env (.layout m) : CoordinatorM A B T Unit) s
      (fun _ => Taken F env event heard false s₀) (fun _ => Taken F env event heard true s₀) := by
  refine wp_mono (send_layout hs) (fun _ s' h => ?_) fun _ s' h => ?_
  · rw [Taken, h.1, h.2]
    exact ht false _ (.refl _)
  · rw [Taken, h.1]
    exact ht true _ h.2

/-! ### A layout that is given up -/

/-- The pending layout has been taken out of its place. -/
structure Out (pending : PendingLayout T) (s₀ s : Coordinator A B T) : Prop where
  pending : s₀.hand.pending = some pending
  hand : s.hand = ⟨none, s₀.hand.config, s₀.hand.replies⟩

/-- A layout that is taken out and undone is given up, with a code the client is told. -/
theorem taken_given {ended : Bool} {pending : PendingLayout T} {s₀ : Coordinator A B T}
    {files : Files T} {code : String} (hevent : asking event = none) (h : Out pending s₀ s)
    (hfiles : Undone F env.rollback pending.prepared s.files.config files.config)
    (hcode : code = "layout_unconfirmed" ∨
      (∃ ok error, heard = some (.prepared pending.id ok error)) ∨
      ∃ revision error, heard = some (.result pending.id false revision error))
    (hout : List.Sublist (layouts s.outbox) [.abort pending.id] ∨
      heard = some (.commit pending.id) ∧
      ∃ error, List.Sublist (layouts s.outbox) [.result pending.id false none error]) :
    Taken F env event heard ended s₀
      { s with files := files, replies := s.replies ++ told pending code } := by
  obtain ⟨hfree, hconfig, hreplies⟩ := Hand.mk.injEq .. ▸ h.hand
  have hhand : hand { s with files := files, replies := s.replies ++ told pending code } =
      { s₀.hand with
        pending := none, config := files.config, replies :=
          s₀.hand.replies ++ told pending code } := by
    rw [← hreplies]
    simp only [Coordinator.hand, hfree]
  rw [Taken, hhand]
  exact .gives hevent h.pending (hconfig ▸ hfiles) hcode hout

/-- A pending layout is given up, after a last message about it. -/
theorem taken_farewell {m : LayoutMessage} {pending : PendingLayout T} {s₀ : Coordinator A B T}
    {k : Unit → CoordinatorM A B T Unit} (hevent : asking event = none) (h : Out pending s₀ s)
    (hs : layouts s.outbox = [])
    (hout : ∀ out, List.Sublist out [m] → List.Sublist out [.abort pending.id] ∨
      heard = some (.commit pending.id) ∧
      ∃ error, List.Sublist out [.result pending.id false none error])
    (hk : ∀ s', Out pending s₀ s' → layouts s'.outbox = [m] → wp (k ()) s'
      (fun _ => Taken F env event heard false s₀) (fun _ => Taken F env event heard true s₀)) :
    wp (holding F env pending (send env (.layout m)) >>= k) s
      (fun _ => Taken F env event heard false s₀) (fun _ => Taken F env event heard true s₀) := by
  rw [wp_bind]
  refine holding_hand pending (wp_mono (send_layout (m := m) hs)
    (fun _ s' h' => ?_) fun _ _ h' => h') ?_
  · exact hk s' ⟨h.pending, h'.1.trans h.hand⟩ h'.2
  · rintro stop s' ⟨hhand, hwritten⟩ files hfiles
    exact taken_given hevent ⟨h.pending, hhand.trans h.hand⟩ hfiles (.inl rfl) (hout _ hwritten)

/-- A layout is given up and the peer is told at most to abort it. -/
theorem taken_abandon {ended : Bool} {pending : PendingLayout T} {s₀ : Coordinator A B T}
    {code : String} (hevent : asking event = none) (h : Out pending s₀ s)
    (hcode : code = "layout_unconfirmed" ∨
      (∃ ok error, heard = some (.prepared pending.id ok error)) ∨
      ∃ revision error, heard = some (.result pending.id false revision error))
    (hout : List.Sublist (layouts s.outbox) [.abort pending.id]) :
    wp (abandon F env pending code) s (fun _ => Taken F env event heard ended s₀)
      (fun _ => Taken F env event heard true s₀) := by
  refine wp_mono (abandon_hand pending code s) (fun _ s' h' => ?_) fun _ _ => False.elim
  obtain ⟨files, hfiles, rfl⟩ := h'
  exact taken_given hevent h hfiles hcode (.inl hout)

/-! ### The branches for layouts -/

/-- A layout that has taken too long is given up. -/
theorem expireLayout_turns (hevent : asking event = none) :
    Turns F env event heard (expireLayout F env : CoordinatorM A B T Unit) := by
  intro s hs
  rw [expireLayout, wp_bind, wp_get]
  cases hpending : s.pendingLayout with
  | none => exact taken_rest hevent hs rfl
  | some pending =>
      rw [wp_ite]
      refine ⟨fun _ => ?_, fun _ => taken_rest hevent hs rfl⟩
      rw [wp_bind, wp_set]
      refine taken_farewell hevent ⟨hpending, rfl⟩ hs (fun _ hout => .inl hout) fun s' h' hout => ?_
      exact taken_abandon hevent h' (.inl rfl) (hout ▸ .refl _)

/-- A layout is prepared only after its check. -/
theorem prepareLayout_offer (checked : Result Path) (revision : String) (edges : List EdgeConfig)
    (s : Coordinator A B T) :
    wp (prepareLayout F env checked revision edges) s
      (fun r s' => s'.desk = s.desk ∧ (∀ p, r = .ok p → (∃ path, checked = .ok path) ∧
        Offer F revision edges s.files.config p))
      (fun _ _ => False) := by
  cases checked with
  | error e => exact ⟨rfl, fun p hp => by cases hp⟩
  | ok path =>
      rw [prepareLayout, wp_onFiles]
      refine wp_mono (prepareEdges_offer path _ env.edit revision edges s.files)
        (fun p files h => ?_)
        fun e files h => ?_
      · refine ⟨by simp only [desk, hand, h.2], fun p' hp' => ⟨⟨path, rfl⟩, ?_⟩⟩
        exact Except.ok.inj hp' ▸ h.1
      · exact ⟨by simp only [desk, hand, h], fun p' hp' => by cases hp'⟩

/-- A layout that passes the check finds no other pending. -/
theorem free_of_checked {s : Coordinator A B T} {q : Prop} [Decidable q] {message : String}
    {r : Result Path} {path : Path} (h : (do
      ensure s.pendingLayout.isNone "settings_busy"
      ensure q message
      r) = .ok path) : s.pendingLayout = none := by
  obtain ⟨_, hfree, -⟩ := bind_eq_ok.mp h
  exact Option.isNone_iff_eq_none.mp (ensure_eq_ok.mp hfree)

section Devices
variable [InputSink B]

/-- A client asks for a layout: it is offered to the peer, or refused. -/
theorem applyLayout_turns (client : ℕ) (layout : LayoutRequest) :
    Turns F env (some (.applyLayout client layout)) heard
      (applyLayout F env client layout : CoordinatorM A B T Unit) := by
  intro s hs
  rw [applyLayout, wp_bind, wp_get, wp_bind]
  refine wp_mono (prepareLayout_offer (s.checkRequest layout) layout.localRevision
    layout.localEdges s)
    (fun r s₁ h₁ => ?_) fun _ _ => False.elim
  obtain ⟨hdesk, hoffer⟩ := h₁
  obtain ⟨hhand, hout⟩ := Prod.mk.injEq .. ▸ hdesk
  have hanswers : ∀ (code : String) {ended : Bool} {s' : Coordinator A B T},
      s'.hand = { s.hand with replies := s.hand.replies ++ [(client, .failure code)] } →
      layouts s'.outbox = [] →
      Taken F env (some (.applyLayout client layout)) heard ended s s' := by
    intro code ended s' h hwritten
    rw [Taken, h, hwritten]
    exact .answers (.inr ⟨layout, code, rfl, rfl⟩)
  obtain ⟨hpend₁, hconfig₁, hreplies₁⟩ := Hand.mk.injEq .. ▸ hhand
  cases r with
  | error e =>
      refine hanswers (errorCode e) ?_ (hout.trans hs)
      show Hand.mk s₁.pendingLayout s₁.files.config (s₁.replies ++ _) = _
      rw [hpend₁, hconfig₁, hreplies₁]
      rfl
  | ok p =>
      obtain ⟨⟨path, hpath⟩, hp⟩ := hoffer p rfl
      have hfree : s.pendingLayout = none := free_of_checked hpath
      have hroom : wp (do
          endSession env
          stopCapture env
          setRole .local
          external env.transactionId : CoordinatorM A B T String) s₁
          (fun id s₂ => s₂.desk = s.desk ∧ env.transactionId = .ok id)
            (fun _ s₂ => s₂.desk = s.desk) := by
        rw [wp_bind]
        refine wp_mono (keeps_endSession env s₁) (fun _ s₂ h₂ => ?_) fun _ _ h₂ => h₂.trans hdesk
        rw [wp_bind]
        refine wp_mono (keeps_stopCapture env s₂) (fun _ s₃ h₃ => ?_) fun _ _ h₃ =>
          h₃.trans (h₂.trans hdesk)
        have h₃ := h₃.trans (h₂.trans hdesk)
        rw [setRole, wp_bind, wp_modify, wp_external]
        exact ⟨fun id hid => ⟨h₃, hid⟩, fun _ _ => h₃⟩
      rw [wp_bind]
      refine holding_hand _ (wp_mono hroom (fun id s₂ h₂ => ?_) fun _ _ h₂ =>
        h₂) fun stop s₂ h₂ files hfiles => ?_
      · obtain ⟨hdesk₂, hid⟩ := h₂
        obtain ⟨hhand₂, hout₂⟩ := Prod.mk.injEq .. ▸ hdesk₂
        obtain ⟨hpend₂, hconfig₂, hreplies₂⟩ := Hand.mk.injEq .. ▸ hhand₂
        rw [wp_bind, wp_modify]
        refine taken_send (hout₂.trans hs) fun ended out hout => ?_
        have hhand : hand { s₂ with
            pendingLayout := some ⟨id, p, some client, layoutDeadline env⟩ } =
            { s.hand with pending := some ⟨id, p, some client, layoutDeadline env⟩ } := by
          simp only [Coordinator.hand, hconfig₂, hreplies₂]
        rw [hhand]
        exact .proposes rfl hid hfree hp hout
      · obtain ⟨hhand₂, hout₂⟩ := Prod.mk.injEq .. ▸ h₂
        obtain ⟨hpend₂, hconfig₂, hreplies₂⟩ := Hand.mk.injEq .. ▸ hhand₂
        refine hanswers "layout_unconfirmed" ?_ (hout₂.trans hs)
        have hconfig := hfiles.eq_of_not_committed hp.committed
        simp only [Coordinator.hand, hconfig, hpend₂, hconfig₂, hreplies₂, told, Option.map_some,
          Option.toList_some]

/-- The peer offers a layout: it is prepared, or refused. -/
theorem layoutPrepare_turns (hevent : asking event = none) (id : String) (edges : List EdgeConfig)
    (revision : String) :
    Turns F env event (some (.prepare id edges revision))
      (layoutPrepare F env id edges revision : CoordinatorM A B T Unit) := by
  intro s hs
  rw [layoutPrepare, wp_bind, wp_get, wp_bind]
  refine wp_mono (prepareLayout_offer _ revision edges s) (fun r s₁ h₁ => ?_) fun _ _ => False.elim
  obtain ⟨hdesk, hoffer⟩ := h₁
  obtain ⟨hhand, hout⟩ := Prod.mk.injEq .. ▸ hdesk
  cases r with
  | error e =>
      refine taken_send (hout.trans hs) fun ended out hout => ?_
      rw [show s₁.hand = s.hand from hhand]
      exact .refuses rfl hout
  | ok p =>
      obtain ⟨⟨path, hpath⟩, hp⟩ := hoffer p rfl
      have hfree : s.pendingLayout = none := free_of_checked hpath
      rw [wp_bind]
      refine holding_hand _ (wp_mono (keeps_makeRoom env s₁) (fun _ s₂ h₂ => ?_) fun _ _ h₂ => h₂)
        fun stop s₂ h₂ files hfiles => ?_
      · obtain ⟨hhand₂, hout₂⟩ := Prod.mk.injEq .. ▸ h₂.trans hdesk
        obtain ⟨hpend₂, hconfig₂, hreplies₂⟩ := Hand.mk.injEq .. ▸ hhand₂
        rw [wp_bind, wp_modify]
        refine taken_send (hout₂.trans hs) fun ended out hout => ?_
        have hhand : hand { s₂ with pendingLayout := some ⟨id, p, none, layoutDeadline env⟩ } =
            { s.hand with pending := some ⟨id, p, none, layoutDeadline env⟩ } := by
          simp only [Coordinator.hand, hconfig₂, hreplies₂]
        rw [hhand]
        exact .promises rfl hfree hp hout
      · have hconfig := hfiles.eq_of_not_committed hp.committed
        refine taken_rest hevent hs (Eq.trans ?_ (h₂.trans hdesk))
        simp only [desk, Coordinator.hand, hconfig, told, Option.map_none, Option.toList_none,
          List.append_nil]

end Devices

/-! ### The answers -/

/-- The pending layout of that name, and on which side it began. -/
theorem pendingWith_eq_some {id : String} {initiated : Bool} {pending : PendingLayout T}
    (h : s.pendingWith id initiated = some pending) :
    s.pendingLayout = some pending ∧ pending.id = id ∧ pending.reply.isSome = initiated := by
  obtain ⟨hpending, hmatch⟩ := Option.filter_eq_some_iff.mp h
  simp only [Bool.and_eq_true, beq_iff_eq] at hmatch
  exact ⟨hpending, hmatch⟩

/-- The peer has prepared the layout, or has not. -/
theorem layoutPrepared_turns (hevent : asking event = none) (id : String) (ok : Bool)
    (error : Option String) :
    Turns F env event (some (.prepared id ok error))
      (layoutPrepared F env id ok error : CoordinatorM A B T Unit) := by
  intro s hs
  rw [layoutPrepared, wp_bind, wp_get]
  cases hwith : s.pendingWith id true with
  | none => exact taken_rest hevent hs rfl
  | some pending =>
      obtain ⟨hpending, rfl, hreply⟩ := pendingWith_eq_some hwith
      rw [wp_bind, wp_set]
      have hfails : ∀ e (s₁ : Coordinator A B T), Out pending s s₁ → layouts s₁.outbox = [] → wp (do
          holding F env pending (send env (.layout (.abort pending.id)))
          abandon F env pending (errorCode e)) s₁
          (fun _ => Taken F env event (some (.prepared pending.id ok error)) false s)
          (fun _ => Taken F env event (some (.prepared pending.id ok error)) true s) := by
        intro e s₁ h₁ hs₁
        refine taken_farewell hevent h₁ hs₁ (fun _ hout => .inl hout) fun s₂ h₂ hout => ?_
        exact taken_abandon hevent h₂ (.inr (.inl ⟨ok, error, rfl⟩)) (hout ▸ .refl _)
      cases ok with
      | false =>
          simp only [Bool.false_eq_true, if_false]
          rw [wp_bind, wp_pure]
          exact hfails _ _ ⟨hpending, rfl⟩ hs
      | true =>
          simp only [if_true]
          rw [wp_bind, wp_onFiles]
          refine wp_mono (pending.prepared.commit_spec F _ env.edit s.files)
            (fun p files h => ?_) fun e files h => ?_
          · -- installed here, before the peer is asked to commit
            obtain ⟨rfl, hconfig, -, -⟩ := h
            rw [wp_bind, wp_modify]
            refine taken_send hs fun ended out hout => ?_
            have hhand : hand { s with
                files := files
                pendingLayout := some { pending with
                  prepared := { pending.prepared with committed := true } } } =
                { s.hand with
                  pending :=
                    some { pending with prepared := { pending.prepared with committed := true } }
                  config := some pending.prepared.next } := by
              simp only [Coordinator.hand, hconfig]
            rw [hhand]
            exact .installs rfl hpending hreply hout
          · exact hfails e _ ⟨hpending, by simp only [Coordinator.hand, h.config]⟩ hs

/-- The peer asks for the layout to be committed. -/
theorem layoutCommit_turns (hevent : asking event = none) (id : String) :
    Turns F env event (some (.commit id)) (layoutCommit F env id : CoordinatorM A B T Unit) := by
  intro s hs
  rw [layoutCommit, wp_bind, wp_get]
  cases hwith : s.pendingWith id false with
  | none => exact taken_rest hevent hs rfl
  | some pending =>
      obtain ⟨hpending, rfl, hreply⟩ := pendingWith_eq_some hwith
      have hreply : pending.reply = none := by
        cases h : pending.reply with
        | none => rfl
        | some client => simp [h] at hreply
      rw [wp_bind, wp_set, wp_bind, wp_onFiles]
      refine wp_mono (pending.prepared.commit_spec F _ env.edit s.files)
        (fun p files h => ?_) fun e files h => ?_
      · obtain ⟨rfl, hconfig, -, -⟩ := h
        rw [wp_bind, wp_onFiles]
        refine wp_mono (Prepared.finish_spec F _ files)
          (fun _ files' h' => ?_) fun _ _ => False.elim
        have hkeeps : ∀ out, List.Sublist out [LayoutMessage.result pending.id true
              (some pending.prepared.afterRevision) none] →
            Turn F env event (some (.commit pending.id)) s.hand true
              { s.hand with pending := none, config := files'.config } out := by
          intro out hout
          rw [h'.2, hconfig]
          exact .keeps rfl hpending hreply hout
        rw [wp_bind]
        refine wp_mono (send_layout hs) (fun _ s' hs' => ?_) fun _ s' hs' => ?_
        · rw [wp_throw, Taken, hs'.1, hs'.2]
          exact hkeeps _ (.refl _)
        · rw [Taken, hs'.1]
          exact hkeeps _ hs'.2
      · refine taken_farewell hevent ⟨hpending, by simp only [Coordinator.hand, h.config]⟩ hs
          (fun _ hout => .inr ⟨rfl, _, hout⟩) fun s₁ h₁ hout => ?_
        refine wp_mono (dropPending_hand pending s₁) (fun _ s₂ h₂ => ?_) fun _ _ => False.elim
        obtain ⟨files', hfiles', rfl⟩ := h₂
        exact taken_given hevent h₁ hfiles' (.inl rfl) (.inr ⟨rfl, some (errorCode e),
          hout ▸ List.Sublist.refl _⟩)

/-- The peer has committed the layout, or has not. -/
theorem layoutResult_turns (hevent : asking event = none) (id : String) (ok : Bool)
    (revision error : Option String) :
    Turns F env event (some (.result id ok revision error))
      (layoutResult F env id ok revision error : CoordinatorM A B T Unit) := by
  intro s hs
  rw [layoutResult, wp_bind, wp_get]
  cases hwith : s.pendingWith id true with
  | none => exact taken_rest hevent hs rfl
  | some pending =>
      obtain ⟨hpending, rfl, hreply⟩ := pendingWith_eq_some hwith
      obtain ⟨client, hclient⟩ := Option.isSome_iff_exists.mp hreply
      rw [wp_bind, wp_set]
      cases ok with
      | false =>
          simp only [Bool.false_eq_true, if_false]
          exact taken_abandon hevent
            ⟨hpending, rfl⟩ (.inr (.inr ⟨revision, error, rfl⟩)) (hs ▸ List.nil_sublist _)
      | true =>
          simp only [if_true]
          rw [wp_bind, wp_onFiles]
          refine wp_mono (Prepared.finish_spec F _ s.files)
            (fun _ files h => ?_) fun _ _ => False.elim
          simp only [hclient]
          rw [answer, wp_bind, wp_modify, wp_throw, Taken]
          have hhand : hand { s with
              pendingLayout := none
              files := files
              replies := s.replies ++ [(client, .success
                [("local_revision", some pending.prepared.afterRevision),
                  ("peer_revision", revision), ("reconnecting", some "true")])] } =
              { s.hand with
                pending := none
                replies := s.hand.replies ++ [(client, .success
                  [("local_revision", some pending.prepared.afterRevision),
                    ("peer_revision", revision), ("reconnecting", some "true")])] } := by
            simp only [Coordinator.hand, h.2]
          rw [hhand, hs]
          exact .concludes rfl hpending hclient

/-- The peer gives the layout up. -/
theorem layoutAbort_turns (hevent : asking event = none) (id : String) :
    Turns F env event heard (layoutAbort F env id : CoordinatorM A B T Unit) := by
  intro s hs
  rw [layoutAbort, wp_bind, wp_get]
  cases hfilter : s.pendingLayout.filter (·.id == id) with
  | none => exact taken_rest hevent hs rfl
  | some pending =>
      rw [wp_bind, wp_set]
      exact taken_abandon hevent ⟨(Option.filter_eq_some_iff.mp hfilter).1,
        rfl⟩ (.inl rfl) (hs ▸ List.nil_sublist _)

/-! ### A pass -/

/-- What the loop has waited for, when it has taken no frame. -/
def waited (event : Event) : Option Frame → Option Event
  | some _ => none
  | none => some event

section Pass
variable [InputSink B]

/-- A client that asks for a release is answered. -/
theorem releaseControl_turns (client : ℕ) :
    Turns F env (some (.release client)) heard
      (releaseControl env client : CoordinatorM A B T Unit) := by
  refine .after rfl (keeps_endSession env) fun _ =>
    .after rfl (keeps_stopCapture env) fun _ => .after rfl .get
    fun s => .after rfl (keeps_placeBack _ _) fun _ => .after rfl (keeps_setRole _) fun _ =>
      .after rfl (keeps_rearm env) fun _ s hs => ?_
  rw [answer, wp_modify, Taken, hs]
  exact .answers (.inl ⟨rfl, rfl⟩)

variable [ActivitySource A]

/-- A tick gives up what has taken too long. -/
theorem tick_turns (hevent : asking event = none) (ready : Result Unit) :
    Turns F env event heard (tick F env ready : CoordinatorM A B T Unit) := by
  refine .after hevent (keeps_external ready) fun _ => .after hevent (keeps_onReceiver _) fun _ =>
    (expireLayout_turns hevent).before fun _ =>
      .bind .get fun s => .bind (.ite keeps_sample (.pure false)) fun physical => ?_
  exact keeps_takeKeyboardEvents.bind fun _ => keeps_takeTouchpadEvents.bind fun _ =>
    (keeps_takeOver physical).bind fun _ =>
      (keeps_forwardKeys _).bind fun _ => (keeps_sendInputs _).bind fun _ =>
      (keeps_reapCapture env).bind fun _ => keeps_beat env

/-- Every branch takes a turn. -/
theorem branch_turns (e : Event) :
    Turns F env (some e) heard (branch F env e : CoordinatorM A B T Unit) := by
  cases e with
  | exit | disconnected => exact turns_of_keeps rfl (.throw _)
  | outputs outputs => exact turns_of_keeps rfl (keeps_outputsChanged outputs)
  | release client => exact releaseControl_turns client
  | applyLayout client layout => exact applyLayout_turns client layout
  | status unlocked => exact turns_of_keeps rfl (keeps_statusChanged unlocked)
  | tick ready => exact tick_turns rfl ready
  | capture report => exact turns_of_keeps rfl (keeps_captureEvent report)

/-- Every message of the peer takes a turn. -/
theorem peerMessage_turns (hevent : asking event = none) (frame : Frame) :
    Turns F env event frame.layout (peerMessage F env frame.message : CoordinatorM A B T Unit) := by
  obtain ⟨message, own⟩ := frame
  cases message with
  | layout message =>
      cases message with
      | prepare id edges revision => exact layoutPrepare_turns hevent id edges revision
      | prepared id ok error => exact layoutPrepared_turns hevent id ok error
      | commit id => exact layoutCommit_turns hevent id
      | result id ok revision error => exact layoutResult_turns hevent id ok revision error
      | abort id => exact layoutAbort_turns hevent id
  | desktop info => exact turns_of_keeps hevent (.modify fun _ => rfl)
  | touchpads devices => exact turns_of_keeps hevent (keeps_peerTouchpads devices)
  | hello version => exact turns_of_keeps hevent (.throw _)
  | ping nonce => exact turns_of_keeps hevent (keeps_sendFrame rfl)
  | pong nonce => exact turns_of_keeps hevent (.pure ())
  | lockState locked => exact turns_of_keeps hevent (keeps_peerLockState locked)
  | «begin» session entry => exact turns_of_keeps hevent (keeps_peerBegin session entry)
  | input session sequence input =>
      exact turns_of_keeps hevent (keeps_peerInput session sequence input)
  | «end» session exit => exact turns_of_keeps hevent (keeps_peerEnd session exit)

/-- Every pass takes a turn. -/
theorem pass_turn (e : Event) (frame : Option Frame) :
    Turns F env (waited e frame) (frame.bind Frame.layout)
    (pass F env e frame : CoordinatorM A B T Unit) := by
  cases frame with
  | none => exact (branch_turns e).before fun _ => keeps_head env
  | some frame => exact (peerMessage_turns rfl frame).before fun _ => keeps_head env

/-- What becomes of a pending layout when the loop ends. -/
inductive Closes (F : Format T D) (env : Env T) (h : Hand T) : Hand T → Prop where
  | free (hfree : h.pending = none) : Closes F env h h
  | drops {pending config} (hpending : h.pending = some pending)
      (hconfig : Undone F env.rollback pending.prepared h.config config) :
      Closes F env h ⟨none, config, h.replies ++ told pending "layout_unconfirmed"⟩

/-- A loop that ends gives up the pending layout. -/
theorem close_closes (F : Format T D) (env : Env T) (s : Coordinator A B T) :
    wp (close F env) s (fun _ s' => Closes F env s.hand s'.hand) (fun _ _ => False) := by
  have hcalm : ∀ {m : CoordinatorM A B T Unit} (_ : Keeps desk m) (s : Coordinator A B T),
      wp (attempt m : CoordinatorM A B T _) s
        (fun _ s' => s'.desk = s.desk) (fun _ _ => False) := by
    intro m hm s
    rw [wp_attempt]
    exact hm s
  refine wp_seq (hcalm (keeps_onReceiver _) s) fun _ s₁ h₁ => ?_
  rw [suspend, wp_bind, wp_modify]
  refine wp_seq (hcalm (keeps_stopCapture env) _) fun _ s₂ h₂ => ?_
  obtain ⟨hhand, -⟩ := Prod.mk.injEq .. ▸ (h₂.trans h₁ : s₂.desk = s.desk)
  rw [wp_bind, wp_get, ← show s₂.hand = s.hand from hhand]
  cases hpending : s₂.pendingLayout with
  | none => exact .free hpending
  | some pending =>
      rw [wp_bind, wp_set]
      refine wp_mono (dropPending_hand pending _) (fun _ s₃ h₃ => ?_) fun _ _ => id
      obtain ⟨files, hfiles, rfl⟩ := h₃
      exact .drops hpending hfiles

end Pass

end Turns

end Coordinator

namespace Node

variable [ActivitySource A] [InputSink B]

/-- What a pass makes of layouts; when the loop ends the pending one is closed. -/
theorem after_turn (F : Format T D) (env : Env T) {m : CoordinatorM A B T Unit}
    {event : Option Coordinator.Event} {heard : Option LayoutMessage}
    (hm : Coordinator.Turns F env event heard m) (s : Coordinator A B T) :
    ∃ ended h, Coordinator.Turn F env event heard s.hand ended h (layouts (after F env m s).2) ∧
      (ended = false ∧ (after F env m s).1.stopped = none ∧
        (after F env m s).1.coordinator.hand = h ∨
        ended = true ∧ (after F env m s).1.stopped ≠ none ∧
          Coordinator.Closes F env h (after F env m s).1.coordinator.hand) := by
  have hpass := hm { s with outbox := [] } rfl
  cases hrun : m { s with outbox := [] } with
  | ok u s' =>
      have hturn := wp_of_ok hpass hrun
      refine ⟨false, s'.hand, ?_, .inl ⟨rfl, ?_, ?_⟩⟩ <;> simp only [after, hrun]
      exact hturn
  | error stop s' =>
      have hturn := wp_of_error hpass hrun
      have hcloses := Coordinator.close_closes F env s'
      cases hclose : Coordinator.close F env s' with
      | ok u s'' =>
          have hclosed := wp_of_ok hcloses hclose
          refine ⟨true, s'.hand, ?_, .inr ⟨rfl, ?_, ?_⟩⟩ <;>
            simp only [after, hrun, EStateM.run, hclose]
          · exact hturn
          · simp
          · exact hclosed
      | error e s'' => exact (wp_of_error hcloses hclose).elim

/-- **A step of a device is a turn.** -/
theorem step_turn (F : Format T D) {n : Node A B T} (hn : n.stopped = none)
    (input : Coordinator.Event × Env T) (frame : Option Frame) :
    ∃ ended h, Coordinator.Turn F input.2 (Coordinator.waited input.1 frame)
    (frame.bind Frame.layout)
        n.coordinator.hand ended h (layouts (n.step F input frame).2) ∧
      (ended = false ∧ (n.step F input frame).1.stopped = none ∧
        (n.step F input frame).1.coordinator.hand = h ∨
        ended = true ∧ (n.step F input frame).1.stopped ≠ none ∧
          Coordinator.Closes F input.2 h (n.step F input frame).1.coordinator.hand) := by
  rw [step, hn]
  exact after_turn F input.2 (Coordinator.pass_turn input.1 frame) n.coordinator

end Node

end NiriBridge
