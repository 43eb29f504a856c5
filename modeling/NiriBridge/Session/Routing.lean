import NiriBridge.Coordinator.Routes
import NiriBridge.Session.Races

/-!
# Session — Routing

Each device works on what it last heard of the other's displays.  `Route` is what keeps an id
meaningful on its way: while a device sends, no news of its own displays is on its way to the peer
but ahead of the session it has begun, and an end that comes before news of the peer's displays
names an id that is active.

`edges_route` is the result: in every run, an id that is written is the one of the edge that was
crossed, the device that takes it puts the pointer on its own edge with that id, and no error about
edges ends a connection.
-/

namespace NiriBridge

open Hoare Session Duplex

variable {A B T D : Type}

/-! ### News of displays -/

/-- What a frame says of a desktop. -/
def Frame.news (frame : Frame) : Option Desktop :=
  match frame.message with
  | .desktop info => some info
  | _ => none

/-- The desktops that the frames are about. -/
def news (frames : List Frame) : List Desktop := frames.filterMap Frame.news

/-- The news are among the frames about edges. -/
theorem news_located (l : List Frame) : news (located l) = news l := by
  rw [news, located, List.filterMap_filter]
  refine List.filterMap_congr fun f _ => ?_
  obtain ⟨message, own⟩ := f
  cases message with
  | «end» session exit => exact ite_self none
  | _ => rfl

/-- What the peer's displays are once the frames have been taken. -/
def lastNews (frames : List Frame) (before : Option Desktop) : Option Desktop :=
  (news frames).getLast?.or before

theorem lastNews_cons (f : Frame) (l : List Frame) (before : Option Desktop) :
    lastNews (f :: l) before = lastNews l (f.news.or before) := by
  unfold lastNews
  cases hf : f.news with
  | none => simp [news, hf]
  | some info =>
      rw [news, List.filterMap_cons_some hf, List.getLast?_cons]
      cases h : (List.filterMap Frame.news l).getLast? <;> simp [news, h]

/-- The last news are those of the last part that has any. -/
theorem lastNews_append (l w : List Frame) (before : Option Desktop) :
    lastNews (l ++ w) before = lastNews w (lastNews l before) := by
  induction l generalizing before with
  | nil => rfl
  | cons f l ih => rw [List.cons_append, lastNews_cons, lastNews_cons, ih]

/-- Without news what was known before is known. -/
theorem lastNews_of_no_news {l : List Frame} {before : Option Desktop} (h : news l = []) :
    lastNews l before = before := by
  rw [lastNews, h]
  rfl

/-- After every news the session begins. -/
def Announced (n : ℕ) : List Frame → Prop
  | [] => True
  | f :: l => (f.news ≠ none → .begin n ∈ signals l) ∧ Announced n l

/-- An announcement still holds when no news follow. -/
theorem Announced.append {n : ℕ} {l w : List Frame} (h : Announced n l) (hw : news w = []) :
    Announced n (l ++ w) := by
  induction l with
  | nil =>
      induction w with
      | nil => trivial
      | cons f w ih =>
          have hf : f.news = none ∧ news w = [] := by
            cases hf : f.news <;> simp_all [news]
          exact ⟨fun hne => absurd hf.1 hne, ih hf.2⟩
  | cons f l ih =>
      exact ⟨fun hne => signals_append l w ▸ List.mem_append_left _ (h.1 hne), ih h.2⟩

/-- A session that begins after all news. -/
theorem announced_of_begin {n : ℕ} {l w : List Frame} (hw : news w = [])
    (hn : .begin n ∈ signals w) :
    Announced n (l ++ w) := by
  induction l with
  | nil => exact Announced.append (l := []) trivial hw
  | cons f l ih =>
      exact ⟨fun _ => signals_append l w ▸ List.mem_append_right _ hn, ih⟩

/-- A session that is no longer on its way has no news before it. -/
theorem Announced.no_news {n : ℕ} {l : List Frame} (h : Announced n l) (hn : .begin n ∉ signals l) :
    news l = [] := by
  induction l with
  | nil => rfl
  | cons f l ih =>
      have hl : .begin n ∉ signals l := fun hmem =>
        hn (by rw [show f :: l = [f] ++ l from rfl,
          signals_append]; exact List.mem_append_right _ hmem)
      cases hf : f.news with
      | none =>
          rw [news, List.filterMap_cons_none hf]
          exact ih h.2 hl
      | some info => exact absurd (h.1 (by simp [hf])) hl

/-- The ends of the session that come before news of displays name one of the ids. -/
def Returns (ids : List String) (n : ℕ) : List Frame → Prop
  | [] => True
  | f :: l => f.news = none → (∀ p, f.message = .end n (some p) → p.edgeId ∈ ids) ∧ Returns ids n l

/-- Every end that is on its way returns to one of the ids. -/
theorem returns_of_forall {ids : List String} {n : ℕ} {l : List Frame}
    (h : ∀ f ∈ l, ∀ p, f.message = .end n (some p) → p.edgeId ∈ ids) : Returns ids n l := by
  induction l with
  | nil => trivial
  | cons f l ih =>
      exact fun _ => ⟨h f List.mem_cons_self, ih fun g hg => h g (List.mem_cons_of_mem _ hg)⟩

/-- More may be sent that returns there. -/
theorem Returns.append {ids : List String} {n : ℕ} {l w : List Frame} (h : Returns ids n l)
    (hw : news l = [] → ∀ f ∈ w, ∀ p, f.message = .end n (some p) → p.edgeId ∈ ids) :
    Returns ids n (l ++ w) := by
  induction l with
  | nil => exact returns_of_forall (hw rfl)
  | cons f l ih =>
      intro hf
      refine ⟨(h hf).1, ih (h hf).2 fun hl => hw ?_⟩
      rw [news, List.filterMap_cons_none hf]
      exact hl

/-- What holds of a device that runs, of the frames on their way to it and of those on their way to
the peer. -/
structure Route (s : Coordinator A B T) (toIt toPeer : List Frame) : Prop where
  announced :
    ∀ n sequence edge fraction, s.role = .sending n sequence edge fraction → Announced n toPeer
  returns : ∀ n sequence edge fraction, s.role = .sending n sequence edge fraction →
    Returns (Coordinator.activeIds s.desktop s.peerDesktop) n toIt
  numbered : ∀ f ∈ toIt, ∀ n p, f.message = .end n (some p) → n < s.nextSession

/-! ### Steps of one device -/

namespace Node

variable [ActivitySource A] [InputSink B] {F : Format T D} {n : Node A B T} {p q : Party InputEvent}
  {input : Coordinator.Event × Env T} {frame : Option Frame}

omit [ActivitySource A] [InputSink B] in
/-- News are about new outputs. -/
theorem news_of_says {s : Coordinator A B T} {event : Coordinator.Event} {w : List Frame}
    (h : s.Says event frame w) (hw : news w ≠ []) :
    ∃ outputs, event = .outputs outputs ∧ frame = none ∧
      news w = [{ s.desktop with outputs := outputs }] := by
  cases h with
  | nothing => exact absurd rfl hw
  | outputs outputs => exact ⟨outputs, rfl, rfl, rfl⟩
  | crossed hcapture h => cases h <;> exact absurd rfl hw

/-- What a device that sends has told of its displays, and what it has taken. -/
theorem step_sends (hcurrent : n.Current) (hgood : n.Good True) (hn : n.stopped = none)
    (hplays : n.Plays p)
    (hpass : Pass p (signals frame.toList) q (signals (n.step F input frame).2))
    (hrun : (n.step F input frame).1.stopped = none)
    (hq : (n.step F input frame).1.Plays q) {session sequence edge : ℕ} {fraction : ℚ}
    (hrole : (n.step F input frame).1.coordinator.role = .sending session sequence edge fraction) :
    news (n.step F input frame).2 = [] ∧ (∀ f, frame = some f → f.news = none) ∧
      ((∃ sequence' edge' fraction',
        n.coordinator.role = .sending session sequence' edge' fraction' ∧
          (n.step F input frame).1.coordinator.desktop = n.coordinator.desktop ∧
          (n.step F input frame).1.coordinator.peerDesktop = n.coordinator.peerDesktop) ∨
        session = n.coordinator.nextSession ∧
        .begin session ∈ signals (n.step F input frame).2) := by
  obtain ⟨hsaid, -, hwaits⟩ := step_edges hcurrent hn input frame (F := F)
  obtain ⟨-, hwaits, -⟩ := hwaits hrun
  have hsends : q.sends = some session := by
    rw [hq.running hrun, Coordinator.sends_party]
    exact ⟨sequence, edge, fraction, hrole⟩
  rcases hpass.own.1 hsends with hsent | hbegin
  · rw [hplays.running hn, Coordinator.sends_party] at hsent
    obtain ⟨sequence', edge', fraction', hrole'⟩ := hsent
    have hsending : n.coordinator.core.role.isSending = true := congrArg Role.isSending hrole'
    obtain ⟨task, hcapture, -⟩ := (hgood.relations hn).sending trivial hsending
    have hsome : n.coordinator.capture.isSome = true := by
      rw [show n.coordinator.capture = some task from hcapture]
      rfl
    -- a session does not outlive news of displays
    have hnot : ¬ Coordinator.Redisplays input.1 frame := fun h =>
      absurd ((hwaits.outdated hsome h).symm.trans hrole) (by simp)
    have hframe : ∀ f, frame = some f → f.news = none := by
      rintro ⟨message, own⟩ rfl
      cases message with
      | desktop info => exact absurd (.inr ⟨info, own, rfl⟩) hnot
      | _ => rfl
    refine ⟨?_, hframe, .inl ⟨sequence', edge', fraction', hrole', ?_, ?_⟩⟩
    · by_contra hne
      rw [← news_located] at hne
      obtain ⟨outputs, hevent, hnone, -⟩ := news_of_says hsaid hne
      exact hnot (.inl ⟨hnone, outputs, hevent⟩)
    · rw [hwaits.desktop]
      cases frame with
      | some f => rfl
      | none =>
          cases hevent : input.1 with
          | outputs outputs => exact absurd (.inl ⟨rfl, outputs, hevent⟩) hnot
          | _ => rfl
    · rw [hwaits.peerDesktop]
      cases frame with
      | none => rfl
      | some f =>
          have hf := hframe f rfl
          obtain ⟨message, own⟩ := f
          cases message with
          | desktop info => cases hf
          | _ => rfl
  · -- a session that starts now starts with an event of the capture
    obtain ⟨hstarts, hnext⟩ := hsaid.starts (begin_mem_located hbegin)
    have hframe : frame = none := by
      cases frame with
      | none => rfl
      | some f => exact hstarts.elim
    refine ⟨?_, fun f hf => absurd (hframe.symm.trans hf) (by simp), .inr ⟨hnext, hbegin⟩⟩
    by_contra hne
    rw [← news_located] at hne
    obtain ⟨outputs, hevent, -, -⟩ := news_of_says hsaid hne
    rw [hframe, hevent] at hstarts
    exact hstarts.elim

/-- Where a device that runs waits, its displays are those it has told last. -/
theorem step_news (hcurrent : n.Current) (hn : n.stopped = none)
    (hrun : (n.step F input frame).1.stopped = none) :
    lastNews (n.step F input frame).2 (some n.coordinator.desktop) =
        some (n.step F input frame).1.coordinator.desktop ∧
      (n.step F input frame).1.coordinator.peerDesktop =
        lastNews frame.toList n.coordinator.peerDesktop := by
  obtain ⟨hsaid, -, hwaits⟩ := step_edges hcurrent hn input frame (F := F)
  obtain ⟨-, hwaits, hout⟩ := hwaits hrun
  constructor
  · by_cases hnews : news (n.step F input frame).2 = []
    · rw [lastNews_of_no_news hnews]
      by_contra hne
      have htold := hwaits.told fun heq => hne (congrArg some heq.symm)
      rw [hout] at htold
      rw [← news_located, htold] at hnews
      cases hnews
    · rw [← news_located] at hnews
      obtain ⟨outputs, hevent, rfl, htold⟩ := news_of_says hsaid hnews
      rw [lastNews, ← news_located, htold, hwaits.desktop, hevent]
      rfl
  · rw [hwaits.peerDesktop]
    cases frame with
    | none => rfl
    | some f =>
        obtain ⟨message, own⟩ := f
        cases message <;> rfl

end Node

/-! ### Two devices -/

namespace Devices

variable [ActivitySource A] [InputSink B]

/-- A capture worker reports once that the pointer has crossed an edge, and names one of the edges
it was started with. -/
def Reported (d : World A B T) (l : Step T) : Prop :=
  l.takes = false → (d.node l.side).stopped = none →
    let s := (d.node l.side).coordinator
    s.StartedOnce l.input.1 ∧ ∀ index fraction, s.capture.isSome = true →
      l.input.1 = .capture (some ⟨s.generation, .started index fraction⟩) →
      index < s.captureEdges.length

/-- What holds between two devices while edges are routed. -/
structure Routed (d : World A B T) : Prop where
  parties : ∃ a, Flows d a
  good : ∀ s, (d.node s).Good True
  current : ∀ s, (d.node s).Current
  placed : ∀ s, (d.node s).Placed False
  edges : ∀ s, (d.node s).stopped = none →
    (d.node s).coordinator.desktop.edges = (d.node s).coordinator.config.edges ∧
      ((d.node s).coordinator.config.edges.map EdgeConfig.id).Nodup
  told : ∀ s, (d.node s).stopped = none → (d.node s.other).stopped = none →
    lastNews (d.chan s) (d.node s).coordinator.peerDesktop =
    some (d.node s.other).coordinator.desktop
  route : ∀ s, (d.node s).stopped = none → Route (d.node s).coordinator (d.chan s) (d.chan s.other)

variable {F : Format T D} {d : World A B T} {a : Side → Party InputEvent}

omit [ActivitySource A] in
/-- What a device takes, and what its worker reports, is about edges it knows. -/
theorem Routed.not_misrouted {l : Step T} {frame : Option Frame} {rest : List Frame} (h : Routed d)
    (hl : Reported d l) (htakes : frame.isSome = l.takes)
    (hchan : d.chan l.side = frame.toList ++ rest) (hn : (d.node l.side).stopped = none) :
    ¬ (d.node l.side).coordinator.Misrouted l.input.1 frame := by
  have hcurrent := h.current l.side hn
  obtain ⟨hedges, hnodup⟩ := h.edges l.side hn
  cases frame with
  | some f =>
      obtain ⟨message, own⟩ := f
      intro hmis
      cases message with
      | «end» session exit =>
          obtain ⟨hsession, n, sequence, edge, fraction, e, hrole, hreturn⟩ := hmis
          cases exit with
          | none => cases hreturn
          | some p =>
              rw [hrole] at hsession
              obtain rfl : n = session := Option.some.inj hsession
              -- an end of this session names an edge that is active here
              have hreturns := (h.route l.side hn).returns n sequence edge fraction hrole
              rw [hchan] at hreturns
              have hid := (hreturns rfl).1 p rfl
              obtain ⟨e', he'⟩ := Coordinator.returnEdge_of_active edge fraction hedges hnodup
                hcurrent.available hid
              exact absurd (he'.symm.trans hreturn) (by simp)
      | _ => exact hmis
  | none =>
      rintro ⟨report, index, hevent, hcrossing, hunknown⟩
      obtain ⟨-, hbound⟩ := hl htakes.symm hn
      obtain _ | ⟨generation, event⟩ := report
      · cases hcrossing
      cases event with
      | started index' fraction =>
          simp only [Coordinator.captureCrossing, Option.ite_none_right_eq_some, Option.some.injEq]
            at hcrossing
          obtain ⟨⟨hcapture, rfl⟩, rfl⟩ := hcrossing
          -- the capture reports an edge it was started with
          have hlt := hbound index' fraction hcapture hevent
          refine hunknown _ (List.getElem?_eq_getElem hlt) ?_
          rw [← (hcurrent.capture hcapture).2]
          exact List.getElem_mem hlt
      | _ => cases hcrossing

/-- The frames that a step of a running device adds to those on their way to its peer. -/
theorem Routed.peer {s : Side} {input : Coordinator.Event × Env T} {frame : Option Frame}
    {rest : List Frame} (h : Routed d) (hchan : d.chan s = frame.toList ++ rest)
    (hn : (d.node s).stopped = none) (hpeer : (d.node s.other).stopped = none) :
    Route (d.node s.other).coordinator
      (d.chan s.other ++ ((d.node s).step F input frame).2) rest := by
  obtain ⟨a, hflows⟩ := h.parties
  have hroute := h.route s.other hpeer
  rw [Side.other_other] at hroute
  obtain ⟨hsaid, -, -⟩ := Node.step_edges (h.current s) hn input frame (F := F)
  have hstream := hflows.stream s.other
  rw [Side.other_other] at hstream
  have hnext : (a s.other).next = (d.node s.other).coordinator.nextSession := by
    rw [(hflows.plays s.other).running hpeer]
    rfl
  -- an end at a position is about the session that this device receives
  have hends : ∀ f ∈ ((d.node s).step F input frame).2, ∀ n p, f.message = .end n (some p) →
      n < (d.node s.other).coordinator.nextSession ∧
        p.edgeId ∈ Coordinator.activeIds (d.node s).coordinator.desktop
          (d.node s).coordinator.peerDesktop ∧
        .begin n ∉ signals (d.chan s) := by
    intro f hf n p hmessage
    have hlocated : f ∈ located ((d.node s).step F input frame).2 := by
      refine mem_located.mpr ⟨hf, ?_⟩
      rw [Frame.locates, hmessage]
    obtain ⟨edge, -, hcrosses, hid, hreceiving⟩ :=
      hsaid.position hlocated (p := p) (by rw [hmessage]; rfl)
    have hrole := hreceiving n hmessage
    have hup := hflows.running hn
    have hserves : (a s).serves = some n := by
      rw [(hflows.plays s).running hn, Coordinator.serves_party]
      exact hrole
    obtain ⟨k, hpart⟩ : ∃ k, (a s).part = .receiving n k := by
      revert hserves
      rw [Party.serves]
      cases (a s).part with
      | receiving m k =>
          intro hm
          rw [Option.some.inj hm]
          exact ⟨k, rfl⟩
      | idle => exact fun hm => absurd hm (by simp)
      | sending => exact fun hm => absurd hm (by simp)
    refine ⟨hnext ▸ hstream.freshReceives n k hup hpart, ?_, (hstream.receives n k hup hpart).1⟩
    rw [hid]
    exact hcrosses.active (h.edges s hn).1 (h.current s hn).available
  refine ⟨fun n sequence edge fraction hrole => ?_, fun n sequence edge fraction hrole => ?_,
    fun f hf n p hmessage => ?_⟩
  · have hannounced := hroute.announced n sequence edge fraction hrole
    rw [hchan] at hannounced
    cases frame with
    | none => exact hannounced
    | some f => exact hannounced.2
  · refine (hroute.returns n sequence edge fraction hrole).append fun hnone f hf p hmessage => ?_
    obtain ⟨-, hid, hbegin⟩ := hends f hf n p hmessage
    -- neither has news that the other has not taken
    have htheirs := h.told s.other hpeer (by rwa [Side.other_other])
    rw [Side.other_other, lastNews_of_no_news hnone] at htheirs
    have hours := h.told s hn hpeer
    rw [lastNews_of_no_news ((hroute.announced n sequence edge fraction hrole).no_news hbegin)]
      at hours
    rw [htheirs]
    rw [hours] at hid
    exact Coordinator.mem_activeIds_symm.mp hid
  · rcases List.mem_append.mp hf with hf | hf
    · exact hroute.numbered f hf n p hmessage
    · exact (hends f hf n p hmessage).1

/-- A running device keeps what it knows of edges. -/
theorem Routed.own {s : Side} {input : Coordinator.Event × Env T} {frame : Option Frame}
    {rest : List Frame} {q : Party InputEvent} (h : Routed d) (hflows : Flows d a)
    (hchan : d.chan s = frame.toList ++ rest) (hn : (d.node s).stopped = none)
    (hq : ((d.node s).step F input frame).1.Plays q)
    (hpass : Pass (a s) (signals frame.toList) q (signals ((d.node s).step F input frame).2))
    (hrun : ((d.node s).step F input frame).1.stopped = none) :
    Route ((d.node s).step F input frame).1.coordinator rest
      (d.chan s.other ++ ((d.node s).step F input frame).2) := by
  have hroute := h.route s hn
  have hplays := hflows.plays s
  have hrest : ∀ f ∈ rest, f ∈ d.chan s := fun f hf => hchan ▸ List.mem_append_right _ hf
  -- a session of the party's own is older than the next number
  have hfresh : (a s).Numbered := by
    intro n hsent
    obtain ⟨k, hpart⟩ : ∃ k, (a s).part = .sending n k := by
      revert hsent
      rw [Party.sends]
      cases (a s).part with
      | sending m k =>
          intro hm
          rw [Option.some.inj hm]
          exact ⟨k, rfl⟩
      | idle => exact fun hm => absurd hm (by simp)
      | receiving => exact fun hm => absurd hm (by simp)
    exact (hflows.stream s).freshSends n k hpart
  have hnext : (d.node s).coordinator.nextSession ≤
      ((d.node s).step F input frame).1.coordinator.nextSession := by
    have hle := (hpass.numbered hfresh).2
    rwa [hplays.running hn, hq.running hrun] at hle
  refine ⟨fun n sequence edge fraction hrole => ?_, fun n sequence edge fraction hrole => ?_,
    fun f hf n p hmessage => (hroute.numbered f (hrest f hf) n p hmessage).trans_le hnext⟩
  · -- the session went on, or it begins now and says where it left
    obtain ⟨hquiet, -, ⟨sequence', edge', fraction', hsent, -⟩ | ⟨-, hbegin⟩⟩ :=
      Node.step_sends (h.current s) (h.good s) hn hplays hpass hrun hq hrole
    · exact (hroute.announced n sequence' edge' fraction' hsent).append hquiet
    · exact announced_of_begin hquiet hbegin
  · -- no end is on its way yet for a session that begins now
    obtain ⟨-, hframe, ⟨sequence', edge', fraction', hsent, hdesktop, hpeerDesktop⟩ | ⟨hnew, -⟩⟩ :=
      Node.step_sends (h.current s) (h.good s) hn hplays hpass hrun hq hrole
    · rw [hdesktop, hpeerDesktop]
      have hreturns := hroute.returns n sequence' edge' fraction' hsent
      rw [hchan] at hreturns
      cases frame with
      | none => exact hreturns
      | some f => exact (hreturns (hframe f rfl)).2
    · refine returns_of_forall fun f hf p hmessage => ?_
      exact absurd (hroute.numbered f (hrest f hf) n p hmessage) (hnew ▸ Nat.lt_irrefl _)

/-- A pass of a running device. -/
theorem Routed.run {l : Step T} {frame : Option Frame} {rest : List Frame} (h : Routed d)
    (hl : Reported d l) (htakes : frame.isSome = l.takes)
    (hchan : d.chan l.side = frame.toList ++ rest) (hn : (d.node l.side).stopped = none) :
    Routed (d.move l.side ((d.node l.side).step F l.input frame).1 rest
      ((d.node l.side).step F l.input frame).2) := by
  obtain ⟨a, hflows⟩ := h.parties
  rcases Node.step_plays F (hflows.plays l.side) l.input frame with ⟨-, q, hq, hpass, hstop⟩ |
    ⟨hstopped, -⟩
  swap
  · exact absurd hn hstopped
  have hmisrouted := h.not_misrouted hl htakes hchan hn
  -- each clause is about both sides: the one that steps, and the one that waits
  have hsplit : ∀ {P : Side → Prop}, P l.side → P l.side.other → ∀ t, P t := by
    intro P hs ht t
    rcases Side.eq_or_eq_other t l.side with rfl | rfl
    · exact hs
    · exact ht
  refine ⟨⟨_, hflows.pass hchan hn hq hpass hstop⟩, hsplit ?_ ?_, hsplit ?_ ?_,
    hsplit ?_ ?_, hsplit ?_ ?_, hsplit ?_ ?_, hsplit ?_ ?_⟩ <;>
    simp only [Side.other_other, move_node, move_node_other, move_chan, move_chan_other]
  · exact Node.good_next (F := F) (l := (l.input, frame)) (h.good l.side) fun _ hn hframe =>
      (hl (by rw [← htakes, show frame = none from hframe]; rfl) hn).1
  · exact h.good _
  · exact Node.step_current (h.current l.side) l.input frame
  · exact h.current _
  · exact Node.placed_next F (h.placed l.side) (l.input, frame) fun _ => hmisrouted
  · exact h.placed _
  · intro hrun
    obtain ⟨hconfig, hwaits, -⟩ :=
      (Node.step_edges (h.current l.side) hn l.input frame (F := F)).2.2 hrun
    obtain ⟨hedges, hnodup⟩ := h.edges l.side hn
    refine ⟨?_, hconfig ▸ hnodup⟩
    rw [hconfig, hwaits.desktop, ← hedges]
    cases frame with
    | some f => rfl
    | none => cases l.input.1 <;> rfl
  · exact h.edges _
  · intro hrun hpeer
    rw [(Node.step_news (h.current l.side) hn hrun).2, ← lastNews_append, ← hchan]
    exact h.told l.side hn hpeer
  · intro hpeer hrun
    have hours := h.told l.side.other hpeer (by rwa [Side.other_other])
    rw [Side.other_other] at hours
    rw [lastNews_append, hours]
    exact (Node.step_news (h.current l.side) hn hrun).1
  · exact fun hrun => h.own hflows hchan hn hq hpass hrun
  · exact fun hpeer => h.peer hchan hn hpeer

omit [ActivitySource A] in
/-- A device that has stopped loses its frames. -/
theorem Routed.lose {s : Side} {frame : Option Frame} {rest : List Frame} (h : Routed d)
    (hchan : d.chan s = frame.toList ++ rest) (hn : (d.node s).stopped ≠ none) :
    Routed (d.move s (d.node s) rest []) := by
  obtain ⟨a, hflows⟩ := h.parties
  have hsplit : ∀ {P : Side → Prop}, P s → P s.other → ∀ t, P t := by
    intro P hs ht t
    rcases Side.eq_or_eq_other t s with rfl | rfl
    · exact hs
    · exact ht
  refine ⟨⟨a, hflows.lose hchan hn⟩, hsplit ?_ ?_, hsplit ?_ ?_, hsplit ?_ ?_, hsplit ?_ ?_,
    hsplit ?_ ?_, hsplit ?_ ?_⟩ <;>
    simp only [Side.other_other, move_node, move_node_other, move_chan, move_chan_other,
      List.append_nil]
  · exact h.good s
  · exact h.good _
  · exact h.current s
  · exact h.current _
  · exact h.placed s
  · exact h.placed _
  · exact h.edges s
  · exact h.edges _
  · exact fun hrun => absurd hrun hn
  · exact fun _ hrun => absurd hrun hn
  · exact fun hrun => absurd hrun hn
  · intro hpeer
    have hroute := h.route s.other hpeer
    rw [Side.other_other] at hroute
    refine { hroute with announced := fun n sequence edge fraction hrole => ?_ }
    have hannounced := hroute.announced n sequence edge fraction hrole
    rw [hchan] at hannounced
    cases frame with
    | none => exact hannounced
    | some f => exact hannounced.2

/-- A step that is reported keeps the routes. -/
theorem routed_next (h : Routed d) {l : Step T} (hl : Reported d l) : Routed (next F d l) := by
  rw [next]
  rcases Duplex.next_cases (Node.step F) d l with hsame | ⟨frame, rest, htakes, hchan, hmove⟩
  · rw [hsame]
    exact h
  · rw [hmove]
    cases hn : (d.node l.side).stopped with
    | none => exact h.run hl htakes hchan hn
    | some stop =>
        have hstep : (d.node l.side).step F l.input frame = (d.node l.side, []) := by
          rw [Node.step, hn]
        rw [hstep]
        exact h.lose hchan fun hrun => absurd (hrun.symm.trans hn) (by simp)

/-! ### Runs -/

/-- A device opens with the news of its displays, and with no position. -/
theorem opened_news (F : Format T D) (x : Setup A B T) :
    (∀ f ∈ (opened F x).2, Coordinator.position f.message = none) ∧
      ((opened F x).1.stopped = none → (opened F x).1.coordinator.config = x.config ∧
        (opened F x).1.coordinator.desktop = x.desktop ∧
        (opened F x).1.coordinator.peerDesktop = none ∧ news (opened F x).2 = [x.desktop]) := by
  let s := Coordinator.new x.config x.desktop x.sink x.activity x.unlocked x.now x.files
  -- a frame about edges that is news says no position
  have hquiet : ∀ {out : List Frame}, (∀ f ∈ located out, f.news ≠ none) →
      ∀ f ∈ out, Coordinator.position f.message = none := by
    intro out hnews f hf
    cases hp : Coordinator.position f.message with
    | none => rfl
    | some p =>
        obtain ⟨message, own⟩ := f
        have hlocated : (⟨message, own⟩ : Frame) ∈ located out := by
          refine mem_located.mpr ⟨hf, ?_⟩
          cases message with
          | «begin» => rfl
          | «end» session exit =>
              obtain rfl : exit = some p := hp
              rfl
          | _ => cases hp
        have hne := hnews _ hlocated
        cases message with
        | desktop info => cases hp
        | _ => exact absurd rfl hne
  rcases Node.after_spec F x.env
    (s := s) (Coordinator.open_edges x.config x.desktop x.sink x.activity
    x.unlocked x.now x.files x.env)
      with ⟨hrun, ⟨htold, -⟩, hout⟩ | ⟨stop, s', hstop, htold, hout, -⟩
  · have hlocated : located (opened F x).2 = [⟨.desktop x.desktop, false⟩] :=
      (congrArg located hout).trans htold.located
    refine ⟨hquiet fun f hf => ?_, fun _ => ⟨htold.config, htold.desktop, htold.peerDesktop, ?_⟩⟩
    · rw [hlocated] at hf
      obtain rfl := List.mem_singleton.mp hf
      simp [Frame.news]
    · rw [← news_located, hlocated]
      rfl
  · refine ⟨hquiet fun f hf => ?_, fun hrun => absurd (hrun.symm.trans hstop) (by simp)⟩
    rw [show (opened F x).2 = s'.outbox from hout] at hf
    rcases htold with htold | htold <;> rw [htold.located] at hf
    · exact absurd hf List.not_mem_nil
    · obtain rfl := List.mem_singleton.mp hf
      simp [Frame.news]

/-- The routes are right at the start. -/
theorem routed_start (F : Format T D) (x : Side → Setup A B T)
    (hedges : ∀ s, (x s).desktop.edges = (x s).config.edges)
    (hvalid : ∀ s, validateEdges (x s).config.edges = .ok ()) : Routed (start F x) := by
  have hnews := fun s => opened_news F (x s)
  have hrole : ∀ s n sequence edge fraction, ((start F x).node s).stopped = none →
      ((start F x).node s).coordinator.role ≠ .sending n sequence edge fraction := by
    intro s n sequence edge fraction hrun hrole
    obtain ⟨p, hplays, hpass, -⟩ := opened_plays F (x s)
    have hsends : p.sends = some n := by
      rw [hplays.running hrun, Coordinator.sends_party]
      exact ⟨sequence, edge, fraction, hrole⟩
    rcases hpass.own.1 hsends with hsent | hbegin
    · cases hsent
    · exact absurd hbegin List.not_mem_nil
  refine ⟨flows_start F x,
    fun s => ?_, fun s => current_opened F (x s), fun s => ?_, fun s hrun => ?_,
    fun s hrun hpeer => ?_, fun s hrun => ⟨?_, ?_, ?_⟩⟩
  · exact Node.good_connect F (x s).env (x s).config (x s).desktop (x s).sink (x s).activity
      (x s).unlocked (x s).now (x s).files
  · exact Node.placed_after (Coordinator.open_tidy (x s).config (x s).desktop (x s).sink
      (x s).activity
      (x s).unlocked (x s).now (x s).files)
  · obtain ⟨hconfig, hdesktop, -⟩ := (hnews s).2 hrun
    rw [show ((start F x).node s).coordinator = (opened F (x s)).1.coordinator from rfl,
      hconfig, hdesktop]
    exact ⟨hedges s, nodup_of_validateEdges (hvalid s)⟩
  · obtain ⟨-, -, hnone, -⟩ := (hnews s).2 hrun
    obtain ⟨-, hdesktop, -, htold⟩ := (hnews s.other).2 hpeer
    have hchan : news ((start F x).chan s) = [(x s.other).desktop] := htold
    rw [lastNews, hchan]
    exact congrArg some hdesktop.symm
  · exact fun n sequence edge fraction h => absurd h (hrole s n sequence edge fraction hrun)
  · exact fun n sequence edge fraction h => absurd h (hrole s n sequence edge fraction hrun)
  · intro f hf n p hmessage
    have hposition := (hnews s.other).1 f hf
    rw [hmessage] at hposition
    cases hposition

/-- The routes are right in every run of honest workers. -/
theorem routed_run {x : Side → Setup A B T} {ls : List (Step T)}
    (hedges : ∀ s, (x s).desktop.edges = (x s).config.edges)
    (hvalid : ∀ s, validateEdges (x s).config.edges = .ok ())
    (h : Run.Along (next F) Reported (start F x) ls) :
    Routed (Run.run (next F) (start F x) ls) := by
  have hstep : ∀ (d : World A B T) (l : Step T), Routed d → Reported d l → Routed (next F d l) :=
    fun _ _ hd hl => routed_next hd hl
  exact Run.run_invariant hstep (routed_start F x hedges hvalid) h

/-- What a step writes has been written by a pass of a device that runs. -/
theorem sent_next {l : Step T} {out : List Frame} {f : Frame}
    (hsent : (next F d l).sent l.side = d.sent l.side ++ out) (hf : f ∈ out) :
    ∃ frame : Option Frame, frame.isSome = l.takes ∧ (d.node l.side).stopped = none ∧
      f ∈ ((d.node l.side).step F l.input frame).2 := by
  rw [next] at hsent
  rcases Duplex.next_cases (Node.step F) d l with hsame | ⟨frame, rest, htakes, -, hmove⟩
  · rw [hsame] at hsent
    obtain rfl : out = [] := List.append_right_eq_self.mp hsent.symm
    exact absurd hf List.not_mem_nil
  · rw [hmove, move_sent] at hsent
    obtain rfl := List.append_cancel_left hsent
    refine ⟨frame, htakes, ?_, hf⟩
    cases hn : (d.node l.side).stopped with
    | none => rfl
    | some stop =>
        rw [Node.step, hn] at hf
        exact absurd hf List.not_mem_nil

/-- What a step does to the device that takes a frame. -/
theorem node_next_of_takes {l : Step T} {f : Frame} {rest : List Frame} (htakes : l.takes = true)
    (hchan : d.chan l.side = f :: rest) :
    (next F d l).node l.side = ((d.node l.side).step F l.input (some f)).1 := by
  rw [next, Duplex.next, if_pos htakes, hchan]
  exact move_node ..

/-- A device that still runs has made its pass. -/
theorem step_of_wp {s : Side} {input : Coordinator.Event × Env T} {frame : Option Frame}
    {Q : Coordinator A B T → Prop} (hn : (d.node s).stopped = none)
    (h : wp (Coordinator.pass F input.2 input.1 frame) { (d.node s).coordinator with outbox := [] }
      (fun _ => Q) (fun _ _ => True)) (hrun : ((d.node s).step F input frame).1.stopped = none) :
    Q ((d.node s).step F input frame).1.coordinator := by
  have hstep : (d.node s).step F input frame =
      Node.after F input.2 (Coordinator.pass F input.2 input.1 frame) (d.node s).coordinator := by
    rw [Node.step, hn]
  rw [hstep] at hrun ⊢
  rcases Node.after_spec F input.2 h with ⟨-, hq, -⟩ | ⟨stop, _, hstop, -⟩
  · exact hq
  · exact absurd (hrun.symm.trans hstop) (by simp)

/-- **Edges are routed by their ids.**  Two devices with valid configurations, whose edges may be in
any order and of which they may share only some, in every run whose capture workers report once and
name an edge they were started with: no error about edges ends a connection, and when no news of
displays is on its way both use the same ids.  Whatever is written of a position names the edge that
the pointer has crossed; a device that enters a session puts the pointer on its own edge with the id
of the beginning, and the device that a pointer returns to on its own edge with the id of the
end. -/
theorem edges_route (F : Format T D) (x : Side → Setup A B T) (ls : List (Step T))
    (hedges : ∀ s, (x s).desktop.edges = (x s).config.edges)
    (hvalid : ∀ s, validateEdges (x s).config.edges = .ok ())
    (h : Run.Along (next F) Reported (start F x) ls) :
    let d := Run.run (next F) (start F x) ls
    let ids := fun s =>
        Coordinator.activeIds (d.node s).coordinator.desktop (d.node s).coordinator.peerDesktop
    (∀ s e, (d.node s).stopped = some (.failed e) → e ∈ edgeErrors → Receiver.BackendError B e) ∧
    ((∀ s, (d.node s).stopped = none ∧ news (d.chan s) = []) → (ids .left).Perm (ids .right)) ∧
    ∀ l : Step T,
      let s := (d.node l.side).coordinator
      let s' := ((next F d l).node l.side).coordinator
      (∀ out, (next F d l).sent l.side = d.sent l.side ++ out → ∀ f ∈ out, ∀ p,
        Coordinator.position f.message = some p → ∃ edge, l.takes = false ∧
          s.Crosses l.input.1 edge p.fraction ∧ p.edgeId = (Coordinator.edgeAt s.config edge).id) ∧
      (l.takes = true → (d.node l.side).stopped = none → ((next F d l).node l.side).stopped = none →
        ∀ f rest n p, d.chan l.side = f :: rest →
          (f.message = .begin n p → s'.role = .receiving n →
            ∃ edge ∈ s.config.edges, edge.id = p.edgeId ∧
            ∃ r, Receiver.begin n s.receiver = .ok true r ∧
              Coordinator.Shows l.input.2 edge p.fraction r s'.receiver) ∧
          (f.message = .end n (some p) → ∀ sequence index fraction,
            s.role = .sending n sequence index fraction → s.localReady = true →
            ∃ edge ∈ s.config.edges,
            edge.id = p.edgeId ∧ ∃ r, Receiver.end n s.receiver = .ok () r ∧
              Coordinator.Shows l.input.2 edge p.fraction r s'.receiver)) := by
  intro d ids
  have hrouted : Routed d := routed_run hedges hvalid h
  refine ⟨fun s e hstop he => ?_, fun hquiet => ?_, fun l => ⟨fun out hsent f hf p hp => ?_, ?_⟩⟩
  · rcases (hrouted.placed s).allowed _ hstop with hbackend | hother | ⟨hfault, -⟩
    · exact hbackend
    · exact absurd (List.mem_cons_of_mem _ he) hother
    · exact hfault.elim
  · -- without news on the way each side knows what the other has
    have hknows :
        ∀ s, (d.node s).coordinator.peerDesktop = some (d.node s.other).coordinator.desktop := by
      intro s
      have htold := hrouted.told s (hquiet s).1 (hquiet s.other).1
      rwa [lastNews_of_no_news (hquiet s).2] at htold
    have hnodup : ∀ s, ((d.node s).coordinator.desktop.edges.map EdgeConfig.id).Nodup := by
      intro s
      obtain ⟨hsame, hnodup⟩ := hrouted.edges s (hquiet s).1
      rwa [hsame]
    simp only [ids, hknows]
    exact Coordinator.activeIds_perm (hnodup .left) (hnodup .right)
  · -- only a crossing says a position
    obtain ⟨frame, htakes, hn, hf⟩ := sent_next hsent hf
    obtain ⟨hsaid, -, -⟩ := Node.step_edges (hrouted.current l.side) hn l.input frame (F := F)
    have hlocated : f ∈ located ((d.node l.side).step F l.input frame).2 := by
      refine mem_located.mpr ⟨hf, ?_⟩
      obtain ⟨message, own⟩ := f
      cases message with
      | «begin» => rfl
      | «end» session exit =>
          obtain rfl : exit = some p := hp
          rfl
      | _ => cases hp
    obtain ⟨edge, rfl, hcrosses, hid, -⟩ := hsaid.position hlocated hp
    exact ⟨edge, htakes.symm, hcrosses, hid⟩
  · -- the pointer is placed in the pass that takes the frame
    intro htakes hn hrun f rest n p hchan
    have hnode := node_next_of_takes (F := F) htakes hchan
    rw [hnode] at hrun ⊢
    obtain ⟨message, own⟩ := f
    refine ⟨?_, ?_⟩
    · rintro rfl
      exact step_of_wp hn (Coordinator.pass_begin_shows l.input.1 n p own _) hrun
    · rintro rfl sequence index fraction hrole hready
      exact step_of_wp hn (Coordinator.pass_end_shows (s := { (d.node l.side).coordinator with
        outbox := [] })
        l.input.1 p own hrole hready) hrun

open Sample in
/-- The pointer leaves by the edge of one sample device and appears at that of the other. -/
theorem edges_route_crossing :
    let d := Run.run (next format) (start format devices) (greetings ++ [crosses .left 1 0])
    let s' := ((next format d (takes .right)).node .right).coordinator
    s'.role = .receiving 1 ∧ ∃ edge ∈ (d.node .right).coordinator.config.edges,
    edge.id = "default" ∧
      ∃ r, Receiver.begin 1 (d.node .right).coordinator.receiver = .ok true r ∧
        Coordinator.Shows (env 0) edge (1 / 2) r s'.receiver := by
  have htaken : ∀ (d : World ActivityMonitor Sink Unit) (s : Side), Reported d (takes s) :=
    fun _ _ hl => by cases hl
  have hgreeted :
      ∀ d : World ActivityMonitor Sink Unit, Run.Along (next format) Reported d greetings :=
    fun _ => ⟨htaken _ _, htaken _ _, htaken _ _, htaken _ _, htaken _ _, htaken _ _, trivial⟩
  have hcrossed : ∀ d : World ActivityMonitor Sink Unit,
      (d.node .left).coordinator.capture.map CaptureTask.started = some false →
      0 < (d.node .left).coordinator.captureEdges.length → Reported d (crosses .left 1 0) := by
    intro d hcapture hlength _ _
    refine ⟨fun generation edge fraction task _ htask _ => ?_, fun index fraction _ hevent => ?_⟩
    · rw [show (d.node .left).coordinator.capture = some task from htask] at hcapture
      exact Option.some.inj hcapture
    · have hreport :=
        congrArg StreamEvent.event (Option.some.inj (Coordinator.Event.capture.inj hevent))
      obtain rfl : 0 = index := (CaptureEvent.started.inj hreport).1
      exact hlength
  have hroute := (edges_route format devices (greetings ++ [crosses .left 1 0])
    (fun s => by cases s <;> rfl) (fun s => by cases s <;> decide +kernel)
    (Run.along_append.mpr ⟨hgreeted _, hcrossed _ (by decide +kernel) (by decide +kernel),
      trivial⟩)).2.2 (takes .right)
  generalize hd :
    Run.run (next format) (start format devices) (greetings ++ [crosses .left 1 0]) = d at hroute ⊢
  have hrole : ((next format d (takes .right)).node .right).coordinator.role = .receiving 1 := by
    rw [← hd]
    decide +kernel
  have hrunning : (d.node .right).stopped.isNone = true ∧
      ((next format d (takes .right)).node .right).stopped.isNone = true := by
    rw [← hd]
    decide +kernel
  have hchan : d.chan .right = [⟨.begin 1 ⟨"default", 1 / 2⟩, false⟩] := by
    rw [← hd]
    decide +kernel
  exact ⟨hrole, (hroute.2 rfl (Option.isNone_iff_eq_none.mp hrunning.1)
    (Option.isNone_iff_eq_none.mp hrunning.2) _ [] 1 ⟨"default", 1 / 2⟩ hchan).1 rfl hrole⟩

end Devices

end NiriBridge
