import NiriBridge.Model.Toml
import NiriBridge.Edges.Strips

/-!
# Manager — Sections

What `write_edges` makes of a configuration document.

* `writeTable_spec`: a table is written over so that it reads as the edge, and keeps its comments.
* `lookup_previousOf`: the tables that are written over are those of the section `edge` and, if they
  have an id, of the sections `edges`.
* `migrated_iff`: the document reads as the edges that were written, in their order, and writing
  them again changes nothing; the comments of a connection go with it unless it was written where
  the code does not look.
-/

namespace NiriBridge.Toml

open Document

/-! ### Reading by the entries -/

/-- The name of a side is read back. -/
theorem edgeName_edgeText (edge : Edge) : edgeName (edgeText edge) = some edge := by
  cases edge <;> rfl

/-- The item is a value that is neither an array nor a table. -/
def IsScalar : Item → Prop
  | .scalar _ _ => True
  | _ => False

theorem isScalar_of_asString {item : Item} {s : String} (h : item.asString = some s) :
    IsScalar item := by
  cases item with
  | scalar value decor => trivial
  | _ => cases h

theorem isScalar_of_asNumber {item : Item} {q : ℚ} (h : asNumber item = some q) :
    IsScalar item := by
  cases item with
  | scalar value decor => trivial
  | _ => cases h

/-- The entries are scalars of these names. -/
structure Plain (known : List String) (entries : Entries Item) : Prop where
  only : only known entries = true
  scalar : ∀ name ∈ known, ∀ item, lookup name entries = some item → IsScalar item

/-- A boundary that can be written over. -/
def Open (item : Item) : Prop :=
  ∃ entries, item.fields = some entries ∧ Plain ["edge", "start", "end"] entries

/-- A table that can be written over. -/
structure Ready (t : Table) : Prop where
  only : only ["id", "output", "boundary"] t.entries = true
  id : ∀ item, lookup "id" t.entries = some item → IsScalar item
  output : ∀ item, lookup "output" t.entries = some item → IsScalar item
  boundary : ∀ item, lookup "boundary" t.entries = some item → Open item

/-- The entry is this value, however it is decorated. -/
def Holds (name : String) (value : Scalar) (entries : Entries Item) : Prop :=
  ∃ decor, lookup name entries = some (.scalar value decor)

/-- An item that holds exactly this span, whichever kind of table it is. -/
structure HoldsBoundary (b : Boundary) (item : Item) : Prop where
  fields : ∃ entries, item.fields = some entries ∧ only ["edge", "start", "end"] entries = true ∧
    Holds "edge" (.string (edgeText b.edge)) entries ∧ Holds "start" (.float b.start) entries ∧
      Holds "end" (.float b.end) entries

/-- The table is one of the edge, as it is written. -/
structure HoldsEdge (edge : EdgeConfig) (t : Table) : Prop where
  only : only ["id", "output", "boundary"] t.entries = true
  id : Holds "id" (.string edge.id) t.entries
  output : Holds "output" (.string edge.output) t.entries
  boundary : ∃ item, lookup "boundary" t.entries = some item ∧ HoldsBoundary edge.boundary item

/-- The span that an item holds is read back. -/
theorem HoldsBoundary.boundaryOf_eq {b : Boundary} {item : Item} (h : HoldsBoundary b item) :
    boundaryOf item = some b := by
  obtain ⟨entries, hfields, honly, ⟨d, hedge⟩, ⟨d', hstart⟩, ⟨d'', hend⟩⟩ := h.fields
  simp [boundaryOf, hfields, honly, hedge, hstart, hend, asEdge, Item.asString,
    edgeName_edgeText, asNumber]

/-- The connection that a table holds is read back. -/
theorem HoldsEdge.edgeOf_eq {edge : EdgeConfig} {t : Table} (h : HoldsEdge edge t) :
    edgeOf (.table t) = some edge := by
  obtain ⟨d, hid⟩ := h.id
  obtain ⟨d', houtput⟩ := h.output
  obtain ⟨item, hlookup, hboundary⟩ := h.boundary
  simp [edgeOf, Item.fields, h.only, hid, houtput, hlookup, hboundary.boundaryOf_eq, Item.asString]

/-- The id of that connection is the table's. -/
theorem HoldsEdge.tableId_eq {edge : EdgeConfig} {t : Table} (h : HoldsEdge edge t) :
    tableId t = some edge.id := by
  obtain ⟨d, hid⟩ := h.id
  simp [tableId, hid, Item.asString]

/-! ### Writing over -/

/-- Known entries may be updated. -/
theorem only_update {known : List String} {name : String} {entries : Entries Item}
    (h : only known entries = true) (hname : name ∈ known) (f : Option Item → Item) :
    only known (update name f entries) = true := by
  simp only [only, List.all_eq_true, decide_eq_true_eq] at h ⊢
  intro other hother
  rcases (mem_names_update f entries).mp hother with rfl | hother
  · exact hname
  · exact h other hother

/-- A value in the place of a scalar or of nothing. -/
theorem comments_replace {value : Scalar} {item : Option Item}
    (h : ∀ i, item = some i → IsScalar i) :
    (replace value item).comments = (item.map Item.comments).getD [] := by
  cases item with
  | none => rfl
  | some i =>
      cases i with
      | scalar old decor => rfl
      | _ => exact absurd (h _ rfl) id

theorem replace_self (value : Scalar) (decor : Decor) :
    replace value (some (.scalar value decor)) = .scalar value decor := rfl

/-- A value that is there already is written without effect. -/
theorem update_replace_self {name : String} {value : Scalar} {entries : Entries Item}
    (h : Holds name value entries) : update name (replace value) entries = entries := by
  obtain ⟨decor, hlookup⟩ := h
  exact update_eq_self hlookup (replace_self value decor)

/-- What is written is there. -/
theorem holds_update (name : String) (value : Scalar) (entries : Entries Item) :
    Holds name value (update name (replace value) entries) :=
  ⟨_, lookup_update name (replace value) entries⟩

/-- What is written elsewhere does not matter. -/
theorem Holds.update_of_ne {name other : String} {value : Scalar} {entries : Entries Item}
    (h : Holds other value entries) (hne : other ≠ name) (f : Option Item → Item) :
    Holds other value (update name f entries) := by
  obtain ⟨decor, hlookup⟩ := h
  exact ⟨decor, by rw [lookup_update_of_ne hne, hlookup]⟩

/-- The entries of what is no table are none. -/
def fieldsOf (item : Option Item) : Entries Item := (item.bind Item.fields).getD []

theorem Plain.update {known : List String} {entries : Entries Item} (h : Plain known entries)
    {name : String} (hname : name ∈ known) (value : Scalar) :
    Plain known (update name (replace value) entries) where
  only := only_update h.only hname _
  scalar other hother item hlookup := by
    by_cases heq : other = name
    · subst heq
      rw [lookup_update] at hlookup
      cases hlookup
      trivial
    · rw [lookup_update_of_ne heq] at hlookup
      exact h.scalar other hother item hlookup

theorem plain_nil (known : List String) : Plain known [] := ⟨rfl, fun _ _ _ => by rintro ⟨⟩⟩

theorem forall_some {p : Item → Prop} {i : Item}
    (h : p i) : ∀ j, some i = some j → p j := fun _ hj =>
  Option.some.inj hj ▸ h

theorem setIn_spec {name : String} {item : Option Item} (h : ∀ i, item = some i → Open i)
    (hname : name ∈ ["edge", "start", "end"]) (value : Scalar) :
    ∃ i,
    setIn name value item = some i ∧ i.fields = some (update name (replace value) (fieldsOf item)) ∧
      i.comments = (item.map Item.comments).getD [] ∧ Open i ∧
        ((∀ i, item = some i → clearItem i = i) → clearItem i = i) := by
  have hplain : Plain ["edge", "start", "end"] (fieldsOf item) := by
    cases item with
    | none => exact plain_nil _
    | some i =>
        obtain ⟨entries, hfields, hplain⟩ := h i rfl
        simpa [fieldsOf, hfields] using hplain
  have hcomments : entriesComments (update name (replace value) (fieldsOf item)) =
      entriesComments (fieldsOf item) :=
    entriesComments_update (comments_replace (hplain.scalar name hname))
  have hnew := hplain.update hname value
  cases item with
  | none => exact ⟨_, rfl, rfl, hcomments, ⟨_, rfl, hnew⟩, fun _ => rfl⟩
  | some i =>
      cases i with
      | inlineTable entries decor =>
          exact ⟨_, rfl, rfl, congrArg (decor.comments ++ ·) hcomments,
            ⟨_, rfl, hnew⟩, fun _ => rfl⟩
      | table t =>
          obtain ⟨entries, decor, position⟩ := t
          refine ⟨_, rfl, rfl, congrArg (decor.comments ++ ·) hcomments, ⟨_, rfl, hnew⟩,
            fun hclear => ?_⟩
          have hclear := hclear _ rfl
          rw [clearItem] at hclear ⊢
          injection hclear with hclear
          injection hclear with hentries _ hposition
          rw [clearEntries_update hentries rfl, ← hposition]
      | _ =>
          obtain ⟨entries, hfields, -⟩ := h _ rfl
          cases hfields

theorem setIn_self {name : String} {value : Scalar} {item : Item} {entries : Entries Item}
    (hfields : item.fields = some entries) (h : Holds name value entries) :
    setIn name value (some item) = some item := by
  cases item with
  | inlineTable entries' decor =>
      cases hfields
      rw [setIn, update_replace_self h]
  | table t =>
      cases hfields
      rw [setIn, update_replace_self h]
  | _ => cases hfields

theorem setBoundary_spec {item : Option Item} (h : ∀ i, item = some i → Open i) (b : Boundary) :
    ∃ i,
    setBoundary b item = some i ∧ HoldsBoundary b i ∧
    i.comments = (item.map Item.comments).getD [] ∧
      ((∀ i, item = some i → clearItem i = i) → clearItem i = i) := by
  obtain ⟨i₁, h₁, hf₁, hc₁, ho₁, hp₁⟩ :=
    setIn_spec h (by decide : "edge" ∈ _) (.string (edgeText b.edge))
  obtain ⟨i₂, h₂, hf₂, hc₂, ho₂, hp₂⟩ := setIn_spec (forall_some ho₁) (by decide : "start" ∈ _)
    (.float b.start)
  obtain ⟨i₃, h₃, hf₃, hc₃, ho₃, hp₃⟩ := setIn_spec (forall_some ho₂) (by decide : "end" ∈ _)
    (.float b.end)
  have hset : setBoundary b item = some i₃ := by
    rw [setBoundary, Option.bind_eq_bind, h₁, Option.bind_some, h₂, Option.bind_some, h₃]
  refine ⟨i₃, hset, ⟨⟨_, hf₃, ?_, ?_, ?_, holds_update ..⟩⟩, ?_, fun hclear => ?_⟩
  · obtain ⟨entries, hfields, hplain⟩ := ho₃
    rw [hf₃] at hfields
    exact Option.some.inj hfields ▸ hplain.only
  · refine Holds.update_of_ne ?_ (by decide) _
    rw [fieldsOf, Option.bind_some, hf₂]
    refine Holds.update_of_ne ?_ (by decide) _
    rw [fieldsOf, Option.bind_some, hf₁]
    exact holds_update ..
  · refine Holds.update_of_ne ?_ (by decide) _
    rw [fieldsOf, Option.bind_some, hf₂]
    exact holds_update ..
  · rw [hc₃, Option.map_some, Option.getD_some, hc₂, Option.map_some, Option.getD_some, hc₁]
  · exact hp₃ (forall_some (hp₂ (forall_some (hp₁ hclear))))

theorem setBoundary_self {b : Boundary} {item : Item} (h : HoldsBoundary b item) :
    setBoundary b (some item) = some item := by
  obtain ⟨entries, hfields, -, hedge, hstart, hend⟩ := h.fields
  rw [setBoundary, Option.bind_eq_bind, setIn_self hfields hedge, Option.bind_some,
    setIn_self hfields hstart, Option.bind_some, setIn_self hfields hend]

/-- What is no table cannot be written over. -/
theorem setBoundary_eq_none {b : Boundary} {item : Item} (h : item.fields = none) :
    setBoundary b (some item) = none := by
  have hset : setIn "edge" (.string (edgeText b.edge)) (some item) = none := by
    cases item with
    | inlineTable entries decor => cases h
    | table t => cases h
    | _ => rfl
  rw [setBoundary, hset]
  rfl

/-- A table that is written over reads as the edge, and keeps its comments. -/
theorem writeTable_spec {t : Table} (h : Ready t) (hclear : clearPositions t = t)
    (edge : EdgeConfig) :
    ∃ t', writeTable edge t = some t' ∧ HoldsEdge edge t' ∧ t'.comments = t.comments ∧
      clearPositions t' = t' := by
  have hentries : clearEntries t.entries = t.entries := congrArg TableOf.entries hclear
  have hposition : t.position = none := (congrArg TableOf.position hclear).symm
  let entries :=
    update "output" (replace (.string edge.output))
      (update "id" (replace (.string edge.id)) t.entries)
  have hlookup :
      ∀ name, name ≠ "output" → name ≠ "id" → lookup name entries = lookup name t.entries := by
    intro name houtput hid
    rw [lookup_update_of_ne houtput, lookup_update_of_ne hid]
  have hboundary := hlookup "boundary" (by decide) (by decide)
  have hcleared : clearEntries entries = entries :=
    clearEntries_update (clearEntries_update hentries rfl) rfl
  -- values are replaced in their place, so that their comments stay
  have hcomments : entriesComments entries = entriesComments t.entries := by
    refine (entriesComments_update (comments_replace ?_)).trans
      (entriesComments_update (comments_replace h.id))
    rw [lookup_update_of_ne (by decide)]
    exact h.output
  obtain ⟨item, hset, hholds, hkept, hclean⟩ :=
    setBoundary_spec (hboundary ▸ h.boundary) edge.boundary
  have hsome : ∀ i, lookup "boundary" entries = some i → clearItem i = i := by
    intro i hi
    have hmap := lookup_clearEntries "boundary" entries
    rw [hcleared, hi] at hmap
    exact (Option.some.inj hmap).symm
  refine ⟨{ t with entries := update "boundary" (fun _ => item) entries }, ?_,
    ⟨?_, ?_, ?_, ?_⟩, ?_, ?_⟩
  · rw [writeTable, Option.bind_eq_bind, hset]
    rfl
  · exact only_update (only_update (only_update h.only (by decide) _) (by decide) _) (by decide) _
  · exact ((holds_update ..).update_of_ne (by decide) _).update_of_ne (by decide) _
  · exact (holds_update ..).update_of_ne (by decide) _
  · exact ⟨item, lookup_update .., hholds⟩
  · exact congrArg (t.decor.comments ++ ·) ((entriesComments_update hkept).trans hcomments)
  · rw [clearPositions]
    dsimp only
    rw [clearEntries_update hcleared (hclean hsome), ← hposition]

/-- Writing the edge again changes nothing. -/
theorem writeTable_self {edge : EdgeConfig} {t : Table} (h : HoldsEdge edge t) :
    writeTable edge t = some t := by
  obtain ⟨item, hlookup, hboundary⟩ := h.boundary
  rw [writeTable, Option.bind_eq_bind, update_replace_self h.id,
    update_replace_self h.output, hlookup, setBoundary_self hboundary, Option.bind_some,
    update_eq_self hlookup rfl]
  rfl

/-! ### Old tables -/

/-- A boundary that reads as one can be written over unless it is a sequence. -/
theorem open_of_boundaryOf {item : Item} {b : Boundary} (h : boundaryOf item = some b)
    (hfields : item.fields.isSome) : Open item := by
  obtain ⟨entries, hentries⟩ := Option.isSome_iff_exists.mp hfields
  unfold boundaryOf at h
  rw [hentries] at h
  dsimp only at h
  split_ifs at h with honly
  obtain ⟨edge, hedge, h⟩ := Option.bind_eq_some_iff.mp h
  obtain ⟨start, hstart, h⟩ := Option.bind_eq_some_iff.mp h
  obtain ⟨«end», hend, -⟩ := Option.bind_eq_some_iff.mp h
  have hscalars : ∀ i, (lookup "edge" entries = some i → IsScalar i) ∧
      (lookup "start" entries = some i → IsScalar i) ∧ (lookup "end" entries = some i →
        IsScalar i) := by
    refine fun i => ⟨fun hi => ?_, fun hi => ?_, fun hi => ?_⟩
    · rw [hi, Option.bind_some, asEdge] at hedge
      obtain ⟨s, hs, -⟩ := Option.bind_eq_some_iff.mp hedge
      exact isScalar_of_asString hs
    · rw [hi] at hstart
      exact isScalar_of_asNumber hstart
    · rw [hi] at hend
      exact isScalar_of_asNumber hend
  refine ⟨entries, hentries, honly, ?_⟩
  simp only [List.forall_mem_cons, List.not_mem_nil, false_implies, implies_true, and_true]
  exact ⟨fun i => (hscalars i).1, fun i => (hscalars i).2.1, fun i => (hscalars i).2.2⟩

/-- What the table of an edge says, and where its boundary is. -/
theorem fields_of_edgeOf {t : Table} {edge : EdgeConfig} (h : edgeOf (.table t) = some edge) :
    only ["id", "output", "boundary"] t.entries = true ∧
      (match lookup "id" t.entries with
        | some id => id.asString
        | none => some defaultEdgeId) = some edge.id ∧
      (lookup "output" t.entries).bind Item.asString = some edge.output ∧
      ∃ item, lookup "boundary" t.entries = some item ∧ boundaryOf item = some edge.boundary := by
  unfold edgeOf Item.fields at h
  dsimp only at h
  split_ifs at h with honly
  cases hlookup : lookup "id" t.entries with
  | none =>
      rw [hlookup] at h
      obtain ⟨id, hid, h⟩ := Option.bind_eq_some_iff.mp h
      obtain ⟨output, houtput, h⟩ := Option.bind_eq_some_iff.mp h
      obtain ⟨boundary, hboundary, h⟩ := Option.bind_eq_some_iff.mp h
      cases h
      exact ⟨honly, hid, houtput, Option.bind_eq_some_iff.mp hboundary⟩
  | some item =>
      rw [hlookup] at h
      obtain ⟨id, hid, h⟩ := Option.bind_eq_some_iff.mp h
      obtain ⟨output, houtput, h⟩ := Option.bind_eq_some_iff.mp h
      obtain ⟨boundary, hboundary, h⟩ := Option.bind_eq_some_iff.mp h
      cases h
      exact ⟨honly, hid, houtput, Option.bind_eq_some_iff.mp hboundary⟩

theorem tableId_of_edgeOf {t : Table} {edge : EdgeConfig} (h : edgeOf (.table t) = some edge) :
    (tableId t).getD defaultEdgeId = edge.id ∧ ∀ id, tableId t = some id → edge.id = id := by
  obtain ⟨-, hid, -⟩ := fields_of_edgeOf h
  cases hlookup : lookup "id" t.entries with
  | none =>
      rw [hlookup] at hid
      rw [tableId, hlookup]
      exact ⟨Option.some.inj hid, by simp⟩
  | some item =>
      rw [hlookup] at hid
      dsimp only at hid
      rw [tableId, hlookup, Option.bind_some, hid]
      exact ⟨rfl, fun _ => Option.some.inj⟩

theorem ready_of_edgeOf {t : Table} {edge : EdgeConfig} (h : edgeOf (.table t) = some edge)
    (hfields : ∀ item, lookup "boundary" t.entries = some item → item.fields.isSome) : Ready t := by
  obtain ⟨honly, hid, houtput, boundary, hlookup, hboundary⟩ := fields_of_edgeOf h
  refine ⟨honly, fun item hitem => ?_, fun item hitem => ?_, fun item hitem => ?_⟩
  · rw [hitem] at hid
    exact isScalar_of_asString hid
  · rw [hitem] at houtput
    exact isScalar_of_asString houtput
  · obtain rfl : boundary = item := Option.some.inj (hlookup.symm.trans hitem)
    exact open_of_boundaryOf hboundary (hfields boundary hitem)

theorem isScalar_clearItem {item : Item} (h : IsScalar item) : clearItem item = item := by
  cases item with
  | scalar value decor => rfl
  | _ => exact h.elim

theorem only_clearEntries {known : List String} {entries : Entries Item}
    (h : only known entries = true) :
    only known (clearEntries entries) = true := by
  rw [only, names_clearEntries]
  exact h

theorem scalar_clearEntries {name : String} {entries : Entries Item}
    (h : ∀ item, lookup name entries = some item → IsScalar item) (item : Item)
    (hitem : lookup name (clearEntries entries) = some item) : IsScalar item := by
  rw [lookup_clearEntries] at hitem
  obtain ⟨old, hold, rfl⟩ := Option.map_eq_some_iff.mp hitem
  rw [isScalar_clearItem (h old hold)]
  exact h old hold

theorem Open.clear {item : Item} (h : Open item) : Open (clearItem item) := by
  obtain ⟨entries, hfields, hplain⟩ := h
  cases item with
  | inlineTable entries' decor => exact ⟨entries, hfields, hplain⟩
  | table t =>
      cases hfields
      exact ⟨_, rfl, only_clearEntries hplain.only, fun name hname =>
        scalar_clearEntries (hplain.scalar name hname)⟩
  | _ => cases hfields

theorem Ready.clear {t : Table} (h : Ready t) : Ready (clearPositions t) where
  only := only_clearEntries h.only
  id := scalar_clearEntries h.id
  output := scalar_clearEntries h.output
  boundary item hitem := by
    rw [clearPositions, lookup_clearEntries] at hitem
    obtain ⟨old, hold, rfl⟩ := Option.map_eq_some_iff.mp hitem
    exact (h.boundary old hold).clear

theorem clearPositions_clearPositions (t : Table) :
    clearPositions (clearPositions t) = clearPositions t := by
  rw [clearPositions, clearPositions, clearEntries_clearEntries]

theorem comments_clearPositions (t : Table) : (clearPositions t).comments = t.comments :=
  congrArg (t.decor.comments ++ ·) (comments_clearEntries t.entries)

/-- What is no table of either kind stays none without positions. -/
theorem fields_clearItem {item : Item} : (clearItem item).fields.isSome = item.fields.isSome := by
  cases item with
  | table t => rfl
  | _ => rfl

theorem ready_empty : Ready {} :=
  ⟨rfl, fun _ => by rintro ⟨⟩, fun _ => by rintro ⟨⟩, fun _ => by rintro ⟨⟩⟩

/-- A table whose boundary is a sequence cannot be written over. -/
theorem writeTable_eq_none {t : Table} {item : Item} (h : lookup "boundary" t.entries = some item)
    (hfields : item.fields = none) (edge : EdgeConfig) : writeTable edge t = none := by
  rw [writeTable, Option.bind_eq_bind, lookup_update_of_ne (by decide),
    lookup_update_of_ne (by decide), h, setBoundary_eq_none hfields, Option.bind_none]

/-! ### The connections of a document -/

/-- A connection as it is written in a document. -/
structure Written where
  edge : EdgeConfig
  item : Item
  comments : List String
  /-- It is written as a table of its own, where the code looks for it. -/
  found : Bool

/-- The one connection of a section, with what stands before its key if it is a value. -/
def theOnly (name : String) (key : Key) (item : Item) (edge : EdgeConfig) : Written :=
  match item with
  | .table t => ⟨edge, item, t.comments, name = "edge"⟩
  | _ => ⟨edge, item, key.decor.comments ++ item.comments, false⟩

/-- A connection of a sequence. -/
def oneOf (headed : Bool) (item : Item) (edge : EdgeConfig) : Written :=
  match item with
  | .table t => ⟨edge, item, t.comments, headed && (tableId t).isSome⟩
  | _ => ⟨edge, item, item.comments, false⟩

/-- Whether an item is an array of tables. -/
def isArrayOfTables : Item → Bool
  | .arrayOfTables _ => true
  | _ => false

/-- The connections of a section. -/
def writtenIn (name : String) (doc : Table) : List Written :=
  match doc.entries.find? fun p => p.1.name = name with
  | none => []
  | some (key, item) =>
      match edgeOf item with
      | some edge => [theOnly name key item edge]
      | none => (item.elements.getD []).filterMap fun i =>
          (edgeOf i).map (oneOf (name = "edges" && isArrayOfTables item) i)

/-- The connections of a document, as they are written in either section. -/
def connections (doc : Table) : List Written := writtenIn "edge" doc ++ writtenIn "edges" doc

theorem lookup_eq_find? {α : Type} (name : String) (entries : Entries α) :
    lookup name entries = (entries.find? fun p => p.1.name = name).map Prod.snd := by
  induction entries with
  | nil => rfl
  | cons p entries ih =>
      obtain ⟨key, a⟩ := p
      by_cases h : key.name = name
      · simp [lookup, h]
      · simp [lookup, h, ih]

theorem edgeOf_arrayOfTables (tables : List Table) : edgeOf (.arrayOfTables tables) = none := by
  unfold edgeOf Item.fields Item.elements
  rcases tables with _ | ⟨a, _ | ⟨b, _ | ⟨c, _ | ⟨d, tables⟩⟩⟩⟩
  all_goals rfl

@[simp] theorem edge_theOnly (name : String) (key : Key) (item : Item) (edge : EdgeConfig) :
    (theOnly name key item edge).edge = edge := by
  cases item with
  | table t => rfl
  | _ => rfl

@[simp] theorem edge_oneOf (headed : Bool) (item : Item) (edge : EdgeConfig) :
    (oneOf headed item edge).edge = edge := by
  cases item with
  | table t => rfl
  | _ => rfl

theorem mapM_eq_some_iff {α β : Type} {f : α → Option β} {l : List α} {l' : List β} :
    l.mapM f = some l' ↔ List.Forall₂ (fun a b => f a = some b) l l' := by
  induction l generalizing l' with
  | nil => exact ⟨fun h => Option.some.inj h ▸ .nil, fun h => by cases h; rfl⟩
  | cons a l ih =>
      rw [List.mapM_cons]
      constructor
      · intro h
        obtain ⟨b, hb, h⟩ := Option.bind_eq_some_iff.mp h
        obtain ⟨rest, hrest, h⟩ := Option.bind_eq_some_iff.mp h
        exact Option.some.inj h ▸ .cons hb (ih.mp hrest)
      · intro h
        obtain - | ⟨hb, hrest⟩ := h
        exact Option.bind_eq_some_iff.mpr ⟨_, hb,
          Option.bind_eq_some_iff.mpr ⟨_, ih.mpr hrest, rfl⟩⟩

theorem exists_right {α β : Type} {R : α → β → Prop} {l : List α} {l' : List β}
    (h : List.Forall₂ R l l') {a : α} (ha : a ∈ l) : ∃ b ∈ l', R a b := by
  induction h with
  | nil => cases ha
  | cons hab _ ih =>
      rcases List.mem_cons.mp ha with rfl | ha
      · exact ⟨_, List.mem_cons_self, hab⟩
      · obtain ⟨b, hb, hab⟩ := ih ha
        exact ⟨b, List.mem_cons_of_mem _ hb, hab⟩

theorem forall₂_congr {α β : Type} {R S : α → β → Prop} {l : List α} {l' : List β}
    (h : ∀ a ∈ l, ∀ b, R a b ↔ S a b) : List.Forall₂ R l l' ↔ List.Forall₂ S l l' := by
  induction l generalizing l' with
  | nil => rw [List.forall₂_nil_left_iff, List.forall₂_nil_left_iff]
  | cons a l ih =>
      rw [List.forall₂_cons_left_iff, List.forall₂_cons_left_iff]
      simp only [h a List.mem_cons_self, ih fun b hb => h b (List.mem_cons_of_mem a hb)]

theorem map_edge_oneOf {items : List Item} {edges : List EdgeConfig}
    (h : List.Forall₂ (fun item edge => edgeOf item = some edge) items edges) (headed : Bool) :
    (items.filterMap fun item => (edgeOf item).map (oneOf headed item)).map Written.edge =
    edges := by
  induction h with
  | nil => rfl
  | cons hedge _ ih =>
      rw [List.filterMap_cons, hedge]
      exact congrArg₂ List.cons (edge_oneOf headed _ _) ih

theorem map_edge_writtenIn {name : String} {doc : Table} {item : Item} {edges : List EdgeConfig}
    (hitem : lookup name doc.entries = some item) (h : edgesOf item = some edges) :
    (writtenIn name doc).map Written.edge = edges := by
  rw [lookup_eq_find?] at hitem
  obtain ⟨⟨key, item⟩, hfind, rfl⟩ := Option.map_eq_some_iff.mp hitem
  unfold edgesOf at h
  simp only [writtenIn, hfind]
  cases hedge : edgeOf item with
  | some edge =>
      rw [hedge] at h
      cases h
      exact congrArg (fun e => [e]) (edge_theOnly name key item edge)
  | none =>
      rw [hedge] at h
      obtain ⟨items, hitems, h⟩ := Option.bind_eq_some_iff.mp h
      simp only [hitems, Option.getD_some]
      exact map_edge_oneOf (mapM_eq_some_iff.mp h) _

theorem writtenIn_eq_nil {name : String} {doc : Table} (h : lookup name doc.entries = none) :
    writtenIn name doc = [] := by
  rw [lookup_eq_find?] at h
  rw [writtenIn, Option.map_eq_none_iff.mp h]

/-- A configuration has one section of connections. -/
theorem configEdges_eq_some {doc : Table} {edges : List EdgeConfig}
    (h : configEdges doc = some edges) :
    ∃ name item, lookup name doc.entries = some item ∧ edgesOf item = some edges ∧
      connections doc = writtenIn name doc ∧
        (name = "edge" ∧ lookup "edges" doc.entries = none ∨ name = "edges" ∧
          lookup "edge" doc.entries = none) := by
  unfold configEdges at h
  rw [connections]
  split at h
  case h_1 item hone hnone =>
    exact ⟨_, item, hone, h, by rw [writtenIn_eq_nil hnone, List.append_nil], .inl ⟨rfl, hnone⟩⟩
  case h_2 item hnone hmany =>
    exact ⟨_, item, hmany, h, by rw [writtenIn_eq_nil hnone, List.nil_append], .inr ⟨rfl, hnone⟩⟩
  case h_3 => cases h

/-- The connections are the edges that are read, in their order. -/
theorem map_edge_connections {doc : Table} {edges : List EdgeConfig}
    (h : configEdges doc = some edges) :
    (connections doc).map Written.edge = edges := by
  obtain ⟨name, item, hitem, hread, hconnections, -⟩ := configEdges_eq_some h
  rw [hconnections, map_edge_writtenIn hitem hread]

/-- The ids tell the connections of a document apart. -/
theorem eq_of_id_eq {doc : Table} {edges : List EdgeConfig} (h : configEdges doc = some edges)
    (hids : (edges.map EdgeConfig.id).Nodup) {w w' : Written} (hw : w ∈ connections doc)
    (hw' : w' ∈ connections doc) (hid : w.edge.id = w'.edge.id) : w = w' := by
  rw [← map_edge_connections h, List.map_map] at hids
  exact List.inj_on_of_nodup_map hids hw hw' hid

/-! ### The old tables -/

/-- The other tables stay when one is taken. -/
theorem lookup_filter_of_ne {name id : String} (hne : id ≠ name) (previous : Previous) :
    (previous.filter fun p => p.1 ≠ name).lookup id = previous.lookup id := by
  induction previous with
  | nil => rfl
  | cons p previous ih =>
      obtain ⟨key, t⟩ := p
      by_cases hkey : key = name
      · subst hkey
        rw [List.filter_cons_of_neg (by simp), ih, List.lookup_cons, beq_false_of_ne hne]
      · rw [List.filter_cons_of_pos (by simpa using hkey), List.lookup_cons, List.lookup_cons, ih]

/-- What is found after a table was inserted. -/
theorem lookup_insert (previous : Previous) (name : String) (t : Table) (id : String) :
    (insert previous name t).lookup id = if id = name then some t else previous.lookup id := by
  by_cases h : id = name
  · rw [if_pos h, h]
    exact List.lookup_cons_self
  · rw [if_neg h, insert, List.lookup_cons, beq_false_of_ne h]
    exact lookup_filter_of_ne h previous

/-- Of the tables with an id the last one is kept. -/
theorem lookup_insertAll (tables : List Table) (previous : Previous) (id : String) :
    (tables.foldl (fun previous t =>
      match tableId t with
      | some id => insert previous id t
      | none => previous) previous).lookup id =
      ((tables.filter fun t => tableId t = some id).getLast?).or (previous.lookup id) := by
  induction tables generalizing previous with
  | nil => rfl
  | cons t tables ih =>
      rw [List.foldl_cons, ih, List.filter_cons]
      cases hid : tableId t with
      | none => simp
      | some name =>
          by_cases heq : name = id
          · subst heq
            simp [lookup_insert, List.getLast?_cons, Option.or_some]
          · simp [lookup_insert, heq, Ne.symm heq]

theorem lookup_of_find? {name : String} {doc : Table} {key : Key} {item : Item}
    (h : (doc.entries.find? fun p => p.1.name = name) = some (key, item)) :
    lookup name doc.entries = some item := by
  rw [lookup_eq_find?, h, Option.map_some]

/-- A connection that is found is a table of the section `edge`, or one with an id of the sections
`edges`. -/
theorem table_of_found {doc : Table} {w : Written} {name : String} (hw : w ∈ writtenIn name doc)
    (hfound : w.found = true) :
    ∃ t, w.item = .table t ∧ edgeOf (.table t) = some w.edge ∧ w.comments = t.comments ∧
      (name = "edge" ∧ lookup name doc.entries = some (.table t) ∨
        name = "edges" ∧ tableId t = some w.edge.id ∧
          ∃ tables, lookup name doc.entries = some (.arrayOfTables tables) ∧ t ∈ tables) := by
  unfold writtenIn at hw
  split at hw
  case h_1 => cases hw
  case h_2 key item hfind =>
    have hlookup := lookup_of_find? hfind
    cases hedge : edgeOf item with
    | some edge =>
        rw [hedge, List.mem_singleton] at hw
        subst hw
        cases item with
        | table t =>
            exact ⟨t, rfl, hedge, rfl, .inl ⟨of_decide_eq_true hfound, hlookup⟩⟩
        | _ => cases hfound
    | none =>
        rw [hedge] at hw
        obtain ⟨i, hi, hw⟩ := List.mem_filterMap.mp hw
        obtain ⟨edge, hedge', rfl⟩ := Option.map_eq_some_iff.mp hw
        cases i with
        | table t =>
            obtain ⟨hheaded, hid⟩ := Bool.and_eq_true_iff.mp hfound
            obtain ⟨hname, htables⟩ := Bool.and_eq_true_iff.mp hheaded
            obtain ⟨id, hid⟩ := Option.isSome_iff_exists.mp hid
            cases item with
            | arrayOfTables tables =>
                obtain ⟨t', ht', heq⟩ := List.mem_map.mp hi
                cases heq
                refine ⟨t, rfl, hedge', rfl,
                  .inr ⟨of_decide_eq_true hname, ?_, tables, hlookup, ht'⟩⟩
                exact hid.trans (congrArg some ((tableId_of_edgeOf hedge').2 id hid).symm)
            | _ => cases htables
        | _ => cases hfound

/-- An `[edge]` table is found. -/
theorem found_of_edge {doc : Table} {t : Table} {edge : EdgeConfig}
    (hlookup : lookup "edge" doc.entries = some (.table t))
    (hedge : edgeOf (.table t) = some edge) :
    ⟨edge, .table t, t.comments, true⟩ ∈ writtenIn "edge" doc := by
  rw [lookup_eq_find?] at hlookup
  obtain ⟨⟨key, item⟩, hfind, rfl⟩ := Option.map_eq_some_iff.mp hlookup
  simp only [writtenIn, hfind, hedge]
  exact List.mem_singleton_self _

/-- A table of `[[edges]]` is found if it has an id. -/
theorem found_of_edges {doc : Table} {tables : List Table} {t : Table} {edge : EdgeConfig}
    (hlookup : lookup "edges" doc.entries = some (.arrayOfTables tables)) (ht : t ∈ tables)
    (hedge : edgeOf (.table t) = some edge) :
    ⟨edge, .table t, t.comments, (tableId t).isSome⟩ ∈ writtenIn "edges" doc := by
  rw [lookup_eq_find?] at hlookup
  obtain ⟨⟨key, item⟩, hfind, hitem⟩ := Option.map_eq_some_iff.mp hlookup
  cases hitem
  simp only [writtenIn, hfind, edgeOf_arrayOfTables]
  exact List.mem_filterMap.mpr ⟨.table t, List.mem_map_of_mem ht, by rw [hedge]; rfl⟩

/-- The tables of a document with an `[edge]` table. -/
theorem previousOf_table {doc t : Table} (ht : lookup "edge" doc.entries = some (.table t))
    (hnone : lookup "edges" doc.entries = none) :
    previousOf doc = insert [] ((tableId t).getD defaultEdgeId) t := by
  rw [previousOf, ht, hnone]
  rfl

/-- Of several tables with one id the last is taken. -/
theorem lookup_arrayOfTables {doc : Table} {tables : List Table}
    (hnone : lookup "edge" doc.entries = none)
    (htables : lookup "edges" doc.entries = some (.arrayOfTables tables)) (id : String) :
    (previousOf doc).lookup id = (tables.filter fun t => tableId t = some id).getLast? := by
  simp only [previousOf, hnone, htables]
  exact (lookup_insertAll tables [] id).trans (Option.or_none ..)

/-- What is written over is a connection. -/
theorem found_of_lookup {doc : Table} {old : List EdgeConfig}
    (h : configEdges doc = some old) {id : String} {t : Table}
    (ht : (previousOf doc).lookup id = some t) :
    ∃ w ∈ connections doc, w.found = true ∧ w.edge.id = id ∧ w.item = .table t := by
  obtain ⟨name, item, hitem, hread, hconnections, ⟨rfl, hnone⟩ | ⟨rfl, hnone⟩⟩ :=
    configEdges_eq_some h
  · rw [hconnections]
    -- a single table, or the last one of an array with that id
    cases item with
    | table t' =>
        rw [previousOf_table hitem hnone, lookup_insert] at ht
        split_ifs at ht with hid
        · cases ht
          cases hedge : edgeOf (.table t) with
          | some edge =>
              exact ⟨_, found_of_edge hitem hedge, rfl,
                (tableId_of_edgeOf hedge).1.symm.trans hid.symm, rfl⟩
          | none =>
              rw [edgesOf, hedge] at hread
              cases hread
        · cases ht
    | _ =>
        rw [previousOf, hitem, hnone] at ht
        cases ht
  · rw [hconnections]
    cases item with
    | arrayOfTables tables =>
        rw [lookup_arrayOfTables hnone hitem] at ht
        obtain ⟨hmem, hid⟩ := List.mem_filter.mp (List.mem_of_getLast? ht)
        have hid := of_decide_eq_true hid
        rw [edgesOf, edgeOf_arrayOfTables] at hread
        obtain ⟨edge, -, hedge⟩ :=
          exists_right (mapM_eq_some_iff.mp hread) (List.mem_map_of_mem hmem)
        exact ⟨_, found_of_edges hitem hmem hedge, by rw [hid]; rfl,
          (tableId_of_edgeOf hedge).2 id hid, rfl⟩
    | _ =>
        rw [previousOf, hitem, hnone] at ht
        cases ht

/-- A connection that is found has its table. -/
theorem isSome_lookup {doc : Table} {old : List EdgeConfig}
    (h : configEdges doc = some old) {w : Written} (hw : w ∈ connections doc)
    (hfound : w.found = true) : ((previousOf doc).lookup w.edge.id).isSome := by
  obtain ⟨name, item, -, -, hconnections, hname⟩ := configEdges_eq_some h
  rw [hconnections] at hw
  obtain ⟨t, -, hedge, -, ⟨rfl, ht⟩ | ⟨rfl, hid, tables, htables, ht⟩⟩ := table_of_found hw hfound
  · obtain ⟨-, hnone⟩ : "edge" = "edge" ∧ lookup "edges" doc.entries = none :=
      hname.resolve_right fun h => absurd h.1 (by decide)
    rw [previousOf_table ht hnone, (tableId_of_edgeOf hedge).1, lookup_insert, if_pos rfl]
    rfl
  · obtain ⟨-, hnone⟩ : "edges" = "edges" ∧ lookup "edge" doc.entries = none :=
      hname.resolve_left fun h => absurd h.1 (by decide)
    rw [lookup_arrayOfTables hnone htables, List.getLast?_isSome]
    exact List.ne_nil_of_mem (List.mem_filter.mpr ⟨ht, decide_eq_true hid⟩)

/-- The tables that are written over are those of the connections that are found. -/
theorem lookup_previousOf {doc : Table} {old : List EdgeConfig} (h : configEdges doc = some old)
    (hids : (old.map EdgeConfig.id).Nodup) {id : String} {t : Table} :
    (previousOf doc).lookup id = some t ↔
      ∃ w ∈ connections doc, w.found = true ∧ w.edge.id = id ∧ w.item = .table t := by
  refine ⟨found_of_lookup h, ?_⟩
  rintro ⟨w, hw, hfound, rfl, hitem⟩
  obtain ⟨t', ht'⟩ := Option.isSome_iff_exists.mp (isSome_lookup h hw hfound)
  obtain ⟨w', hw', -, hid, hitem'⟩ := found_of_lookup h ht'
  obtain rfl := eq_of_id_eq h hids hw hw' hid.symm
  rw [ht', Item.table.inj (hitem.symm.trans hitem')]

/-! ### The new tables -/

/-- The table that an edge is written over. -/
def tableFor (previous : Previous) (edge : EdgeConfig) : Table :=
  clearPositions ((previous.lookup edge.id).getD {})

/-- A table that was taken is no other edge's. -/
theorem tableFor_filter {previous : Previous} {edge next : EdgeConfig} (hne : next.id ≠ edge.id) :
    tableFor (previous.filter fun p => p.1 ≠ edge.id) next = tableFor previous next := by
  rw [tableFor, lookup_filter_of_ne hne, tableFor]

/-- A table is written over once, so each edge has the table of its id. -/
theorem writeTables_eq_some {previous : Previous} {edges : List EdgeConfig}
    (hids : (edges.map EdgeConfig.id).Nodup) {tables : List Table} :
    writeTables previous edges = some tables ↔
      List.Forall₂
        (fun edge t => writeTable edge (tableFor previous edge) = some t) edges tables := by
  induction edges generalizing previous tables with
  | nil => exact ⟨fun h => Option.some.inj h ▸ .nil, fun h => by cases h; rfl⟩
  | cons edge edges ih =>
      obtain ⟨hedge, hids⟩ := List.nodup_cons.mp hids
      have hfilter : ∀ next ∈ edges,
          tableFor (previous.filter fun p => p.1 ≠ edge.id) next = tableFor previous next := by
        intro next hnext
        exact tableFor_filter fun heq => hedge (List.mem_map.mpr ⟨next, hnext, heq⟩)
      have hrest : ∀ rest, writeTables (previous.filter fun p => p.1 ≠ edge.id) edges = some rest ↔
          List.Forall₂
            (fun edge t => writeTable edge (tableFor previous edge) = some t) edges rest := by
        intro rest
        rw [ih hids]
        refine forall₂_congr fun next hnext t => ?_
        rw [hfilter next hnext]
      constructor
      · intro h
        obtain ⟨t, ht, h⟩ := Option.bind_eq_some_iff.mp h
        obtain ⟨rest, hwrite, h⟩ := Option.bind_eq_some_iff.mp h
        exact Option.some.inj h ▸ .cons ht ((hrest rest).mp hwrite)
      · intro h
        obtain - | ⟨ht, hwrite⟩ := h
        exact Option.bind_eq_some_iff.mpr ⟨_, ht,
          Option.bind_eq_some_iff.mpr ⟨_, (hrest _).mpr hwrite, rfl⟩⟩

/-- The table is that of the edge, with the comments of the table it was written over. -/
structure Kept (previous : Previous) (edge : EdgeConfig) (t : Table) : Prop where
  holds : HoldsEdge edge t
  comments : t.comments = ((previous.lookup edge.id).getD {}).comments
  cleared : clearPositions t = t

/-- The boundary of a connection is a table. -/
def Written.Tabular (w : Written) : Prop :=
  ∀ boundary, w.item.fields.bind (lookup "boundary") = some boundary → boundary.fields.isSome

/-- The tables that are written over can be. -/
def Writable (doc : Table) (edges : List EdgeConfig) : Prop :=
  ∀ w ∈ connections doc, w.edge.id ∈ edges.map EdgeConfig.id → w.found = true → w.Tabular

/-- A table that is ready takes its edge and keeps its comments. -/
theorem kept_of_ready {previous : Previous} {edge : EdgeConfig}
    (h : Ready ((previous.lookup edge.id).getD {})) :
    ∃ t, writeTable edge (tableFor previous edge) = some t ∧ Kept previous edge t := by
  obtain ⟨t, ht, hholds, hcomments, hcleared⟩ :=
    writeTable_spec h.clear (clearPositions_clearPositions _) edge
  exact ⟨t, ht, hholds, hcomments.trans (comments_clearPositions _), hcleared⟩

/-- In a writable document the table of every edge is ready. -/
theorem ready_of_writable {doc : Table} {old edges : List EdgeConfig}
    (h : configEdges doc = some old) (hwritable : Writable doc edges) {edge : EdgeConfig}
    (hedge : edge ∈ edges) :
    Ready (((previousOf doc).lookup edge.id).getD {}) := by
  cases hlookup : (previousOf doc).lookup edge.id with
  | none => exact ready_empty
  | some t =>
      obtain ⟨w, hw, hfound, hid, hitem⟩ := found_of_lookup h hlookup
      have hmem : w.edge.id ∈ edges.map EdgeConfig.id := hid ▸ List.mem_map_of_mem hedge
      have hread : edgeOf (.table t) = some w.edge := by
        rcases List.mem_append.mp hw with hw | hw
        all_goals
          obtain ⟨t', hitem', hread, -⟩ := table_of_found hw hfound
          exact Item.table.inj (hitem.symm.trans hitem') ▸ hread
      refine ready_of_edgeOf hread fun boundary hboundary => hwritable w hw hmem hfound boundary ?_
      rw [hitem]
      exact hboundary

/-- In a writable document every edge gets its table. -/
theorem writeTables_spec {doc : Table} {old edges : List EdgeConfig}
    (h : configEdges doc = some old) (hids : (edges.map EdgeConfig.id).Nodup)
    (hwritable : Writable doc edges) :
    ∃ tables, writeTables (previousOf doc) edges = some tables ∧
      List.Forall₂ (Kept (previousOf doc)) edges tables := by
  have hkept : ∀ edge ∈ edges, ∃ t, writeTable edge (tableFor (previousOf doc) edge) = some t ∧
      Kept (previousOf doc) edge t :=
        fun edge hedge => kept_of_ready (ready_of_writable h hwritable hedge)
  have : Nonempty Table := ⟨{}⟩
  choose! table htable using hkept
  refine ⟨edges.map table, (writeTables_eq_some hids).mpr ?_, ?_⟩
  · exact List.forall₂_map_right_iff.mpr (List.forall₂_same.mpr fun edge hedge =>
      (htable edge hedge).1)
  · exact List.forall₂_map_right_iff.mpr (List.forall₂_same.mpr fun edge hedge =>
      (htable edge hedge).2)

/-- A connection that is found is a table, and has its comments. -/
theorem table_of_connection {doc : Table} {w : Written} (hw : w ∈ connections doc)
    (hfound : w.found = true) :
    ∃ t, w.item = .table t ∧ edgeOf (.table t) = some w.edge ∧ w.comments = t.comments := by
  rcases List.mem_append.mp hw with hw | hw
  all_goals
    obtain ⟨t, hitem, hread, hcomments, -⟩ := table_of_found hw hfound
    exact ⟨t, hitem, hread, hcomments⟩

/-- What is written is writable. -/
theorem writable_of_writeTables {doc : Table} {old edges : List EdgeConfig} {tables : List Table}
    (h : configEdges doc = some old) (hold : (old.map EdgeConfig.id).Nodup)
    (hids : (edges.map EdgeConfig.id).Nodup)
    (hwrite : writeTables (previousOf doc) edges = some tables) :
    Writable doc edges := by
  intro w hw hmem hfound boundary hboundary
  obtain ⟨t, hitem, -⟩ := table_of_connection hw hfound
  rw [hitem] at hboundary
  obtain ⟨edge, hedge, hid⟩ := List.mem_map.mp hmem
  obtain ⟨t', -, ht'⟩ := exists_right ((writeTables_eq_some hids).mp hwrite) hedge
  have hlookup := (lookup_previousOf h hold).mpr ⟨w, hw, hfound, hid.symm, hitem⟩
  rw [← fields_clearItem]
  by_contra hnone
  rw [Bool.not_eq_true, Option.isSome_eq_false_iff, Option.isNone_iff_eq_none] at hnone
  have hnew :
      lookup "boundary" (tableFor (previousOf doc) edge).entries = some (clearItem boundary) := by
    rw [tableFor, hlookup, Option.getD_some, clearPositions, lookup_clearEntries]
    exact congrArg (Option.map clearItem) hboundary
  rw [writeTable_eq_none hnew hnone] at ht'
  cases ht'

/-! ### The new document -/

/-- Not the key of a section of connections. -/
def isOther (name : String) : Bool := name ≠ "edge" && name ≠ "edges"

/-- The document is what it was, with the edges in the place of its connections. -/
structure Migrated (doc doc' : Table) (edges : List EdgeConfig) : Prop where
  reads : configEdges doc' = some edges
  legacy : lookup "edge" doc'.entries = none
  others :
    doc'.entries.filter (fun p => isOther p.1.name) = doc.entries.filter fun p => isOther p.1.name
  decor : doc'.decor = doc.decor
  position : doc'.position = doc.position
  comments : ∀ w ∈ connections doc, w.edge.id ∈ edges.map EdgeConfig.id →
    ∃ w' ∈ connections doc', w'.edge.id = w.edge.id ∧ w'.comments = w.comments
  again : writeEdges doc' edges = some doc'

/-- The document with the tables in the place of its connections. -/
def withTables (doc : Table) (tables : List Table) : Table :=
  { doc with
    entries := update "edges" (fun _ => .arrayOfTables tables) (remove "edge" doc.entries) }

/-- What `write_edges` makes of a document. -/
theorem writeEdges_eq_some {doc doc' : Table} {edges : List EdgeConfig} :
    writeEdges doc edges = some doc' ↔
      ∃ tables,
      writeTables (previousOf doc) edges = some tables ∧ withTables doc tables = doc' := by
  rw [writeEdges, Option.bind_eq_bind, Option.bind_eq_some_iff]
  simp only [Option.pure_def, Option.some.injEq, withTables]

/-- The document has no `[edge]` any more. -/
theorem lookup_edge_withTables (doc : Table) (tables : List Table) :
    lookup "edge" (withTables doc tables).entries = none := by
  rw [withTables, lookup_update_of_ne (by decide), lookup_remove]

/-- The document has these tables. -/
theorem lookup_edges_withTables (doc : Table) (tables : List Table) :
    lookup "edges" (withTables doc tables).entries = some (.arrayOfTables tables) :=
  lookup_update ..

/-- The rest of the document stays. -/
theorem others_withTables (doc : Table) (tables : List Table) :
    (withTables doc tables).entries.filter (fun p => isOther p.1.name) =
      doc.entries.filter fun p => isOther p.1.name :=
  (filter_update _ (by decide) _).trans (filter_remove (by decide) _)

section Written

variable {doc : Table} {edges : List EdgeConfig} {tables : List Table} {previous : Previous}

/-- The edges are read back. -/
theorem configEdges_withTables (h : List.Forall₂ (Kept previous) edges tables) :
    configEdges (withTables doc tables) = some edges := by
  rw [configEdges, lookup_edge_withTables, lookup_edges_withTables]
  dsimp only
  rw [edgesOf, edgeOf_arrayOfTables]
  refine mapM_eq_some_iff.mpr (List.forall₂_map_left_iff.mpr ?_)
  exact (h.imp fun _ _ hkept => hkept.holds.edgeOf_eq).flip

/-- The table of an edge is one of the connections of the document. -/
theorem written_of_kept {edge : EdgeConfig} {t : Table} (hkept : Kept previous edge t)
    (ht : t ∈ tables) :
    ⟨edge, .table t, t.comments, true⟩ ∈ connections (withTables doc tables) := by
  have hfound := found_of_edges (lookup_edges_withTables doc tables) ht hkept.holds.edgeOf_eq
  rw [hkept.holds.tableId_eq] at hfound
  exact List.mem_append_right _ hfound

/-- Each table is looked up again under the id of its edge. -/
theorem lookup_withTables (h : List.Forall₂ (Kept previous) edges tables)
    (hids : (edges.map EdgeConfig.id).Nodup) {edge : EdgeConfig} {t : Table}
    (hkept : Kept previous edge t) (ht : t ∈ tables) :
    (previousOf (withTables doc tables)).lookup edge.id = some t :=
  (lookup_previousOf (configEdges_withTables h) hids).mpr ⟨_, written_of_kept hkept ht,
    rfl, rfl, rfl⟩

/-- To write the same edges again changes nothing. -/
theorem writeEdges_withTables (h : List.Forall₂ (Kept previous) edges tables)
    (hids : (edges.map EdgeConfig.id).Nodup) :
    writeEdges (withTables doc tables) edges = some (withTables doc tables) := by
  refine writeEdges_eq_some.mpr ⟨tables, (writeTables_eq_some hids).mpr ?_, ?_⟩
  · have hmem : List.Forall₂ (fun t edge => t ∈ tables ∧ Kept previous edge t) tables edges :=
      (List.forall₂_and_left tables edges).mpr ⟨fun _ ht => ht, h.flip⟩
    refine hmem.flip.imp fun edge t => ?_
    rintro ⟨ht, hkept⟩
    rw [tableFor, lookup_withTables h hids hkept ht, Option.getD_some, hkept.cleared,
      writeTable_self hkept.holds]
  · have hself : update "edges" (fun _ => .arrayOfTables tables)
        (remove "edge" (withTables doc tables).entries) = (withTables doc tables).entries := by
      rw [remove_eq_self (lookup_edge_withTables doc tables)]
      exact update_eq_self (lookup_edges_withTables doc tables) rfl
    rw [withTables, hself]

/-- The comments of a connection of the new document are those of the table it was written over. -/
theorem comments_withTables (h : List.Forall₂ (Kept previous) edges tables)
    (hids : (edges.map EdgeConfig.id).Nodup) {w : Written}
    (hw : w ∈ connections (withTables doc tables)) :
    w.comments = ((previous.lookup w.edge.id).getD {}).comments := by
  have hreads : configEdges (withTables doc tables) = some edges := configEdges_withTables h
  have hedge : w.edge ∈ edges := by
    rw [← map_edge_connections hreads]
    exact List.mem_map_of_mem hw
  obtain ⟨t, ht, hkept⟩ := exists_right h hedge
  rw [eq_of_id_eq hreads hids hw (written_of_kept hkept ht) rfl]
  exact hkept.comments

end Written

/-- What a connection has to be for its comments to go with it. -/
def Written.Keepable (w : Written) : Prop :=
  if w.found then w.Tabular else w.comments = []

/-- The edges are written and nothing is lost, unless a connection that stays has comments and is
not written as a table where the code looks for it, or is such a table and its boundary a
sequence. -/
theorem migrated_iff {doc : Table} {old edges : List EdgeConfig} (h : configEdges doc = some old)
    (hold : validateEdges old = .ok ()) (hnew : validateEdges edges = .ok ()) :
    (∃ doc', writeEdges doc edges = some doc' ∧ Migrated doc doc' edges) ↔
      ∀ w ∈ connections doc, w.edge.id ∈ edges.map EdgeConfig.id → w.Keepable := by
  have hids := nodup_of_validateEdges hold
  have hnodup := nodup_of_validateEdges hnew
  -- the comments of the tables that are written over
  have hcomments : ∀ w ∈ connections doc,
      (((previousOf doc).lookup w.edge.id).getD {}).comments =
      if w.found then w.comments else [] := by
    intro w hw
    split_ifs with hfound
    · obtain ⟨t, hitem, -, hcomments⟩ := table_of_connection hw hfound
      rw [(lookup_previousOf h hids).mpr ⟨w, hw, hfound, rfl, hitem⟩, Option.getD_some, hcomments]
    · cases hlookup : (previousOf doc).lookup w.edge.id with
      | none => rfl
      | some t =>
          obtain ⟨w', hw', hfound', hid, -⟩ := (lookup_previousOf h hids).mp hlookup
          exact absurd (eq_of_id_eq h hids hw' hw hid ▸ hfound') hfound
  constructor
  · rintro ⟨doc', hwrite, hmigrated⟩ w hw hmem
    obtain ⟨tables, htables, rfl⟩ := writeEdges_eq_some.mp hwrite
    have hwritable := writable_of_writeTables h hids hnodup htables
    obtain ⟨tables', htables', hkept⟩ := writeTables_spec h hnodup hwritable
    obtain rfl := Option.some.inj (htables.symm.trans htables')
    unfold Written.Keepable
    split_ifs with hfound
    · exact hwritable w hw hmem hfound
    · obtain ⟨w', hw', hid, heq⟩ := hmigrated.comments w hw hmem
      rw [← heq, comments_withTables hkept hnodup hw', hid, hcomments w hw, if_neg hfound]
  · intro hall
    have hwritable : Writable doc edges := by
      intro w hw hmem hfound
      have hkeep := hall w hw hmem
      rwa [Written.Keepable, if_pos hfound] at hkeep
    obtain ⟨tables, hwrite, hkept⟩ := writeTables_spec h hnodup hwritable
    refine ⟨withTables doc tables, writeEdges_eq_some.mpr ⟨tables, hwrite, rfl⟩, ?_⟩
    exact {
      reads := configEdges_withTables hkept
      legacy := lookup_edge_withTables doc tables
      others := others_withTables doc tables
      decor := rfl
      position := rfl
      comments := by
        intro w hw hmem
        obtain ⟨edge, hedge, hid⟩ := List.mem_map.mp hmem
        obtain ⟨t, ht, htable⟩ := exists_right hkept hedge
        refine ⟨_, written_of_kept htable ht, hid, ?_⟩
        have hkeep := hall w hw hmem
        rw [Written.Keepable] at hkeep
        rw [htable.comments, hid, hcomments w hw]
        split_ifs with hfound
        · rfl
        · rw [if_neg hfound] at hkeep
          exact hkeep.symm
      again := writeEdges_withTables hkept hnodup }

/-- The other settings of a configuration. -/
def sampleSettings : Entries Item :=
  [ (⟨"certificate", { before := some "# Keep this comment\n" }⟩,
    .scalar (.string "identity.pem") {}),
    (⟨"private_key", {}⟩, .scalar (.string "identity.key.pem") {}),
    (⟨"peer_certificate", {}⟩, .scalar (.string "peer.pem") {}),
    (⟨"peer_name", {}⟩, .scalar (.string "desktop") {}),
    (⟨"activity_devices", {}⟩, .array [.scalar (.string "/dev/input/by-path/test-kbd") {}] {}),
    (⟨"connection", {}⟩, .inlineTable
      [ (⟨"mode", {}⟩, .scalar (.string "connect") {}),
        (⟨"address", {}⟩, .scalar (.string "desktop.local:42420") {}) ] {}) ]

/-- The table of a connection, with a decoration. -/
def sampleConnection (output : Decor) : Entries Item :=
  [ (⟨"output", {}⟩, .scalar (.string "screen") output),
    (⟨"boundary", {}⟩, .inlineTable
      [ (⟨"edge", {}⟩, .scalar (.string "top") {}),
        (⟨"start", {}⟩, .scalar (.float 0) {}),
        (⟨"end", {}⟩, .scalar (.float 1) {}) ] {}) ]

/-- The connection that the table holds. -/
def sampleEdge : EdgeConfig :=
  { id := "default", output := "screen", boundary := { edge := .top, start := 0, «end» := 1 } }

/-- The connection under a header `[edge]`. -/
def legacyDocument : Table :=
  { entries := sampleSettings ++ [(⟨"edge", {}⟩, .table
      { entries := sampleConnection { after := some " # Output note" }
        decor := { before := some "# Edge note\n" }
        position := some 1 })] }

/-- The connection as a value, `edge = {..}`. -/
def inlineDocument : Table :=
  { entries := (⟨"edge", { before := some "# Edge note\n" }⟩,
    .inlineTable (sampleConnection {}) {}) ::
      sampleSettings }

theorem migrated_legacy :
    ∃ doc',
    writeEdges legacyDocument [sampleEdge] = some doc' ∧
    Migrated legacyDocument doc' [sampleEdge] := by
  have hold : configEdges legacyDocument = some [sampleEdge] := rfl
  refine (migrated_iff hold rfl rfl).mpr ?_
  intro w hw _
  obtain rfl := List.mem_singleton.mp (show w ∈ [_] from hw)
  intro boundary hboundary
  cases hboundary
  rfl

/-- The comment before an old connection that is written as a value. -/
theorem inline_comment_lost :
    ¬ ∀ doc old edges, configEdges doc = some old → validateEdges old = .ok () →
    validateEdges edges = .ok () →
      ∃ doc', writeEdges doc edges = some doc' ∧ Migrated doc doc' edges := by
  intro hall
  obtain ⟨doc', hwrite, hmigrated⟩ := hall inlineDocument [sampleEdge] [sampleEdge] rfl rfl rfl
  obtain ⟨w, hw, -, hcomments⟩ := hmigrated.comments
    ⟨sampleEdge, .inlineTable (sampleConnection {}) {}, ["# Edge note\n"], false⟩
    (List.mem_singleton_self _) (List.mem_singleton_self _)
  cases hwrite
  obtain rfl := List.mem_singleton.mp (show w ∈ [_] from hw)
  cases hcomments

end NiriBridge.Toml
