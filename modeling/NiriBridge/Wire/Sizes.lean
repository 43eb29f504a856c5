import NiriBridge.Model.Wire
import NiriBridge.Support.Words
import NiriBridge.Touch.State

/-!
# Wire — Sizes

How long the JSON of a validated message can be.  Text that `validate` bounds by its bytes may grow
sixfold when it is escaped, and by less where it has no control characters.

`Message.size_le` covers every message but the result of a layout save, whose revision is not
bounded; `result_size` is its exact size.
-/

namespace NiriBridge

open Json

/-! ### Strings -/

/-- A byte of a string takes at most six. -/
theorem size_string_le_six (s : String) : size (string s) ≤ 6 * s.utf8ByteSize + 2 :=
  size_string_le fun c _ => size_escape_le c

theorem escape_of_isAlphanum {c : Char} (h : c.isAlphanum = true) : escape c = [c] := by
  refine escape_of_plain ?_ ?_ ?_
  · have hcode : c.toNat = c.val.toNat := rfl
    have hrange := Words.isAlphanum_iff.mp h
    omega
  · rintro rfl
    revert h
    decide
  · rintro rfl
    revert h
    decide

/-- An edge id has nothing to escape. -/
theorem size_edgeId_le {id : String} (h : validEdgeId id = true) : size (string id) ≤ 66 := by
  simp only [validEdgeId, Bool.and_eq_true, decide_eq_true_eq, List.all_eq_true, Bool.or_eq_true,
    beq_iff_eq] at h
  have hplain : ∀ c ∈ id.toList, escape c = [c] := by
    intro c hc
    rcases h.2 c hc with (halnum | rfl) | rfl
    · exact escape_of_isAlphanum halnum
    · decide
    · decide
  rw [size_string_of_plain hplain]
  omega

/-- Nor has the id of a transaction. -/
theorem size_transactionId {id : String} (hsize : id.utf8ByteSize = 32)
    (h : id.toList.all LayoutMessage.isHexdigit = true) : size (string id) = 34 := by
  have hplain : ∀ c ∈ id.toList, escape c = [c] := by
    intro c hc
    have hhex := List.all_eq_true.mp h c hc
    simp only [LayoutMessage.isHexdigit, Bool.or_eq_true, Bool.and_eq_true, decide_eq_true_eq]
      at hhex
    rcases hhex with (hdigit | ⟨hlow, hhigh⟩) | ⟨hlow, hhigh⟩
    · exact escape_of_isAlphanum (by simp [Char.isAlphanum, hdigit])
    · have hz : c.val.toNat ≤ 122 := Nat.le_trans hhigh (show 'f'.val.toNat ≤ 122 by decide)
      exact escape_of_isAlphanum (Words.isAlphanum_iff.mpr (.inl (.inr ⟨hlow, hz⟩)))
    · have hz : c.val.toNat ≤ 90 := Nat.le_trans hhigh (show 'F'.val.toNat ≤ 90 by decide)
      exact escape_of_isAlphanum (Words.isAlphanum_iff.mpr (.inl (.inl ⟨hlow, hz⟩)))
  rw [size_string_of_plain hplain, hsize]

/-- The name of an output has no control characters. -/
theorem size_output_le {output : String} (hsize : output.utf8ByteSize ≤ 128)
    (h : ¬ output.toList.any isControl) : size (string output) ≤ 258 := by
  have htwo : size (string output) ≤ 2 * output.utf8ByteSize + 2 := by
    refine size_string_le fun c hc => size_escape_le_of_not_control ?_
    by_contra hlow
    refine h (List.any_eq_true.mpr ⟨c, hc, ?_⟩)
    simp only [isControl, Bool.or_eq_true, decide_eq_true_eq]
    exact .inl (not_le.mp hlow)
  omega

/-! ### Touchpads -/

namespace Touchpad

theorem touchKey_le {code : ℕ} (h : touchKey code = true) : code < 1000 := by
  simp only [touchKey, Bool.or_eq_true, Bool.and_eq_true, decide_eq_true_eq, beq_iff_eq] at h
  omega

theorem touchAxis_le {code : ℕ} (h : touchAxis code = true) : code < 1000 := by
  simp only [touchAxis, Bool.or_eq_true, Bool.and_eq_true, decide_eq_true_eq, beq_iff_eq] at h
  omega

/-- How long an admissible event may be. -/
theorem Event.size_le {e : Event} (h : e.admissible = true) : size e.serialize ≤ 60 := by
  have hcost : frameSize ["kind", "code", "value"] = 26 := rfl
  have hkind : size e.kind.serialize ≤ 10 := by cases e.kind <;> decide
  have hbounds : e.code < 1000 ∧ e.value.natAbs < 10 ^ 7 := by
    unfold admissible at h
    split at h <;> simp only [Bool.and_eq_true, decide_eq_true_eq] at h
    · exact ⟨touchKey_le h.1, by omega⟩
    · exact ⟨touchAxis_le h.1, by omega⟩
  have hcode := size_nat_le (k := 3) (by decide) hbounds.1
  have hvalue := size_int_le (k := 7) (by decide) hbounds.2
  rw [serialize, size_object (List.cons_ne_nil _ _)]
  simp only [List.map_cons, List.map_nil, List.sum_cons, List.sum_nil, hcost]
  omega

/-- How long the events of a frame may be. -/
theorem validateFrame_size {events : List Event} (h : validateFrame events = .ok ()) :
    size (array (events.map Event.serialize)) ≤ 31300 := by
  simp only [validateFrame, bind_eq_ok, ensure_eq_ok, forEach_eq_ok] at h
  obtain ⟨-, ⟨-, hlength⟩, hall⟩ := h
  have hsize := size_array_le (events.map Event.serialize) (n := 60)
    (List.forall_mem_map.mpr fun e he => Event.size_le (hall e he))
  rw [List.length_map] at hsize
  omega

/-- How long an axis may be. -/
theorem AxisInfo.size_le {a : AxisInfo} (hcode : touchAxis a.code = true)
    (hrange : -1000000 ≤ a.minimum ∧ a.minimum ≤ a.maximum ∧ a.maximum ≤ 1000000)
    (hcalibration : ∀ v ∈ [a.fuzz, a.flat, a.resolution], 0 ≤ v ∧ v ≤ 100000) :
    size a.serialize ≤ 120 := by
  have hcost : frameSize ["code", "minimum", "maximum", "fuzz", "flat", "resolution"] = 61 :=
    rfl
  simp only [List.forall_mem_cons] at hcalibration
  obtain ⟨hfuzz, hflat, hresolution, -⟩ := hcalibration
  have h₁ := size_nat_le (k := 3) (by decide) (touchAxis_le hcode)
  have h₂ := size_int_le (n := a.minimum) (k := 7) (by decide) (by omega)
  have h₃ := size_int_le (n := a.maximum) (k := 7) (by decide) (by omega)
  have h₄ := size_int_le (n := a.fuzz) (k := 6) (by decide) (by omega)
  have h₅ := size_int_le (n := a.flat) (k := 6) (by decide) (by omega)
  have h₆ := size_int_le (n := a.resolution) (k := 6) (by decide) (by omega)
  rw [serialize, size_object (List.cons_ne_nil _ _)]
  simp only [List.map_cons, List.map_nil, List.sum_cons, List.sum_nil, hcost]
  omega

/-- How long a valid descriptor may be. -/
theorem Descriptor.size_le {d : Descriptor} (h : d.validate = .ok ()) :
    size d.serialize ≤ 2600 := by
  have hcost : frameSize ["keys", "properties", "axes"] = 31 := rfl
  obtain ⟨hkeys, -, hkey⟩ := validate_keys h
  have haxis := (validateAxes_spec (validate_axes h)).1
  simp only [validate, bind_eq_ok, ensure_eq_ok] at h
  obtain ⟨-, -, -, -, -, -, -, ⟨hproperties, -, hproperty⟩, -, ⟨-, haxes⟩, -⟩ := h
  have h₁ := size_array_le (d.keys.map nat) (n := 3)
    (List.forall_mem_map.mpr fun code hc => size_nat_le (by decide) (touchKey_le (hkey code hc)))
  have h₂ := size_array_le (d.properties.map nat) (n := 1)
    (List.forall_mem_map.mpr fun p hp => size_nat_le (by decide) (by
      have hmem := hproperty p hp
      simp only [List.mem_cons, List.not_mem_nil, or_false] at hmem
      omega))
  have h₃ := size_array_le (d.axes.map AxisInfo.serialize) (n := 120)
    (List.forall_mem_map.mpr fun a ha =>
      AxisInfo.size_le (haxis a ha).1 (haxis a ha).2.1 (haxis a ha).2.2)
  rw [List.length_map] at h₁ h₂ h₃
  rw [serialize, size_object (List.cons_ne_nil _ _)]
  simp only [List.map_cons, List.map_nil, List.sum_cons, List.sum_nil, hcost]
  omega

end Touchpad

/-! ### Desktops and layouts -/

section Floats
variable {float : ℚ → Text} (hfloat : ∀ q, IsF64 q → size (float q) ≤ 24)
include hfloat

/-- How long a valid connection may be. -/
theorem EdgeConfig.size_le {e : EdgeConfig} {previous : List EdgeConfig} (ht : e.boundary.Typed)
    (h : validateEdge previous e = .ok ()) : size (e.serialize float) ≤ 460 := by
  have hcost : frameSize ["id", "output", "boundary"] = 29 := rfl
  have hcost' : frameSize ["edge", "start", "end"] = 25 := rfl
  simp only [validateEdge, bind_eq_ok, ensure_eq_ok] at h
  obtain ⟨-, ⟨hid, -⟩, -, ⟨-, hsize, hcontrol⟩, -⟩ := h
  have h₁ := size_edgeId_le hid
  have h₂ := size_output_le hsize hcontrol
  have h₃ : size e.boundary.edge.serialize ≤ 8 := by cases e.boundary.edge <;> decide
  have h₄ := hfloat _ ht.1
  have h₅ := hfloat _ ht.2
  rw [serialize, size_object (List.cons_ne_nil _ _)]
  simp only [List.map_cons, List.map_nil, List.sum_cons, List.sum_nil, hcost]
  rw [Boundary.serialize, size_object (List.cons_ne_nil _ _)]
  simp only [List.map_cons, List.map_nil, List.sum_cons, List.sum_nil, hcost']
  omega

/-- How long valid connections may be. -/
theorem validateEdges_size {edges : List EdgeConfig} (ht : ∀ e ∈ edges, e.boundary.Typed)
    (h : validateEdges edges = .ok ()) :
    size (array (edges.map (EdgeConfig.serialize float))) ≤ 7400 := by
  simp only [validateEdges, bind_eq_ok, ensure_eq_ok] at h
  obtain ⟨-, ⟨-, hlength⟩, hall⟩ := h
  have heach : ∀ e ∈ edges, size (e.serialize float) ≤ 460 := by
    clear hlength
    generalize [] = previous at hall
    induction edges generalizing previous with
    | nil => exact fun _ he => absurd he (by simp)
    | cons edge edges ih =>
        rw [List.forall_mem_cons] at ht ⊢
        simp only [validateEdgesFrom, bind_eq_ok] at hall
        obtain ⟨_, hedge, hrest⟩ := hall
        exact ⟨EdgeConfig.size_le hfloat ht.1 hedge, ih ht.2 _ hrest⟩
  have hsize := size_array_le (edges.map (EdgeConfig.serialize float)) (n := 460)
    (List.forall_mem_map.mpr heach)
  rw [List.length_map] at hsize
  have hmax : MAX_EDGES = 16 := rfl
  omega

/-- How long an output may be. -/
theorem LogicalOutput.size_le {o : LogicalOutput} (ht : o.Typed) :
    size (o.serialize float) ≤ 140 := by
  have hcost : frameSize ["x", "y", "width", "height", "scale", "transform"] = 52 := rfl
  obtain ⟨hx, hy, hwidth, hheight, hscale⟩ := ht
  have h₁ := size_int_le (n := o.x) (k := 10) (by decide) (by omega)
  have h₂ := size_int_le (n := o.y) (k := 10) (by decide) (by omega)
  have h₃ := size_nat_le (n := o.width) (k := 10) (by decide) (by omega)
  have h₄ := size_nat_le (n := o.height) (k := 10) (by decide) (by omega)
  have h₅ := hfloat _ hscale
  have h₆ : size o.transform.serialize ≤ 12 := by cases o.transform <;> decide
  rw [serialize, size_object (List.cons_ne_nil _ _)]
  simp only [List.map_cons, List.map_nil, List.sum_cons, List.sum_nil, hcost]
  omega

/-- How long a valid desktop may be. -/
theorem Desktop.size_le {d : Desktop} (ht : d.Typed) (h : d.validate = .ok ()) :
    size (d.serialize float) ≤ 37700 := by
  have hcost : frameSize ["edges", "revision", "outputs"] = 33 := rfl
  simp only [validate, bind_eq_ok, ensure_eq_ok, forEach_eq_ok] at h
  obtain ⟨_, hedges, -, ⟨hcount, hrevision⟩, houtputs⟩ := h
  have h₁ := validateEdges_size hfloat ht.1 hedges
  have h₂ := size_string_le_six d.revision
  have h₃ := size_map_le (d.outputs.map fun p => (p.1, p.2.serialize float)) (n := 910)
    (List.forall_mem_map.mpr fun p hp => by
      have hname := size_string_le_six p.1
      have hbound := (houtputs p hp).1
      have houtput := LogicalOutput.size_le hfloat (ht.2 p hp)
      dsimp only
      omega)
  rw [List.length_map] at h₃
  rw [serialize, size_object (List.cons_ne_nil _ _)]
  simp only [List.map_cons, List.map_nil, List.sum_cons, List.sum_nil, hcost]
  omega

omit hfloat in
/-- How long an error code may be. -/
theorem size_error_le {error : Option String} (h : ∀ e ∈ error, e.utf8ByteSize ≤ 64) :
    size (optional string error) ≤ 386 := by
  cases error with
  | none => decide
  | some e =>
      have hsize := size_string_le_six e
      have hbound := h e rfl
      simp only [Json.optional]
      omega

/-- A layout message that is not a result. -/
theorem LayoutMessage.size_le {m : LayoutMessage} (ht : m.Typed) (h : m.validate = .ok ())
    (hresult : ∀ id ok revision error, m ≠ .result id ok revision error) :
    size (m.serialize float) ≤ 8000 := by
  have hprepare : frameSize ["action", "id", "edges", "revision"] = 38 := rfl
  have hprepared : frameSize ["action", "id", "ok", "error"] = 32 := rfl
  have hcommit : frameSize ["action", "id"] = 17 := rfl
  have hactions : size (string "prepare") = 9 ∧ size (string "prepared") = 10 ∧
    size (string "commit") = 8 ∧
      size (string "abort") = 7 :=
    ⟨rfl, rfl, rfl, rfl⟩
  simp only [validate, bind_eq_ok, ensure_eq_ok] at h
  obtain ⟨_, hbody, hlength, hhex⟩ := h
  have hid := size_transactionId hlength hhex
  cases m with
  | prepare id edges revision =>
      simp only [validateBody, bind_eq_ok, ensure_eq_ok] at hbody
      obtain ⟨_, hedges, hrevision⟩ := hbody
      have h₁ := validateEdges_size hfloat ht hedges
      have h₂ := size_string_le_six revision
      simp only [LayoutMessage.id] at hid
      rw [serialize, size_object (List.cons_ne_nil _ _)]
      simp only [List.map_cons, List.map_nil, List.sum_cons, List.sum_nil, hprepare, hactions]
      omega
  | prepared id ok error =>
      simp only [validateBody, ensure_eq_ok] at hbody
      have h₁ := size_bool_le ok
      have h₂ := size_error_le hbody
      simp only [LayoutMessage.id] at hid
      rw [serialize, size_object (List.cons_ne_nil _ _)]
      simp only [List.map_cons, List.map_nil, List.sum_cons, List.sum_nil, hprepared, hactions]
      omega
  | result id ok revision error => exact absurd rfl (hresult id ok revision error)
  | commit id | abort id =>
      simp only [LayoutMessage.id] at hid
      rw [serialize, size_object (List.cons_ne_nil _ _)]
      simp only [List.map_cons, List.map_nil, List.sum_cons, List.sum_nil, hcommit, hactions]
      omega

variable (float) in
omit hfloat in
/-- The frame of the result of a layout save. -/
theorem result_size {id : String} {ok : Bool} {revision error : Option String}
    (h : (LayoutMessage.result id ok revision error).validate = .ok ()) :
    size ((Message.layout (.result id ok revision error)).serialize float) =
      114 + (size (bool ok) + size (optional string revision) + size (optional string error)) := by
  have hresult : frameSize ["action", "id", "ok", "revision", "error"] = 44 := rfl
  have hlayout : frameSize ["type", "message"] = 20 := rfl
  have hnames : size (string "result") = 8 ∧ size (string "layout") = 8 := ⟨rfl, rfl⟩
  simp only [LayoutMessage.validate, bind_eq_ok, ensure_eq_ok] at h
  obtain ⟨-, -, hlength, hhex⟩ := h
  have hid := size_transactionId hlength hhex
  simp only [LayoutMessage.id] at hid
  rw [Message.serialize, size_object (List.cons_ne_nil _ _)]
  simp only [List.map_cons, List.map_nil, List.sum_cons, List.sum_nil, hlayout, hnames]
  rw [LayoutMessage.serialize, size_object (List.cons_ne_nil _ _)]
  simp only [List.map_cons, List.map_nil, List.sum_cons, List.sum_nil, hresult, hnames, hid]
  omega

/-! ### Messages -/

/-- How long a valid input may be. -/
theorem InputEvent.size_le {event : InputEvent} (ht : event.Typed) (h : event.validate = .ok ()) :
    size (event.serialize float) ≤ 31500 := by
  have htouchpad : frameSize ["type", "device", "time_us", "events"] = 40 := rfl
  have hkey : frameSize ["type", "code", "pressed"] = 28 := rfl
  have hmotion : frameSize ["type", "dx", "dy"] = 21 := rfl
  have habsolute : frameSize ["type", "x", "y", "width", "height"] = 38 := rfl
  have hscroll : frameSize ["type", "axis", "amount", "source"] = 37 := rfl
  have hstop : frameSize ["type", "axis", "source"] = 27 := rfl
  have htypes : size (string "touchpad") = 10 ∧ size (string "key") = 5 ∧
    size (string "button") = 8 ∧
      size (string "motion") = 8 ∧ size (string "absolute") = 10 ∧ size (string "scroll") = 8 ∧
      size (string "scroll_stop") = 13 :=
    ⟨rfl, rfl, rfl, rfl, rfl, rfl, rfl⟩
  cases event with
  | touchpad device timeUs events =>
      simp only [validate, bind_eq_ok, ensure_eq_ok] at h
      obtain ⟨-, hdevice, -, ⟨-, htime⟩, hevents⟩ := h
      have h₁ := size_nat_le (n := device) (k := 1) (by decide) (by omega)
      have h₂ := size_nat_le (n := timeUs) (k := 16) (by decide) (by omega)
      have h₃ := Touchpad.validateFrame_size hevents
      rw [serialize, size_object (List.cons_ne_nil _ _)]
      simp only [List.map_cons, List.map_nil, List.sum_cons, List.sum_nil, htouchpad, htypes]
      omega
  | key code pressed | button code pressed =>
      simp only [validate, ensure_eq_ok] at h
      have h₁ := size_nat_le (n := code) (k := 3) (by decide) (by omega)
      have h₂ := size_bool_le pressed
      rw [serialize, size_object (List.cons_ne_nil _ _)]
      simp only [List.map_cons, List.map_nil, List.sum_cons, List.sum_nil, hkey, htypes]
      omega
  | motion dx dy =>
      have h₁ := hfloat _ ht.1
      have h₂ := hfloat _ ht.2
      rw [serialize, size_object (List.cons_ne_nil _ _)]
      simp only [List.map_cons, List.map_nil, List.sum_cons, List.sum_nil, hmotion, htypes]
      omega
  | absolute x y width height =>
      obtain ⟨hx, hy, hwidth, hheight⟩ := ht
      have h₁ := size_nat_le (n := x) (k := 10) (by decide) (by omega)
      have h₂ := size_nat_le (n := y) (k := 10) (by decide) (by omega)
      have h₃ := size_nat_le (n := width) (k := 10) (by decide) (by omega)
      have h₄ := size_nat_le (n := height) (k := 10) (by decide) (by omega)
      rw [serialize, size_object (List.cons_ne_nil _ _)]
      simp only [List.map_cons, List.map_nil, List.sum_cons, List.sum_nil, habsolute, htypes]
      omega
  | scroll axis amount source =>
      have h₁ : size axis.serialize ≤ 12 := by cases axis <;> decide
      have h₂ := hfloat _ ht
      have h₃ : size source.serialize ≤ 12 := by cases source <;> decide
      rw [serialize, size_object (List.cons_ne_nil _ _)]
      simp only [List.map_cons, List.map_nil, List.sum_cons, List.sum_nil, hscroll, htypes]
      omega
  | scrollStop axis source =>
      have h₁ : size axis.serialize ≤ 12 := by cases axis <;> decide
      have h₂ : size source.serialize ≤ 12 := by cases source <;> decide
      rw [serialize, size_object (List.cons_ne_nil _ _)]
      simp only [List.map_cons, List.map_nil, List.sum_cons, List.sum_nil, hstop, htypes]
      omega

/-- How long a valid place may be. -/
theorem EdgePosition.size_le {p : EdgePosition} (ht : IsF64 p.fraction) (h : p.validate = .ok ()) :
    size (p.serialize float) ≤ 120 := by
  have hcost : frameSize ["edge_id", "fraction"] = 24 := rfl
  simp only [validate, bind_eq_ok, ensure_eq_ok] at h
  obtain ⟨-, hid, -⟩ := h
  have h₁ := size_edgeId_le hid
  have h₂ := hfloat _ ht
  rw [serialize, size_object (List.cons_ne_nil _ _)]
  simp only [List.map_cons, List.map_nil, List.sum_cons, List.sum_nil, hcost]
  omega

/-- A validated message that is not the result of a layout save. -/
theorem Message.size_le {m : Message} (ht : m.Typed) (h : m.validate = .ok ())
    (hresult : ∀ id ok revision error, m ≠ .layout (.result id ok revision error)) :
    size (m.serialize float) ≤ MAX_FRAME_BYTES := by
  -- the names of the fields are fixed: the sizes are numbers
  have hmax : MAX_FRAME_BYTES = 65536 := rfl
  have hdesktop : frameSize ["type", "info"] = 17 := rfl
  have hlayout : frameSize ["type", "message"] = 20 := rfl
  have htouchpads : frameSize ["type", "devices"] = 20 := rfl
  have hhello : frameSize ["type", "version"] = 20 := rfl
  have hbegin : frameSize ["type", "session", "entry"] = 29 := rfl
  have hinput : frameSize ["type", "session", "sequence", "event"] = 41 := rfl
  have hend : frameSize ["type", "session"] = 20 := rfl
  have hexit : frameSize ["type", "session", "exit"] = 28 := rfl
  have hping : frameSize ["type", "nonce"] = 18 := rfl
  have hlock : frameSize ["type", "locked"] = 19 := rfl
  have htypes : size (string "desktop") = 9 ∧ size (string "layout") = 8 ∧
    size (string "touchpads") = 11 ∧
      size (string "hello") = 7 ∧ size (string "begin") = 7 ∧ size (string "input") = 7 ∧
      size (string "end") = 5 ∧ size (string "ping") = 6 ∧ size (string "pong") = 6 ∧
      size (string "lock_state") = 12 :=
    ⟨rfl, rfl, rfl, rfl, rfl, rfl, rfl, rfl, rfl, rfl⟩
  -- the values are bounded one by one, and the sums compared
  cases m with
  | desktop info =>
      have h₁ := Desktop.size_le hfloat ht h
      rw [serialize, size_object (List.cons_ne_nil _ _)]
      simp only [List.map_cons, List.map_nil, List.sum_cons, List.sum_nil, hdesktop, htypes]
      omega
  | layout message =>
      have h₁ := LayoutMessage.size_le hfloat ht h fun id ok revision error heq =>
        hresult id ok revision error (congrArg _ heq)
      rw [serialize, size_object (List.cons_ne_nil _ _)]
      simp only [List.map_cons, List.map_nil, List.sum_cons, List.sum_nil, hlayout, htypes]
      omega
  | touchpads devices =>
      simp only [validate, bind_eq_ok, ensure_eq_ok, forEach_eq_ok] at h
      obtain ⟨-, hcount, hdevices⟩ := h
      have h₁ := size_array_le (devices.map Touchpad.Descriptor.serialize) (n := 2600)
        (List.forall_mem_map.mpr fun d hd => Touchpad.Descriptor.size_le (hdevices d hd))
      rw [List.length_map] at h₁
      rw [serialize, size_object (List.cons_ne_nil _ _)]
      simp only [List.map_cons, List.map_nil, List.sum_cons, List.sum_nil, htouchpads, htypes]
      omega
  | hello version =>
      have hversion : version = 5 := ensure_eq_ok.mp h
      have h₁ := size_nat_le (n := version) (k := 1) (by decide) (by omega)
      rw [serialize, size_object (List.cons_ne_nil _ _)]
      simp only [List.map_cons, List.map_nil, List.sum_cons, List.sum_nil, hhello, htypes]
      omega
  | «begin» session entry =>
      simp only [validate, bind_eq_ok, ensure_eq_ok] at h
      obtain ⟨-, -, hentry⟩ := h
      have h₁ := size_nat_le (n := session) (k := 20) (by decide) (ht.1.trans (by decide))
      have h₂ := EdgePosition.size_le hfloat ht.2 hentry
      rw [serialize, size_object (List.cons_ne_nil _ _)]
      simp only [List.map_cons, List.map_nil, List.sum_cons, List.sum_nil, hbegin, htypes]
      omega
  | input session sequence event =>
      simp only [validate, bind_eq_ok, ensure_eq_ok] at h
      obtain ⟨-, -, hevent⟩ := h
      have h₁ := size_nat_le (n := session) (k := 20) (by decide) (ht.1.trans (by decide))
      have h₂ := size_nat_le (n := sequence) (k := 20) (by decide) (ht.2.1.trans (by decide))
      have h₃ := InputEvent.size_le hfloat ht.2.2 hevent
      rw [serialize, size_object (List.cons_ne_nil _ _)]
      simp only [List.map_cons, List.map_nil, List.sum_cons, List.sum_nil, hinput, htypes]
      omega
  | «end» session exit =>
      simp only [validate, bind_eq_ok, ensure_eq_ok, forEach_eq_ok] at h
      obtain ⟨-, -, hposition⟩ := h
      have h₁ := size_nat_le (n := session) (k := 20) (by decide) (ht.1.trans (by decide))
      cases exit with
      | none =>
          rw [serialize, size_object (List.cons_ne_nil _ _)]
          simp only [List.map_cons, List.map_nil, List.sum_cons, List.sum_nil, hend, htypes]
          omega
      | some exit =>
          have h₂ :=
            EdgePosition.size_le hfloat (ht.2 exit rfl) (hposition exit (List.mem_singleton_self _))
          rw [serialize, size_object (List.cons_ne_nil _ _)]
          simp only [List.map_cons, List.map_nil, List.sum_cons, List.sum_nil, hexit, htypes]
          omega
  | ping nonce | pong nonce =>
      have h₁ := size_nat_le (n := nonce) (k := 20) (by decide) (ht.trans (by decide))
      rw [serialize, size_object (List.cons_ne_nil _ _)]
      simp only [List.map_cons, List.map_nil, List.sum_cons, List.sum_nil, hping, htypes]
      omega
  | lockState locked =>
      have h₁ := size_bool_le locked
      rw [serialize, size_object (List.cons_ne_nil _ _)]
      simp only [List.map_cons, List.map_nil, List.sum_cons, List.sum_nil, hlock, htypes]
      omega

end Floats

end NiriBridge
