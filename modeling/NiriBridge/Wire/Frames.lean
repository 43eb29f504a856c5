import NiriBridge.Wire.Sizes

/-!
# Wire — Frames

What `write_frame` writes, `read_frame` reads, one message after another and however the bytes are
fragmented on their way.

Every string of a message has a bound but one: `LayoutMessage::validate` does not look at the
revision in the result of a layout save.  `Message.Fits` is what it would have to say for the frame
not to be too large.
-/

namespace NiriBridge

open Json Fragments

/-- The result of a layout save leaves room for the other 114 bytes of its frame. -/
def Message.Fits : Message → Prop
  | layout (.result _ ok revision error) =>
      size (bool ok) + size (Json.optional string revision) + size (Json.optional string error) ≤
        MAX_FRAME_BYTES - 114
  | _ => True

/-- `write_frame` for one message after another. -/
def writeFrames (S : Serde) : Bytes → List Message → Result Bytes
  | writer, [] => .ok writer
  | writer, message :: messages => do
      let writer ← writeFrame S writer message
      writeFrames S writer messages

/-- `read_frame` returns these messages one after another, and then the stream is at its end. -/
def Delivers (S : Serde) : List Message → List Bytes → Prop
  | [], reader => readFrame S reader = .error [unexpectedEndOfFile]
  | message :: messages, reader =>
      ∃ left, readFrame S reader = .ok (message, left) ∧ Delivers S messages left

section Frames
variable {S : Serde} {m : Message}

theorem Message.size_pos (float : ℚ → Text) (m : Message) : 0 < size (m.serialize float) := by
  have hobject : ∀ members, 0 < size (object members) := fun members =>
    Nat.add_pos_left (Char.utf8Size_pos _) _
  cases m with
  | «end» session exit => cases exit <;> exact hobject _
  | _ => exact hobject _

/-- A message with its length in front. -/
def frame (S : Serde) (m : Message) : Bytes := beBytes 4 (S.toVec m).length ++ S.toVec m

/-- A valid message is written exactly when it is not too large. -/
theorem writeFrame_eq_ok {writer bytes : Bytes} (h : m.validate = .ok ()) :
    writeFrame S writer m = .ok bytes ↔
      size (m.serialize S.float) ≤ MAX_FRAME_BYTES ∧ bytes = writer ++ frame S m := by
  have hlength : (S.toVec m).length = size (m.serialize S.float) := length_utf8 _
  rw [writeFrame, h]
  simp only [bind_eq_ok, ensure_eq_ok, hlength, exists_const, Except.ok.injEq, pure,
    Except.pure, frame, eq_comm (a := bytes)]
  tauto

/-- A frame at the front of the stream is read, and the rest is left. -/
theorem readFrame_frame (h : m.validate = .ok ())
    (hsize : size (m.serialize S.float) ≤ MAX_FRAME_BYTES)
    (hserde : S.fromSlice (S.toVec m) = some m) {reader : List Bytes} (hsolid : Solid reader)
    {rest : Bytes} (heq : reader.flatten = frame S m ++ rest) :
    ∃ left, readFrame S reader = .ok (m, left) ∧ Solid left ∧ left.flatten = rest := by
  have hlength : (S.toVec m).length = size (m.serialize S.float) := length_utf8 _
  have hmax : MAX_FRAME_BYTES = 65536 := rfl
  have hpos := Message.size_pos S.float m
  have hvalue : beValue (beBytes 4 (S.toVec m).length) = (S.toVec m).length :=
    beValue_beBytes (by omega)
  rw [frame, List.append_assoc] at heq
  obtain ⟨body, hhead, hbody, hflat⟩ := readExact_eq_some hsolid heq
  obtain ⟨left, htail, hleft, hrest⟩ := readExact_eq_some hbody hflat
  rw [length_beBytes] at hhead
  refine ⟨left, ?_, hleft, hrest⟩
  simp only [readFrame, bind_eq_ok, orError_eq_ok, ensure_eq_ok]
  have hbound : 0 < beValue (beBytes 4 (S.toVec m).length) ∧
      beValue (beBytes 4 (S.toVec m).length) ≤ MAX_FRAME_BYTES := by
    rw [hvalue, hlength]
    exact ⟨hpos, hsize⟩
  rw [← hvalue] at htail
  exact ⟨_, hhead, (), hbound, _, htail, m, hserde, (), h, rfl⟩

/-- A validated message fits a frame exactly when its revision does. -/
theorem Message.size_le_iff (hfloat : ∀ q, IsF64 q → size (S.float q) ≤ 24) (ht : m.Typed)
    (h : m.validate = .ok ()) : size (m.serialize S.float) ≤ MAX_FRAME_BYTES ↔ m.Fits := by
  have hmax : MAX_FRAME_BYTES = 65536 := rfl
  by_cases hresult : ∃ id ok revision error, m = .layout (.result id ok revision error)
  · obtain ⟨id, ok, revision, error, rfl⟩ := hresult
    rw [result_size S.float h, Message.Fits]
    omega
  · have hother : ∀ id ok revision error, m ≠ .layout (.result id ok revision error) :=
      fun id ok revision error heq => hresult ⟨id, ok, revision, error, heq⟩
    have hfits : m.Fits := by
      unfold Message.Fits
      split
      · exact absurd rfl (hother _ _ _ _)
      · trivial
    exact iff_of_true (Message.size_le hfloat ht h hother) hfits

/-- Valid messages are written exactly when none is too large. -/
theorem writeFrames_eq_ok {messages : List Message} (h : ∀ m ∈ messages, m.validate = .ok ())
    {writer bytes : Bytes} : writeFrames S writer messages = .ok bytes ↔
      (∀ m ∈ messages, size (m.serialize S.float) ≤ MAX_FRAME_BYTES) ∧
        bytes = writer ++ messages.flatMap (frame S) := by
  induction messages generalizing writer with
  | nil => simp [writeFrames, eq_comm]
  | cons m messages ih =>
      rw [List.forall_mem_cons] at h ⊢
      simp only [writeFrames, bind_eq_ok, writeFrame_eq_ok h.1, ih h.2, List.flatMap_cons]
      constructor
      · rintro ⟨_, ⟨hsize, rfl⟩, hsizes, rfl⟩
        exact ⟨⟨hsize, hsizes⟩, List.append_assoc ..⟩
      · rintro ⟨⟨hsize, hsizes⟩, rfl⟩
        exact ⟨_, ⟨hsize, rfl⟩, hsizes, (List.append_assoc ..).symm⟩

/-- Frames in any fragments are read back as their messages. -/
theorem delivers_frames {messages : List Message} (h : ∀ m ∈ messages, m.validate = .ok ())
    (hsize : ∀ m ∈ messages, size (m.serialize S.float) ≤ MAX_FRAME_BYTES)
    (hserde : ∀ m ∈ messages, S.fromSlice (S.toVec m) = some m) {fragments : List Bytes}
    (hsolid : Solid fragments) (heq : fragments.flatten = messages.flatMap (frame S)) :
    Delivers S messages fragments := by
  induction messages generalizing fragments with
  | nil =>
      have hnone : fragments = [] := by
        cases fragments with
        | nil => rfl
        | cons fragment fragments =>
            exact absurd (List.flatten_eq_nil_iff.mp heq fragment (List.mem_cons_self ..))
              (hsolid fragment (List.mem_cons_self ..))
      subst hnone
      rfl
  | cons m messages ih =>
      rw [List.forall_mem_cons] at h hsize hserde
      obtain ⟨left, hread, hleft, hrest⟩ := readFrame_frame h.1 hsize.1 hserde.1 hsolid heq
      exact ⟨left, hread, ih h.2 hsize.2 hserde.2 hleft hrest⟩

end Frames

/-- **What is written is read.**

Validated messages whose values are those of the source's types, and which `serde_json` reads back,
are written one after another and read in that order from any fragments of the bytes, up to the end
of the stream, if and only if the result of each layout save among them leaves room for the rest of
its frame. -/
theorem frames_round_trip_iff {S : Serde} (hfloat : ∀ q, IsF64 q → size (S.float q) ≤ 24)
    {messages : List Message} (ht : ∀ m ∈ messages, m.Typed)
    (h : ∀ m ∈ messages, m.validate = .ok ())
    (hserde : ∀ m ∈ messages, S.fromSlice (S.toVec m) = some m) :
    (∃ bytes, writeFrames S [] messages = .ok bytes ∧
      ∀ fragments, Solid fragments → fragments.flatten = bytes → Delivers S messages fragments) ↔
      ∀ m ∈ messages, m.Fits := by
  have hfits : (∀ m ∈ messages, size (m.serialize S.float) ≤ MAX_FRAME_BYTES) ↔
      ∀ m ∈ messages, m.Fits :=
    forall₂_congr fun m hm => Message.size_le_iff hfloat (ht m hm) (h m hm)
  rw [← hfits]
  constructor
  · rintro ⟨bytes, hbytes, -⟩
    exact ((writeFrames_eq_ok h).mp hbytes).1
  · intro hsize
    refine ⟨_, (writeFrames_eq_ok h).mpr ⟨hsize, rfl⟩, fun fragments hsolid heq => ?_⟩
    exact delivers_frames h hsize hserde hsolid heq

section Sample

/-- The result of a layout save with a revision of `n` letters. -/
def sampleResult (n : ℕ) : Message :=
  .layout
    (.result "0123456789abcdef0123456789abcdef" true
      (some (String.ofList (List.replicate n 'a'))) none)

theorem sampleResult_validate (n : ℕ) : (sampleResult n).validate = .ok () := by
  have hid : "0123456789abcdef0123456789abcdef".utf8ByteSize = 32 ∧
      "0123456789abcdef0123456789abcdef".toList.all LayoutMessage.isHexdigit = true := by
    decide
  simp only [sampleResult, Message.validate, LayoutMessage.validate, bind_eq_ok, ensure_eq_ok]
  exact ⟨(), rfl, hid⟩

/-- A result fits as long as its texts are not longer than this. -/
theorem sampleResult_fits (n : ℕ) : (sampleResult n).Fits ↔ n ≤ 65412 := by
  have hplain : ∀ c ∈ (String.ofList (List.replicate n 'a')).toList, escape c = [c] := by
    intro c hc
    rw [String.toList_ofList] at hc
    obtain rfl := List.eq_of_mem_replicate hc
    decide
  have hsize : (String.ofList (List.replicate n 'a')).utf8ByteSize = n := by
    have hone : Char.utf8Size 'a' = 1 := by decide
    rw [← size_toList, String.toList_ofList, size, List.map_replicate, hone,
      List.sum_replicate_nat, mul_one]
  have hbool : size (bool true) = 4 := by decide
  have hnull : size null = 4 := by decide
  have hmax : MAX_FRAME_BYTES = 65536 := rfl
  simp only [sampleResult, Message.Fits, Json.optional, size_string_of_plain hplain,
    hsize, hbool, hnull]
  omega

/-- `serde_json`, for the result with a short revision and for a session that begins in the middle
of an edge. -/
def sampleSerde (n : ℕ) : Serde where
  float _ := "0.5".toList
  fromSlice bytes :=
    if bytes.length < 100 then some (.begin 1 ⟨"default", 1 / 2⟩) else some (sampleResult n)

theorem sampleSerde_result
    (n : ℕ) : (sampleSerde n).fromSlice ((sampleSerde n).toVec (sampleResult n)) =
    some (sampleResult n) := by
  have hsize := result_size (sampleSerde n).float (sampleResult_validate n)
  have hlength : ((sampleSerde n).toVec (sampleResult n)).length =
      size ((sampleResult n).serialize (sampleSerde n).float) := length_utf8 _
  rw [← sampleResult] at hsize
  exact if_neg (by omega)

theorem sampleSerde_float (n : ℕ) (q : ℚ) (_ : IsF64 q) : size ((sampleSerde n).float q) ≤ 24 := by
  have hsize : size "0.5".toList ≤ 24 := by decide
  exact hsize

/-- A validated message is not written. -/
theorem long_revision_too_large : ¬ ∀ (S : Serde), (∀ q, IsF64 q → size (S.float q) ≤ 24) →
    ∀ messages : List Message, (∀ m ∈ messages, m.Typed) → (∀ m ∈ messages, m.validate = .ok ()) →
      (∀ m ∈ messages, S.fromSlice (S.toVec m) = some m) →
        ∃ bytes, writeFrames S [] messages = .ok bytes ∧
          ∀ fragments, Solid fragments → fragments.flatten = bytes →
          Delivers S messages fragments := by
  intro hall
  obtain ⟨bytes, hbytes, -⟩ :=
    hall (sampleSerde 65536) (sampleSerde_float 65536) [sampleResult 65536]
    (List.forall_mem_singleton.mpr trivial)
      (List.forall_mem_singleton.mpr (sampleResult_validate 65536))
    (List.forall_mem_singleton.mpr (sampleSerde_result 65536))
  have hsize :=
    ((writeFrames_eq_ok (List.forall_mem_singleton.mpr (sampleResult_validate 65536))).mp hbytes).1
  have hfits := (Message.size_le_iff (m := sampleResult 65536) (sampleSerde_float 65536) trivial
    (sampleResult_validate 65536)).mp (hsize _ (List.mem_singleton_self _))
  exact absurd ((sampleResult_fits 65536).mp hfits) (by decide)

/-- Two messages arrive byte by byte. -/
theorem frames_round_trip_bytewise : ∃ bytes,
    writeFrames (sampleSerde 64) [] [.begin 1 ⟨"default", 1 / 2⟩, sampleResult 64] = .ok bytes ∧
      Delivers (sampleSerde 64) [.begin 1 ⟨"default", 1 / 2⟩, sampleResult 64]
      (bytes.map fun byte => [byte]) := by
  have hhalf : IsF64 (1 / 2) := ⟨1, -1, by norm_num, by norm_num, by norm_num, by norm_num⟩
  have hbegin : (Message.begin 1 ⟨"default", 1 / 2⟩).validate = .ok () := by decide +kernel
  have hread : (sampleSerde 64).fromSlice ((sampleSerde 64).toVec (.begin 1 ⟨"default", 1 / 2⟩)) =
      some (.begin 1 ⟨"default", 1 / 2⟩) := by
    rfl
  have hboth : ∀ {P : Message → Prop}, P (.begin 1 ⟨"default", 1 / 2⟩) → P (sampleResult 64) →
      ∀ m ∈ [Message.begin 1 ⟨"default", 1 / 2⟩, sampleResult 64], P m := fun h h' =>
    List.forall_mem_cons.mpr ⟨h, List.forall_mem_singleton.mpr h'⟩
  obtain ⟨bytes, hbytes, hdelivers⟩ := (frames_round_trip_iff (sampleSerde_float 64)
    (hboth ⟨by norm_num, hhalf⟩ trivial) (hboth hbegin (sampleResult_validate 64))
    (hboth hread (sampleSerde_result 64))).mpr
    (hboth trivial ((sampleResult_fits 64).mpr (by norm_num)))
  refine ⟨bytes, hbytes, hdelivers _ ?_ ?_⟩
  · exact List.forall_mem_map.mpr fun byte _ => List.cons_ne_nil _ _
  · rw [← List.flatMap_def, List.flatMap_singleton']

end Sample

end NiriBridge
