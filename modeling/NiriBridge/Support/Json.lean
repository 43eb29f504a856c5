import Mathlib.Algebra.BigOperators.Group.List.Basic
import Mathlib.Algebra.Group.Action.Defs
import Mathlib.Algebra.Order.BigOperators.Group.List
import Mathlib.Algebra.Order.Ring.Nat
import Mathlib.Data.Bool.AllAny
import Mathlib.Tactic.SplitIfs

/-!
# Support — Json

JSON as it is written without blanks: a value is its text, and `size` is how many bytes of UTF-8 a
text takes.  Numbers that are not integers, and the way a map orders its keys, are left to the
caller.

Sizes add up: `size_array_le` and `size_object` bound a value by its parts, `size_string_le` a
string by its own bytes.
-/

namespace Json

/-- A text. -/
abbrev Text := List Char

/-- The bytes of a text in UTF-8. -/
def utf8 (text : Text) : List UInt8 := text.flatMap String.utf8EncodeChar

/-- The length of a text in UTF-8. -/
def size (text : Text) : ℕ := (text.map Char.utf8Size).sum

@[simp] theorem length_utf8 (text : Text) : (utf8 text).length = size text := by
  simp only [utf8, size, List.length_flatMap, String.length_utf8EncodeChar]

@[simp] theorem size_nil : size [] = 0 := rfl

@[simp] theorem size_cons (c : Char) (text : Text) : size (c :: text) = c.utf8Size + size text :=
  List.sum_cons

@[simp] theorem size_append (text text' : Text) :
    size (text ++ text') = size text + size text' := by
  simp only [size, List.map_append, List.sum_append]

theorem size_toList (s : String) : size s.toList = s.utf8ByteSize := by
  rw [← String.size_toByteArray, ← String.utf8Encode_toList, ← length_utf8]
  simp [utf8, List.utf8Encode]

/-! ### Values -/

/-- A digit of base 16. -/
def hexDigit (n : ℕ) : Char := if n < 10 then Char.ofNat (48 + n) else Char.ofNat (87 + n)

/-- A character in a string. -/
def escape (c : Char) : Text :=
  if c = '"' then ['\\', '"']
  else if c = '\\' then ['\\', '\\']
  else if c.toNat < 32 then
    if c.toNat = 8 then ['\\', 'b']
    else if c.toNat = 9 then ['\\', 't']
    else if c.toNat = 10 then ['\\', 'n']
    else if c.toNat = 12 then ['\\', 'f']
    else if c.toNat = 13 then ['\\', 'r']
    else ['\\', 'u', '0', '0', hexDigit (c.toNat / 16), hexDigit (c.toNat % 16)]
  else [c]

/-- A string. -/
def string (s : String) : Text := '"' :: (s.toList.flatMap escape ++ ['"'])

/-- No value. -/
def null : Text := "null".toList

/-- A boolean. -/
def bool (b : Bool) : Text := if b then "true".toList else "false".toList

/-- A natural number. -/
def nat (n : ℕ) : Text := Nat.toDigits 10 n

/-- An integer. -/
def int (n : ℤ) : Text := if n < 0 then '-' :: nat n.natAbs else nat n.natAbs

/-- Texts with a comma between each and the next. -/
def commas : List Text → Text
  | [] => []
  | [text] => text
  | text :: texts => text ++ ',' :: commas texts

/-- An array of values. -/
def array (values : List Text) : Text := '[' :: (commas values ++ [']'])

/-- A member of an object. -/
def member (key : String) (value : Text) : Text := string key ++ ':' :: value

/-- An object of members. -/
def object (members : List (String × Text)) : Text :=
  '\x7b' :: (commas (members.map fun m => member m.1 m.2) ++ ['\x7d'])

/-- An optional value, `null` where there is none. -/
def optional {α : Type} (f : α → Text) : Option α → Text
  | none => null
  | some a => f a

/-! ### Sizes -/

theorem size_hexDigit (n : ℕ) (h : n < 16) : (hexDigit n).utf8Size = 1 := by
  revert n
  decide

/-- A character takes at most six times its length. -/
theorem size_escape_le (c : Char) : size (escape c) ≤ 6 * c.utf8Size := by
  have hc := Char.utf8Size_pos c
  by_cases hlow : c.toNat < 32
  · have hhigh := size_hexDigit (c.toNat / 16) (by omega)
    have hrest := size_hexDigit (c.toNat % 16) (by omega)
    have hsizes : ∀ d ∈ ['\\', '"', 'b', 't', 'n', 'f', 'r', 'u', '0'], Char.utf8Size d = 1 :=
      List.all_iff_forall_prop.mp (by decide)
    simp only [List.forall_mem_cons] at hsizes
    unfold escape
    split_ifs <;> simp only [size_cons, size_nil, hsizes, hhigh, hrest] <;> omega
  · have hsizes : Char.utf8Size '\\' = 1 ∧ Char.utf8Size '"' = 1 := by decide
    unfold escape
    split_ifs <;> simp only [size_cons, size_nil, hsizes] <;> omega

/-- A character that is not a control character takes at most twice its size. -/
theorem size_escape_le_of_not_control {c : Char} (h : 32 ≤ c.toNat) :
    size (escape c) ≤ 2 * c.utf8Size := by
  have hc := Char.utf8Size_pos c
  have hsizes : Char.utf8Size '\\' = 1 ∧ Char.utf8Size '"' = 1 := by decide
  unfold escape
  split_ifs <;> simp only [size_cons, size_nil, hsizes] <;> omega

/-- A plain character stands for itself. -/
theorem escape_of_plain {c : Char} (h : 32 ≤ c.toNat) (hquote : c ≠ '"') (hslash : c ≠ '\\') :
    escape c = [c] := by
  rw [escape, if_neg hquote, if_neg hslash, if_neg (by omega)]

/-- A text whose characters grow by a factor grows by it. -/
theorem size_flatMap_le {f : Char → Text} {k : ℕ} {text : Text}
    (h : ∀ c ∈ text, size (f c) ≤ k * c.utf8Size) : size (text.flatMap f) ≤ k * size text := by
  induction text with
  | nil => simp
  | cons c text ih =>
      rw [List.forall_mem_cons] at h
      rw [List.flatMap_cons, size_append, size_cons, Nat.mul_add]
      exact Nat.add_le_add h.1 (ih h.2)

/-- The length of a string whose characters grow by a factor. -/
theorem size_string_le {s : String} {k : ℕ} (h : ∀ c ∈ s.toList, size (escape c) ≤ k * c.utf8Size) :
    size (string s) ≤ k * s.utf8ByteSize + 2 := by
  have hquote : Char.utf8Size '"' = 1 := by decide
  have hbody := size_flatMap_le h
  rw [size_toList] at hbody
  simp only [string, size_cons, size_append, size_nil, hquote]
  omega

/-- A string with nothing to escape. -/
theorem size_string_of_plain {s : String} (h : ∀ c ∈ s.toList, escape c = [c]) :
    size (string s) = s.utf8ByteSize + 2 := by
  have hquote : Char.utf8Size '"' = 1 := by decide
  have hsame : s.toList.flatMap escape = s.toList := by
    rw [List.flatMap_congr h, List.flatMap_singleton']
  simp only [string, hsame, size_cons, size_append, size_nil, hquote, size_toList]
  omega

theorem utf8Size_of_isDigit {c : Char} (h : c.isDigit = true) : c.utf8Size = 1 := by
  rw [Char.utf8Size_eq_one_iff]
  simp only [Char.isDigit, Bool.and_eq_true, decide_eq_true_eq] at h
  exact UInt32.le_trans h.2 (by decide)

/-- A number takes as many bytes as it has digits. -/
theorem size_nat_le {n k : ℕ} (hk : 0 < k) (h : n < 10 ^ k) : size (nat n) ≤ k := by
  have hsizes : (nat n).map Char.utf8Size = List.replicate (nat n).length 1 := by
    refine List.eq_replicate_iff.mpr ⟨List.length_map _, fun size hsize => ?_⟩
    obtain ⟨c, hc, rfl⟩ := List.mem_map.mp hsize
    exact utf8Size_of_isDigit (Nat.isDigit_of_mem_toDigits (by decide) (by decide) hc)
  have hsize : size (nat n) = (nat n).length := by
    rw [size, hsizes, List.sum_replicate_nat, Nat.mul_one]
  rw [hsize]
  exact (Nat.length_toDigits_le_iff (by decide) hk).mpr h

/-- An integer takes one byte more. -/
theorem size_int_le {n : ℤ} {k : ℕ} (hk : 0 < k) (h : n.natAbs < 10 ^ k) :
    size (int n) ≤ k + 1 := by
  have hnat := size_nat_le hk h
  have hminus : Char.utf8Size '-' = 1 := by decide
  unfold int
  split_ifs
  · rw [size_cons, hminus]
    omega
  · omega

theorem size_bool_le (b : Bool) : size (bool b) ≤ 5 := by
  cases b <;> decide

/-- Every text but the last is followed by a comma. -/
theorem size_commas (texts : List Text) (h : texts ≠ []) :
    size (commas texts) + 1 = (texts.map fun text => size text + 1).sum := by
  have hcomma : Char.utf8Size ',' = 1 := by decide
  induction texts with
  | nil => exact absurd rfl h
  | cons text texts ih =>
      cases texts with
      | nil => simp [commas]
      | cons text' texts =>
          rw [commas, size_append, size_cons, hcomma, List.map_cons, List.sum_cons,
            ← ih (List.cons_ne_nil _ _)]
          · omega
          · exact List.cons_ne_nil _ _

/-- The length of an array of values that are not too long. -/
theorem size_array_le (values : List Text) {n : ℕ} (h : ∀ value ∈ values, size value ≤ n) :
    size (array values) ≤ values.length * (n + 1) + 2 := by
  have hbrackets : Char.utf8Size '[' = 1 ∧ Char.utf8Size ']' = 1 := by decide
  have hcommas : size (commas values) ≤ values.length * (n + 1) := by
    by_cases hne : values = []
    · subst hne
      exact Nat.zero_le _
    · have hsum : (values.map fun value => size value + 1).sum ≤ values.length * (n + 1) := by
        refine (List.sum_le_card_nsmul _ (n + 1) ?_).trans ?_
        · rw [List.forall_mem_map]
          exact fun value hv => Nat.succ_le_succ (h value hv)
        · rw [List.length_map, smul_eq_mul]
      have := size_commas values hne
      omega
  simp only [array, size_cons, size_append, size_nil, hbrackets]
  omega

/-- What the keys of an object take, with the colons, commas and braces. -/
def frameSize (keys : List String) : ℕ := (keys.map fun key => size (string key) + 2).sum + 1

/-- The length of an object: that of its frame, and of its values. -/
theorem size_object {members : List (String × Text)} (h : members ≠ []) :
    size (object members) =
    frameSize (members.map Prod.fst) + (members.map fun m => size m.2).sum := by
  have hmarks : Char.utf8Size '\x7b' = 1 ∧ Char.utf8Size '\x7d' = 1 ∧
      Char.utf8Size ':' = 1 := by decide
  have hcommas := size_commas (members.map fun m => member m.1 m.2) (by simpa using h)
  have hsum : ((members.map fun m => member m.1 m.2).map fun text => size text + 1).sum =
      ((members.map Prod.fst).map fun key => size (string key) + 2).sum +
        (members.map fun m => size m.2).sum := by
    rw [List.map_map, List.map_map, ← List.sum_map_add]
    refine congrArg List.sum (List.map_congr_left fun m _ => ?_)
    simp only [Function.comp_apply, member, size_append, size_cons, hmarks]
    omega
  simp only [object, frameSize, size_cons, size_append, size_nil, hmarks]
  omega

/-- An object may also be a map, with keys of at most a given size. -/
theorem size_map_le (members : List (String × Text)) {n : ℕ}
    (h : ∀ m ∈ members, size (string m.1) + size m.2 ≤ n) :
    size (object members) ≤ members.length * (n + 2) + 2 := by
  by_cases hne : members = []
  · subst hne
    have hempty : size (object []) = 2 := by decide
    rw [hempty]
    omega
  · rw [size_object hne, frameSize, List.map_map]
    have hsum : (members.map fun m => size (string m.1) + 2 + size m.2).sum ≤
        members.length * (n + 2) := by
      refine (List.sum_le_card_nsmul _ (n + 2) ?_).trans ?_
      · rw [List.forall_mem_map]
        intro m hm
        have := h m hm
        omega
      · rw [List.length_map, smul_eq_mul]
    rw [List.sum_map_add] at hsum
    simp only [Function.comp_def]
    omega

end Json
