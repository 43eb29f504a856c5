import Mathlib.Data.List.Infix
import Mathlib.Tactic.SplitIfs

/-!
# Support — Words

Texts taken apart as Python does it: at the first occurrence of a separator (`str.partition`), and
into the words of a shell command (`shlex.split`, POSIX rules).  A text is the list of its
characters.

`partition_lead` and `split_lead` are the inverses on what is written as plain words with one blank
before each.
-/

namespace Words

/-- A text. -/
abbrev Text := List Char

/-- The letters and digits of ASCII, by their codes. -/
theorem isAlphanum_iff {c : Char} : c.isAlphanum = true ↔
    ((65 ≤ c.val.toNat ∧ c.val.toNat ≤ 90) ∨ (97 ≤ c.val.toNat ∧ c.val.toNat ≤ 122)) ∨
      (48 ≤ c.val.toNat ∧ c.val.toNat ≤ 57) := by
  change ((decide (c.val ≥ 'A'.val ∧ c.val ≤ 'Z'.val) ||
    (decide (c.val ≥ 'a'.val) && decide (c.val ≤ 'z'.val))) ||
    (decide (c.val ≥ '0'.val) && decide (c.val ≤ '9'.val))) = true ↔ _
  simp only [Bool.or_eq_true, Bool.and_eq_true, decide_eq_true_eq, ge_iff_le,
    UInt32.le_iff_toNat_le]
  rfl

/-- The text before the first occurrence of `sep`, and the text after it. -/
def partition (sep : Text) : Text → Option (Text × Text)
  | [] => if sep = [] then some ([], []) else none
  | c :: cs =>
      if sep <+: c :: cs then some ([], (c :: cs).drop sep.length)
      else (partition sep cs).map fun p => (c :: p.1, p.2)

/-- What the scanner is in the middle of: nothing, a word, a quotation, or an escape outside or
inside of one. -/
inductive Mode where
  | blank
  | word
  | quoted (quote : Char)
  | escape (quote : Option Char)

/-- What separates words. -/
def isBlank (c : Char) : Bool := c == ' ' || c == '\t' || c == '\r' || c == '\n'

/-- What quotes a word. -/
def isQuote (c : Char) : Bool := c == '\'' || c == '"'

/-- The words of the text, after the word read so far. -/
def scan : Mode → Text → Text → Option (List Text)
  | .blank, _, [] => some []
  | .word, word, [] => some [word]
  | .quoted _, _, [] | .escape _, _, [] => none
  | .blank, _, c :: cs =>
      if isBlank c then scan .blank [] cs
      else if c = '\\' then scan (.escape none) [] cs
      else if isQuote c then scan (.quoted c) [] cs
      else scan .word [c] cs
  | .word, word, c :: cs =>
      if isBlank c then (scan .blank [] cs).map (word :: ·)
      else if c = '\\' then scan (.escape none) word cs
      else if isQuote c then scan (.quoted c) word cs
      else scan .word (word ++ [c]) cs
  | .quoted quote, word, c :: cs =>
      if c = quote then scan .word word cs
      else if c = '\\' ∧ quote = '"' then scan (.escape (some quote)) word cs
      else scan (.quoted quote) (word ++ [c]) cs
  | .escape none, word, c :: cs => scan .word (word ++ [c]) cs
  | .escape (some quote), word, c :: cs =>
      if c = '\\' ∨ c = quote then scan (.quoted quote) (word ++ [c]) cs
      else scan (.quoted quote) (word ++ ['\\', c]) cs

/-- `shlex.split`. -/
def split (text : Text) : Option (List Text) := scan .blank [] text

/-! ### Plain words -/

/-- A character that means nothing to the scanner. -/
def isPlain (c : Char) : Bool := !isBlank c && c != '\\' && !isQuote c

/-- A word that is spelled without quotes. -/
structure Plain (word : Text) : Prop where
  nonempty : word ≠ []
  plain : ∀ c ∈ word, isPlain c = true

/-- The words, with a blank before each. -/
def lead (words : List Text) : Text := words.flatMap (' ' :: ·)

@[simp] theorem lead_nil : lead [] = [] := rfl

@[simp] theorem lead_cons (word : Text) (words : List Text) :
    lead (word :: words) = ' ' :: (word ++ lead words) := rfl

theorem isPlain_iff {c : Char} :
    isPlain c = true ↔ isBlank c = false ∧ c ≠ '\\' ∧ isQuote c = false := by
  simp [isPlain, and_assoc]

theorem ne_blank_of_isPlain {c : Char} (h : isPlain c = true) : c ≠ ' ' := by
  rintro rfl
  cases h

/-- Plain characters are read into the word. -/
theorem scan_word {word : Text} (h : ∀ c ∈ word, isPlain c = true) (done rest : Text) :
    scan .word done (word ++ rest) = scan .word (done ++ word) rest := by
  induction word generalizing done with
  | nil => rw [List.nil_append, List.append_nil]
  | cons c cs ih =>
      rw [List.forall_mem_cons] at h
      obtain ⟨hblank, hescape, hquote⟩ := isPlain_iff.mp h.1
      rw [List.cons_append, scan, if_neg (by simp [hblank]), if_neg hescape,
        if_neg (by simp [hquote]), ih h.2, List.append_assoc, List.singleton_append]

/-- A plain word and what follows it. -/
theorem scan_plain {word : Text} (h : Plain word) (rest : Text) :
    scan .blank [] (word ++ rest) = scan .word word rest := by
  obtain ⟨hnonempty, hplain⟩ := h
  cases word with
  | nil => exact absurd rfl hnonempty
  | cons c cs =>
      rw [List.forall_mem_cons] at hplain
      obtain ⟨hblank, hescape, hquote⟩ := isPlain_iff.mp hplain.1
      rw [List.cons_append, scan, if_neg (by simp [hblank]), if_neg hescape,
        if_neg (by simp [hquote]), scan_word hplain.2, List.singleton_append]

/-- Plain words are read back. -/
theorem scan_lead {words : List Text} (h : ∀ w ∈ words, Plain w) (word : Text) :
    scan .word word (lead words) = some (word :: words) := by
  induction words generalizing word with
  | nil => rfl
  | cons w words ih =>
      rw [List.forall_mem_cons] at h
      have hblank : isBlank ' ' = true := rfl
      rw [lead_cons, scan, if_pos hblank, scan_plain h.1, ih h.2, Option.map_some]

/-- Plain words are read back. -/
theorem split_lead {word : Text} {words : List Text} (h : ∀ w ∈ word :: words, Plain w) :
    split (word ++ lead words) = some (word :: words) := by
  rw [List.forall_mem_cons] at h
  rw [split, scan_plain h.1, scan_lead h.2]

/-! ### The first occurrence of a word -/

/-- The separator that a word is between other words. -/
def between (word : Text) : Text := ' ' :: (word ++ [' '])

/-- A separator at the beginning is found there. -/
theorem partition_found (sep rest : Text) (h : sep ≠ []) :
    partition sep (sep ++ rest) = some ([], rest) := by
  cases sep with
  | nil => exact absurd rfl h
  | cons c cs =>
      rw [List.cons_append, partition, if_pos ⟨rest, rfl⟩, ← List.cons_append, List.drop_left]

/-- A separator does not begin with another character. -/
theorem partition_cons_of_ne {sep : Text} {c d : Char} (h : c ≠ d) (rest : Text) :
    partition (d :: sep)
    (c :: rest) = (partition (d :: sep) rest).map fun p => (c :: p.1, p.2) := by
  rw [partition, if_neg]
  rintro ⟨t, ht⟩
  exact h (List.cons.inj ht).1.symm

/-- A plain word has no blank, so no separator starts in it. -/
theorem partition_word {word : Text} (h : ∀ c ∈ word, isPlain c = true) (key rest : Text) :
    partition (between key)
    (word ++ rest) = (partition (between key) rest).map fun p => (word ++ p.1, p.2) := by
  induction word with
  | nil => simp
  | cons c cs ih =>
      rw [List.forall_mem_cons] at h
      rw [List.cons_append, between, partition_cons_of_ne (ne_blank_of_isPlain h.1),
        ← between, ih h.2, Option.map_map]
      rfl

/-- Two plain words before blanks are the same if one text starts with the other. -/
theorem eq_of_front {v w rest : Text} (hv : ∀ c ∈ v, isPlain c = true)
    (hw : ∀ c ∈ w, isPlain c = true) (hrest : rest = [] ∨ ∃ t, rest = ' ' :: t)
    (h : v ++ [' '] <+: w ++ rest) : v = w := by
  obtain ⟨t, ht⟩ := h
  induction v generalizing w with
  | nil =>
      cases w with
      | nil => rfl
      | cons c cs =>
          have hc := (List.cons.inj ht).1
          exact absurd (hw c (List.mem_cons_self ..)) (by rw [← hc]; decide)
  | cons d ds ih =>
      rw [List.forall_mem_cons] at hv
      cases w with
      | nil =>
          rcases hrest with rfl | ⟨t', rfl⟩
          · cases ht
          · have hd := (List.cons.inj ht).1
            exact absurd hv.1 (by rw [hd]; decide)
      | cons c cs =>
          obtain ⟨rfl, hcs⟩ := List.cons.inj ht
          rw [List.forall_mem_cons] at hw
          rw [ih hv.2 hw.2 hcs]

/-- The separator is not before the words that are not the key. -/
theorem partition_lead {key : Text} (hkey : Plain key) {words : List Text}
    (h : ∀ w ∈ words, Plain w) (hne : ∀ w ∈ words, w ≠ key) {rest : Text}
    (hrest : rest = [] ∨ ∃ t, rest = ' ' :: t) :
    partition (between key) (lead words ++ rest) =
      (partition (between key) rest).map fun p => (lead words ++ p.1, p.2) := by
  induction words with
  | nil => simp
  | cons w words ih =>
      rw [List.forall_mem_cons] at h hne
      have hblank : lead words ++ rest = [] ∨ ∃ t, lead words ++ rest = ' ' :: t := by
        cases words with
        | nil => exact hrest
        | cons v words => exact .inr ⟨_, rfl⟩
      have hnone : ¬ between key <+: ' ' :: (w ++ (lead words ++ rest)) := by
        intro hprefix
        have hkeyprefix := (List.cons_prefix_cons.mp hprefix).2
        exact hne.1 (eq_of_front hkey.plain h.1.plain hblank hkeyprefix).symm
      rw [lead_cons, List.cons_append, List.append_assoc, partition, if_neg hnone,
        partition_word h.1.plain, ih h.2 hne.2, Option.map_map, Option.map_map]
      congr 1
      funext p
      simp [List.append_assoc]

end Words
