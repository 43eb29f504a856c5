import NiriBridge.Model.Firewall
import Mathlib.Data.Bool.AllAny

/-!
# Firewall — Listing

What `parse_firewall_rule` reads of the rules that UFW lists.  A rule between two hosts is read back
with its scope and its action, whatever its comment is (`exists_read`), and the script's own rules
with their tags (`lines_toolRule`), unless the interface is called `comment`, which is taken for the
word before a comment.
-/

namespace NiriBridge.Firewall

open Words

/-- A word that has no line break either. -/
structure Solid (word : Text) : Prop extends Plain word where
  unbroken : ∀ c ∈ word, isLineBreak c = false

/-- A rule as UFW keeps it. -/
structure LanRule.Normal (rule : LanRule) : Prop where
  action : rule.action ∈ actions
  interface : rule.interface ≠ [] → Solid rule.interface
  log : rule.log = [] ∨ rule.log = "log".toList ∨ rule.log = "log-all".toList
  peer : (octets rule.peer).isSome
  own : (octets rule.own).isSome
  port : 1 ≤ rule.port

/-! ### Numbers and addresses -/

theorem digits_of_all {text : Text} (hne : text ≠ []) (h : text.all Char.isDigit) :
    digits text = some (Nat.ofDigitChars 10 text 0) := if_pos ⟨hne, h⟩

theorem showPort_digits (port : ℤ) : ∀ c ∈ showPort port, c.isDigit = true := fun _ hc =>
  Nat.isDigit_of_mem_toDigits (by decide) (by decide) hc

theorem showPort_ne_nil (port : ℤ) : showPort port ≠ [] := Nat.toDigits_ne_nil

/-- Digits without an underscore are one group. -/
theorem groupedDigits_of_all {text : Text} (hne : text ≠ []) (h : ∀ c ∈ text, c.isDigit = true) :
    groupedDigits text = some (Nat.ofDigitChars 10 text 0) := by
  have hund : '_' ∉ text := fun hmem => absurd (h '_' hmem) (by decide)
  have hall : text.all Char.isDigit := by simpa using h
  have hfilter : text.filter (· ≠ '_') = text := by
    refine List.filter_eq_self.mpr fun c hc => ?_
    simpa using fun heq : c = '_' => hund (heq ▸ hc)
  rw [groupedDigits, List.splitOn_eq_singleton hund, hfilter]
  simp [digits_of_all hne hall]

/-- Digits without a sign are a number. -/
theorem signedDigits_of_all {text : Text} (hne : text ≠ []) (h : ∀ c ∈ text, c.isDigit = true) :
    signedDigits text = some (Int.ofNat (Nat.ofDigitChars 10 text 0)) := by
  cases text with
  | nil => exact absurd rfl hne
  | cons c cs =>
      have hc := h c (List.mem_cons_self ..)
      unfold signedDigits
      split
      · rename_i heq
        exact absurd hc (by rw [(List.cons.inj heq).1]; decide)
      · rename_i heq
        exact absurd hc (by rw [(List.cons.inj heq).1]; decide)
      · rw [groupedDigits_of_all hne h, Option.map_some]

/-- A digit of ASCII is no blank, and stands for itself. -/
theorem asciiDigit_of_isDigit {c : Char} (h : c.isDigit = true) :
    isSpace c = false ∧ asciiDigit c = c := by
  obtain ⟨hlow, hhigh⟩ : 48 ≤ c.toNat ∧ c.toNat ≤ 57 := by
    simpa [Char.isDigit, UInt32.le_iff_toNat_le] using h
  constructor
  · simp [isSpace]
    omega
  · have hzero : zeros.find? (fun first => first ≤ c.toNat && c.toNat < first + 10) = some 0x30 :=
      List.find?_cons_of_pos (by simp; omega)
    rw [asciiDigit, hzero]
    show Char.ofNat (48 + (c.toNat - 48)) = c
    rw [Nat.add_sub_cancel' hlow, Char.ofNat_toNat]

/-- Digits are a number. -/
theorem parseInt_of_all {text : Text} (hne : text ≠ []) (h : ∀ c ∈ text, c.isDigit = true) :
    parseInt text = some (Int.ofNat (Nat.ofDigitChars 10 text 0)) := by
  have hspace : ∀ c ∈ text, ¬ isSpace c = true := fun c hc => by
    simp [(asciiDigit_of_isDigit (h c hc)).1]
  have hdrop : text.dropWhile isSpace = text :=
    List.dropWhile_eq_self_iff.mpr fun hlt => hspace _ (List.getElem_mem hlt)
  have hrdrop : text.rdropWhile isSpace = text :=
    List.rdropWhile_eq_self_iff.mpr fun hne => hspace _ (List.getLast_mem hne)
  have hmap : text.map asciiDigit = text :=
    (List.map_congr_left fun c hc => (asciiDigit_of_isDigit (h c hc)).2).trans (List.map_id text)
  rw [parseInt, hdrop, hrdrop, hmap, signedDigits_of_all hne h]

/-- A port is read back. -/
theorem parseInt_showPort {port : ℤ} (h : 1 ≤ port) : parseInt (showPort port) = some port := by
  rw [parseInt_of_all (showPort_ne_nil port) (showPort_digits port), showPort,
    Nat.ofDigitChars_toDigits (by decide) (by decide)]
  exact congrArg some (Int.toNat_of_nonneg (by omega))

/-- A character of a text is the separator, or in one of the parts. -/
theorem mem_splitOn (sep : Char) {c : Char} {text : Text} (h : c ∈ text) :
    c = sep ∨ ∃ part ∈ text.splitOn sep, c ∈ part := by
  induction text with
  | nil => cases h
  | cons d ds ih =>
      rw [List.splitOn_cons_eq_if_modifyHead]
      obtain ⟨part, parts, hparts⟩ := List.exists_cons_of_ne_nil (List.splitOn_ne_nil sep ds)
      rw [hparts] at ih ⊢
      split_ifs with hd
      · rcases List.mem_cons.mp h with rfl | hc
        · exact .inl (by simpa using hd)
        · exact (ih hc).imp_right fun ⟨p, hp, hcp⟩ => ⟨p, List.mem_cons_of_mem _ hp, hcp⟩
      · rw [List.modifyHead_cons]
        rcases List.mem_cons.mp h with rfl | hc
        · exact .inr ⟨_, List.mem_cons_self .., List.mem_cons_self ..⟩
        · rcases ih hc with hsep | ⟨p, hp, hcp⟩
          · exact .inl hsep
          · rcases List.mem_cons.mp hp with rfl | hp
            · exact .inr ⟨_, List.mem_cons_self .., List.mem_cons_of_mem _ hcp⟩
            · exact .inr ⟨p, List.mem_cons_of_mem _ hp, hcp⟩

/-- An address is made of digits and dots. -/
theorem mem_address {text : Text} (h : (octets text).isSome) {c : Char} (hc : c ∈ text) :
    c = '.' ∨ c.isDigit = true := by
  rcases mem_splitOn '.' hc with hsep | ⟨part, hpart, hcp⟩
  · exact .inl hsep
  · refine .inr ?_
    have hparts : ∀ p ∈ text.splitOn '.', (octet p).isSome := by
      simp only [octets] at h
      split_ifs at h with hall
      · simpa using hall.2
      · cases h
    obtain ⟨value, hvalue⟩ := Option.isSome_iff_exists.mp (hparts part hpart)
    obtain ⟨n, hn, -⟩ := Option.bind_eq_some_iff.mp hvalue
    unfold digits at hn
    split_ifs at hn with hdigits
    simpa using List.all_eq_true.mp hdigits.2 c hcp

/-- An address is the host it names. -/
theorem hostAddress_of_octets {text : Text} (h : (octets text).isSome) :
    hostAddress text = some text := by
  have hslash : '/' ∉ text := by
    intro hmem
    rcases mem_address h hmem with hc | hc
    · cases hc
    · cases hc
  obtain ⟨values, hvalues⟩ := Option.isSome_iff_exists.mp h
  rw [hostAddress, List.splitOn_eq_singleton hslash]
  simp [hvalues]

/-! ### The words of a rule -/

/-- The characters of the words have codes in between. -/
theorem plain_of_code {c : Char} (h : 45 ≤ c.toNat ∧ c.toNat ≤ 122) (hescape : c ≠ '\\') :
    isPlain c = true ∧ isLineBreak c = false := by
  have hne : ∀ d : Char, ¬ (45 ≤ d.toNat ∧ d.toNat ≤ 122) → c ≠ d := by
    rintro d hd rfl
    exact hd h
  constructor
  · simp [isPlain, isBlank, isQuote, hescape, hne ' ' (by decide), hne '\t' (by decide),
      hne '\r' (by decide), hne '\n' (by decide), hne '\'' (by decide), hne '"' (by decide)]
  · simp only [isLineBreak, Bool.or_eq_false_iff, Bool.and_eq_false_iff, decide_eq_false_iff_not,
      beq_eq_false_iff_ne]
    omega

theorem code_of_isDigit {c : Char} (h : c.isDigit = true) : 48 ≤ c.toNat ∧ c.toNat ≤ 57 := by
  simpa [Char.isDigit, UInt32.le_iff_toNat_le] using h

/-- A word of digits and points is solid, and not the word for a comment. -/
theorem solid_of_digits {word : Text} (hne : word ≠ [])
    (h : ∀ c ∈ word, c = '.' ∨ c.isDigit = true) :
    Solid word ∧ word ≠ "comment".toList := by
  have hcode : ∀ c ∈ word, 46 ≤ c.toNat ∧ c.toNat ≤ 57 := by
    intro c hc
    rcases h c hc with rfl | hdigit
    · decide
    · have := code_of_isDigit hdigit
      omega
  have hplain : ∀ c ∈ word, isPlain c = true ∧ isLineBreak c = false := by
    intro c hc
    have := hcode c hc
    refine plain_of_code (by omega) ?_
    rintro rfl
    exact absurd (hcode _ hc) (by decide)
  refine ⟨⟨⟨hne, fun c hc => (hplain c hc).1⟩, fun c hc => (hplain c hc).2⟩, ?_⟩
  rintro rfl
  exact absurd (hcode 'c' (by decide)) (by decide)

/-- The words that stand for themselves. -/
def keywords : List Text :=
  actions ++ ["in".toList, "on".toList, "log".toList, "log-all".toList, "from".toList, "to".toList,
    "port".toList, "any".toList, "proto".toList, "tcp".toList]

/-- So are the keywords of a rule. -/
theorem keywords_spec : ∀ w ∈ keywords, Solid w ∧ w ≠ "comment".toList := by
  have hcheck : ∀ w ∈ keywords, (w ≠ [] ∧ w.all fun c => isPlain c && !isLineBreak c) ∧
      w ≠ "comment".toList := by
    decide
  intro w hw
  obtain ⟨⟨hne, hall⟩, hword⟩ := hcheck w hw
  simp only [List.all_eq_true, Bool.and_eq_true, Bool.not_eq_true'] at hall
  exact ⟨⟨⟨hne, fun c hc => (hall c hc).1⟩, fun c hc => (hall c hc).2⟩, hword⟩

/-- So is an address. -/
theorem address_spec {text : Text} (h : (octets text).isSome) :
    Solid text ∧ text ≠ "comment".toList := by
  refine solid_of_digits ?_ fun c hc => mem_address h hc
  rintro rfl
  cases h

/-- So is a port. -/
theorem showPort_spec (port : ℤ) : Solid (showPort port) ∧ showPort port ≠ "comment".toList :=
  solid_of_digits (showPort_ne_nil port) fun c hc => .inr (showPort_digits port c hc)

/-- So are the words of a normal rule whose interface is not that word. -/
theorem LanRule.Normal.words_spec {rule : LanRule} (h : rule.Normal)
    (hi : rule.interface ≠ "comment".toList) :
    ∀ w ∈ rule.words, Solid w ∧ w ≠ "comment".toList := by
  intro w hw
  rcases List.mem_cons.mp hw with rfl | hw
  · exact keywords_spec _ (List.mem_append_left _ h.action)
  rcases List.mem_append.mp hw with hw | hw
  · split_ifs at hw with hnone
    · cases hw
    · simp only [List.mem_cons, List.not_mem_nil, or_false] at hw
      rcases hw with rfl | rfl | rfl
      · exact keywords_spec _ (by decide)
      · exact keywords_spec _ (by decide)
      · exact ⟨h.interface hnone, hi⟩
  rcases List.mem_append.mp hw with hw | hw
  · split_ifs at hw with hnone
    · cases hw
    · obtain rfl := List.mem_singleton.mp hw
      rcases h.log with hlog | hlog | hlog
      · exact absurd hlog hnone
      · exact hlog ▸ keywords_spec _ (by decide)
      · exact hlog ▸ keywords_spec _ (by decide)
  · simp only [List.mem_cons, List.not_mem_nil, or_false] at hw
    rcases hw with rfl | rfl | rfl | rfl | rfl | rfl | rfl | rfl
    · exact keywords_spec _ (by decide)
    · exact address_spec h.peer
    · exact keywords_spec _ (by decide)
    · exact address_spec h.own
    · exact keywords_spec _ (by decide)
    · exact showPort_spec _
    · exact keywords_spec _ (by decide)
    · exact keywords_spec _ (by decide)

/-- The loop reads the fields of a normalized rule. -/
theorem readFields_words (rule : LanRule)
    (hlog : rule.log = [] ∨ rule.log = "log".toList ∨ rule.log = "log-all".toList) :
    readFields {} rule.words.tail = some {
      interface := rule.interface
      peer := rule.peer
      own := rule.own
      port := showPort rule.port
      protocol := "tcp".toList
      log := rule.log } := by
  obtain ⟨action, interface, log, peer, own, port, comment⟩ := rule
  dsimp only at hlog
  by_cases hi : interface = []
  · subst hi
    rcases hlog with rfl | rfl | rfl <;> rfl
  · rw [LanRule.words]
    dsimp only
    rw [if_neg hi]
    rcases hlog with rfl | rfl | rfl <;> rfl

/-- The rule as it is read, with the comment that follows it on its line. -/
def LanRule.read (rule : LanRule) (comment : Text) : ParsedRule where
  action := rule.action
  interface := rule.interface
  peer := rule.peer
  own := rule.own
  port := rule.port
  comment := unquote comment
  log := rule.log

/-- The words of a rule are told from the comment after them. -/
theorem parts_of_words {words : List Text} (h : ∀ w ∈ words, Plain w ∧ w ≠ "comment".toList)
    (comment : Option Text) :
    (partition (between "comment".toList)
        ("ufw".toList ++ (lead words ++ comment.elim [] (between "comment".toList ++ ·)))).getD
      ("ufw".toList ++ (lead words ++ comment.elim [] (between "comment".toList ++ ·)), []) =
        ("ufw".toList ++ lead words, comment.getD []) := by
  have hkey : Plain "comment".toList := ⟨by decide, List.all_eq_true.mp (by decide)⟩
  have hufw : ∀ c ∈ "ufw".toList, isPlain c = true := List.all_eq_true.mp (by decide)
  have hrest : comment.elim [] (between "comment".toList ++ ·) = [] ∨
      ∃ t, comment.elim [] (between "comment".toList ++ ·) = ' ' :: t := by
    cases comment with
    | none => exact .inl rfl
    | some comment => exact .inr ⟨_, rfl⟩
  have hpartition := partition_word hufw "comment".toList
    (lead words ++ comment.elim [] (between "comment".toList ++ ·))
  rw [partition_lead hkey (fun w hw => (h w hw).1) (fun w hw => (h w hw).2) hrest] at hpartition
  rw [hpartition]
  cases comment with
  | none => simp [partition, between]
  | some comment =>
      rw [Option.elim_some, partition_found _ _ (by decide)]
      simp

/-- Plain words are split where they were joined. -/
theorem split_words {words : List Text} (h : ∀ w ∈ words, Plain w) :
    split ("ufw".toList ++ lead words) = some ("ufw".toList :: words) := by
  have hufw : Plain "ufw".toList := ⟨by decide, List.all_eq_true.mp (by decide)⟩
  exact split_lead (List.forall_mem_cons.mpr ⟨hufw, h⟩)

/-- A normal rule is read back, with its comment. -/
theorem parse_words {rule : LanRule} (h : rule.Normal) (hi : rule.interface ≠ "comment".toList)
    (comment : Option Text) :
    parseFirewallRule
      ("ufw".toList ++ (lead rule.words ++ comment.elim [] (between "comment".toList ++ ·))) =
      some (rule.read (comment.getD [])) := by
  have hwords : ∀ w ∈ rule.words, Plain w ∧ w ≠ "comment".toList := fun w hw =>
    (h.words_spec hi w hw).imp_left Solid.toPlain
  have hparts := parts_of_words hwords comment
  have hsplit := split_words fun w hw => (hwords w hw).1
  have hfields := readFields_words rule h.log
  have hhead : rule.words = rule.action :: rule.words.tail := rfl
  rw [parseFirewallRule]
  simp only [hparts, hsplit]
  rw [hhead]
  simp only [Option.bind_eq_bind, Option.bind_some, h.action, and_self, if_true, hfields,
    hostAddress_of_octets h.peer, hostAddress_of_octets h.own, parseInt_showPort h.port]
  rfl

/-! ### The listing -/

/-- Elements that split nothing are part of the first piece. -/
theorem splitOnP_append_of_forall {α : Type} {p : α → Bool} {xs : List α}
    (h : ∀ x ∈ xs, p x = false) (ys : List α) :
    (xs ++ ys).splitOnP p = (ys.splitOnP p).modifyHead (xs ++ ·) := by
  induction xs with
  | nil =>
      obtain ⟨z, zs, hz⟩ := List.exists_cons_of_ne_nil (List.splitOnP_ne_nil p ys)
      simp [hz]
  | cons x xs ih =>
      rw [List.forall_mem_cons] at h
      obtain ⟨z, zs, hz⟩ := List.exists_cons_of_ne_nil (List.splitOnP_ne_nil p ys)
      rw [List.cons_append, List.splitOnP_cons_eq_if_modifyHead, ih h.2, hz]
      simp [h.1]

/-- A line is a part of the text, the first one its beginning. -/
theorem splitOnP_spec {α : Type} {p : α → Bool} (xs : List α) :
    ∃ line lines, xs.splitOnP p = line :: lines ∧ line <+: xs ∧ ∀ l ∈ lines, l <:+: xs := by
  induction xs with
  | nil => exact ⟨[], [], rfl, List.prefix_rfl, by simp⟩
  | cons x xs ih =>
      obtain ⟨line, lines, hsplit, hprefix, hrest⟩ := ih
      rw [List.splitOnP_cons_eq_if_modifyHead, hsplit]
      split_ifs with hx
      · refine ⟨[], _, rfl, List.nil_prefix, ?_⟩
        rw [List.forall_mem_cons]
        exact ⟨List.infix_cons hprefix.isInfix, fun l hl => List.infix_cons (hrest l hl)⟩
      · exact ⟨x :: line, lines, rfl, List.cons_prefix_cons.mpr ⟨rfl, hprefix⟩,
          fun l hl => List.infix_cons (hrest l hl)⟩

/-- A piece is part of the whole. -/
theorem infix_of_mem_splitOnP {α : Type} {p : α → Bool} {xs line : List α}
    (h : line ∈ xs.splitOnP p) :
    line <:+: xs := by
  obtain ⟨first, lines, hsplit, hprefix, hrest⟩ := splitOnP_spec (p := p) xs
  rw [hsplit] at h
  rcases List.mem_cons.mp h with rfl | hl
  · exact hprefix.isInfix
  · exact hrest line hl

/-- The lines a rule is listed on. -/
def Rule.lines (rule : Rule) : List Text := rule.line.splitOnP isLineBreak

/-- The lines of the rules are those of each rule. -/
theorem mem_lines_rules {rules : List Rule} {line : Text} :
    line ∈ (rules.flatMap fun rule => rule.line ++ ['\n']).splitOnP isLineBreak ↔
      (∃ rule ∈ rules, line ∈ rule.lines) ∨ line = [] := by
  induction rules with
  | nil => simp
  | cons rule rules ih =>
      have hbreak : isLineBreak '\n' = true := by decide
      rw [List.flatMap_cons, List.append_assoc, List.singleton_append,
        List.splitOnP_append_cons _ _ hbreak, List.mem_append, ih]
      simp only [List.mem_cons, exists_eq_or_imp, Rule.lines, or_assoc]

theorem addedHeader_spec :
    (∀ c ∈ addedHeader, isLineBreak c = false) ∧ "ufw ".toList.isPrefixOf addedHeader = false :=
  ⟨List.all_iff_forall_prop.mp (by decide), by decide⟩

/-- The inventory of rules that are listed. -/
def inventoryOf (rules : List Rule) : List (Text × Option ParsedRule) :=
  readInventory (addedRules rules)

/-- The inventory are the lines that name `ufw`, each as it is read. -/
theorem mem_inventoryOf {rules : List Rule} {p : Text × Option ParsedRule} :
    p ∈ inventoryOf rules ↔
      (∃ rule ∈ rules, p.1 ∈ rule.lines) ∧ "ufw ".toList.isPrefixOf p.1 = true ∧
        p.2 = parseFirewallRule p.1 := by
  have hbreak : isLineBreak '\n' = true := by decide
  obtain ⟨hheader, hnone⟩ := addedHeader_spec
  have hlines : ∀ line, line ∈ (addedRules rules).splitOnP isLineBreak ↔
      line = addedHeader ∨ (∃ rule ∈ rules, line ∈ rule.lines) ∨ line = [] := by
    intro line
    rw [addedRules, List.splitOnP_append_cons _ _ hbreak, List.splitOnP_eq_singleton hheader,
      List.mem_append, List.mem_singleton, mem_lines_rules]
  rw [inventoryOf, readInventory, List.mem_map]
  constructor
  · rintro ⟨line, hline, rfl⟩
    obtain ⟨hmem, hprefix⟩ := List.mem_filter.mp hline
    refine ⟨?_, hprefix, rfl⟩
    rcases (hlines line).mp hmem with rfl | hrule | rfl
    · exact absurd (hnone.symm.trans hprefix) (by simp)
    · exact hrule
    · cases hprefix
  · rintro ⟨hrule, hprefix, hread⟩
    exact ⟨p.1, List.mem_filter.mpr ⟨(hlines _).mpr (.inr (.inl hrule)), hprefix⟩,
      Prod.ext rfl hread.symm⟩

/-! ### Reading the listing back -/

/-- The line of a rule carries the tag. -/
def Rule.Carries (tag : Text) (rule : Rule) : Prop := tag <:+: rule.line

instance (tag : Text) (rule : Rule) : Decidable (rule.Carries tag) :=
  inferInstanceAs (Decidable (_ <:+: _))

/-- Solid words make one line. -/
theorem lead_unbroken {words : List Text} (h : ∀ w ∈ words, Solid w) :
    ∀ c ∈ lead words, isLineBreak c = false := by
  induction words with
  | nil => nofun
  | cons w words ih =>
      rw [List.forall_mem_cons] at h
      rw [lead_cons, List.forall_mem_cons, List.forall_mem_append]
      exact ⟨by decide, h.1.unbroken, ih h.2⟩

/-- Whatever the comment of a rule is, the rule is read from the first of its lines. -/
theorem exists_read {rules : List Rule} {rule : LanRule} (hmem : Rule.lan rule ∈ rules)
    (h : rule.Normal) (hi : rule.interface ≠ "comment".toList) :
    ∃ line comment, (line, some (rule.read comment)) ∈ inventoryOf rules := by
  have hsolid : ∀ w ∈ rule.words, Solid w := fun w hw => (h.words_spec hi w hw).1
  have hfront : ∀ c ∈ "ufw".toList ++ lead rule.words, isLineBreak c = false := by
    rw [List.forall_mem_append]
    exact ⟨List.all_iff_forall_prop.mp (by decide), lead_unbroken hsolid⟩
  -- the line breaks are all in the comment
  suffices hline : ∃ comment : Option Text,
      "ufw".toList ++ (lead rule.words ++ comment.elim [] (between "comment".toList ++ ·)) ∈
        (Rule.lan rule).lines by
    obtain ⟨comment, hline⟩ := hline
    refine ⟨_, comment.getD [],
      mem_inventoryOf.mpr ⟨⟨_, hmem, hline⟩, ?_, (parse_words h hi comment).symm⟩⟩
    rfl
  rw [Rule.lines, Rule.line, ← List.append_assoc, splitOnP_append_of_forall hfront]
  split_ifs with hcomment
  · exact ⟨none, by simp⟩
  · have hquote : ∀ c ∈ " comment '".toList, isLineBreak c = false :=
      List.all_iff_forall_prop.mp (by decide)
    obtain ⟨first, rest, hfirst, -, -⟩ := splitOnP_spec (p := isLineBreak) (rule.comment ++ ['\''])
    refine ⟨some ('\'' :: first), ?_⟩
    rw [splitOnP_append_of_forall hquote, hfirst]
    have hhead : " comment '".toList ++ first = between "comment".toList ++ ('\'' :: first) := rfl
    simp only [List.modifyHead_cons, Option.elim_some, hhead, List.append_assoc]
    exact List.mem_cons_self ..

/-! ### The script's own rules -/

/-- What `validate_firewall_scope` asks for. -/
theorem validateFirewallScope_eq_ok {plan : Plan} {u : Unit}
    (h : validateFirewallScope plan = .ok u) :
    (1 ≤ plan.port ∧ plan.port ≤ 65535 ∧ isInterface plan.interface) ∧
      isLanAddress plan.peer ∧ isLanAddress plan.own ∧ plan.peer ≠ plan.own := by
  unfold validateFirewallScope at h
  split_ifs at h with hscope hpeer
  exact ⟨hscope, hpeer⟩

theorem octets_of_isLanAddress {text : Text} (h : isLanAddress text) : (octets text).isSome := by
  unfold isLanAddress at h
  cases ho : octets text with
  | none => simp [ho] at h
  | some values => rfl

theorem plain_of_isAlphanum {c : Char} (h : c.isAlphanum = true) :
    isPlain c = true ∧ isLineBreak c = false := by
  refine plain_of_code ?_ ?_
  · have hcode : c.toNat = c.val.toNat := rfl
    have hrange := Words.isAlphanum_iff.mp h
    omega
  · rintro rfl
    cases h

/-- The name of an interface is a solid word. -/
theorem solid_of_isInterface {interface : Text} (h : isInterface interface) : Solid interface := by
  cases interface with
  | nil => cases h
  | cons c cs =>
      simp only [isInterface, Bool.and_eq_true, decide_eq_true_eq, List.all_eq_true,
        Bool.or_eq_true, beq_iff_eq] at h
      have hplain : ∀ d : Char, (d.isAlphanum = true ∨ d = '_') ∨ d = '.' ∨ d = ':' ∨ d = '-' →
          isPlain d = true ∧ isLineBreak d = false := by
        rintro d ((hd | rfl) | rfl | rfl | rfl)
        · exact plain_of_isAlphanum hd
        all_goals decide
      have hall : ∀ d ∈ c :: cs, isPlain d = true ∧ isLineBreak d = false := by
        rw [List.forall_mem_cons]
        exact ⟨plain_of_isAlphanum h.1.1,
          fun d hd => hplain d (by simpa only [or_assoc] using h.2 d hd)⟩
      exact ⟨⟨List.cons_ne_nil _ _, fun d hd => (hall d hd).1⟩, fun d hd => (hall d hd).2⟩

/-- The rule of an accepted plan is normal. -/
theorem toolRule_normal {plan : Plan} (h : validateFirewallScope plan = .ok ()) (tag : Text) :
    (toolRule plan tag).Normal := by
  obtain ⟨⟨hport, -, hinterface⟩, hpeer, hown, -⟩ := validateFirewallScope_eq_ok h
  exact ⟨List.mem_cons_self .., fun _ => solid_of_isInterface hinterface, .inl rfl,
    octets_of_isLanAddress hpeer, octets_of_isLanAddress hown, hport⟩

/-- What is quoted can be unquoted. -/
theorem unquote_quoted (text : Text) : unquote ('\'' :: (text ++ ['\''])) = text := by
  have hlast : ('\'' :: (text ++ ['\''])).getLast? = some '\'' := by
    rw [← List.cons_append]
    exact List.getLast?_concat
  rw [unquote, if_pos ⟨by simp, rfl, hlast⟩]
  simp

/-- The rule of a plan carries its tag. -/
theorem carries_toolRule (plan : Plan) {tag : Text} (hne : tag ≠ []) :
    (Rule.lan (toolRule plan tag)).Carries tag := by
  refine ⟨"ufw".toList ++ (lead (toolRule plan tag).words ++ " comment '".toList), ['\''], ?_⟩
  rw [Rule.line, if_neg (show (toolRule plan tag).comment ≠ [] from hne)]
  simp only [List.append_assoc]
  rfl

/-- A tag is one line. -/
theorem tag_unbroken {tag : Text} (h : isTag tag) :
    tag ≠ [] ∧ ∀ c ∈ tag, isLineBreak c = false := by
  simp only [isTag, Bool.and_eq_true, List.isPrefixOf_iff_prefix, beq_iff_eq, List.all_eq_true,
    Bool.or_eq_true, decide_eq_true_eq] at h
  obtain ⟨⟨⟨token, rfl⟩, -⟩, htoken⟩ := h
  refine ⟨by simp, ?_⟩
  rw [List.forall_mem_append]
  refine ⟨List.all_iff_forall_prop.mp (by decide), fun c hc => ?_⟩
  rcases htoken c hc with hdigit | ⟨hlow, hhigh⟩
  · have := code_of_isDigit hdigit
    refine (plain_of_code (by omega) ?_).2
    rintro rfl
    cases hdigit
  · have hbounds : 97 ≤ c.toNat ∧ c.toNat ≤ 102 := ⟨hlow, hhigh⟩
    refine (plain_of_code (by omega) ?_).2
    rintro rfl
    exact absurd hbounds (by decide)

/-- A rule of the script is one line, and is read with its tag. -/
theorem lines_toolRule {plan : Plan} (h : validateFirewallScope plan = .ok ())
    (hi : plan.interface ≠ "comment".toList) {tag : Text} (ht : isTag tag) :
    (Rule.lan (toolRule plan tag)).lines = [(Rule.lan (toolRule plan tag)).line] ∧
      "ufw ".toList.isPrefixOf (Rule.lan (toolRule plan tag)).line = true ∧
      parseFirewallRule (Rule.lan (toolRule plan tag)).line = some {
        action := "allow".toList
        interface := plan.interface
        peer := plan.peer
        own := plan.own
        port := plan.port
        comment := tag
        log := [] } := by
  obtain ⟨hne, hunbroken⟩ := tag_unbroken ht
  have hnormal := toolRule_normal h tag
  have hsolid : ∀ w ∈ (toolRule plan tag).words, Solid w :=
    fun w hw => (hnormal.words_spec hi w hw).1
  have hline :
    (Rule.lan (toolRule plan tag)).line = "ufw".toList ++ (lead (toolRule plan tag).words ++
      (between "comment".toList ++ ('\'' :: (tag ++ ['\''])))) := by
    rw [Rule.line, if_neg (show (toolRule plan tag).comment ≠ [] from hne)]
    rfl
  refine ⟨?_, by rw [hline]; rfl, ?_⟩
  · refine List.splitOnP_eq_singleton ?_
    rw [hline]
    simp only [List.forall_mem_append, List.forall_mem_cons]
    refine ⟨?_, lead_unbroken hsolid, ?_, by decide, hunbroken, by decide, by simp⟩
    · exact List.all_iff_forall_prop.mp (by decide)
    · exact List.all_iff_forall_prop.mp (by decide)
  · rw [hline]
    have hparse := parse_words hnormal hi (some ('\'' :: (tag ++ ['\''])))
    rw [Option.elim_some, Option.getD_some, LanRule.read, unquote_quoted] at hparse
    exact hparse

end NiriBridge.Firewall
