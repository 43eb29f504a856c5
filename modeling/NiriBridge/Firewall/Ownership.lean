import NiriBridge.Firewall.Listing
import NiriBridge.Support.Run
import Mathlib.Data.List.Nodup
import Mathlib.Data.List.Pairwise

/-!
# Firewall — Ownership

Runs of `firewall_install` and `firewall_remove`, each of which may end at any of its steps, and
between them the administrator, who does to the other rules what they like.

`Sound` says that every rule with one of the script's tags is one that its state file names; each
step of a run keeps it and leaves the other rules alone (`World.Sound.allow`, `World.Sound.delete`).
-/

namespace NiriBridge.Firewall

open Hoare Words

/-! ### The rules -/

/-- The key of a rule between two hosts. -/
def Rule.key? : Rule → Option Key
  | .lan rule => some rule.key
  | .other _ => none

theorem Rule.hasKey_iff {rule : Rule} {key : Key} : rule.hasKey key = true ↔
    rule.key? = some key := by
  cases rule with
  | lan rule => simp [hasKey, key?]
  | other line => simp [hasKey, key?]

/-- The line of the rule carries one of the script's tags. -/
def Rule.tagged (rule : Rule) : Bool := rule.line.tails.any fun text => isTag (text.take 31)

theorem length_of_isTag {tag : Text} (h : isTag tag) : tag.length = 31 := by
  simp only [isTag, Bool.and_eq_true, beq_iff_eq] at h
  exact h.1.2

/-- A rule that carries a tag is tagged. -/
theorem Rule.tagged_of_carries {rule : Rule} {tag : Text} (ht : isTag tag) (h : rule.Carries tag) :
    rule.tagged = true := by
  obtain ⟨front, rest, hline⟩ := h
  refine List.any_eq_true.mpr ⟨tag ++ rest,
    (List.mem_tails _ _).mpr ⟨front, by rw [← hline, List.append_assoc]⟩, ?_⟩
  rw [← length_of_isTag ht, List.take_left]
  exact ht

/-- UFW has at most one rule of each scope, and a line that is read as a rule is that rule's. -/
structure Lawful (rules : List Rule) : Prop where
  normal : ∀ rule, Rule.lan rule ∈ rules → rule.Normal
  distinct : (rules.filterMap Rule.key?).Nodup
  listed : ∀ rule ∈ rules, ∀ line ∈ rule.lines, "ufw ".toList.isPrefixOf line = true →
    ∀ read, parseFirewallRule line = some read → rule.key? = some read.key

/-- There is at most one rule for a key. -/
theorem Lawful.eq_of_key {rules : List Rule} (h : Lawful rules) {rule rule' : Rule} {key : Key}
    (hr : rule ∈ rules) (hr' : rule' ∈ rules) (hk : rule.key? = some key)
    (hk' : rule'.key? = some key) :
    rule = rule' := by
  by_contra hne
  have hpairs := List.pairwise_filterMap.mp h.distinct
  have hsymm : Std.Symm fun rule rule' : Rule =>
      ∀ k, rule.key? = some k → ∀ k', rule'.key? = some k' → k ≠ k' :=
    ⟨fun _ _ hd k hk k' hk' => (hd k' hk' k hk).symm⟩
  exact hpairs.forall hr hr' hne key hk key hk' rfl

/-- There is one rule for the key of a rule. -/
theorem Lawful.countP {rules : List Rule} (h : Lawful rules) {rule : Rule} {key : Key}
    (hr : rule ∈ rules) (hk : rule.key? = some key) : rules.countP (Rule.hasKey key) = 1 := by
  have hsame : Rule.hasKey key = fun rule => rule.key? == some key := by
    funext rule
    rw [Bool.eq_iff_iff, Rule.hasKey_iff, beq_iff_eq]
  rw [hsame, ← List.count_filterMap]
  exact List.count_eq_one_of_mem h.distinct (List.mem_filterMap.mpr ⟨rule, hr, hk⟩)

/-- Lawful rules stay so when some are deleted. -/
theorem Lawful.sublist {rules rules' : List Rule} (h : Lawful rules) (hs : rules'.Sublist rules) :
    Lawful rules' where
  normal rule hr := h.normal rule (hs.subset hr)
  distinct := h.distinct.sublist (hs.filterMap _)
  listed rule hr := h.listed rule (hs.subset hr)

/-! ### The state -/

namespace World

/-- The entries of the file. -/
def entries (w : World) : List Entry := w.file.getD []

/-- The plans of the entries, each with its tag. -/
def owns (w : World) : List (Plan × Text) := w.entries.map fun entry => (entry.plan, entry.tag)

/-- The state file names every rule that carries a tag of the script, by a tag that was drawn. -/
structure Sound (w : World) (drawn : List Text) : Prop where
  lawful : Lawful w.rules
  directory : w.directory = false → w.file = none
  count : w.owns.length ≤ 128
  valid : ∀ p ∈ w.owns, isTag p.2 = true ∧ validateFirewallScope p.1 = .ok ()
  named : ∀ p ∈ w.owns, p.1.interface ≠ "comment".toList
  keys : (w.owns.map fun p => p.1.key).Nodup
  tags : (w.owns.map Prod.snd).Nodup
  made : ∀ p ∈ w.owns, p.2 ∈ drawn
  owned : ∀ rule ∈ w.rules, rule.tagged = true → ∃ p ∈ w.owns, rule = .lan (toolRule p.1 p.2)

/-- The rules of others are the same. -/
def Spares (w w' : World) : Prop := w'.rules.filter (!·.tagged) = w.rules.filter (!·.tagged)

theorem Spares.refl (w : World) : w.Spares w := rfl

theorem Spares.trans {w w' w'' : World} (h : w.Spares w') (h' : w'.Spares w'') :
    w.Spares w'' := Eq.trans h' h

end World

/-! ### What the script sees -/

/-- If no rule is owned the tag is on no line. -/
theorem owned_eq_false {inventory : List (Text × Option ParsedRule)} {entry : Entry}
    (h : ownedFirewallRule inventory entry = .ok false) :
    ∀ p ∈ inventory, ¬ entry.tag <:+: p.1 := by
  unfold ownedFirewallRule at h
  split at h
  · rename_i hnone
    exact fun p hp => by simpa using List.filter_eq_nil_iff.mp hnone p hp
  · split_ifs at h
    cases h
  · cases h

/-- If the rule is owned there is a line with the tag, and the rule that is read carries it. -/
theorem owned_eq_true {inventory : List (Text × Option ParsedRule)} {entry : Entry}
    (h : ownedFirewallRule inventory entry = .ok true) :
    ∃ line read,
    (line, some read) ∈ inventory ∧ entry.tag <:+: line ∧ read.comment = entry.tag := by
  unfold ownedFirewallRule at h
  split at h
  · cases h
  · rename_i line read hone
    split_ifs at h with hread
    obtain ⟨hmem, htag⟩ := List.mem_filter.mp (hone ▸ List.mem_singleton_self (line, some read))
    exact ⟨line, read, hmem, by simpa using htag, hread.1⟩
  · cases h

section Sees
variable {w : World} {drawn : List Text} (h : w.Sound drawn)
include h

/-- The rule of an entry is tagged. -/
theorem tagged_toolRule {p : Plan × Text} (hp : p ∈ w.owns) :
    (Rule.lan (toolRule p.1 p.2)).tagged = true := by
  obtain ⟨ht, -⟩ := h.valid p hp
  exact Rule.tagged_of_carries ht (carries_toolRule p.1 (tag_unbroken ht).1)

/-- The tag of a rule that is there is found on its line. -/
theorem owned_false {entry : Entry} (hentry : (entry.plan, entry.tag) ∈ w.owns)
    (howned : ownedFirewallRule (inventoryOf w.rules) entry = .ok false) :
    Rule.lan (toolRule entry.plan entry.tag) ∉ w.rules := by
  intro hmem
  obtain ⟨ht, hvalid⟩ := h.valid _ hentry
  obtain ⟨hlines, hprefix, hread⟩ := lines_toolRule hvalid (h.named _ hentry) ht
  have hlisted : ((Rule.lan (toolRule entry.plan entry.tag)).line, some _) ∈ inventoryOf w.rules :=
    mem_inventoryOf.mpr ⟨⟨_, hmem, hlines ▸ List.mem_singleton_self _⟩, hprefix, hread.symm⟩
  exact owned_eq_false howned _ hlisted (carries_toolRule entry.plan (tag_unbroken ht).1)

/-- If the rule of an entry is owned it is among the rules. -/
theorem owned_true {entry : Entry} (hentry : (entry.plan, entry.tag) ∈ w.owns)
    (howned : ownedFirewallRule (inventoryOf w.rules) entry = .ok true) :
    Rule.lan (toolRule entry.plan entry.tag) ∈ w.rules := by
  obtain ⟨line, read, hlisted, hcarries, hcomment⟩ := owned_eq_true howned
  obtain ⟨⟨rule, hr, hline⟩, -, hread⟩ := mem_inventoryOf.mp hlisted
  have htagged : rule.tagged = true := Rule.tagged_of_carries (h.valid _ hentry).1
    (hcarries.trans (infix_of_mem_splitOnP hline))
  obtain ⟨p, hp, rfl⟩ := h.owned rule hr htagged
  obtain ⟨ht, hvalid⟩ := h.valid p hp
  obtain ⟨hlines, -, hparse⟩ := lines_toolRule hvalid (h.named p hp) ht
  obtain rfl : line = _ := List.mem_singleton.mp (hlines ▸ hline)
  -- its line is read with its own tag
  obtain rfl := Option.some.inj (hread.trans hparse)
  have hsame : p = (entry.plan, entry.tag) := List.inj_on_of_nodup_map h.tags hp hentry hcomment
  subst hsame
  exact hr

/-- When no rule is read with the scope, there is none. -/
theorem matching_nil {plan : Plan} (hi : plan.interface ≠ "comment".toList)
    (hnone : matchingFirewallRules (inventoryOf w.rules) plan = []) {rule : Rule}
    (hr : rule ∈ w.rules) :
    rule.key? ≠ some plan.key := by
  intro hkey
  cases rule with
  | other line => cases hkey
  | lan rule =>
      have hsame : rule.key = plan.key := Option.some.inj hkey
      have hinterface : rule.interface = plan.interface := congrArg (fun k : Key => k.2.2.1) hsame
      obtain ⟨line, comment, hlisted⟩ := exists_read hr (h.lawful.normal rule hr) (hinterface ▸ hi)
      have hmatch : rule.read comment ∈ matchingFirewallRules (inventoryOf w.rules) plan :=
        List.mem_filter.mpr ⟨List.mem_filterMap.mpr ⟨_, hlisted, rfl⟩, decide_eq_true hsame⟩
      rw [hnone] at hmatch
      cases hmatch

/-- A plan that matches a rule has its key. -/
theorem matching_cons {plan : Plan}
    (hsome : matchingFirewallRules (inventoryOf w.rules) plan ≠ []) :
    ∃ rule ∈ w.rules, rule.key? = some plan.key := by
  obtain ⟨read, hread⟩ := List.exists_mem_of_ne_nil _ hsome
  obtain ⟨hmem, hkey⟩ := List.mem_filter.mp hread
  obtain ⟨⟨line, _⟩, hlisted, rfl⟩ := List.mem_filterMap.mp hmem
  obtain ⟨⟨rule, hr, hline⟩, hprefix, hparse⟩ := mem_inventoryOf.mp hlisted
  exact ⟨rule, hr, (h.lawful.listed rule hr line hline hprefix read hparse.symm).trans
    (congrArg some (of_decide_eq_true hkey))⟩

end Sees

/-! ### What the script does -/

section Steps
variable {ufw : Ufw} {w : World} {drawn : List Text} (h : w.Sound drawn)
include h

theorem World.Sound.mono {drawn' : List Text} (hsub : drawn ⊆ drawn') : w.Sound drawn' :=
  { h with made := fun p hp => hsub (h.made p hp) }

/-- The directory of the lock may be made. -/
theorem World.Sound.lock : World.Sound { w with directory := true } drawn :=
  ⟨h.lawful, by simp, h.count, h.valid, h.named, h.keys, h.tags, h.made, h.owned⟩

/-- Entries that claim the same rules may be saved. -/
theorem World.Sound.save (hdirectory : w.directory = true) {entries : List Entry}
    (hsame : (entries.map fun entry => (entry.plan, entry.tag)) = w.owns) :
    World.Sound { w with file := some entries } drawn := by
  have howns : World.owns { w with file := some entries } = w.owns := hsame
  exact ⟨h.lawful,
    fun hno => absurd (hdirectory.symm.trans hno) (by simp), howns ▸ h.count, howns ▸ h.valid,
    howns ▸ h.named, howns ▸ h.keys, howns ▸ h.tags, howns ▸ h.made, howns ▸ h.owned⟩

/-- An entry of a new scope, with a new tag. -/
theorem World.Sound.append (hdirectory : w.directory = true) {entries : List Entry} {entry : Entry}
    (hsame : (entries.map fun entry => (entry.plan, entry.tag)) = w.owns)
    (hcount : entries.length < 128)
    (hvalid : isTag entry.tag = true ∧ validateFirewallScope entry.plan = .ok ())
    (hnamed : entry.plan.interface ≠ "comment".toList)
    (hkey : entry.plan.key ∉ w.owns.map fun p => p.1.key) (htag : entry.tag ∉ w.owns.map Prod.snd)
    (hdrawn : entry.tag ∈ drawn) :
    World.Sound { w with file := some (entries ++ [entry]) } drawn := by
  have howns : World.owns { w with file := some (entries ++ [entry]) } =
      w.owns ++ [(entry.plan, entry.tag)] := by
    rw [← hsame]
    exact List.map_append
  have hlength : entries.length = w.owns.length := by rw [← hsame, List.length_map]
  refine ⟨h.lawful,
    fun hno => absurd (hdirectory.symm.trans hno) (by simp), ?_, ?_, ?_, ?_, ?_, ?_, ?_⟩
  · rw [howns, List.length_append, ← hlength]
    exact hcount
  · rw [howns, List.forall_mem_append, List.forall_mem_singleton]
    exact ⟨h.valid, hvalid⟩
  · rw [howns, List.forall_mem_append, List.forall_mem_singleton]
    exact ⟨h.named, hnamed⟩
  · rw [howns, List.map_append]
    exact List.concat_eq_append ▸ h.keys.concat hkey
  · rw [howns, List.map_append]
    exact List.concat_eq_append ▸ h.tags.concat htag
  · rw [howns, List.forall_mem_append, List.forall_mem_singleton]
    exact ⟨h.made, hdrawn⟩
  · intro rule hr htagged
    obtain ⟨p, hp, hrule⟩ := h.owned rule hr htagged
    exact ⟨p, howns ▸ List.mem_append_left _ hp, hrule⟩

/-- A rule that is gone needs no entry. -/
theorem World.Sound.erase (hdirectory : w.directory = true) {entries : List Entry} {entry : Entry}
    (hsame : (entries.map fun entry => (entry.plan, entry.tag)) = w.owns) (hentry : entry ∈ entries)
    (hgone : Rule.lan (toolRule entry.plan entry.tag) ∉ w.rules) :
    World.Sound { w with file := some (entries.erase entry) } drawn := by
  have hsub : (World.owns { w with file := some (entries.erase entry) }).Sublist w.owns := by
    rw [← hsame]
    exact List.erase_sublist.map _
  refine ⟨h.lawful,
    fun hno => absurd (hdirectory.symm.trans hno) (by simp), hsub.length_le.trans h.count,
    fun p hp => h.valid p (hsub.subset hp), fun p hp => h.named p (hsub.subset hp),
    h.keys.sublist (hsub.map _), h.tags.sublist (hsub.map _),
    fun p hp => h.made p (hsub.subset hp), fun rule hr htagged => ?_⟩
  obtain ⟨p, hp, rfl⟩ := h.owned rule hr htagged
  obtain ⟨other, hother, rfl⟩ := List.mem_map.mp (hsame ▸ hp)
  have hne : other ≠ entry := by
    rintro rfl
    exact hgone hr
  exact ⟨_, List.mem_map_of_mem ((List.mem_erase_of_ne hne).mpr hother), rfl⟩

/-- A file without entries may go. -/
theorem World.Sound.unlink (hnone : w.owns = []) : World.Sound { w with file := none } drawn := by
  refine ⟨h.lawful,
    fun _ => rfl, Nat.zero_le _, by intros; contradiction, by intros; contradiction, List.nodup_nil,
    List.nodup_nil, by intros; contradiction, fun rule hr htagged => ?_⟩
  obtain ⟨p, hp, -⟩ := h.owned rule hr htagged
  rw [hnone] at hp
  cases hp

/-- The rule of an entry is added where there is none of its scope. -/
theorem World.Sound.allow (hufw : ufw.Documented) {p : Plan × Text} (hp : p ∈ w.owns)
    (hfree : ∀ rule ∈ w.rules, rule.key? ≠ some p.1.key) :
    ufw.allow p.1 p.2 w.rules = w.rules ++ [.lan (toolRule p.1 p.2)] ∧
      World.Sound { w with rules := ufw.allow p.1 p.2 w.rules } drawn ∧
      w.Spares { w with rules := ufw.allow p.1 p.2 w.rules } := by
  obtain ⟨ht, hvalid⟩ := h.valid p hp
  have hadd : ufw.allow p.1 p.2 w.rules = w.rules ++ [.lan (toolRule p.1 p.2)] := by
    refine hufw.append _ _ _ (Bool.eq_false_iff.mpr fun hany => ?_)
    obtain ⟨rule, hr, hkey⟩ := List.any_eq_true.mp hany
    exact hfree rule hr (Rule.hasKey_iff.mp hkey)
  rw [hadd]
  refine ⟨rfl, ⟨⟨fun rule hr => ?_, ?_, ?_⟩, h.directory, h.count, h.valid, h.named, h.keys, h.tags,
    h.made, ?_⟩, ?_⟩
  · rcases List.mem_append.mp hr with hr | hr
    · exact h.lawful.normal rule hr
    · obtain rfl := Rule.lan.inj (List.mem_singleton.mp hr)
      exact toolRule_normal hvalid _
  · rw [List.filterMap_append]
    refine List.concat_eq_append ▸ h.lawful.distinct.concat fun hmem => ?_
    obtain ⟨rule, hr, hkey⟩ := List.mem_filterMap.mp hmem
    exact hfree rule hr hkey
  · rw [List.forall_mem_append, List.forall_mem_singleton]
    refine ⟨h.lawful.listed, fun line hline _ read hread => ?_⟩
    obtain ⟨hlines, -, hparse⟩ := lines_toolRule hvalid (h.named p hp) ht
    obtain rfl := List.mem_singleton.mp (hlines ▸ hline)
    obtain rfl := Option.some.inj (hread.symm.trans hparse)
    rfl
  · rw [List.forall_mem_append, List.forall_mem_singleton]
    exact ⟨h.owned, fun _ => ⟨p, hp, rfl⟩⟩
  · have htagged := tagged_toolRule h hp
    rw [World.Spares, List.filter_append, List.filter_cons_of_neg (by simp [htagged]),
      List.filter_nil, List.append_nil]

/-- The rule of an entry may be deleted. -/
theorem World.Sound.delete (hufw : ufw.Documented) {p : Plan × Text} (hp : p ∈ w.owns)
    (hmem : Rule.lan (toolRule p.1 p.2) ∈ w.rules) :
    World.Sound { w with rules := ufw.delete p.1 w.rules } drawn ∧
      w.Spares { w with rules := ufw.delete p.1 w.rules } := by
  rw [hufw.delete]
  have hsub : (w.rules.filter (!·.allows p.1.key)).Sublist w.rules := List.filter_sublist
  refine ⟨⟨h.lawful.sublist hsub, h.directory, h.count, h.valid, h.named, h.keys, h.tags, h.made,
    fun rule hr => h.owned rule (hsub.subset hr)⟩, ?_⟩
  rw [World.Spares, List.filter_filter]
  refine List.filter_congr fun rule hr => ?_
  cases rule with
  | other line => simp [Rule.allows]
  | lan rule =>
      by_cases hkey : rule.key = p.1.key
      · -- only one rule has the scope, and that one is tagged
        have hsame : Rule.lan rule = .lan (toolRule p.1 p.2) :=
          h.lawful.eq_of_key hr hmem (congrArg some hkey) rfl
        rw [hsame, tagged_toolRule h hp]
        rfl
      · simp [Rule.allows, hkey]

end Steps

end NiriBridge.Firewall
