import NiriBridge.Firewall.Ownership

/-!
# Firewall — Runs

What one run of the script does, from any sound state and wherever it ends: the state is sound, and
the rules of others are the same.
-/

namespace NiriBridge.Firewall

open Hoare Words

/-- A run that started in `w` may end here. -/
structure After (drawn : List Text) (w : World) (m : Machine) : Prop where
  sound : m.world.Sound drawn
  spares : w.Spares m.world

/-- And it holds the lock. -/
structure Within (drawn : List Text) (w : World) (m : Machine) : Prop extends After drawn w m where
  directory : m.world.directory = true

variable {drawn : List Text}

/-- A step takes effect, or fails before or after it does. -/
theorem wp_step {code : Code} {effect : World → World} {m : Machine} {Q : Unit → Machine → Prop}
    {E : Code → Machine → Prop} (hok : ∀ m', m'.world = effect m.world → Q () m')
    (herror : ∀ m', m'.world = m.world ∨ m'.world = effect m.world → E code m') :
    wp (step code effect) m Q E := by
  obtain ⟨w, faults⟩ := m
  cases faults with
  | nil => exact hok _ rfl
  | cons fault faults =>
      cases fault with
      | none => exact hok _ rfl
      | some fault =>
          cases fault with
          | before => exact herror _ (.inl rfl)
          | after => exact herror _ (.inr rfl)

@[simp] theorem wp_check {α : Type} {r : Except Code α} {m : Machine} {Q : α → Machine → Prop}
    {E : Code → Machine → Prop} :
    wp (check r) m Q E ↔ (∀ a, r = .ok a → Q a m) ∧ ∀ e, r = .error e → E e m := by
  simp only [check, wp_lift, id]

/-- A step that only looks. -/
theorem wp_look {code : Code} {m : Machine} {Q : Unit → Machine → Prop} {E : Code → Machine → Prop}
    (hok : ∀ m', m'.world = m.world → Q () m') (herror : ∀ m', m'.world = m.world → E code m') :
    wp (step code id) m Q E :=
  wp_step hok fun m' h => herror m' (h.elim id id)

/-- What is loaded are the entries of the file. -/
theorem loadFirewallState_spec (m : Machine) :
    wp loadFirewallState m (fun entries m' => m' = m ∧ entries = m.world.entries)
    (fun _ m' => m' = m) := by
  simp only [loadFirewallState, world, wp_bind, wp_get, wp_pure]
  cases hfile : m.world.file with
  | none => exact ⟨rfl, by rw [World.entries, hfile]; rfl⟩
  | some entries =>
      simp only [wp_bind, wp_check]
      have hentries : entries = m.world.entries := by rw [World.entries, hfile, Option.getD_some]
      exact ⟨fun _ _ => ⟨fun _ _ => ⟨rfl, hentries⟩, fun _ _ => trivial⟩, fun _ _ => trivial⟩

theorem After.of_world {w : World} {m m' : Machine} (h : After drawn w m)
    (hsame : m'.world = m.world) : After drawn w m' :=
  ⟨hsame ▸ h.sound, hsame ▸ h.spares⟩

theorem Within.of_world {w : World} {m m' : Machine} (h : Within drawn w m)
    (hsame : m'.world = m.world) :
    Within drawn w m' :=
  ⟨h.toAfter.of_world hsame, hsame ▸ h.directory⟩

/-- The lock changes neither the rules nor what is owned. -/
theorem firewallLock_spec {m : Machine} (h : m.world.Sound drawn) :
    wp firewallLock m
      (fun _ m' =>
        Within drawn m.world m' ∧ m'.world.rules = m.world.rules ∧ m'.world.owns = m.world.owns)
      (fun _ m' => After drawn m.world m') := by
  refine wp_step (fun m' hw => ?_) fun m' hw => ?_
  · rw [hw]
    exact ⟨⟨⟨hw ▸ h.lock, hw ▸ World.Spares.refl _⟩, hw ▸ rfl⟩, rfl, rfl⟩
  · rcases hw with hw | hw
    · exact ⟨hw ▸ h, hw ▸ World.Spares.refl _⟩
    · exact ⟨hw ▸ h.lock, hw ▸ World.Spares.refl _⟩

/-- Saving the state touches no rule. -/
theorem saveFirewallState_spec {w : World} {m : Machine} (h : Within drawn w m)
    {entries : List Entry} (hsound : World.Sound { m.world with file := some entries } drawn) :
    wp (saveFirewallState entries) m
      (fun _ m' => Within drawn w m' ∧ m'.world = { m.world with file := some entries })
      (fun _ m' => After drawn w m' ∧ m'.world.rules = m.world.rules) := by
  have hafter :
      ∀ m' : Machine, m'.world = { m.world with file := some entries } → After drawn w m' := by
    intro m' hw
    exact ⟨hw ▸ hsound, h.spares.trans (hw ▸ World.Spares.refl _)⟩
  refine wp_step (fun m' hw => ⟨⟨hafter m' hw, hw ▸ h.directory⟩, hw⟩) fun m' hw => ?_
  rcases hw with hw | hw
  · exact ⟨h.toAfter.of_world hw, hw ▸ rfl⟩
  · exact ⟨hafter m' hw, hw ▸ rfl⟩

/-- The status of an entry is no part of what is owned. -/
theorem map_setStatus (key : Key) (status : Status) (entries : List Entry) :
    ((setStatus key status entries).map fun entry => (entry.plan, entry.tag)) =
      entries.map fun entry => (entry.plan, entry.tag) := by
  rw [setStatus, List.map_map]
  refine List.map_congr_left fun entry _ => ?_
  simp only [Function.comp_apply]
  split_ifs <;> rfl

/-! ### UFW -/

section Ufw
variable {ufw : Ufw} (hufw : ufw.Documented)
include hufw

/-- The inventory is that of the rules. -/
theorem firewallInventory_spec (m : Machine) :
    wp (firewallInventory ufw) m
      (fun inventory m' => m'.world = m.world ∧ inventory = inventoryOf m.world.rules)
      (fun _ m' => m'.world = m.world) := by
  rw [firewallInventory, wp_bind]
  refine wp_look (fun m' h => ?_) fun m' h => h
  simp only [world, wp_bind, wp_get, wp_pure, h, hufw.showAdded, inventoryOf, and_self]

/-- The rule of an entry is added. -/
theorem addRule_spec {w : World} {m : Machine} (h : Within drawn w m) {entries : List Entry}
    {entry : Entry} (hsound : World.Sound { m.world with file := some entries } drawn)
    (hentry : (entry.plan, entry.tag) ∈ entries.map fun entry => (entry.plan, entry.tag))
    (hfree : ∀ rule ∈ m.world.rules, rule.key? ≠ some entry.plan.key) :
    wp (addRule ufw entries entry) m
      (fun _ m' => After drawn w m' ∧ ∃ rule ∈ m'.world.rules, rule.key? = some entry.plan.key)
      (fun _ m' => After drawn w m') := by
  rw [addRule, wp_bind]
  refine wp_mono (saveFirewallState_spec h hsound) ?_ fun _ _ h => h.1
  rintro _ m₁ ⟨h₁, hw₁⟩
  have hmem : (entry.plan, entry.tag) ∈ m₁.world.owns := by
    rw [hw₁]
    exact hentry
  obtain ⟨hadd, hsound₂, hspares₂⟩ := h₁.sound.allow hufw hmem (by rw [hw₁]; exact hfree)
  have hafter :
    ∀ m' : Machine,
    m'.world = { m₁.world with rules := ufw.allow entry.plan entry.tag m₁.world.rules } →
      Within drawn w m' := fun m' hw =>
    ⟨⟨hw ▸ hsound₂, h₁.spares.trans (hw ▸ hspares₂)⟩, hw ▸ h₁.directory⟩
  rw [wp_bind]
  refine wp_step (fun m₂ hw₂ => ?_) fun m' hw =>
    hw.elim h₁.toAfter.of_world fun hw => (hafter m' hw).toAfter
  have h₂ := hafter m₂ hw₂
  have hthere : Rule.lan (toolRule entry.plan entry.tag) ∈ m₂.world.rules := by
    rw [hw₂]
    exact hadd ▸ List.mem_append_right _ (List.mem_singleton_self _)
  rw [wp_bind]
  refine wp_mono (firewallInventory_spec hufw m₂) ?_ fun _ m' hw => h₂.toAfter.of_world hw
  rintro inventory m₃ ⟨hw₃, rfl⟩
  have h₃ := h₂.of_world hw₃
  rw [wp_bind, wp_check]
  refine ⟨fun owned _ => ?_, fun _ _ => h₃.toAfter⟩
  rw [wp_ite]
  refine ⟨fun _ => ?_, fun _ => h₃.toAfter⟩
  rw [wp_bind]
  have hsame :
    ((setStatus entry.plan.key .installed entries).map fun entry => (entry.plan, entry.tag)) =
      m₃.world.owns := by
    rw [map_setStatus, hw₃, hw₂, hw₁]
    rfl
  refine wp_mono (saveFirewallState_spec h₃ (h₃.sound.save h₃.directory hsame)) ?_ fun _ _ h => h.1
  rintro _ m₄ ⟨h₄, hw₄⟩
  exact ⟨h₄.toAfter, _, by rw [hw₄, hw₃]; exact hthere, rfl⟩

/-! ### Installing -/

omit hufw in
/-- The entry of the plan is the only one of its scope. -/
theorem find_entry {w : World} {plan : Plan} {entry : Entry}
    (hfind : w.entries.find? (fun entry => entry.plan.key = plan.key) = some entry) :
    entry ∈ w.entries ∧ entry.plan.key = plan.key :=
  ⟨List.mem_of_find?_eq_some hfind, by simpa using List.find?_some hfind⟩

/-- What the first steps of an installation know. -/
theorem install_start {plan : Plan} {m : Machine} (h : m.world.Sound drawn)
    {k : List Entry → List (Text × Option ParsedRule) → FirewallM Installed}
    {Q : Installed → Machine → Prop} {E : Code → Machine → Prop}
    (hearly : ∀ e m', After drawn m.world m' → m'.world.rules = m.world.rules → E e m')
    (hstart : validateFirewallScope plan = .ok () → ∀ m', Within drawn m.world m' →
      m'.world.rules = m.world.rules → m'.world.owns = m.world.owns →
      wp (k m'.world.entries (inventoryOf m.world.rules)) m' Q E) :
    wp (do
      step "firewall_plan_invalid" id
      check (validateFirewallScope plan)
      step "firewall_inactive" id
      firewallLock
      let entries ← loadFirewallState
      let inventory ← firewallInventory ufw
      k entries inventory) m Q E := by
  have hhere : ∀ m' : Machine, m'.world = m.world → After drawn m.world m' := fun m' hw =>
    ⟨hw ▸ h, hw ▸ World.Spares.refl _⟩
  rw [wp_bind]
  refine wp_look (fun m₁ hw₁ => ?_) fun m' hw => hearly _ _ (hhere m' hw) (hw ▸ rfl)
  rw [wp_bind, wp_check]
  refine ⟨fun _ hvalid => ?_, fun _ _ => hearly _ _ (hhere m₁ hw₁) (hw₁ ▸ rfl)⟩
  rw [wp_bind]
  refine wp_look (fun m₂ hw₂ => ?_) fun m' hw =>
    hearly _ _ (hhere m' (hw.trans hw₁)) (by rw [hw, hw₁])
  have hsame := hw₂.trans hw₁
  rw [wp_bind]
  refine wp_step (fun m₃ hw₃ => ?_) fun m' hw => ?_
  swap
  · rw [hsame] at hw
    rcases hw with hw | hw
    · exact hearly _ _ (hhere m' hw) (hw ▸ rfl)
    · exact hearly _ _ ⟨hw ▸ h.lock, hw ▸ World.Spares.refl _⟩ (hw ▸ rfl)
  rw [hsame] at hw₃
  have h₃ : Within drawn m.world m₃ := ⟨⟨hw₃ ▸ h.lock, hw₃ ▸ World.Spares.refl _⟩, hw₃ ▸ rfl⟩
  have hrules : m₃.world.rules = m.world.rules := hw₃ ▸ rfl
  rw [wp_bind]
  refine wp_mono (loadFirewallState_spec m₃) ?_ fun _ _ hm => hm ▸ hearly _ _ h₃.toAfter hrules
  rintro _ _ ⟨rfl, rfl⟩
  rw [wp_bind]
  refine wp_mono (firewallInventory_spec hufw _) ?_ fun _ m' hw =>
    hearly _ _ (h₃.toAfter.of_world hw) (hw ▸ hrules)
  rintro _ m₄ ⟨hw₄, rfl⟩
  have hstart₄ := hstart hvalid m₄ (h₃.of_world hw₄) (hw₄ ▸ hrules) (by rw [hw₄, hw₃]; rfl)
  rw [hrules]
  exact hw₄ ▸ hstart₄

section Install
variable {plan : Plan} {token : Text} {m : Machine} (h : m.world.Sound drawn)
  (hi : plan.interface ≠ "comment".toList)
include h hi

/-- An installation leaves a sound world, and a rule for the plan if it succeeds. -/
theorem firewallInstall_spec (htoken : isTag ("NiriBridge-LAN-".toList ++ token) = true)
    (hfresh : "NiriBridge-LAN-".toList ++ token ∉ m.world.owns.map Prod.snd)
    (hdrawn : "NiriBridge-LAN-".toList ++ token ∈ drawn) :
    wp (firewallInstall ufw plan token) m
      (fun _ m' => After drawn m.world m' ∧ ∃ rule ∈ m'.world.rules, rule.key? = some plan.key)
      (fun _ m' => After drawn m.world m') := by
  refine install_start hufw h (fun _ _ ha _ => ha) fun hvalid m₁ h₁ hrules howns => ?_
  -- no rule was read with the scope, and so there is none
  have hfree := fun hnone => fun rule (hr : rule ∈ m₁.world.rules) =>
    matching_nil h hi hnone (hrules ▸ hr)
  cases hfind : m₁.world.entries.find? fun entry => entry.plan.key = plan.key with
  | some entry =>
      obtain ⟨hentry, hkey⟩ := find_entry hfind
      have hmem : (entry.plan, entry.tag) ∈ m₁.world.owns := List.mem_map_of_mem hentry
      simp only [wp_bind, wp_check, wp_ite]
      refine ⟨fun owned howned =>
        ⟨fun htrue => ?_, fun _ => ⟨fun _ => h₁.toAfter, fun hnone => ?_⟩⟩, fun _ _ => h₁.toAfter⟩
      · subst htrue
        have hsound := h₁.sound.save h₁.directory
          (map_setStatus plan.key .installed m₁.world.entries)
        refine wp_mono (saveFirewallState_spec h₁ hsound) ?_ fun _ _ h => h.1
        rintro _ m₂ ⟨h₂, hw₂⟩
        have hthere := owned_true h₁.sound hmem (hrules ▸ howned)
        exact ⟨h₂.toAfter, .lan (toolRule entry.plan entry.tag), by rw [hw₂]; exact hthere,
          congrArg some hkey⟩
      · have hsound := h₁.sound.save h₁.directory (map_setStatus plan.key .pending m₁.world.entries)
        refine wp_mono (addRule_spec hufw h₁ hsound ?_ ?_) ?_ fun _ _ h => h
        · rw [map_setStatus]
          exact hmem
        · rw [hkey]
          exact hfree (not_not.mp hnone)
        · rintro _ m₂ ⟨h₂, rule, hr, hrule⟩
          exact ⟨h₂, rule, hr, hrule.trans (congrArg some hkey)⟩
  | none =>
      simp only [wp_ite]
      refine ⟨fun hsome => ?_, fun hnone => ⟨fun _ => h₁.toAfter, fun hcount => ?_⟩⟩
      · -- a rule of somebody else lets the peer in already
        obtain ⟨rule, hr, hrule⟩ := matching_cons h hsome
        exact ⟨fun _ => h₁.toAfter, fun _ => ⟨h₁.toAfter, rule, hrules ▸ hr, hrule⟩⟩
      · -- a new entry, saved before the rule is added
        have hnew : plan.key ∉ m₁.world.owns.map fun p => p.1.key := by
          intro hmem
          obtain ⟨p, hp, hpkey⟩ := List.mem_map.mp hmem
          obtain ⟨entry, hentry, rfl⟩ := List.mem_map.mp hp
          exact absurd (List.find?_eq_none.mp hfind entry hentry) (by simpa using hpkey)
        have hsound : World.Sound { m₁.world with file := some (m₁.world.entries ++
            [⟨plan, "NiriBridge-LAN-".toList ++ token, .pending⟩]) } drawn :=
          h₁.sound.append h₁.directory rfl (not_le.mp hcount) ⟨htoken, hvalid⟩ hi hnew
            (howns ▸ hfresh) hdrawn
        refine wp_mono (addRule_spec hufw h₁ hsound ?_ (hfree (not_not.mp hnone))) (fun _ _ h => h)
          fun _ _ h => h
        exact List.mem_map_of_mem (List.mem_append_right _ (List.mem_singleton_self _))

/-- An installation where there is a rule of the scope already changes no rule. -/
theorem reinstall_spec (hthere : ∃ rule ∈ m.world.rules, rule.key? = some plan.key) :
    wp (firewallInstall ufw plan token) m (fun _ m' => m'.world.rules = m.world.rules)
      (fun _ m' => m'.world.rules = m.world.rules) := by
  have hsome : matchingFirewallRules (inventoryOf m.world.rules) plan ≠ [] := by
    intro hnone
    obtain ⟨rule, hr, hrule⟩ := hthere
    exact matching_nil h hi hnone hr hrule
  refine install_start hufw h (fun _ _ _ hr => hr) fun hvalid m₁ h₁ hrules howns => ?_
  cases hfind : m₁.world.entries.find? fun entry => entry.plan.key = plan.key with
  | some entry =>
      simp only [wp_bind, wp_check, wp_ite]
      refine ⟨fun owned _ =>
        ⟨fun _ => ?_, fun _ => ⟨fun _ => hrules, fun hnone => absurd hsome hnone⟩⟩,
        fun _ _ => hrules⟩
      refine wp_mono (saveFirewallState_spec h₁ (h₁.sound.save h₁.directory (map_setStatus ..))) ?_
        fun _ _ h => h.2.trans hrules
      rintro _ m₂ ⟨-, hw₂⟩
      exact (congrArg World.rules hw₂).trans hrules
  | none =>
      simp only [wp_ite]
      exact ⟨fun _ => ⟨fun _ => hrules, fun _ => hrules⟩, fun hnone => absurd hsome hnone⟩

end Install

/-! ### Removing -/

omit hufw in
/-- The entries of a sound world are distinct. -/
theorem nodup_of_owns {w : World} (h : w.Sound drawn) {entries : List Entry}
    (hsame : (entries.map fun entry => (entry.plan, entry.tag)) = w.owns) : entries.Nodup :=
  List.Nodup.of_map (fun entry : Entry => (entry.plan, entry.tag)) (hsame ▸ h.tags.of_map Prod.snd)

/-- What is left after the loop are entries that were not selected. -/
theorem removeSelected_spec {w : World} :
    ∀ (selected : List Entry) {m : Machine}, Within drawn w m →
    ∀ {entries : List Entry} (removed : ℕ),
      (entries.map fun entry => (entry.plan, entry.tag)) = m.world.owns →
      (∀ entry ∈ selected, entry ∈ entries) → selected.Nodup →
      wp (removeSelected ufw (inventoryOf m.world.rules) entries removed selected) m
        (fun r m' =>
          Within drawn w m' ∧ (r.1.map fun entry => (entry.plan, entry.tag)) = m'.world.owns ∧
          ∀ entry ∈ r.1, entry ∈ entries ∧ entry ∉ selected)
        (fun _ m' => After drawn w m')
  | [], m, h, entries, removed, hsame, _, _ =>
      ⟨h, hsame, fun _ hentry => ⟨hentry, List.not_mem_nil⟩⟩
  | entry :: selected, m, h, entries, removed, hsame, hselected, hnodup => by
      obtain ⟨hentry, hselected⟩ := List.forall_mem_cons.mp hselected
      obtain ⟨hnew, hnodup⟩ := List.nodup_cons.mp hnodup
      have hentries := nodup_of_owns h.sound hsame
      -- its rule is gone, and the entry goes with it
      have hrest :
        ∀ (m' : Machine) (removed : ℕ), Within drawn w m' → m'.world.owns = m.world.owns →
          Rule.lan (toolRule entry.plan entry.tag) ∉ m'.world.rules →
          wp (do
              saveFirewallState (entries.erase entry)
              removeSelected ufw (inventoryOf m'.world.rules) (entries.erase entry) removed
                selected) m'
            (fun r m' =>
              Within drawn w m' ∧ (r.1.map fun entry => (entry.plan, entry.tag)) = m'.world.owns ∧
              ∀ other ∈ r.1, other ∈ entries ∧ other ∉ entry :: selected)
            (fun _ m' => After drawn w m') := by
        intro m' removed h' howns hgone
        rw [wp_bind]
        refine wp_mono (saveFirewallState_spec h'
          (h'.sound.erase h'.directory (hsame.trans howns.symm) hentry hgone)) ?_ fun _ _ h => h.1
        rintro _ m₁ ⟨h₁, hw₁⟩
        have hrules : m₁.world.rules = m'.world.rules := by rw [hw₁]
        rw [← hrules]
        have hleft : ∀ other ∈ selected, other ∈ entries.erase entry := fun other ho =>
          (List.mem_erase_of_ne (ne_of_mem_of_not_mem ho hnew)).mpr (hselected other ho)
        refine wp_mono (removeSelected_spec selected h₁ removed (by rw [hw₁]; rfl) hleft hnodup) ?_
          fun _ _ h => h
        rintro r m₂ ⟨h₂, hsame₂, hr⟩
        refine ⟨h₂, hsame₂, fun other ho => ?_⟩
        obtain ⟨hin, hout⟩ := hr other ho
        obtain ⟨hne, hin⟩ := hentries.mem_erase_iff.mp hin
        exact ⟨hin, List.not_mem_cons_of_ne_of_not_mem hne hout⟩
      have hmem : (entry.plan, entry.tag) ∈ m.world.owns := hsame ▸ List.mem_map_of_mem hentry
      simp only [removeSelected, wp_bind, wp_check, wp_ite]
      refine ⟨fun owned howned => ⟨fun htrue => ?_, fun hfalse => ?_⟩, fun _ _ => h.toAfter⟩
      · subst htrue
        obtain ⟨hsound, hspares⟩ := h.sound.delete hufw hmem (owned_true h.sound hmem howned)
        have hafter :
          ∀ m' : Machine, m'.world = { m.world with rules := ufw.delete entry.plan m.world.rules } →
            Within drawn w m' := fun m' hw =>
          ⟨⟨hw ▸ hsound, h.spares.trans (hw ▸ hspares)⟩, hw ▸ h.directory⟩
        refine wp_step (fun m₁ hw₁ => ?_) fun m' hw =>
          hw.elim h.toAfter.of_world fun hw => (hafter m' hw).toAfter
        have h₁ := hafter m₁ hw₁
        have howns : m₁.world.owns = m.world.owns := by rw [hw₁]; rfl
        refine wp_mono (firewallInventory_spec hufw m₁) ?_ fun _ m' hw => h₁.toAfter.of_world hw
        rintro inventory m₂ ⟨hw₂, rfl⟩
        have h₂ := h₁.of_world hw₂
        refine ⟨fun owned howned => ⟨fun _ => h₂.toAfter, fun hfalse => ?_⟩, fun _ _ => h₂.toAfter⟩
        obtain rfl : owned = false := by simpa using hfalse
        have hgone := owned_false h₁.sound (howns ▸ hmem) howned
        rw [← hw₂] at hgone ⊢
        exact wp_bind.mp (hrest m₂ (removed + 1) h₂ (by rw [hw₂, howns]) hgone)
      · obtain rfl : owned = false := by simpa using hfalse
        exact wp_bind.mp (hrest m removed h rfl (owned_false h.sound hmem howned))

/-- When all entries have been removed, no rule of the script is left, and no state file. -/
theorem firewallRemove_spec {m : Machine} (h : m.world.Sound drawn) (plan : Option Plan) :
    wp (firewallRemove ufw plan) m
      (fun _ m' => After drawn m.world m' ∧
        (plan = none → m'.world.file = none ∧ ∀ rule ∈ m'.world.rules, rule.tagged = false))
      (fun _ m' => After drawn m.world m') := by
  -- every rule of the script has an entry, so without entries there is none
  have hclear :
      ∀ w : World, w.Sound drawn → w.owns = [] → ∀ rule ∈ w.rules, rule.tagged = false := by
    intro w hw hnone rule hr
    rw [Bool.eq_false_iff]
    intro htagged
    obtain ⟨p, hp, -⟩ := hw.owned rule hr htagged
    rw [hnone] at hp
    cases hp
  have hhere : After drawn m.world m := ⟨h, World.Spares.refl _⟩
  rw [firewallRemove, world, wp_bind, wp_bind, wp_get, wp_pure, wp_ite]
  refine ⟨fun hdirectory => ⟨hhere, fun _ => ?_⟩, fun _ => ?_⟩
  · -- nothing has ever been installed
    have hfile := h.directory hdirectory
    exact ⟨hfile, hclear _ h (by rw [World.owns, World.entries, hfile]; rfl)⟩
  rw [wp_bind]
  refine wp_mono (firewallLock_spec h) ?_ fun _ _ h => h
  rintro _ m₁ ⟨h₁, -, -⟩
  rw [wp_bind]
  refine wp_mono (loadFirewallState_spec m₁) ?_ fun _ _ hm => hm ▸ h₁.toAfter
  rintro _ _ ⟨rfl, rfl⟩
  rw [wp_bind]
  refine wp_mono (firewallInventory_spec hufw _) ?_ fun _ m' hw => h₁.toAfter.of_world hw
  rintro _ m₂ ⟨hw₂, rfl⟩
  have h₂ := h₁.of_world hw₂
  rw [wp_bind, wp_check, wp_bind]
  refine ⟨fun _ _ => ?_, fun _ _ => h₂.toAfter⟩
  have hsame : (m₂.world.entries.map fun entry => (entry.plan, entry.tag)) = m₂.world.owns := rfl
  rw [← hw₂]
  refine wp_mono (removeSelected_spec hufw _ h₂ 0 hsame (fun _ he => List.mem_of_mem_filter he)
    ((nodup_of_owns h₂.sound hsame).filter _)) ?_ fun _ _ h => h
  rintro ⟨left, removed⟩ m₃ ⟨h₃, hsame₃, hleft⟩
  dsimp only at hsame₃ hleft ⊢
  rw [wp_bind, wp_bind, wp_get, wp_pure, wp_ite]
  refine ⟨fun hempty => ?_, fun hkeep => ?_⟩
  · have hnone : m₃.world.owns = [] := by rw [← hsame₃, hempty.1, List.map_nil]
    have hafter :
        ∀ m' : Machine, m'.world = { m₃.world with file := none } → After drawn m.world m' :=
      fun m' hw => ⟨hw ▸ h₃.sound.unlink hnone, h₃.spares.trans (hw ▸ World.Spares.refl _)⟩
    rw [wp_bind]
    refine wp_step (fun m' hw => ⟨hafter m' hw, fun _ => ?_⟩) fun m' hw =>
      hw.elim h₃.toAfter.of_world (hafter m')
    have hnothing := hclear _ h₃.sound hnone
    exact ⟨by rw [hw], by rw [hw]; exact hnothing⟩
  · refine ⟨h₃.toAfter, ?_⟩
    rintro rfl
    have hempty : left = [] := List.eq_nil_iff_forall_not_mem.mpr fun entry hentry =>
      (hleft entry hentry).2 (List.mem_filter.mpr ⟨(hleft entry hentry).1, rfl⟩)
    have hfile : m₃.world.file = none := by simpa [hempty] using hkeep
    exact ⟨hfile, hclear _ h₃.sound (by rw [← hsame₃, hempty, List.map_nil])⟩

end Ufw

end NiriBridge.Firewall
