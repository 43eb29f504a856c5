import NiriBridge.Firewall.Runs

/-!
# Firewall — History

Any number of runs, one after the other under the lock, and between them the administrator, who does
to the other rules what they like.

`parse_firewall_rule` takes the comment to begin at the first ` comment `.  An interface of that
name comes before it, and no rule on it is ever read: an installation replaces one that is somebody
else's.  `Respects` is what every step does when no plan is on such an interface.
-/

namespace NiriBridge.Firewall

open Hoare Words

/-- The world, and the tags drawn by `secrets.token_hex`. -/
structure History where
  world : World
  drawn : List Text

/-- A run of the script, with what happens to its steps, or a change of the rules by the
administrator. -/
inductive Label where
  | install (plan : Plan) (token : Text) (faults : List (Option Fault))
  | remove (plan : Option Plan) (faults : List (Option Fault))
  | administrator (rules : List Rule)

/-- Where a run has ended, whichever way. -/
def ended {α : Type} : EStateM.Result Code Machine α → World
  | .ok _ m => m.world
  | .error _ m => m.world

/-- What holds however a run ends holds of the world it leaves. -/
theorem ended_of_wp {α : Type} {run : FirewallM α} {m : Machine} {P : World → Prop}
    (h : wp run m (fun _ m' => P m'.world) (fun _ m' => P m'.world)) : P (ended (run m)) := by
  unfold wp at h
  cases hrun : run m <;> rw [hrun] at h <;> exact h

/-- The rules of others. -/
def World.others (w : World) : List Rule := w.rules.filter (!·.tagged)

/-- A device on which the script has never run. -/
structure World.Unused (w : World) : Prop where
  lawful : Lawful w.rules
  file : w.file = none
  untagged : ∀ rule ∈ w.rules, rule.tagged = false

/-- Every rule of the script is in its state file, whose entries have different scopes and tags. -/
structure World.Recorded (w : World) : Prop where
  named :
    ∀ rule ∈ w.rules, rule.tagged = true → ∃ entry ∈ w.entries, rule.key? = some entry.plan.key
  keys : (w.entries.map fun entry => entry.plan.key).Nodup
  tags : (w.entries.map Entry.tag).Nodup

/-- A sound world has recorded what it owns. -/
theorem World.Sound.recorded {w : World} {drawn : List Text} (h : w.Sound drawn) : w.Recorded where
  named rule hr htagged := by
    obtain ⟨p, hp, rfl⟩ := h.owned rule hr htagged
    obtain ⟨entry, hentry, rfl⟩ := List.mem_map.mp hp
    exact ⟨entry, hentry, rfl⟩
  keys := by simpa only [World.owns, List.map_map, Function.comp_def] using h.keys
  tags := by simpa only [World.owns, List.map_map, Function.comp_def] using h.tags

/-- A world in which nothing was installed is sound. -/
theorem World.Unused.sound {w : World} (h : w.Unused) (drawn : List Text) : w.Sound drawn := by
  have howns : w.owns = [] := by rw [World.owns, World.entries, h.file]; rfl
  refine ⟨h.lawful, fun _ => h.file, ?_, ?_, ?_, ?_, ?_, ?_, fun rule hr htagged => ?_⟩
  case refine_7 => exact absurd ((h.untagged rule hr).symm.trans htagged) (by simp)
  all_goals simp [howns]

/-- The administrator leaves the rules of the script alone. -/
theorem World.Sound.administrator {w : World} {drawn : List Text} (h : w.Sound drawn)
    {rules : List Rule} (hlawful : Lawful rules)
    (hsame : rules.filter Rule.tagged = w.rules.filter Rule.tagged) :
    World.Sound { w with rules := rules } drawn := by
  refine ⟨hlawful, h.directory, h.count, h.valid, h.named, h.keys, h.tags, h.made,
    fun rule hr htagged => ?_⟩
  have hmem : rule ∈ w.rules.filter Rule.tagged := hsame ▸ List.mem_filter.mpr ⟨hr, htagged⟩
  exact h.owned rule (List.mem_of_mem_filter hmem) htagged

namespace History

section Step
variable (ufw : Ufw)

/-- What a label does to the world; the tokens that are drawn are kept. -/
def next (s : History) : Label → History
  | .install plan token faults =>
      { world := ended (firewallInstall ufw plan token ⟨s.world, faults⟩)
        drawn := ("NiriBridge-LAN-".toList ++ token) :: s.drawn }
  | .remove plan faults => { s with world := ended (firewallRemove ufw plan ⟨s.world, faults⟩) }
  | .administrator rules => { s with world := { s.world with rules := rules } }

/-- A token is sixteen hex digits that were not drawn before, and the administrator changes only
rules without a tag of the script; UFW keeps one rule of each scope. -/
def Permitted (s : History) : Label → Prop
  | .install _ token _ =>
      isTag ("NiriBridge-LAN-".toList ++ token) = true ∧ "NiriBridge-LAN-".toList ++ token ∉ s.drawn
  | .remove _ _ => True
  | .administrator rules =>
      Lawful rules ∧ rules.filter Rule.tagged = s.world.rules.filter Rule.tagged

/-- A run leaves the rules of others alone; a plan that has been installed has one rule, also after
it is installed again; and when all entries have been removed there is no rule of the script and no
state file. -/
def Respects (s : History) : Label → Prop
  | .install plan token faults =>
      (s.next ufw (.install plan token faults)).world.others = s.world.others ∧
        ∀ installed m, firewallInstall ufw plan token ⟨s.world, faults⟩ = .ok installed m →
          m.world.rules.countP (Rule.hasKey plan.key) = 1 ∧
            ∀ token faults,
            (ended (firewallInstall ufw plan token ⟨m.world, faults⟩)).rules = m.world.rules
  | .remove plan faults =>
      (s.next ufw (.remove plan faults)).world.others = s.world.others ∧
        (plan = none → ∀ removed m, firewallRemove ufw none ⟨s.world, faults⟩ = .ok removed m →
          m.world.file = none ∧ ∀ rule ∈ m.world.rules, rule.tagged = false)
  | .administrator _ => True

end Step

/-- The plan is not on an interface called `comment`. -/
def Readable : Label → Prop
  | .install plan _ _ => plan.interface ≠ "comment".toList
  | _ => True

instance : DecidablePred Readable
  | .install _ _ _ => inferInstanceAs (Decidable (_ ≠ _))
  | .remove _ _ => isTrue trivial
  | .administrator _ => isTrue trivial

/-- A permitted label keeps the world sound, and respects the rules of others. -/
theorem Sound.next {ufw : Ufw} (hufw : ufw.Documented) {s : History} (h : s.world.Sound s.drawn)
    {l : Label} (hp : s.Permitted l) (hr : Readable l) :
    (s.next ufw l).world.Sound (s.next ufw l).drawn ∧ s.Respects ufw l := by
  cases l with
  | install plan token faults =>
      have hi : plan.interface ≠ "comment".toList := hr
      obtain ⟨htag, hfresh⟩ := hp
      have hsound := h.mono (List.subset_cons_self ("NiriBridge-LAN-".toList ++ token) s.drawn)
      have hnew : "NiriBridge-LAN-".toList ++ token ∉ s.world.owns.map Prod.snd := by
        intro hmem
        obtain ⟨p, hp, hptag⟩ := List.mem_map.mp hmem
        exact hfresh (hptag ▸ h.made p hp)
      have hspec :=
        firewallInstall_spec hufw (m := ⟨s.world, faults⟩) hsound hi htag hnew List.mem_cons_self
      obtain ⟨hsound', hspares⟩ := ended_of_wp (P := fun w => w.Sound _ ∧ s.world.Spares w)
        (wp_mono hspec (fun _ _ h => ⟨h.1.sound, h.1.spares⟩) fun _ _ h => ⟨h.sound, h.spares⟩)
      refine ⟨hsound', hspares, fun installed m hm => ?_⟩
      rw [wp, hm] at hspec
      obtain ⟨hafter, rule, hrule, hkey⟩ := hspec
      refine ⟨hafter.sound.lawful.countP hrule hkey, fun token' faults' => ?_⟩
      exact ended_of_wp (P := fun w => w.rules = m.world.rules)
        (reinstall_spec hufw (m := ⟨m.world, faults'⟩) hafter.sound hi ⟨rule, hrule, hkey⟩)
  | remove plan faults =>
      have hspec := firewallRemove_spec hufw (m := ⟨s.world, faults⟩) h plan
      obtain ⟨hsound', hspares⟩ := ended_of_wp (P := fun w => w.Sound _ ∧ s.world.Spares w)
        (wp_mono hspec (fun _ _ h => ⟨h.1.sound, h.1.spares⟩) fun _ _ h => ⟨h.sound, h.spares⟩)
      refine ⟨hsound', hspares, ?_⟩
      rintro rfl removed m hm
      rw [wp, hm] at hspec
      exact hspec.2 rfl
  | administrator rules => exact ⟨h.administrator hp.1 hp.2, trivial⟩

/-- **The script owns its rules and no others.**

UFW being as documented, from a device on which the script has never run, through any runs of it,
each of which may be killed or have a command fail at any step, and any changes to rules without one
of its tags, none of the plans being on an interface called `comment`: every rule of the script is
in its state file, the entries of which have different scopes and tags, and every run `Respects` the
rules of others. -/
theorem ownership {ufw : Ufw} (hufw : ufw.Documented) {s : History} (hs : s.world.Unused)
    (ls : List Label) (hp : Run.Along (next ufw) Permitted s ls) (hr : ∀ l ∈ ls, Readable l) :
    (Run.run (next ufw) s ls).world.Recorded ∧ Run.Along (next ufw) (Respects ufw) s ls := by
  suffices h : ∀ s : History, s.world.Sound s.drawn → Run.Along (next ufw) Permitted s ls →
      (Run.run (next ufw) s ls).world.Sound (Run.run (next ufw) s ls).drawn ∧
        Run.Along (next ufw) (Respects ufw) s ls from
    (h s (hs.sound s.drawn) hp).imp World.Sound.recorded id
  intro s hs hp
  clear * - hufw hs hp hr
  induction ls generalizing s with
  | nil => exact ⟨hs, trivial⟩
  | cons l ls ih =>
      obtain ⟨hnow, hlater⟩ := List.forall_mem_cons.mp hr
      obtain ⟨hsound, hrespects⟩ := Sound.next hufw hs hp.1 hnow
      obtain ⟨hend, halong⟩ := ih hlater _ hsound hp.2
      exact ⟨hend, hrespects, halong⟩

section Sample

/-- UFW in so many words. -/
def sampleUfw : Ufw where
  allow plan tag rules :=
    if rules.any (Rule.hasKey plan.key) then
      rules.map fun rule => if rule.hasKey plan.key then .lan (toolRule plan tag) else rule
    else rules ++ [.lan (toolRule plan tag)]
  delete plan rules := rules.filter (!·.allows plan.key)
  showAdded := addedRules

theorem sampleUfw_documented : sampleUfw.Documented where
  append _ _ _ h := if_neg (by simp [h])
  replace _ _ _ h := if_pos h
  delete _ _ := rfl
  showAdded _ := rfl

/-- A plan for two hosts of one network. -/
def samplePlan (interface : String) : Plan where
  peer := "192.168.1.20".toList
  own := "192.168.1.10".toList
  interface := interface.toList
  port := 42420

/-- The administrator keeps the peer out. -/
def denied (interface : String) : Rule :=
  .lan { toolRule (samplePlan interface) [] with action := "deny".toList }

/-- A world in which nothing has been installed. -/
def sampleHistory (rules : List Rule) : History where
  world := { rules := rules, directory := false, file := none }
  drawn := []

theorem deny_mem : "deny".toList ∈ actions := by decide

theorem denied_lawful {interface : String}
    (hvalid : validateFirewallScope (samplePlan interface) = .ok ())
    (hlisted : ∀ line ∈ (denied interface).lines, ∀ read, parseFirewallRule line = some read →
      (denied interface).key? = some read.key) :
    Lawful [denied interface] where
  normal rule hr := by
    obtain rfl := Rule.lan.inj (List.mem_singleton.mp hr)
    have h := toolRule_normal hvalid []
    exact ⟨deny_mem, h.interface, h.log, h.peer, h.own, h.port⟩
  distinct := List.nodup_singleton _
  listed rule hr line hline _ := by
    obtain rfl := List.mem_singleton.mp hr
    exact hlisted line hline

/-- An installation on an interface called `comment` replaces the rule that keeps the peer out. -/
theorem comment_interface_replaced : ¬ ∀ (ufw : Ufw) (s : History) (ls : List Label),
    ufw.Documented → s.world.Unused → Run.Along (next ufw) Permitted s ls →
      (Run.run (next ufw) s ls).world.Recorded ∧ Run.Along (next ufw) (Respects ufw) s ls := by
  intro hall
  have hunread :
      ∀ line ∈ (denied "comment").lines, parseFirewallRule line = none := by decide +kernel
  have hlawful : Lawful [denied "comment"] :=
    denied_lawful (by decide +kernel) fun line hline read hread =>
      absurd ((hunread line hline).symm.trans hread) nofun
  have hunused : (sampleHistory [denied "comment"]).world.Unused :=
    ⟨hlawful, rfl, by decide +kernel⟩
  have hpermitted : (sampleHistory [denied "comment"]).Permitted
      (.install (samplePlan "comment") "0123456789abcdef".toList []) := by
    refine ⟨by decide +kernel, List.not_mem_nil⟩
  obtain ⟨-, ⟨hothers, -⟩, -⟩ :=
    hall sampleUfw _ [_] sampleUfw_documented hunused ⟨hpermitted, trivial⟩
  revert hothers
  decide +kernel

/-- The peer is kept out on one interface, where nothing is installed.  On the other the
installation is killed once the rule is there, and done again; then all is removed. -/
def sampleRun : List Label :=
  [.administrator [denied "eth0"], .install (samplePlan "eth0") "0000000000000000".toList [],
    .install (samplePlan "wlan0") "0123456789abcdef".toList
      [none, none, none, none, none, some .after],
    .install (samplePlan "wlan0") "fedcba9876543210".toList [], .remove none []]

/-- The world after so many of them. -/
def sampleAfter (n : ℕ) : World :=
  (Run.run (next sampleUfw) (sampleHistory []) (sampleRun.take n)).world

theorem ownership_killed_install :
    (Run.run (next sampleUfw) (sampleHistory []) sampleRun).world.Recorded ∧
      Run.Along (next sampleUfw) (Respects sampleUfw) (sampleHistory []) sampleRun ∧
      (sampleAfter 3).entries.map Entry.status = [.pending] ∧
      (sampleAfter 4).entries.map Entry.status = [.installed] ∧
      (sampleAfter 4).rules.length = 2 ∧ (sampleAfter 5).rules = [denied "eth0"] := by
  have hread : ∀ line ∈ (denied "eth0").lines,
      (parseFirewallRule line).map ParsedRule.key = some (samplePlan "eth0").key := by
    decide +kernel
  have hlawful : Lawful [denied "eth0"] := by
    refine denied_lawful (by decide +kernel) fun line hline read hr => ?_
    have hkey := hread line hline
    rw [hr] at hkey
    exact hkey.symm
  have hunused : (sampleHistory []).world.Unused :=
    ⟨hlawful.sublist (List.nil_sublist _), rfl, nofun⟩
  have htokens :
      Run.Along (next sampleUfw) Permitted (sampleHistory [denied "eth0"]) sampleRun.tail := by
    refine ⟨?_, ?_, ?_, trivial, trivial⟩ <;> exact ⟨by decide +kernel, by decide +kernel⟩
  obtain ⟨hrecorded, hrespects⟩ := ownership sampleUfw_documented hunused sampleRun
    ⟨⟨hlawful, by decide +kernel⟩, htokens⟩ (by decide +kernel)
  exact ⟨hrecorded, hrespects, by decide +kernel, by decide +kernel, by decide +kernel,
    by decide +kernel⟩

end Sample

end History

end NiriBridge.Firewall
