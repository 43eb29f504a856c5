import NiriBridge.Support.Hoare
import NiriBridge.Support.Words
import Mathlib.Data.List.DropRight
import Mathlib.Data.List.Infix

/-!
# Model — Firewall

`scripts/device-access.py`, the part that lets one peer through the firewall: UFW's rules are added
and deleted one at a time, and the file `firewall-access.json` says which of them are the script's.

A run may be killed, or have a command fail, before or after any of its steps takes effect
(`Fault`).  Python's exceptions are their codes.  The program `ufw` is a parameter (`Ufw`), and what
the script relies on is `Ufw.Documented`.
-/

namespace NiriBridge.Firewall

open Hoare Words

/-- `FirewallError`, or any other exception that ends a run. -/
abbrev Code := String

/-- A plan that has been reviewed.  `own` is its `local`. -/
structure Plan where
  peer : Text
  own : Text
  interface : Text
  port : ℤ
deriving DecidableEq

/-- What a rule is about: peer, own address, interface and port. -/
abbrev Key := Text × Text × Text × ℤ

/-- `firewall_key`. -/
def Plan.key (plan : Plan) : Key := (plan.peer, plan.own, plan.interface, plan.port)

/-- What the file says of an entry. -/
inductive Status where
  | pending
  | installed
deriving DecidableEq

/-- A rule of the script, in its state file. -/
structure Entry where
  plan : Plan
  tag : Text
  status : Status
deriving DecidableEq

/-! ### Addresses and numbers -/

/-- The number that decimal digits stand for, if there are any. -/
def digits (text : Text) : Option ℕ :=
  if text ≠ [] ∧ text.all Char.isDigit then some (Nat.ofDigitChars 10 text 0) else none

/-- One part of an IPv4 address. -/
def octet (text : Text) : Option ℕ := do
  let value ← digits text
  if text.length ≤ 3 ∧ (text = ['0'] ∨ text.head? ≠ some '0') ∧ value ≤ 255 then some value
  else none

/-- `ipaddress.ip_address`, of version 4. -/
def octets (text : Text) : Option (List ℕ) :=
  let parts := text.splitOn '.'
  if parts.length = 4 ∧ parts.all fun part => (octet part).isSome then
    some (parts.filterMap octet)
  else none

/-- `ipaddress.ip_network(text, strict=False)` with a single address of version 4: that address. -/
def hostAddress (text : Text) : Option Text :=
  match text.splitOn '/' with
  | [address] => (octets address).map fun _ => address
  | [address, mask] =>
      if digits mask = some 32 ∨ mask = "255.255.255.255".toList then
        (octets address).map fun _ => address
      else none
  | _ => none

/-- `lan_address(text) == text`. -/
def isLanAddress (text : Text) : Bool :=
  match octets text with
  | some (a :: b :: _) => a == 10 || (a == 172 && 16 ≤ b && b ≤ 31) || (a == 192 && b == 168)
  | _ => false

/-- Digits with single underscores between them. -/
def groupedDigits (text : Text) : Option ℕ :=
  if (text.splitOn '_').all fun group => (digits group).isSome then
    digits (text.filter (· ≠ '_'))
  else none

/-- The characters that `int` skips around a number. -/
def isSpace (c : Char) : Bool :=
  let n := c.toNat
  (9 ≤ n && n ≤ 13) || n == 0x20 || n == 0x85 || n == 0xA0 || n == 0x1680 ||
    (0x2000 ≤ n && n ≤ 0x200A) || n == 0x2028 || n == 0x2029 || n == 0x202F || n == 0x205F ||
    n == 0x3000

/-- The zeros of the scripts that write decimal numbers, in Unicode 15. -/
def zeros : List ℕ :=
  [0x30, 0x660, 0x6F0, 0x7C0, 0x966, 0x9E6, 0xA66, 0xAE6, 0xB66, 0xBE6, 0xC66, 0xCE6, 0xD66,
    0xDE6, 0xE50, 0xED0, 0xF20, 0x1040, 0x1090, 0x17E0, 0x1810, 0x1946, 0x19D0, 0x1A80, 0x1A90,
    0x1B50, 0x1BB0, 0x1C40, 0x1C50, 0xA620, 0xA8D0, 0xA900, 0xA9D0, 0xA9F0, 0xAA50, 0xABF0,
    0xFF10, 0x104A0, 0x10D30, 0x11066, 0x110F0, 0x11136, 0x111D0, 0x112F0, 0x11450, 0x114D0,
    0x11650, 0x116C0, 0x11730, 0x118E0, 0x11950, 0x11C50, 0x11D50, 0x11DA0, 0x11F50, 0x16A60,
    0x16AC0, 0x16B50, 0x1D7CE, 0x1D7D8, 0x1D7E2, 0x1D7EC, 0x1D7F6, 0x1E140, 0x1E2F0, 0x1E4F0,
    0x1E950, 0x1FBF0]

/-- A decimal digit of any script as one of ASCII. -/
def asciiDigit (c : Char) : Char :=
  match zeros.find? fun first => first ≤ c.toNat && c.toNat < first + 10 with
  | some first => Char.ofNat ('0'.toNat + (c.toNat - first))
  | none => c

/-- The number that an optional sign and digits stand for. -/
def signedDigits : Text → Option ℤ
  | '-' :: text => (groupedDigits text).map fun n => -Int.ofNat n
  | '+' :: text => (groupedDigits text).map Int.ofNat
  | text => (groupedDigits text).map Int.ofNat

/-- `int(text)`: blanks around the number do not count, and its digits are of any script. -/
def parseInt (text : Text) : Option ℤ :=
  signedDigits (((text.dropWhile isSpace).rdropWhile isSpace).map asciiDigit)

/-- `str` of a port. -/
def showPort (port : ℤ) : Text := Nat.toDigits 10 port.toNat

/-! ### The plan -/

/-- `[A-Za-z0-9][A-Za-z0-9_.:-]{0,14}`. -/
def isInterface : Text → Bool
  | [] => false
  | c :: cs => c.isAlphanum && cs.length ≤ 14 && cs.all fun c =>
      c.isAlphanum || c == '_' || c == '.' || c == ':' || c == '-'

/-- `validate_firewall_scope`. -/
def validateFirewallScope (plan : Plan) : Except Code Unit :=
  if ¬ (1 ≤ plan.port ∧ plan.port ≤ 65535 ∧ isInterface plan.interface) then
    .error "firewall_plan_invalid"
  else if ¬ (isLanAddress plan.peer ∧ isLanAddress plan.own ∧ plan.peer ≠ plan.own) then
    .error "firewall_peer_invalid"
  else .ok ()

/-- `NiriBridge-LAN-[a-f0-9]{16}`. -/
def isTag (tag : Text) : Bool :=
  "NiriBridge-LAN-".toList.isPrefixOf tag && tag.length == 31 &&
    (tag.drop 15).all fun c => c.isDigit || ('a' ≤ c && c ≤ 'f')

/-! ### UFW -/

/-- A rule that lets packets of one scope in, or keeps them out.  An absent interface, log or
comment is empty. -/
structure LanRule where
  action : Text
  interface : Text
  log : Text
  peer : Text
  own : Text
  port : ℤ
  comment : Text
deriving DecidableEq

/-- A rule for TCP between two hosts, or one of another scope by its line. -/
inductive Rule where
  | lan (rule : LanRule)
  | other (line : Text)
deriving DecidableEq

/-- What UFW tells rules apart by, where a plan can have it. -/
def LanRule.key (rule : LanRule) : Key := (rule.peer, rule.own, rule.interface, rule.port)

/-- The normalized rule, after `ufw` and without its comment. -/
def LanRule.words (rule : LanRule) : List Text :=
  rule.action ::
    ((if rule.interface = [] then [] else ["in".toList, "on".toList, rule.interface]) ++
    ((if rule.log = [] then [] else [rule.log]) ++
      ["from".toList, rule.peer, "to".toList, rule.own, "port".toList, showPort rule.port,
        "proto".toList, "tcp".toList]))

/-- A rule as `ufw show added` lists it. -/
def Rule.line : Rule → Text
  | .lan rule => "ufw".toList ++ (lead rule.words ++
      (if rule.comment = [] then [] else " comment '".toList ++ (rule.comment ++ ['\''])))
  | .other line => line

/-- The rule that `firewall_arguments` asks for. -/
def toolRule (plan : Plan) (tag : Text) : LanRule where
  action := "allow".toList
  interface := plan.interface
  log := []
  peer := plan.peer
  own := plan.own
  port := plan.port
  comment := tag

/-- Whether a rule is the one between two hosts with a key. -/
def Rule.hasKey (key : Key) : Rule → Bool
  | .lan rule => rule.key == key
  | .other _ => false

/-- Whether `ufw delete allow …` for a key is about a rule, whose comment does not count. -/
def Rule.allows (key : Key) : Rule → Bool
  | .lan rule => rule.key == key && rule.action == "allow".toList
  | .other _ => false

/-- The line above the rules in the output of `ufw show added`. -/
def addedHeader : Text := "Added user rules (see 'ufw status' for running firewall):".toList

/-- Rules with their normalized lines. -/
def addedRules (rules : List Rule) : Text :=
  addedHeader ++ '\n' :: rules.flatMap fun rule => rule.line ++ ['\n']

/-- The program `ufw`: what its commands make of the rules, and what it prints. -/
structure Ufw where
  /-- `ufw allow …`, with the arguments of `firewall_arguments`. -/
  allow : Plan → Text → List Rule → List Rule
  /-- `ufw delete allow …`. -/
  delete : Plan → List Rule → List Rule
  /-- `ufw show added`. -/
  showAdded : List Rule → Text

/-- **What the script relies on.**  UFW keeps at most one rule of a scope: a new one is appended, or
takes the place of the one that is there.  It deletes by scope and action, and lists every rule in
its normalized form. -/
structure Ufw.Documented (ufw : Ufw) : Prop where
  append : ∀ plan tag rules, rules.any (Rule.hasKey plan.key) = false →
    ufw.allow plan tag rules = rules ++ [.lan (toolRule plan tag)]
  replace : ∀ plan tag rules, rules.any (Rule.hasKey plan.key) = true →
    ufw.allow plan tag rules =
      rules.map fun rule => if rule.hasKey plan.key then .lan (toolRule plan tag) else rule
  delete : ∀ plan rules, ufw.delete plan rules = rules.filter (!·.allows plan.key)
  showAdded : ∀ rules, ufw.showAdded rules = addedRules rules

/-! ### Reading the rules -/

/-- What `parse_firewall_rule` returns. -/
structure ParsedRule where
  action : Text
  interface : Text
  peer : Text
  own : Text
  port : ℤ
  comment : Text
  log : Text
deriving DecidableEq

/-- The key of a rule that has been read. -/
def ParsedRule.key (rule : ParsedRule) : Key := (rule.peer, rule.own, rule.interface, rule.port)

/-- The words of a rule as they are read, in the order they stand. -/
structure Fields where
  interface : Text := []
  peer : Text := "any".toList
  own : Text := "any".toList
  port : Text := "any".toList
  protocol : Text := "any".toList
  log : Text := []
deriving DecidableEq

/-- The loop over the words. -/
def readFields (fields : Fields) : List Text → Option Fields
  | [] => some fields
  | token :: rest =>
      if token = "in".toList then
        match rest with
        | on :: interface :: rest =>
            if on = "on".toList then readFields { fields with interface := interface } rest
            else none
        | _ => none
      else if token = "log".toList ∨ token = "log-all".toList then
        readFields { fields with log := token } rest
      else if token = "from".toList then
        match rest with
        | peer :: port :: value :: rest =>
            if port = "port".toList then
              if value = "any".toList then readFields { fields with peer := peer } rest else none
            else readFields { fields with peer := peer } (port :: value :: rest)
        | [peer, port] =>
            if port = "port".toList then none else readFields { fields with peer := peer } [port]
        | [peer] => some { fields with peer := peer }
        | [] => none
      else if token = "to".toList then
        match rest with
        | own :: port :: value :: rest =>
            if port = "port".toList then readFields { fields with own := own, port := value } rest
            else readFields { fields with own := own } (port :: value :: rest)
        | [own, port] =>
            if port = "port".toList then none else readFields { fields with own := own } [port]
        | [own] => some { fields with own := own }
        | [] => none
      else if token = "proto".toList then
        match rest with
        | protocol :: rest => readFields { fields with protocol := protocol } rest
        | [] => none
      else none

/-- The comment without the quotes around it. -/
def unquote (comment : Text) : Text :=
  if 2 ≤ comment.length ∧ comment.head? = some '\'' ∧ comment.getLast? = some '\'' then
    (comment.drop 1).dropLast
  else comment

/-- The actions a rule may have. -/
def actions : List Text := ["allow".toList, "deny".toList, "reject".toList, "limit".toList]

/-- `parse_firewall_rule`. -/
def parseFirewallRule (line : Text) : Option ParsedRule := do
  let parts := (partition (between "comment".toList) line).getD (line, [])
  let tokens ← split parts.1
  match tokens with
  | ufw :: action :: words =>
      if ufw = "ufw".toList ∧ action ∈ actions then
        let fields ← readFields {} words
        let peer ← hostAddress fields.peer
        let own ← hostAddress fields.own
        if fields.protocol = "tcp".toList then
          let port ← parseInt fields.port
          return {
            action := action
            interface := fields.interface
            peer := peer
            own := own
            port := port
            comment := unquote parts.2
            log := fields.log }
        else none
      else none
  | _ => none

/-! ### Runs -/

/-- What a run can change. -/
structure World where
  rules : List Rule
  /-- The directory of the state file and of its lock is there. -/
  directory : Bool
  /-- `firewall-access.json`. -/
  file : Option (List Entry)

/-- A step that ends the run: it is killed there, or what it calls fails. -/
inductive Fault where
  | before
  | after
deriving DecidableEq

/-- The world, and what happens to the steps that are still to come. -/
structure Machine where
  world : World
  faults : List (Option Fault)

/-- What the script does: it runs against the machine, and may raise an exception. -/
abbrev FirewallM := EStateM Code Machine

/-- One step that changes the world. -/
def step (code : Code) (effect : World → World) : FirewallM Unit := fun m =>
  match m.faults with
  | [] => .ok () { m with world := effect m.world }
  | none :: faults => .ok () ⟨effect m.world, faults⟩
  | some .before :: faults => .error code ⟨m.world, faults⟩
  | some .after :: faults => .error code ⟨effect m.world, faults⟩

/-- A computation that leaves the machine alone. -/
def check {α : Type} (r : Except Code α) : FirewallM α := lift id r

/-- The world as it is. -/
def world : FirewallM World := do
  let m ← get
  return m.world

/-- `firewall_lock`, as far as it makes the directory. -/
def firewallLock : FirewallM Unit := step "firewall_busy" fun w => { w with directory := true }

/-- The entries in order, none with the scope or the tag of one before it. -/
def checkEntries (keys : List Key) (tags : List Text) : List Entry → Except Code Unit
  | [] => .ok ()
  | entry :: entries =>
      if ¬ isTag entry.tag then .error "firewall_changed"
      else
        match validateFirewallScope entry.plan with
        | .error code => .error code
        | .ok () =>
            if entry.plan.key ∈ keys ∨ entry.tag ∈ tags then .error "firewall_changed"
            else checkEntries (entry.plan.key :: keys) (entry.tag :: tags) entries

/-- `load_firewall_state`. -/
def loadFirewallState : FirewallM (List Entry) := do
  let w ← world
  match w.file with
  | none => return []
  | some entries =>
      check (if entries.length ≤ 128 then .ok () else .error "firewall_changed")
      check (checkEntries [] [] entries)
      return entries

/-- `save_firewall_state`. -/
def saveFirewallState (entries : List Entry) : FirewallM Unit :=
  step "firewall_failed" fun w => { w with file := some entries }

/-- `str.splitlines`, up to empty lines. -/
def isLineBreak (c : Char) : Bool :=
  let n := c.toNat
  (10 ≤ n && n ≤ 13) || (0x1C ≤ n && n ≤ 0x1E) || n == 0x85 || n == 0x2028 || n == 0x2029

/-- The lines of UFW that are rules, and what each is read as. -/
def readInventory (output : Text) : List (Text × Option ParsedRule) :=
  ((output.splitOnP isLineBreak).filter fun line => "ufw ".toList.isPrefixOf line).map
    fun line => (line, parseFirewallRule line)

section Script

variable (ufw : Ufw)

/-- `firewall_inventory`. -/
def firewallInventory : FirewallM (List (Text × Option ParsedRule)) := do
  step "firewall_unavailable" id
  let w ← world
  return readInventory (ufw.showAdded w.rules)

/-- `matching_firewall_rules`. -/
def matchingFirewallRules (inventory : List (Text × Option ParsedRule)) (plan : Plan) :
    List ParsedRule :=
  (inventory.filterMap Prod.snd).filter fun rule => rule.key = plan.key

/-- `owned_firewall_rule`: whether UFW lists the rule of an entry, and that it is as it was made. -/
def ownedFirewallRule (inventory : List (Text × Option ParsedRule)) (entry : Entry) :
    Except Code Bool :=
  match inventory.filter fun p => entry.tag <:+: p.1 with
  | [] => .ok false
  | [(_, some rule)] =>
      if rule.comment = entry.tag ∧ rule.key = entry.plan.key ∧ rule.action = "allow".toList ∧
        rule.log = [] then
        .ok true
      else .error "firewall_changed"
  | _ => .error "firewall_changed"

/-- What `firewall_install` answers. -/
structure Installed where
  alreadyAllowed : Bool
  managed : Bool
deriving DecidableEq

/-- The entries with the status of the one with the scope set. -/
def setStatus (key : Key) (status : Status) (entries : List Entry) : List Entry :=
  entries.map fun entry => if entry.plan.key = key then { entry with status := status } else entry

/-- The part of `firewall_install` that adds the rule of an entry. -/
def addRule (entries : List Entry) (entry : Entry) : FirewallM Installed := do
  saveFirewallState entries
  step "firewall_failed" fun w => { w with rules := ufw.allow entry.plan entry.tag w.rules }
  let inventory ← firewallInventory ufw
  let owned ← check (ownedFirewallRule inventory entry)
  if owned then
    saveFirewallState (setStatus entry.plan.key .installed entries)
    return { alreadyAllowed := false, managed := true }
  else throw "firewall_failed"

/-- `firewall_install`.  The first two steps read the plan and its route, and ask whether UFW is
active; `token` is that of `secrets.token_hex(8)`. -/
def firewallInstall (plan : Plan) (token : Text) : FirewallM Installed := do
  step "firewall_plan_invalid" id
  check (validateFirewallScope plan)
  step "firewall_inactive" id
  firewallLock
  let entries ← loadFirewallState
  let inventory ← firewallInventory ufw
  let rules := matchingFirewallRules inventory plan
  match entries.find? fun entry => entry.plan.key = plan.key with
  | some entry =>
      let owned ← check (ownedFirewallRule inventory entry)
      if owned then
        saveFirewallState (setStatus plan.key .installed entries)
        return { alreadyAllowed := true, managed := true }
      else if rules ≠ [] then throw "firewall_changed"
      else addRule ufw (setStatus plan.key .pending entries) entry
  | none =>
      if rules ≠ [] then
        if ∃ rule ∈ rules, rule.action ≠ "allow".toList then throw "firewall_changed"
        else return { alreadyAllowed := true, managed := false }
      else if 128 ≤ entries.length then throw "firewall_failed"
      else
        let entry : Entry := {
          plan := plan
          tag := "NiriBridge-LAN-".toList ++ token
          status := .pending }
        addRule ufw (entries ++ [entry]) entry

/-- The first loop of `firewall_remove`: no rule of another has the scope of a selected entry. -/
def checkSelected (inventory : List (Text × Option ParsedRule)) : List Entry → Except Code Unit
  | [] => .ok ()
  | entry :: entries =>
      match ownedFirewallRule inventory entry with
      | .error code => .error code
      | .ok owned =>
          if ¬ owned ∧ matchingFirewallRules inventory entry.plan ≠ [] then
            .error "firewall_changed"
          else checkSelected inventory entries

/-- The second loop: what is left of the entries, and how many rules have been deleted. -/
def removeSelected (inventory : List (Text × Option ParsedRule)) (entries : List Entry)
    (removed : ℕ) :
    List Entry → FirewallM (List Entry × ℕ)
  | [] => return (entries, removed)
  | entry :: selected => do
      let owned ← check (ownedFirewallRule inventory entry)
      let rest := entries.erase entry
      if owned then
        step "firewall_failed" fun w => { w with rules := ufw.delete entry.plan w.rules }
        let inventory ← firewallInventory ufw
        let owned ← check (ownedFirewallRule inventory entry)
        if owned then throw "firewall_failed"
        else
          saveFirewallState rest
          removeSelected inventory rest (removed + 1) selected
      else
        saveFirewallState rest
        removeSelected inventory rest removed selected

/-- `firewall_remove`, of one plan or of all. -/
def firewallRemove (plan : Option Plan) : FirewallM ℕ := do
  let w ← world
  if w.directory = false then return 0
  else
    firewallLock
    let entries ← loadFirewallState
    let inventory ← firewallInventory ufw
    let selected := entries.filter fun entry => match plan with
      | none => true
      | some plan => entry.plan.key = plan.key
    check (checkSelected inventory selected)
    let (entries, removed) ← removeSelected ufw inventory entries 0 selected
    let w ← world
    if entries = [] ∧ w.file.isSome then
      step "firewall_failed" fun w => { w with file := none }
      return removed
    else return removed

end Script

end NiriBridge.Firewall
