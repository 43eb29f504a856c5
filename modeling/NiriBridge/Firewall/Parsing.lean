import NiriBridge.Firewall.Listing

/-!
# Firewall — Parsing

What `parse_firewall_rule` makes of any line.

* `round_grows`, `loop_ends`: the loop over the words goes forward in every round, so it ends.
* `parse_spec`: what is returned lies between two single hosts of version 4, for TCP and a number of
  port.
* `readFields_clause`, `key_of_parts`: a line is read by its parts, in whatever order they stand.
* `rules_read_iff`: the rules of the script are read as they were written, and so is every other
  order of their parts, unless the interface is called `comment`.
-/

namespace NiriBridge.Firewall

open Words

/-! ### The loop by its index -/

/-- One round of the loop, at the word with this index. -/
def round (tokens : List Text) (index : ℕ) (fields : Fields) : Option (ℕ × Fields) := do
  let token ← tokens[index]?
  if token = "in".toList then
    let on ← tokens[index + 1]?
    if on ≠ "on".toList then none
    else
      let interface ← tokens[index + 2]?
      return (index + 3, { fields with interface := interface })
  else if token = "log".toList ∨ token = "log-all".toList then
    return (index + 1, { fields with log := token })
  else if token = "from".toList ∨ token = "to".toList then
    let host ← tokens[index + 1]?
    let fields :=
      if token = "from".toList then { fields with peer := host } else { fields with own := host }
    if tokens[index + 2]? = some "port".toList then
      let value ← tokens[index + 3]?
      if token = "from".toList then
        if value ≠ "any".toList then none else return (index + 4, fields)
      else return (index + 4, { fields with port := value })
    else return (index + 2, fields)
  else if token = "proto".toList then
    let protocol ← tokens[index + 1]?
    return (index + 2, { fields with protocol := protocol })
  else none

/-- The loop, for at most `fuel` rounds; `none` when it has not ended by then. -/
def loop (tokens : List Text) : ℕ → ℕ → Fields → Option (Option Fields)
  | 0, _, _ => none
  | fuel + 1, index, fields =>
      if index < tokens.length then
        match round tokens index fields with
        | none => some none
        | some (index, fields) => loop tokens fuel index fields
      else some (some fields)

/-- A round reads at least one token. -/
theorem round_grows {tokens : List Text} {index index' : ℕ} {fields fields' : Fields}
    (h : round tokens index fields = some (index', fields')) : index < index' := by
  unfold round at h
  obtain ⟨token, -, h⟩ := Option.bind_eq_some_iff.mp h
  by_cases hin : token = "in".toList
  · obtain ⟨on, -, h⟩ := Option.bind_eq_some_iff.mp ((if_pos hin).symm.trans h)
    by_cases hon : on ≠ "on".toList
    · cases (if_pos hon).symm.trans h
    · obtain ⟨interface, -, h⟩ := Option.bind_eq_some_iff.mp ((if_neg hon).symm.trans h)
      cases h
      omega
  rw [if_neg hin] at h
  by_cases hlog : token = "log".toList ∨ token = "log-all".toList
  · cases (if_pos hlog).symm.trans h
    omega
  rw [if_neg hlog] at h
  by_cases hhost : token = "from".toList ∨ token = "to".toList
  · obtain ⟨host, -, h⟩ := Option.bind_eq_some_iff.mp ((if_pos hhost).symm.trans h)
    dsimp only at h
    by_cases hport : tokens[index + 2]? = some "port".toList
    · obtain ⟨value, -, h⟩ := Option.bind_eq_some_iff.mp ((if_pos hport).symm.trans h)
      split_ifs at h
      all_goals
        cases h
        omega
    · cases (if_neg hport).symm.trans h
      omega
  rw [if_neg hhost] at h
  by_cases hproto : token = "proto".toList
  · obtain ⟨protocol, -, h⟩ := Option.bind_eq_some_iff.mp ((if_pos hproto).symm.trans h)
    cases h
    omega
  · cases (if_neg hproto).symm.trans h

/-- A round reads what `readFields` reads first. -/
theorem readFields_round {tokens : List Text} {index : ℕ} (fields : Fields)
    (h : index < tokens.length) :
    readFields fields (tokens.drop index) =
      (round tokens index fields).bind fun p => readFields p.2 (tokens.drop p.1) := by
  -- what is read at the index is the head of the words that are left
  have hget : ∀ k, tokens[index + k]? = (tokens.drop index)[k]? := fun k => List.getElem?_drop.symm
  have hdrop : ∀ k, tokens.drop (index + k) = (tokens.drop index).drop k :=
    fun k => List.drop_drop.symm
  have hhead : tokens[index]? = (tokens.drop index)[0]? := hget 0
  have hne : tokens.drop index ≠ [] := by simpa using h
  unfold round
  simp only [hget, hhead]
  generalize hl : tokens.drop index = l at *
  cases l with
  | nil => exact absurd rfl hne
  | cons token rest =>
      rw [readFields.eq_def]
      simp only [List.getElem?_cons_zero, List.getElem?_cons_succ, Option.bind_eq_bind,
        Option.bind_some]
      -- one case for each word the loop knows, in its order
      by_cases hin : token = "in".toList
      · simp only [if_pos hin]
        rcases rest with _ | ⟨on, _ | ⟨interface, rest⟩⟩
        · rfl
        · simp only [List.getElem?_cons_zero, List.getElem?_cons_succ, Option.bind_some]
          split_ifs <;> rfl
        · simp only [List.getElem?_cons_zero, List.getElem?_cons_succ, Option.bind_some,
            ne_eq, ite_not]
          split_ifs
          · exact congrArg (readFields _) (hdrop 3).symm
          · rfl
      simp only [if_neg hin]
      by_cases hlog : token = "log".toList ∨ token = "log-all".toList
      · simp only [if_pos hlog]
        exact congrArg (readFields _) (hdrop 1).symm
      simp only [if_neg hlog]
      by_cases hfrom : token = "from".toList
      · simp only [if_pos hfrom,
          if_pos (Or.inl hfrom : token = "from".toList ∨ token = "to".toList)]
        rcases rest with _ | ⟨peer, _ | ⟨port, _ | ⟨value, rest⟩⟩⟩
        · rfl
        · exact congrArg (readFields _) (hdrop 2).symm
        · simp only [List.getElem?_cons_zero, List.getElem?_cons_succ, Option.bind_some,
            Option.some.injEq]
          split_ifs
          · rfl
          · exact congrArg (readFields _) (hdrop 2).symm
        · simp only [List.getElem?_cons_zero, List.getElem?_cons_succ, Option.bind_some,
            Option.some.injEq, ne_eq, ite_not]
          split_ifs
          · exact congrArg (readFields _) (hdrop 4).symm
          · rfl
          · exact congrArg (readFields _) (hdrop 2).symm
      simp only [if_neg hfrom]
      by_cases hto : token = "to".toList
      · simp only [if_pos hto, if_pos (Or.inr hto : token = "from".toList ∨ token = "to".toList)]
        rcases rest with _ | ⟨own, _ | ⟨port, _ | ⟨value, rest⟩⟩⟩
        · rfl
        · exact congrArg (readFields _) (hdrop 2).symm
        · simp only [List.getElem?_cons_zero, List.getElem?_cons_succ, Option.bind_some,
            Option.some.injEq]
          split_ifs
          · rfl
          · exact congrArg (readFields _) (hdrop 2).symm
        · simp only [List.getElem?_cons_zero, List.getElem?_cons_succ, Option.bind_some,
            Option.some.injEq]
          split_ifs
          · exact congrArg (readFields _) (hdrop 4).symm
          · exact congrArg (readFields _) (hdrop 2).symm
      simp only [if_neg hto, if_neg (not_or.mpr ⟨hfrom, hto⟩)]
      by_cases hproto : token = "proto".toList
      · simp only [if_pos hproto]
        rcases rest with _ | ⟨protocol, rest⟩
        · rfl
        · exact congrArg (readFields _) (hdrop 2).symm
      · simp only [if_neg hproto]
        rfl

/-- The loop ends, and reads what `readFields` reads. -/
theorem loop_ends {tokens : List Text} {fuel index : ℕ} (fields : Fields)
    (h : tokens.length - index < fuel) :
    loop tokens fuel index fields = some (readFields fields (tokens.drop index)) := by
  induction fuel generalizing index fields with
  | zero => cases h
  | succ fuel ih =>
      rw [loop]
      by_cases hindex : index < tokens.length
      · rw [if_pos hindex, readFields_round fields hindex]
        cases hround : round tokens index fields with
        | none => rfl
        | some p =>
            have hgrows := round_grows hround
            exact ih p.2 (by omega)
      · rw [if_neg hindex, List.drop_eq_nil_of_le (not_lt.mp hindex)]
        rfl

/-! ### What is returned -/

/-- The host that is read is an address. -/
theorem octets_of_hostAddress {text address : Text} (h : hostAddress text = some address) :
    (octets address).isSome := by
  unfold hostAddress at h
  split at h
  · obtain ⟨values, hvalues, rfl⟩ := Option.map_eq_some_iff.mp h
    rw [hvalues]
    rfl
  · split_ifs at h
    obtain ⟨values, hvalues, rfl⟩ := Option.map_eq_some_iff.mp h
    rw [hvalues]
    rfl
  · cases h

/-- The words of a line before its comment. -/
def scopeWords (line : Text) : Option (List Text) :=
  split ((partition (between "comment".toList) line).getD (line, [])).1

/-- A line that is read is one of four actions on words of a TCP rule between two hosts. -/
theorem parse_spec {line : Text} {rule : ParsedRule} (h : parseFirewallRule line = some rule) :
    ∃ words fields,
    scopeWords line = some ("ufw".toList :: rule.action :: words) ∧ rule.action ∈ actions ∧
      readFields {} words = some fields ∧ fields.protocol = "tcp".toList ∧
        hostAddress fields.peer = some rule.peer ∧ hostAddress fields.own = some rule.own ∧
          parseInt fields.port = some rule.port ∧ fields.interface = rule.interface ∧
            fields.log = rule.log := by
  unfold parseFirewallRule at h
  obtain ⟨tokens, htokens, h⟩ := Option.bind_eq_some_iff.mp h
  split at h
  · rename_i ufw action words
    split_ifs at h with haction
    obtain ⟨fields, hfields, h⟩ := Option.bind_eq_some_iff.mp h
    obtain ⟨peer, hpeer, h⟩ := Option.bind_eq_some_iff.mp h
    obtain ⟨own, hown, h⟩ := Option.bind_eq_some_iff.mp h
    split_ifs at h with hprotocol
    obtain ⟨port, hport, h⟩ := Option.bind_eq_some_iff.mp h
    cases h
    obtain ⟨rfl, haction⟩ := haction
    exact ⟨words, fields, htokens, haction, hfields, hprotocol, hpeer, hown, hport, rfl, rfl⟩
  · cases h

/-! ### The parts of a rule -/

/-- A part of a rule's words. -/
inductive Clause where
  | on (interface : Text)
  | log (all : Bool)
  /-- The second field: `port any` follows. -/
  | source (host : Text) (anyPort : Bool)
  | target (host : Text) (port : Option Text)
  | proto (protocol : Text)
deriving DecidableEq

/-- The words of a clause. -/
def Clause.words : Clause → List Text
  | .on interface => ["in".toList, "on".toList, interface]
  | .log all => [if all then "log-all".toList else "log".toList]
  | .source host anyPort =>
      "from".toList :: host :: if anyPort then ["port".toList, "any".toList] else []
  | .target host port => "to".toList :: host :: port.elim [] fun port => ["port".toList, port]
  | .proto protocol => ["proto".toList, protocol]

/-- What a clause says of the fields. -/
def Clause.apply (fields : Fields) : Clause → Fields
  | .on interface => { fields with interface := interface }
  | .log all => { fields with log := if all then "log-all".toList else "log".toList }
  | .source host _ => { fields with peer := host }
  | .target host none => { fields with own := host }
  | .target host (some port) => { fields with own := host, port := port }
  | .proto protocol => { fields with protocol := protocol }

/-- The words start with no `port`, which would belong to the part before. -/
def Portless (words : List Text) : Prop := words.head? ≠ some "port".toList

theorem portless_clauses (clauses : List Clause) : Portless (clauses.flatMap Clause.words) := by
  cases clauses with
  | nil => nofun
  | cons clause clauses =>
      intro h
      cases clause with
      | log all => cases all <;> exact absurd (Option.some.inj h) (by decide)
      | _ => exact absurd (Option.some.inj h) (by decide)

/-- A source is read. -/
theorem readFields_from {words : List Text} (h : Portless words) (fields : Fields) (host : Text) :
    readFields fields ("from".toList :: host :: words) =
    readFields { fields with peer := host } words := by
  rcases words with _ | ⟨port, _ | ⟨value, words⟩⟩
  · rfl
  all_goals
    have hport : port ≠ "port".toList := fun heq => h (congrArg some heq)
    exact if_neg hport

/-- A target is read. -/
theorem readFields_to {words : List Text} (h : Portless words) (fields : Fields) (host : Text) :
    readFields fields ("to".toList :: host :: words) =
    readFields { fields with own := host } words := by
  rcases words with _ | ⟨port, _ | ⟨value, words⟩⟩
  · rfl
  all_goals
    have hport : port ≠ "port".toList := fun heq => h (congrArg some heq)
    exact if_neg hport

/-- An interface is read. -/
theorem readFields_in (fields : Fields) (interface : Text) (words : List Text) :
    readFields fields ("in".toList :: "on".toList :: interface :: words) =
      readFields { fields with interface := interface } words := by
  rw [readFields.eq_def]
  rfl

/-- The logging of a rule is read. -/
theorem readFields_log {log : Text} (h : log = "log".toList ∨ log = "log-all".toList)
    (fields : Fields) (words : List Text) :
    readFields fields (log :: words) = readFields { fields with log := log } words := by
  have hin : log ≠ "in".toList := by
    rcases h with rfl | rfl
    · decide
    · decide
  rw [readFields.eq_def]
  exact (if_neg hin).trans (if_pos h)

/-- A protocol is read. -/
theorem readFields_proto (fields : Fields) (protocol : Text) (words : List Text) :
    readFields fields ("proto".toList :: protocol :: words) =
      readFields { fields with protocol := protocol } words := by
  rw [readFields.eq_def]
  rfl

/-- A part sets its own fields. -/
theorem readFields_clause {words : List Text} (h : Portless words) (fields : Fields)
    (clause : Clause) :
    readFields fields (clause.words ++ words) = readFields (clause.apply fields) words := by
  cases clause with
  | on interface => exact readFields_in fields interface words
  | log all =>
      refine readFields_log ?_ fields words
      cases all with
      | false => exact .inl rfl
      | true => exact .inr rfl
  | source host anyPort =>
      cases anyPort with
      | false => exact readFields_from h fields host
      | true => rfl
  | target host port =>
      cases port with
      | none => exact readFields_to h fields host
      | some port => rfl
  | proto protocol => exact readFields_proto fields protocol words

/-- The clauses of a rule are read one after the other. -/
theorem readFields_clauses (fields : Fields) (clauses : List Clause) :
    readFields fields (clauses.flatMap Clause.words) =
    some (clauses.foldl Clause.apply fields) := by
  induction clauses generalizing fields with
  | nil => rfl
  | cons clause clauses ih =>
      rw [List.flatMap_cons, readFields_clause (portless_clauses clauses), ih, List.foldl_cons]

/-- What a rule consists of, with each part once at most. -/
structure Parts where
  interface : Option Text
  log : Option Bool
  peer : Option (Text × Bool)
  own : Option (Text × Option Text)
  protocol : Option Text

/-- The parts in the order UFW lists them in. -/
def Parts.clauses (parts : Parts) : List Clause :=
  parts.interface.toList.map .on ++ (parts.log.toList.map .log ++
    (parts.peer.toList.map (fun p => .source p.1 p.2) ++
      (parts.own.toList.map (fun p => .target p.1 p.2) ++ parts.protocol.toList.map .proto)))

/-- The words the parts are about, whatever their order. -/
def Parts.fields (parts : Parts) : Fields where
  interface := parts.interface.getD []
  peer := parts.peer.elim "any".toList Prod.fst
  own := parts.own.elim "any".toList Prod.fst
  port := (parts.own.bind Prod.snd).getD "any".toList
  protocol := parts.protocol.getD "any".toList
  log := parts.log.elim [] fun all => if all then "log-all".toList else "log".toList

/-- What the clauses of the parts say of the fields. -/
theorem Parts.foldl_clauses (parts : Parts) :
    parts.clauses.foldl Clause.apply {} = parts.fields := by
  obtain ⟨interface, log, peer, own, protocol⟩ := parts
  rcases own with _ | ⟨own, _ | port⟩
  all_goals cases interface <;> cases log <;> cases peer <;> cases protocol <;> rfl

/-- Two parts of a rule set different fields. -/
theorem Parts.apply_comm {parts : Parts} {c d : Clause} (hc : c ∈ parts.clauses)
    (hd : d ∈ parts.clauses) (fields : Fields) :
    d.apply (c.apply fields) = c.apply (d.apply fields) := by
  simp only [Parts.clauses, List.mem_append, List.mem_map, Option.mem_toList] at hc hd
  rcases hc with ⟨i, h, rfl⟩ | ⟨l, h, rfl⟩ | ⟨p, h, rfl⟩ | ⟨⟨o, _ | q⟩, h, rfl⟩ | ⟨r, h, rfl⟩
  all_goals
    rcases hd with ⟨i', h', rfl⟩ | ⟨l', h', rfl⟩ | ⟨p', h', rfl⟩ |
      ⟨⟨o', _ | q'⟩, h', rfl⟩ | ⟨r', h', rfl⟩
    -- a part of the same kind is the same part
    all_goals first
      | rfl
      | cases Option.some.inj (h.symm.trans h') <;> rfl

/-- The parts are read in every order of their clauses. -/
theorem Parts.readFields_eq {parts : Parts} {clauses : List Clause}
    (h : clauses.Perm parts.clauses) :
    readFields {} (clauses.flatMap Clause.words) = some parts.fields := by
  rw [readFields_clauses, ← parts.foldl_clauses]
  refine congrArg some (h.foldl_eq' (fun c hc d hd fields => ?_) ({} : Fields))
  exact Parts.apply_comm (h.subset hc) (h.subset hd) fields

/-- The key of the rule that the parts make. -/
def Parts.key (parts : Parts) : Option Key := do
  let peer ← hostAddress parts.fields.peer
  let own ← hostAddress parts.fields.own
  if parts.fields.protocol = "tcp".toList then
    let port ← parseInt parts.fields.port
    return (peer, own, parts.fields.interface, port)
  else none

/-- The key of a rule is that of its parts, in every order. -/
theorem key_of_parts {line action : Text} {clauses : List Clause} {parts : Parts}
    (h : scopeWords line = some ("ufw".toList :: action :: clauses.flatMap Clause.words))
    (haction : action ∈ actions) (hperm : clauses.Perm parts.clauses) :
    (parseFirewallRule line).map ParsedRule.key = parts.key := by
  have hsplit : split ((partition (between "comment".toList) line).getD (line, [])).1 =
    some ("ufw".toList :: action :: clauses.flatMap Clause.words) := h
  rw [parseFirewallRule, Parts.key]
  simp only [hsplit, Option.bind_eq_bind, Option.bind_some, haction, and_self, if_true,
    Parts.readFields_eq hperm]
  cases hostAddress parts.fields.peer with
  | none => rfl
  | some peer =>
      cases hostAddress parts.fields.own with
      | none => rfl
      | some own =>
          simp only [Option.bind_some]
          split_ifs
          · cases parseInt parts.fields.port <;> rfl
          · rfl

/-- The same hosts, interface, port and protocol, whatever is logged and however the hosts are
spelled. -/
structure Parts.Alike (p q : Parts) : Prop where
  interface : p.fields.interface = q.fields.interface
  peer : hostAddress p.fields.peer = hostAddress q.fields.peer
  own : hostAddress p.fields.own = hostAddress q.fields.own
  port : p.fields.port = q.fields.port
  protocol : p.fields.protocol = q.fields.protocol

theorem Parts.Alike.key_eq {p q : Parts} (h : p.Alike q) : p.key = q.key := by
  rw [Parts.key, Parts.key, h.interface, h.peer, h.own, h.port, h.protocol]

/-- A host alone, and as a network of its own. -/
def spellings (host : Text) : List Text := [host, host ++ "/32".toList]

/-- A host is read in each of its spellings. -/
theorem spelling_spec {host text : Text} (h : (octets host).isSome) (ht : text ∈ spellings host) :
    hostAddress text = some host ∧ Plain text ∧ text ≠ "comment".toList := by
  have hslash : '/' ∉ host := fun hmem => (mem_address h hmem).elim (by simp) (by simp)
  obtain ⟨hsolid, hne⟩ := address_spec h
  simp only [spellings, List.mem_cons, List.not_mem_nil, or_false] at ht
  rcases ht with rfl | rfl
  · exact ⟨hostAddress_of_octets h, hsolid.toPlain, hne⟩
  · obtain ⟨values, hvalues⟩ := Option.isSome_iff_exists.mp h
    have hsplitOn : (host ++ "/32".toList).splitOn '/' = [host, "32".toList] := by
      refine (List.splitOn_append_cons_self host "32".toList).trans ?_
      rw [List.splitOn_eq_singleton hslash]
      rfl
    refine ⟨?_, ⟨by simp, ?_⟩, ?_⟩
    · rw [hostAddress, hsplitOn]
      dsimp only
      rw [if_pos (.inl (by decide)), hvalues]
      rfl
    · rw [List.forall_mem_append]
      exact ⟨hsolid.plain, List.all_iff_forall_prop.mp (by decide)⟩
    · intro heq
      have hmem : '/' ∈ "comment".toList := heq ▸ List.mem_append_right _ (by decide)
      exact absurd hmem (by decide)

/-! ### The rules of the script -/

/-- `firewall_arguments`. -/
def firewallArguments (plan : Plan) (tag : Text) : List Text :=
  ["allow".toList, "in".toList, "on".toList, plan.interface, "from".toList, plan.peer,
    "to".toList, plan.own,
    "port".toList, showPort plan.port, "proto".toList, "tcp".toList, "comment".toList, tag]

/-- The parts of a rule with the scope of the plan. -/
structure Parts.Describes (parts : Parts) (plan : Plan) : Prop where
  interface : parts.interface = some plan.interface
  peer : ∃ host ∈ spellings plan.peer, ∃ anyPort, parts.peer = some (host, anyPort)
  own : ∃ host ∈ spellings plan.own, parts.own = some (host, some (showPort plan.port))
  protocol : parts.protocol = some "tcp".toList

/-- A rule of the words, with the comment after it. -/
def listed (words : List Text) (comment : Option Text) : Text :=
  "ufw".toList ++ (lead words ++ comment.elim [] (between "comment".toList ++ ·))

/-- The words of a listed rule come before its comment. -/
theorem scopeWords_listed {words : List Text} (h : ∀ w ∈ words, Plain w ∧ w ≠ "comment".toList)
    (comment : Option Text) : scopeWords (listed words comment) = some ("ufw".toList :: words) := by
  rw [scopeWords, listed, parts_of_words h, split_words fun w hw => (h w hw).1]

section Scope

variable {plan : Plan} (hplan : validateFirewallScope plan = .ok ())
include hplan

/-- Parts that describe a plan have its key. -/
theorem Parts.Describes.key_eq {parts : Parts} (h : parts.Describes plan) :
    parts.key = some plan.key := by
  obtain ⟨⟨hport, -, -⟩, hpeer, hown, -⟩ := validateFirewallScope_eq_ok hplan
  obtain ⟨peer, hpeers, anyPort, hsource⟩ := h.peer
  obtain ⟨own, howns, htarget⟩ := h.own
  have hfields : parts.fields.peer = peer ∧ parts.fields.own = own ∧
      parts.fields.port = showPort plan.port ∧ parts.fields.interface = plan.interface ∧
        parts.fields.protocol = "tcp".toList := by
    simp [Parts.fields, hsource, htarget, h.interface, h.protocol]
  obtain ⟨hfpeer, hfown, hfport, hfinterface, hfprotocol⟩ := hfields
  simp only [Parts.key, hfpeer, hfown, hfport, hfinterface, hfprotocol, if_true,
    Option.bind_eq_bind, (spelling_spec (octets_of_isLanAddress hpeer) hpeers).1, Option.bind_some,
    (spelling_spec (octets_of_isLanAddress hown) howns).1, parseInt_showPort hport]
  rfl

/-- Their words are plain if the interface is not the word for a comment. -/
theorem Parts.Describes.words_spec {parts : Parts} (h : parts.Describes plan)
    (hi : plan.interface ≠ "comment".toList) {clauses : List Clause}
    (hperm : clauses.Perm parts.clauses) :
    ∀ w ∈ clauses.flatMap Clause.words, Plain w ∧ w ≠ "comment".toList := by
  obtain ⟨⟨-, -, hinterface⟩, hpeer, hown, -⟩ := validateFirewallScope_eq_ok hplan
  obtain ⟨peer, hpeers, anyPort, hsource⟩ := h.peer
  obtain ⟨own, howns, htarget⟩ := h.own
  have hkeyword : ∀ w ∈ keywords, Plain w ∧ w ≠ "comment".toList := fun w hw =>
    (keywords_spec w hw).imp_left Solid.toPlain
  intro w hw
  obtain ⟨clause, hclause, hw⟩ := List.mem_flatMap.mp hw
  replace hclause := hperm.subset hclause
  simp only [Parts.clauses, h.interface, h.protocol, hsource, htarget,
    List.mem_append, List.mem_map, Option.mem_toList, Option.some.injEq, exists_eq_left'] at hclause
  -- the interface, the log, then where from, where to and the protocol
  rcases hclause with rfl | ⟨all, -, rfl⟩ | rfl | rfl | rfl
  · simp only [Clause.words, List.mem_cons, List.not_mem_nil, or_false] at hw
    rcases hw with rfl | rfl | rfl
    · exact hkeyword _ (by decide)
    · exact hkeyword _ (by decide)
    · exact ⟨(solid_of_isInterface hinterface).toPlain, hi⟩
  · obtain rfl := List.mem_singleton.mp hw
    cases all with
    | false => exact hkeyword _ (by decide)
    | true => exact hkeyword _ (by decide)
  · rcases List.mem_cons.mp hw with rfl | hw
    · exact hkeyword _ (by decide)
    rcases List.mem_cons.mp hw with rfl | hw
    · exact (spelling_spec (octets_of_isLanAddress hpeer) hpeers).2
    · split_ifs at hw
      · simp only [List.mem_cons, List.not_mem_nil, or_false] at hw
        rcases hw with rfl | rfl
        · exact hkeyword _ (by decide)
        · exact hkeyword _ (by decide)
      · cases hw
  · simp only [Clause.words, Option.elim_some, List.mem_cons, List.not_mem_nil, or_false] at hw
    rcases hw with rfl | rfl | rfl | rfl
    · exact hkeyword _ (by decide)
    · exact (spelling_spec (octets_of_isLanAddress hown) howns).2
    · exact hkeyword _ (by decide)
    · exact (showPort_spec plan.port).imp_left Solid.toPlain
  · simp only [Clause.words, List.mem_cons, List.not_mem_nil, or_false] at hw
    rcases hw with rfl | rfl
    · exact hkeyword _ (by decide)
    · exact hkeyword _ (by decide)

/-- With an interface of another name, every order of the parts is read. -/
theorem Parts.Describes.key_listed {parts : Parts} (h : parts.Describes plan)
    (hi : plan.interface ≠ "comment".toList) {clauses : List Clause}
    (hperm : clauses.Perm parts.clauses) {action : Text} (haction : action ∈ actions)
    (comment : Option Text) :
    (parseFirewallRule (listed (action :: clauses.flatMap Clause.words) comment)).map
      ParsedRule.key =
      some plan.key := by
  have hwords : ∀ w ∈ action :: clauses.flatMap Clause.words, Plain w ∧ w ≠ "comment".toList := by
    rw [List.forall_mem_cons]
    exact ⟨(keywords_spec action (List.mem_append_left _ haction)).imp_left Solid.toPlain,
      h.words_spec hplan hi hperm⟩
  rw [key_of_parts (scopeWords_listed hwords comment) haction hperm, h.key_eq hplan]

/-- The listed form of the rule that the script asks for. -/
theorem parse_firewallArguments (hi : plan.interface ≠ "comment".toList) (tag comment : Text) :
    parseFirewallRule ("ufw".toList ++ lead (firewallArguments plan comment)) =
      some ((toolRule plan tag).read comment) := by
  have hne : plan.interface ≠ [] :=
    (solid_of_isInterface (validateFirewallScope_eq_ok hplan).1.2.2).nonempty
  refine Eq.trans (congrArg parseFirewallRule ?_)
    (parse_words (toolRule_normal hplan tag) hi (some comment))
  simp only [firewallArguments, LanRule.words, toolRule, hne, if_false, if_true, lead_cons,
    lead_nil, between, Option.elim_some, List.cons_append, List.nil_append, List.append_assoc,
    List.append_nil]

omit hplan in
/-- An interface called `comment` ends the words of the rule. -/
theorem parse_comment (hi : plan.interface = "comment".toList) (comment : Text) :
    parseFirewallRule ("ufw".toList ++ lead (firewallArguments plan comment)) = none := by
  have hline : "ufw".toList ++ lead (firewallArguments plan comment) =
      listed ["allow".toList, "in".toList, "on".toList]
        (some ("from".toList ++ lead ((firewallArguments plan comment).drop 5))) := by
    simp only [firewallArguments, listed, hi, lead_cons, lead_nil, between, List.drop_succ_cons,
      List.drop_zero, Option.elim_some, List.cons_append, List.nil_append, List.append_assoc,
      List.append_nil]
  have hwords : ∀ w ∈ ["allow".toList, "in".toList, "on".toList], Plain w ∧ w ≠ "comment".toList :=
    fun w hw => (keywords_spec w ((by decide : _ ⊆ keywords) hw)).imp_left Solid.toPlain
  cases hparse : parseFirewallRule ("ufw".toList ++ lead (firewallArguments plan comment)) with
  | none => rfl
  | some rule =>
      obtain ⟨words, fields, hscope, -, hfields, -⟩ := parse_spec hparse
      rw [hline, scopeWords_listed hwords] at hscope
      have hnone : readFields {} ["in".toList, "on".toList] = none := rfl
      rw [← (List.cons.inj (List.cons.inj (Option.some.inj hscope)).2).2, hnone] at hfields
      cases hfields

end Scope

/-- A tag has no quotes. -/
theorem unquote_tag {tag : Text} (h : isTag tag) : unquote tag = tag := by
  simp only [isTag, Bool.and_eq_true, List.isPrefixOf_iff_prefix] at h
  obtain ⟨⟨⟨token, rfl⟩, -⟩, -⟩ := h
  exact if_neg fun hquote => absurd (Option.some.inj hquote.2.1) (by decide)

/-- The rules of the script are read as they were written, and in every other order of their parts,
unless the interface is called `comment`.  Of any line at all the loop over the words ends, what is
read is a TCP rule between two single hosts, and the order of the parts and the spelling of the
hosts do not count. -/
theorem rules_read_iff {plan : Plan} {tag : Text} (hplan : validateFirewallScope plan = .ok ())
    (htag : isTag tag) :
    (((∀ comment ∈ [tag, '\'' :: (tag ++ ['\''])], ∃ rule,
          parseFirewallRule ("ufw".toList ++ lead (firewallArguments plan comment)) = some rule ∧
            rule.action = "allow".toList ∧ rule.log = [] ∧ rule.comment = tag ∧
            rule.key = plan.key) ∧
        (∀ parts : Parts,
          parts.Describes plan → ∀ clauses : List Clause, clauses.Perm parts.clauses →
          ∀ action ∈ actions, ∀ comment : Option Text,
            (parseFirewallRule (listed (action :: clauses.flatMap Clause.words) comment)).map
              ParsedRule.key =
              some plan.key)) ↔
      plan.interface ≠ "comment".toList) ∧
    (∀ (tokens : List Text) (index : ℕ) (fields : Fields),
      (∀ index' fields', round tokens index fields = some (index', fields') → index < index') ∧
        loop tokens (tokens.length + 1) index fields =
        some (readFields fields (tokens.drop index))) ∧
    (∀ line rule, parseFirewallRule line = some rule →
      (octets rule.peer).isSome ∧ (octets rule.own).isSome ∧
        ∃ words fields, scopeWords line = some ("ufw".toList :: rule.action :: words) ∧
          readFields {} words = some fields ∧ fields.protocol = "tcp".toList ∧
            hostAddress fields.peer = some rule.peer ∧ hostAddress fields.own = some rule.own ∧
              parseInt fields.port = some rule.port) ∧
    (∀ host, (octets host).isSome → hostAddress (host ++ "/32".toList) = hostAddress host) ∧
    ∀ (p q : Parts) (clauses clauses' : List Clause) (line line' action action' : Text),
      clauses.Perm p.clauses → clauses'.Perm q.clauses → action ∈ actions → action' ∈ actions →
        scopeWords line = some ("ufw".toList :: action :: clauses.flatMap Clause.words) →
          scopeWords line' = some ("ufw".toList :: action' :: clauses'.flatMap Clause.words) →
            p.Alike q →
              (parseFirewallRule line).map ParsedRule.key =
              (parseFirewallRule line').map ParsedRule.key := by
  refine ⟨⟨fun hread hi => ?_, fun hi => ⟨fun comment hcomment => ?_, ?_⟩⟩, ?_, ?_, ?_, ?_⟩
  · obtain ⟨rule, hrule, -⟩ := hread.1 tag (List.mem_cons_self ..)
    cases (parse_comment hi tag).symm.trans hrule
  · refine ⟨_, parse_firewallArguments hplan hi tag comment, rfl, rfl, ?_, rfl⟩
    simp only [List.mem_cons, List.not_mem_nil, or_false] at hcomment
    rcases hcomment with rfl | rfl
    · exact unquote_tag htag
    · exact unquote_quoted tag
  · intro parts h clauses hperm action haction comment
    exact h.key_listed hplan hi hperm haction comment
  · intro tokens index fields
    exact ⟨fun _ _ => round_grows, loop_ends fields (by omega)⟩
  · intro line rule h
    obtain ⟨words, fields, hscope, -, hfields, hprotocol, hpeer, hown, hport, -⟩ := parse_spec h
    exact ⟨octets_of_hostAddress hpeer, octets_of_hostAddress hown, words, fields, hscope, hfields,
      hprotocol, hpeer, hown, hport⟩
  · intro host h
    rw [(spelling_spec h (by simp [spellings])).1, hostAddress_of_octets h]
  · intro p q clauses clauses' line line' action action' hp hq ha ha' hscope hscope' hpq
    rw [key_of_parts hscope ha hp, key_of_parts hscope' ha' hq, hpq.key_eq]

/-- A plan for an interface of a name that any interface may have. -/
def planOn (interface : Text) : Plan where
  peer := "192.168.1.20".toList
  own := "192.168.1.10".toList
  interface := interface
  port := 42420

/-- A tag as `secrets.token_hex` completes it. -/
def someTag : Text := "NiriBridge-LAN-0123456789abcdef".toList

theorem rules_read_ethernet : ∃ rule,
    parseFirewallRule ("ufw".toList ++ lead (firewallArguments (planOn "enp3s0".toList)
      ('\'' :: (someTag ++ ['\''])))) = some rule ∧ rule.comment = someTag ∧
        rule.key = (planOn "enp3s0".toList).key := by
  have hplan : validateFirewallScope (planOn "enp3s0".toList) = .ok () := rfl
  have htag : isTag someTag := by decide
  obtain ⟨rule, hrule, -, -, hcomment, hkey⟩ := ((rules_read_iff hplan htag).1.mpr (by decide)).1
    ('\'' :: (someTag ++ ['\''])) (List.mem_cons_of_mem _ (List.mem_cons_self ..))
  exact ⟨rule, hrule, hcomment, hkey⟩

/-- The rule of a plan on `comment` is not read. -/
theorem comment_rule_unread :
    validateFirewallScope (planOn "comment".toList) = .ok () ∧ isTag someTag = true ∧
      ¬ ∃ rule, parseFirewallRule ("ufw".toList ++ lead (firewallArguments (planOn "comment".toList)
        ('\'' :: (someTag ++ ['\''])))) = some rule := by
  refine ⟨rfl, by decide, fun ⟨rule, hrule⟩ => ?_⟩
  cases (parse_comment rfl _).symm.trans hrule

end NiriBridge.Firewall
