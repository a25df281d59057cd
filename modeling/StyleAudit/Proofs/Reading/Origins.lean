import StyleAudit.Proofs.Outline.Report
import StyleAudit.Proofs.Reading.Properties

/-! Where the nodes of an outline were read. Each node comes from a token of its own, in the order
of the tokens, and an object is always that of the key two tokens before its brace. -/
namespace StyleAudit.Reading

open Reader (addNode)

/-- A name before a colon. -/
def KeyAt (tokens : List Token) (place : Nat) (name : String) (line : Nat) : Prop :=
  ∃ token colon, tokens[place]? = some token ∧
    (token.kind = .word name ∨ token.kind = .quoted name) ∧ token.line = line ∧
    tokens[place + 1]? = some colon ∧ colon.kind = .colon

def BraceAt (tokens : List Token) (place : Nat) (line : Nat) : Prop :=
  ∃ token, tokens[place]? = some token ∧ token.kind = .leftBrace ∧ token.line = line

/-- The places of the tokens that the nodes come from. The container begins at the first token, a
key at its name, and any other object two tokens behind its key. -/
structure Origins (tokens : List Token) (nodes : Array Node) (places : List Nat) : Prop where
  length : places.length = nodes.size
  ascending : places.Pairwise (· < ·)
  root : places[Outline.root]? = some 0 ∧
    ∃ node, nodes[Outline.root]? = some node ∧ BraceAt tokens 0 node.line
  key : ∀ (i : Nat) (node : Node) (name : String), nodes[i]? = some node →
    node.kind = .key name → ∃ place, places[i]? = some place ∧ KeyAt tokens place name node.line
  value : ∀ (i : Nat) (node : Node), i ≠ Outline.root → nodes[i]? = some node →
    node.kind = .object → ∃ p above name place, node.parent = some p ∧ nodes[p]? = some above ∧
      above.kind = .key name ∧ places[p]? = some place ∧ places[i]? = some (place + 2) ∧
      BraceAt tokens (place + 2) node.line

namespace Origins

variable {tokens : List Token} {nodes : Array Node} {places : List Nat}

theorem initial (line : Nat) (rest : List Token) :
    Origins (⟨.leftBrace, line⟩ :: rest) (Reader.initial line).nodes [0] where
  length := rfl
  ascending := List.pairwise_singleton _ _
  root := ⟨rfl, _, rfl, _, rfl, rfl, rfl⟩
  key i node name found isKey := by
    rw [Reader.initial, Array.getElem?_singleton] at found
    split at found <;> cases found
    cases isKey
  value i node later found := by
    rw [Reader.initial, Array.getElem?_singleton] at found
    split at found <;> simp_all [Outline.root]

/-- A new node comes from a token behind those of all other nodes. -/
theorem addNode (origins : Origins tokens nodes places) {kind : Node.Kind} {p depth line place : Nat}
    (inside : p < nodes.size) (beyond : ∀ earlier ∈ places, earlier < place)
    (key : ∀ name, kind = .key name → KeyAt tokens place name line)
    (value : kind = .object → ∃ above name before, nodes[p]? = some above ∧
      above.kind = .key name ∧ places[p]? = some before ∧ place = before + 2 ∧
      BraceAt tokens place line) :
    Origins tokens (Reader.addNode nodes kind p depth line) (places ++ [place]) := by
  have kept {i at' : Nat} (here : places[i]? = some at') : (places ++ [place])[i]? = some at' := by
    rwa [List.getElem?_append_left (List.getElem?_eq_some_iff.mp here).1]
  have last : (places ++ [place])[nodes.size]? = some place := by simp [← origins.length]
  constructor
  case length => simp [origins.length]
  case ascending =>
    rw [List.pairwise_append]
    refine ⟨origins.ascending, List.pairwise_singleton _ _, fun earlier member new here => ?_⟩
    rw [List.mem_singleton.mp here]
    exact beyond earlier member
  case root =>
    obtain ⟨atRoot, node, found, brace⟩ := origins.root
    obtain ⟨children, same, _⟩ := addNode_old kind p depth line found
    exact ⟨kept atRoot, _, same, brace⟩
  case key =>
    intro i node name found isKey
    rcases addNode_cases inside found with ⟨rfl, rfl⟩ | ⟨old, children, atOld, rfl, _⟩
    · exact ⟨place, last, key name isKey⟩
    · obtain ⟨at', here, named⟩ := origins.key i old name atOld isKey
      exact ⟨at', kept here, named⟩
  case value =>
    intro i node later found isObject
    rcases addNode_cases inside found with ⟨rfl, rfl⟩ | ⟨old, children, atOld, rfl, _⟩
    · obtain ⟨above, name, before, atKey, isKey, here, rfl, brace⟩ := value isObject
      obtain ⟨_, same, _⟩ := addNode_old kind p depth line atKey
      exact ⟨p, _, name, before, rfl, same, isKey, kept here, last, brace⟩
    · obtain ⟨q, above, name, before, parent, atKey, isKey, here, there, brace⟩ :=
        origins.value i old later atOld isObject
      obtain ⟨_, same, _⟩ := addNode_old kind p depth line atKey
      exact ⟨q, _, name, before, parent, same, isKey, kept here, kept there, brace⟩

end Origins

/-- What has been read before the token at `place`. If the value of a key is due there, then the
key began two tokens before. -/
structure Tracked (tokens : List Token) (place : Nat) (nodes : Array Node) (frames : List Frame)
    (places : List Nat) : Prop where
  sound : Sound nodes frames
  origins : Origins tokens nodes places
  beyond : ∀ earlier ∈ places, earlier < place
  due : ∀ frame ∈ frames.head?, ∀ key, frame.expecting = .value (some key) →
    ∃ before, places[key.index]? = some before ∧ place = before + 2

theorem text?_eq_some {kind : Token.Kind} {name : String} :
    kind.text? = some name ↔ kind = .word name ∨ kind = .quoted name := by
  cases kind <;> simp [Token.Kind.text?]

namespace Tracked

variable {tokens : List Token} {place later : Nat} {nodes : Array Node} {frame : Frame}
  {outer frames : List Frame} {places : List Nat}

/-- No node is recorded, and no value of a key is due. -/
theorem goOn (tracked : Tracked tokens place nodes frames places) (after : place ≤ later)
    {frames' : List Frame} (sound : Sound nodes frames') (free : NoneDue frames') :
    Tracked tokens later nodes frames' places where
  sound := sound
  origins := tracked.origins
  beyond earlier member := Nat.lt_of_lt_of_le (tracked.beyond earlier member) after
  due frame head key due := absurd due (free frame head key)

theorem beyond_concat (tracked : Tracked tokens place nodes frames places) (after : place < later) :
    ∀ earlier ∈ places ++ [place], earlier < later := by
  intro earlier member
  rcases List.mem_append.mp member with old | new
  · exact Nat.lt_trans (tracked.beyond earlier old) after
  · rwa [List.mem_singleton.mp new]

theorem addKey (tracked : Tracked tokens place nodes (frame :: outer) places) {name : String}
    {line : Nat} (plain : isPlainName name = true) (named : KeyAt tokens place name line) :
    Tracked tokens (place + 2)
      (addNode nodes (.key name) frame.object (min (frame.depth + 1) maxDepth) line)
      ({ frame with expecting := .value (some ⟨nodes.size, name⟩) } :: outer)
      (places ++ [place]) := by
  obtain ⟨_, found, _⟩ := tracked.sound.path.1
  have inside := (Array.getElem?_eq_some_iff.mp found).1
  constructor
  case sound => exact tracked.sound.addKey line plain
  case origins =>
    refine tracked.origins.addNode inside tracked.beyond ?_ (by simp)
    rintro _ ⟨⟩
    exact named
  case beyond => exact tracked.beyond_concat (by omega)
  case due =>
    rintro _ ⟨⟩ _ ⟨⟩
    exact ⟨place, by simp [← tracked.origins.length], rfl⟩

theorem addObject (tracked : Tracked tokens place nodes (frame :: outer) places) {key : Key}
    {line : Nat} (due : frame.expecting = .value (some key)) (brace : BraceAt tokens place line)
    (after : place < later) :
    Tracked tokens later
      (addNode nodes .object key.index (min (frame.depth + 1) maxDepth) line)
      (⟨nodes.size, min (frame.depth + 1) maxDepth, .entry⟩ ::
        { frame with expecting := .entry } :: outer) (places ++ [place]) := by
  obtain ⟨before, atKey, behind⟩ := tracked.due frame rfl key due
  obtain ⟨above, name, found, isKey, _⟩ := tracked.sound.pending frame rfl key due
  have inside := (Array.getElem?_eq_some_iff.mp found).1
  constructor
  case sound => exact tracked.sound.addObject line due
  case origins =>
    exact tracked.origins.addNode inside tracked.beyond (by simp)
      fun _ => ⟨above, name, before, found, isKey, atKey, behind, brace⟩
  case beyond => exact tracked.beyond_concat after
  case due => rintro _ ⟨⟩ _ ⟨⟩

/-- A key takes its colon along, so that its value is due two tokens behind it. -/
theorem change (tracked : Tracked tokens place nodes (frame :: outer) places) {token : Token}
    {named : Bool} (here : tokens[place]? = some token)
    (colon : named = true → ∃ colon, tokens[place + 1]? = some colon ∧ colon.kind = .colon)
    {nodes' : Array Node} {frames' : List Frame}
    (change : Change nodes frame outer token named nodes' frames') :
    ∃ places', Tracked tokens (place + if named then 2 else 1) nodes' frames' places' := by
  have sound := tracked.sound.change change
  have after : place < place + if named then 2 else 1 := by split <;> omega
  have onward := Nat.le_of_lt after
  rcases tracked.sound.records change with
    ⟨rfl, free⟩ | ⟨name, _, isNamed, text, plain, rfl, rfl⟩ | ⟨key, due, brace, rfl, rfl⟩
  · exact ⟨places, tracked.goOn onward sound free⟩
  · obtain ⟨next, atNext, isColon⟩ := colon isNamed
    rw [if_pos isNamed]
    exact ⟨_, tracked.addKey plain
      ⟨token, next, here, text?_eq_some.mp text, rfl, atNext, isColon⟩⟩
  · exact ⟨_, tracked.addObject due ⟨token, here, brace, rfl⟩ after⟩

theorem step {reader : Reader} (tracked : Tracked tokens place reader.nodes reader.frames places)
    {token : Token} {named : Bool} (here : tokens[place]? = some token)
    (colon : named = true → ∃ colon, tokens[place + 1]? = some colon ∧ colon.kind = .colon) :
    ∃ places', Tracked tokens (place + if named then 2 else 1) (reader.step token named).nodes
      (reader.step token named).frames places' := by
  cases innermost : reader.frames with
  | nil =>
    rw [Reader.step_of_closed innermost]
    exact ⟨places, tracked.goOn (Nat.le_add_right _ _) tracked.sound (by simp [NoneDue, innermost])⟩
  | cons frame outer =>
    rw [innermost] at tracked
    exact tracked.change here colon (Reader.step_change innermost token named)

theorem run (line : Nat) (rest : List Token) : ∃ last places,
    Tracked (⟨.leftBrace, line⟩ :: rest) last ((Reader.initial line).run rest).nodes
      ((Reader.initial line).run rest).frames places := by
  have behind : (⟨.leftBrace, line⟩ :: rest : List Token).drop 1 = rest := rfl
  have first : Tracked (⟨.leftBrace, line⟩ :: rest) 1 (Reader.initial line).nodes
      (Reader.initial line).frames [0] :=
    ⟨.initial line, .initial line rest, by simp, by simp [Reader.initial]⟩
  refine Reader.run_induction_from
    (fun place reader => ∃ places, Tracked _ place reader.nodes reader.frames places)
    ?_ behind ⟨_, first⟩
  intro place reader token named held here colon
  obtain ⟨places, tracked⟩ := held
  exact tracked.step here colon

end Tracked

namespace Origins

variable {tokens : List Token} {outline : Outline} {places : List Nat}

theorem place_lt (origins : Origins tokens outline.nodes places) {i j a b : Nat}
    (less : i < j) (atI : places[i]? = some a) (atJ : places[j]? = some b) : a < b := by
  obtain ⟨_, rfl⟩ := List.getElem?_eq_some_iff.mp atI
  obtain ⟨_, rfl⟩ := List.getElem?_eq_some_iff.mp atJ
  exact List.pairwise_iff_getElem.mp origins.ascending i j _ _ less

/-- A node has the line of the token that it comes from. -/
theorem exists_token (origins : Origins tokens outline.nodes places) {i : Nat} {node : Node}
    (found : outline.nodes[i]? = some node) : ∃ place token, places[i]? = some place ∧
      tokens[place]? = some token ∧ token.line = node.line := by
  by_cases atRoot : i = Outline.root
  · subst atRoot
    obtain ⟨here, root, same, token, first, _, line⟩ := origins.root
    obtain rfl := Option.some.inj (found.symm.trans same)
    exact ⟨0, token, here, first, line⟩
  cases kind : node.kind with
  | key name =>
    obtain ⟨place, here, token, _, there, _, line, _⟩ := origins.key i node name found kind
    exact ⟨place, token, here, there, line⟩
  | object =>
    obtain ⟨_, _, _, place, _, _, _, _, here, token, there, _, line⟩ :=
      origins.value i node atRoot found kind
    exact ⟨place + 2, token, here, there, line⟩

/-- A group has the line of a token, and its body begins two tokens later. -/
theorem exists_name (origins : Origins tokens outline.nodes places)
    (linked : Linked outline.nodes) {key : Nat} {group : Group}
    (isGroup : outline.HasGroup key group) : ∃ place token,
      places[group.body]? = some (place + 2) ∧ tokens[place]? = some token ∧
      token.line = group.line := by
  obtain ⟨⟨entry, atKey, isKey, line, _⟩, value⟩ := isGroup
  have inner : group.body ≠ Outline.root :=
    Nat.ne_of_gt (Nat.zero_lt_of_lt (linked.parent_lt value.parent?))
  obtain ⟨body, atBody, isObject, parent⟩ := value
  obtain ⟨p, _, _, place, up, _, _, atParent, here, _⟩ := origins.value _ body inner atBody isObject
  obtain rfl := Option.some.inj (parent.symm.trans up)
  obtain ⟨same, atName, token, _, there, _, tokenLine, _⟩ := origins.key key entry _ atKey isKey
  obtain rfl := Option.some.inj (atParent.symm.trans atName)
  exact ⟨place, token, here, there, tokenLine.trans line⟩

section Ordered

variable (ordered : tokens.Pairwise fun a b => a.line ≤ b.line)

include ordered

theorem token_le {a b : Nat} {x y : Token} (le : a ≤ b) (atA : tokens[a]? = some x)
    (atB : tokens[b]? = some y) : x.line ≤ y.line := by
  rcases Nat.eq_or_lt_of_le le with rfl | less
  · rw [Option.some.inj (atA.symm.trans atB)]
  · obtain ⟨_, rfl⟩ := List.getElem?_eq_some_iff.mp atA
    obtain ⟨_, rfl⟩ := List.getElem?_eq_some_iff.mp atB
    exact List.pairwise_iff_getElem.mp ordered a b _ _ less

theorem node_le (origins : Origins tokens outline.nodes places) {i j : Nat} {x y : Node}
    (less : i < j) (atI : outline.nodes[i]? = some x) (atJ : outline.nodes[j]? = some y) :
    x.line ≤ y.line := by
  obtain ⟨a, first, placeA, atA, lineA⟩ := origins.exists_token atI
  obtain ⟨b, second, placeB, atB, lineB⟩ := origins.exists_token atJ
  rw [← lineA, ← lineB]
  exact token_le ordered (Nat.le_of_lt (origins.place_lt less placeA placeB)) atA atB

theorem nodes_ordered (origins : Origins tokens outline.nodes places) :
    outline.nodes.toList.Pairwise fun a b => a.line ≤ b.line := by
  rw [List.pairwise_iff_getElem]
  intro i j _ _ less
  exact origins.node_le ordered less (by simp) (by simp)

theorem groups_ordered (origins : Origins tokens outline.nodes places)
    (linked : Linked outline.nodes) : ∃ groups, outline.groups = .ok groups ∧
      groups.Pairwise fun a b => a.line ≤ b.line := by
  obtain ⟨groups, found, apart, isGroup⟩ := linked.groups_eq
  refine ⟨groups, found, apart.imp_of_mem fun {a b} memberA memberB before => ?_⟩
  obtain ⟨_, groupA⟩ := (isGroup a).mp memberA
  obtain ⟨_, groupB⟩ := (isGroup b).mp memberB
  obtain ⟨placeA, first, bodyA, atA, lineA⟩ := origins.exists_name linked groupA
  obtain ⟨placeB, second, bodyB, atB, lineB⟩ := origins.exists_name linked groupB
  have less := origins.place_lt (before _ _ .refl .refl) bodyA bodyB
  rw [← lineA, ← lineB]
  exact token_le ordered (by omega) atA atB

theorem findings_ordered (origins : Origins tokens outline.nodes places)
    (linked : Linked outline.nodes) : ∃ report, outline.report = .ok report ∧
      report.repeatedProperties.Pairwise fun a b => a.line ≤ b.line := by
  obtain ⟨groups, foundGroups, _⟩ := linked.groups_eq
  obtain ⟨properties, foundProperties, ascending, _⟩ := linked.properties_eq
  refine ⟨_, Outline.report_eq_ok foundGroups foundProperties, ?_⟩
  rw [List.pairwise_map]
  refine List.Pairwise.sublist (repeatsAfter_sublist [] properties) ?_
  refine ascending.imp_of_mem fun {a b} memberA memberB less => ?_
  obtain ⟨_, atA, _, lineA, _⟩ := Outline.hasKey_of_mem foundProperties a memberA
  obtain ⟨_, atB, _, lineB, _⟩ := Outline.hasKey_of_mem foundProperties b memberB
  rw [Property.finding, Property.finding, ← lineA, ← lineB]
  exact origins.node_le ordered less atA atB

end Ordered

end Origins

/-- Every node was read from a token of its own. If the lines of the tokens do not decrease, then
neither do those of nodes, groups and findings. -/
theorem exists_origins {tokens : List Token} {outline : Outline}
    (read : (ofTokens tokens).outline = some outline) :
    (∃ places, Origins tokens outline.nodes places) ∧
      ((tokens.map (·.line)).Pairwise (· ≤ ·) →
        (outline.nodes.toList.map (·.line)).Pairwise (· ≤ ·) ∧
        (∃ groups, outline.groups = .ok groups ∧ (groups.map (·.line)).Pairwise (· ≤ ·)) ∧
        ∃ report, outline.report = .ok report ∧
          (report.repeatedProperties.map (·.line)).Pairwise (· ≤ ·)) := by
  have linked := linked_of_outline read
  obtain ⟨line, rest, rfl, _, same⟩ := outline_eq_some.mp read
  obtain ⟨_, places, tracked⟩ := Tracked.run line rest
  have origins : Origins (⟨.leftBrace, line⟩ :: rest) outline.nodes places := by
    rw [same]
    exact tracked.origins
  refine ⟨⟨places, origins⟩, fun ordered => ?_⟩
  simp only [List.pairwise_map] at ordered ⊢
  exact ⟨origins.nodes_ordered ordered, origins.groups_ordered ordered linked,
    origins.findings_ordered ordered linked⟩

/-- Stray brackets, commas before colons, a name that is not recorded and two keys with no comma
between them, of which the second repeats a name. -/
def slipping : List Token :=
  [⟨.leftBrace, 1⟩, ⟨.comma, 1⟩, ⟨.colon, 1⟩, ⟨.word "a", 1⟩, ⟨.colon, 1⟩, ⟨.leftBrace, 2⟩,
    ⟨.rightParen, 2⟩, ⟨.comma, 2⟩, ⟨.quoted "b", 2⟩, ⟨.colon, 3⟩, ⟨.leftBrace, 3⟩, ⟨.rightBrace, 3⟩,
    ⟨.word "b", 4⟩, ⟨.colon, 4⟩, ⟨.comma, 4⟩, ⟨.colon, 4⟩, ⟨.quoted "c-d", 5⟩, ⟨.colon, 5⟩,
    ⟨.leftBrace, 5⟩, ⟨.rightBrace, 5⟩, ⟨.rightBrace, 6⟩, ⟨.rightBrace, 6⟩]

theorem slipping_origins : ∃ outline, (ofTokens slipping).outline = some outline ∧
    (∃ places, Origins slipping outline.nodes places) ∧
    (slipping.map (·.line)).Pairwise (· ≤ ·) ∧
    (outline.nodes.toList.map (·.line)).Pairwise (· ≤ ·) ∧
    (∃ groups, outline.groups = .ok groups ∧ (groups.map (·.line)).Pairwise (· ≤ ·)) ∧
    ∃ report, outline.report = .ok report ∧
      (report.repeatedProperties.map (·.line)).Pairwise (· ≤ ·) := by
  have read : (ofTokens slipping).outline = some ⟨#[⟨.object, none, #[1], 0, 1⟩,
    ⟨.key "a", some 0, #[2], 1, 1⟩, ⟨.object, some 1, #[3, 5], 1, 2⟩, ⟨.key "b", some 2, #[4], 2, 2⟩,
    ⟨.object, some 3, #[], 2, 3⟩, ⟨.key "b", some 2, #[], 2, 4⟩]⟩ := by decide
  have ordered : (slipping.map (·.line)).Pairwise (· ≤ ·) := by decide
  obtain ⟨origins, lines⟩ := exists_origins read
  exact ⟨_, read, origins, ordered, lines ordered⟩

end StyleAudit.Reading
