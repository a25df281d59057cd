import StyleAudit.Proofs.Literal.Outline
import StyleAudit.Proofs.Outline.Links
import StyleAudit.Proofs.Reading.Passing
import StyleAudit.Proofs.Reading.Step

/-! Reading an object literal gives back its outline, however it is written and whatever comes
after it. The induction is on the literal. What it carries is the state of the reader at the
gap before each entry, together with a comma that may still take the next colon along. -/
namespace StyleAudit.Literal

open Reading Reading.Reader
open Token (isNested beginsEntry beginsKey)

theorem Name.text?_token (name : Name) : name.token.kind.text? = some name.text := by
  obtain ⟨text, quoted, line⟩ := name
  cases quoted <;> rfl

theorem Name.kind_token (name : Name) :
    name.token.kind ≠ .colon ∧ name.token.kind ≠ .leftBrace := by
  obtain ⟨text, quoted, line⟩ := name
  cases quoted <;> simp [Name.token]

theorem beginsKey_of_beginsEntry {tokens : List Token} (none : beginsEntry tokens = false) :
    beginsKey tokens = false := by
  match tokens with
  | [] | [_] => rfl
  | name :: colon :: rest =>
    cases text : name.kind.text? with
    | none => simp [beginsKey, text]
    | some name => simp_all [beginsEntry, beginsKey]

namespace Body

/-- After a value comes the end or something that reading does not take for part of it. -/
theorem Conforms.first {body : Body} {gap : Gap} (conforms : body.Conforms gap)
    (closed : gap ≠ .separated) : ∃ first rest, body.tokens = first :: rest ∧
      first.kind ≠ .colon ∧ first.kind ≠ .leftBrace := by
  cases body with
  | close line => exact ⟨_, _, rfl, by simp⟩
  | comma line rest => exact ⟨_, _, rfl, by simp⟩
  | object key colon brace inner rest => exact ⟨_, _, rfl, key.kind_token⟩
  | named key colon value rest => exact ⟨_, _, rfl, key.kind_token⟩
  | unnamed entry rest => exact absurd conforms.1 closed

end Body

section Run

variable {nodes : Array Node} {object depth : Nat} {outer : List Frame} {plain : Array PlainEntry}
  {rest : List Token}

theorem step_recorded {token : Token} {name : String} (text : token.kind.text? = some name)
    (recorded : isPlainName name = true) :
    step ⟨nodes, ⟨object, depth, .entry⟩ :: outer, plain⟩ token true =
      ⟨addNode nodes (.key name) object (min (depth + 1) maxDepth) token.line,
        ⟨object, depth, .value (some ⟨nodes.size, name⟩)⟩ :: outer, plain⟩ := by
  obtain ⟨kind, line⟩ := token
  cases kind <;> cases text <;> simp [step, Token.Kind.text?, beginEntry, recorded]

theorem step_object {key : Key} (line : Nat) (named : Bool) :
    step ⟨nodes, ⟨object, depth, .value (some key)⟩ :: outer, plain⟩ ⟨.leftBrace, line⟩ named =
      ⟨addNode nodes .object key.index (min (depth + 1) maxDepth) line,
        ⟨nodes.size, min (depth + 1) maxDepth, .entry⟩ :: ⟨object, depth, .entry⟩ :: outer,
        plain⟩ := rfl

theorem run_close {expecting : Expecting} (flat : expecting = .entry ∨ expecting = .ending 0)
    (line : Nat) (free : outer = [] ∨ ∀ next ∈ rest.head?, next.kind ≠ .colon) :
    run ⟨nodes, ⟨object, depth, expecting⟩ :: outer, plain⟩ (⟨.rightBrace, line⟩ :: rest) =
      run ⟨nodes, outer, plain⟩ rest := by
  have closes (named : Bool) :
      step ⟨nodes, ⟨object, depth, expecting⟩ :: outer, plain⟩ ⟨.rightBrace, line⟩ named =
        ⟨nodes, outer, plain⟩ := by
    rcases flat with rfl | rfl <;> rfl
  rcases free with rfl | apart
  · -- Whether or not a colon is taken along, the reader is closed and reads no further.
    cases rest with
    | nil => exact closes false
    | cons next rest =>
      rw [run_of_closed (rfl : (⟨nodes, [], plain⟩ : Reader).frames = []), run, closes, closes]
      split <;> exact run_of_closed rfl _
  · rw [run_cons (.inr apart), closes]

/-- How the tokens before a place leave the reader. The comma of `Turn.comma` is still to be
read, since it depends on the next token how much it takes. -/
def Turn.Ready : Turn → List Token → Expecting → Prop
  | .comma, lead, expecting => expecting = .entry ∧ ∃ line, lead = [⟨.comma, line⟩]
  | .entry, lead, expecting => expecting = .entry ∧ lead = []
  | .ending, lead, expecting => expecting = .ending 0 ∧ lead = []

theorem Turn.Ready.comma (line : Nat) : Turn.comma.Ready [⟨.comma, line⟩] .entry :=
  ⟨rfl, line, rfl⟩

theorem Turn.Ready.entry : Turn.entry.Ready [] .entry := ⟨rfl, rfl⟩

theorem Turn.Ready.ending : Turn.ending.Ready [] (.ending 0) := ⟨rfl, rfl⟩

theorem Turn.Ready.due {turn : Turn} {lead : List Token} {expecting : Expecting}
    (ready : turn.Ready lead expecting) (admits : turn ≠ .ending) : expecting = .entry := by
  cases turn with
  | ending => exact absurd rfl admits
  | _ => exact ready.1

theorem Turn.Ready.run_lead {turn : Turn} {lead : List Token} {expecting : Expecting}
    (ready : turn.Ready lead expecting) {first : Token}
    (noColon : turn = .comma → first.kind ≠ .colon) :
    run ⟨nodes, ⟨object, depth, expecting⟩ :: outer, plain⟩ (lead ++ first :: rest) =
      run ⟨nodes, ⟨object, depth, expecting⟩ :: outer, plain⟩ (first :: rest) := by
  cases turn with
  | comma =>
    obtain ⟨rfl, line, rfl⟩ := ready
    rw [List.singleton_append, run_cons (.inr fun next member => ?_)]
    · rfl
    · obtain rfl := Option.some.inj member
      exact noColon rfl
  | entry => rw [ready.2, List.nil_append]
  | ending => rw [ready.2, List.nil_append]

/-- Reading stands where the value of an entry has ended. -/
theorem run_named {key : Option Key} {value : Passage} {body : Body}
    (noBrace : key.isSome = true → value.beginsWith .leftBrace = false)
    (conforms : body.Conforms .value) :
    ∃ plain', run ⟨nodes, ⟨object, depth, .value key⟩ :: outer, plain⟩
        (value.tokens ++ (body.tokens ++ rest)) =
      run ⟨nodes, ⟨object, depth, .ending 0⟩ :: outer, plain'⟩ (body.tokens ++ rest) := by
  obtain ⟨first, others, tokens, noObject⟩ : ∃ first others,
      value.tokens ++ (body.tokens ++ rest) = first :: others ∧
        (key.isSome = true → first.kind ≠ .leftBrace) := by
    cases held : value.tokens with
    | nil =>
      obtain ⟨next, more, tokens, _, noObject⟩ := conforms.first (by simp)
      exact ⟨next, more ++ rest, by simp [tokens], fun _ => noObject⟩
    | cons first others =>
      refine ⟨first, _, rfl, fun recorded => ?_⟩
      simpa [Passage.beginsWith, held] using noBrace recorded
  rw [tokens]
  exact (run_value noObject).imp fun _ same =>
    same.trans (tokens ▸ run_nested [] (body.tokens ++ rest) value.nested)

/-- Reading stands where an entry without a name has ended. -/
theorem run_unnamed {first : Token} {passage : List Token} {body : Body}
    (nested : isNested [] (first :: passage) = true) (noKey : beginsKey (first :: passage) = false)
    (conforms : body.Conforms .value) :
    ∃ plain', run ⟨nodes, ⟨object, depth, .entry⟩ :: outer, plain⟩
        (first :: (passage ++ (body.tokens ++ rest))) =
      run ⟨nodes, ⟨object, depth, .ending 0⟩ :: outer, plain'⟩ (body.tokens ++ rest) := by
  obtain ⟨last, more, tokens, noColon, _⟩ := conforms.first (by simp)
  rw [tokens, List.cons_append]
  exact (run_entry (more ++ rest) nested noKey noColon).imp fun _ same =>
    same.trans (run_nested [] (last :: (more ++ rest)) nested)

end Run

/-- The depth of a frame is capped, and so is the depth one further in. -/
theorem min_min_succ (level : Nat) :
    min (min level maxDepth + 1) maxDepth = min (level + 1) maxDepth := by
  omega

theorem size_record (entries : Entries) (nodes : Array Node) (owner level : Nat) :
    (entries.record nodes owner level).size = nodes.size + entries.size := by
  simp [Entries.record, Entries.length_nodes]

/-- Reading on from a place in the object at `object` records the entries of the body there and
leaves the object. -/
def Body.Records (body : Body) (turn : Turn) : Prop :=
  ∀ (nodes : Array Node) (object level : Nat) (expecting : Expecting) (outer : List Frame)
    (plain : Array PlainEntry) (lead rest : List Token), turn.Ready lead expecting →
    object < nodes.size → (outer = [] ∨ ∀ next ∈ rest.head?, next.kind ≠ .colon) →
    ∃ plain', run ⟨nodes, ⟨object, min level maxDepth, expecting⟩ :: outer, plain⟩
        (lead ++ (body.tokens ++ rest)) =
      run ⟨body.entries.record nodes object level, outer, plain'⟩ rest

section Records

variable {turn : Turn} {tail : Body}

theorem records_close (line : Nat) : (Body.close line).Records turn := by
  intro nodes object level expecting outer plain lead rest ready _ free
  refine ⟨plain, ?_⟩
  have flat : expecting = .entry ∨ expecting = .ending 0 := by
    cases turn <;> simp [ready.1]
  simp only [Body.tokens, Body.entries, List.singleton_append]
  rw [ready.run_lead (by simp), run_close flat line free]
  simp [Entries.record, Entries.keys, Entries.nodes, Entries.adopt_nil]

theorem records_comma (line : Nat)
    (records : tail.Records (if turn = .ending then .entry else .comma)) :
    (Body.comma line tail).Records turn := by
  intro nodes object level expecting outer plain lead rest ready inside free
  simp only [Body.tokens, Body.entries, List.cons_append]
  cases turn with
  | ending =>
    obtain ⟨rfl, rfl⟩ := ready
    rw [List.nil_append, run_ending]
    exact records nodes object level _ outer plain _ rest .entry inside free
  | entry =>
    obtain ⟨rfl, rfl⟩ := ready
    exact records nodes object level _ outer plain _ rest (.comma line) inside free
  | comma =>
    rw [ready.run_lead (by simp), ready.1]
    exact records nodes object level _ outer plain _ rest (.comma line) inside free

theorem records_object {name : Name} {colon brace : Nat} {inner : Body} (admits : turn ≠ .ending)
    (recorded : isPlainName name.text = true) (conforms : tail.Conforms .object)
    (recordsInner : inner.Records .entry) (records : tail.Records .entry) :
    (Body.object name colon brace inner tail).Records turn := by
  intro nodes object level expecting outer plain lead rest ready inside free
  have apart : ∀ next ∈ (tail.tokens ++ rest).head?, next.kind ≠ .colon := by
    obtain ⟨next, more, tokens, noColon, _⟩ := conforms.first (by simp)
    simp [tokens, noColon]
  simp only [Body.tokens, Body.entries, List.cons_append, List.append_assoc]
  rw [ready.run_lead fun _ => name.kind_token.1, ready.due admits, run_colon rfl _ _ rfl,
    step_recorded name.text?_token recorded, min_min_succ, run_cons (.inl rfl), step_object,
    min_min_succ, Entries.record_object inside]
  rw [size_addNode]
  generalize grows : addNode (addNode nodes (.key name.text) object (min (level + 1) maxDepth)
    name.token.line) .object nodes.size (min (level + 1) maxDepth) brace = grown
  have size : grown.size = nodes.size + 2 := by
    rw [← grows, size_addNode, size_addNode]
  have insideInner : nodes.size + 1 < grown.size := by omega
  have insideTail :
      object < (inner.entries.record grown (nodes.size + 1) (level + 1)).size := by
    rw [size_record]
    omega
  obtain ⟨between, read⟩ := recordsInner grown _ (level + 1) _ (⟨object, _, .entry⟩ :: outer)
    plain _ (tail.tokens ++ rest) .entry insideInner (.inr apart)
  obtain ⟨last, readTail⟩ := records _ object level _ outer between _ rest .entry insideTail free
  exact ⟨last, grows ▸ read.trans readTail⟩

theorem records_named {name : Name} {colon : Nat} {value : Passage} (admits : turn ≠ .ending)
    (noBrace : isPlainName name.text = true → value.beginsWith .leftBrace = false)
    (conforms : tail.Conforms .value) (records : tail.Records .ending) :
    (Body.named name colon value tail).Records turn := by
  intro nodes object level expecting outer plain lead rest ready inside free
  simp only [Body.tokens, List.cons_append, List.append_assoc]
  rw [ready.run_lead fun _ => name.kind_token.1, ready.due admits, run_colon rfl _ _ rfl]
  cases recorded : isPlainName name.text with
  | false =>
    rw [step_unrecorded name.text?_token recorded, Body.entries, recorded, if_neg (by simp)]
    have unrecorded : (none : Option Key).isSome = true → value.beginsWith .leftBrace = false := by
      simp
    obtain ⟨between, read⟩ := run_named unrecorded conforms
    obtain ⟨last, readTail⟩ := records nodes object level _ outer between _ rest .ending inside free
    exact ⟨last, read.trans readTail⟩
  | true =>
    rw [step_recorded name.text?_token recorded, min_min_succ, Body.entries, recorded,
      if_pos rfl, Entries.record_plain inside]
    have inside : object < (addNode nodes (.key name.text) object (min (level + 1) maxDepth)
        name.token.line).size := by
      rw [size_addNode]
      omega
    obtain ⟨between, read⟩ := run_named (fun _ => noBrace recorded) conforms
    obtain ⟨last, readTail⟩ := records _ object level _ outer between _ rest .ending inside free
    exact ⟨last, read.trans readTail⟩

/-- An entry without a name, read where an entry is due. -/
theorem records_passage {first : Token} {passage : List Token}
    (nested : isNested [] (first :: passage) = true) (noKey : beginsKey (first :: passage) = false)
    (conforms : tail.Conforms .value) (records : tail.Records .ending) {nodes : Array Node}
    {object : Nat} (level : Nat) {outer : List Frame} (plain : Array PlainEntry) {rest : List Token}
    (inside : object < nodes.size)
    (free : outer = [] ∨ ∀ next ∈ rest.head?, next.kind ≠ .colon) :
    ∃ plain', run ⟨nodes, ⟨object, min level maxDepth, .entry⟩ :: outer, plain⟩
        (first :: (passage ++ (tail.tokens ++ rest))) =
      run ⟨tail.entries.record nodes object level, outer, plain'⟩ rest := by
  obtain ⟨between, read⟩ := run_unnamed nested noKey conforms
  obtain ⟨last, readTail⟩ := records nodes object level _ outer between _ rest .ending inside free
  exact ⟨last, read.trans readTail⟩

theorem records_unnamed {first : Token} {passage : List Token}
    (nested : isNested [] (first :: passage) = true) (admits : turn ≠ .ending)
    (apart : turn = .comma → first.kind ≠ .colon) (noKey : beginsKey (first :: passage) = false)
    (conforms : tail.Conforms .value) (records : tail.Records .ending) :
    (Body.unnamed ⟨first :: passage, nested⟩ tail).Records turn := by
  intro nodes object level expecting outer plain lead rest ready inside free
  simp only [Body.tokens, Body.entries, List.append_assoc, List.cons_append]
  rw [ready.run_lead apart, ready.due admits]
  exact records_passage nested noKey conforms records level plain inside free

/-- The comma takes the colon along, and the entry begins after it. -/
theorem records_taken {line : Nat} {passage : List Token}
    (nested : isNested [] (⟨.colon, line⟩ :: passage) = true) (noKey : beginsKey passage = false)
    (conforms : tail.Conforms .value)
    (records : tail.Records (if passage = [] then .entry else .ending)) :
    (Body.unnamed ⟨⟨.colon, line⟩ :: passage, nested⟩ tail).Records .comma := by
  intro nodes object level expecting outer plain lead rest ready inside free
  obtain ⟨rfl, before, rfl⟩ := ready
  simp only [Body.tokens, Body.entries, List.append_assoc, List.cons_append]
  rw [List.nil_append, run_colon rfl _ _ rfl]
  cases passage with
  | nil => exact records nodes object level _ outer plain _ rest .entry inside free
  | cons second others =>
    have nested : isNested [] (second :: others) = true := nested
    exact records_passage nested noKey conforms records level plain inside free

end Records

theorem Body.Conforms.records {body : Body} {gap : Gap} {turn : Turn}
    (conforms : body.Conforms gap) (clear : body.Unambiguous turn)
    (fits : turn = .ending → gap = .value) : body.Records turn := by
  induction body generalizing gap turn with
  | close line => exact records_close line
  | comma line tail ih =>
    have conforms : tail.Conforms .separated := conforms
    have clear : tail.Unambiguous (if turn = .ending then .entry else .comma) := clear
    exact records_comma line (ih conforms clear (by cases turn <;> simp))
  | object name colon brace inner tail ihInner ihTail =>
    obtain ⟨admits, recorded, conformsInner, conformsTail⟩ := conforms
    obtain ⟨clearInner, clearTail⟩ := clear
    exact records_object (fun ending => admits (fits ending)) recorded conformsTail
      (ihInner conformsInner clearInner (by simp)) (ihTail conformsTail clearTail (by simp))
  | named name colon value tail ih =>
    obtain ⟨admits, noBrace, conforms⟩ := conforms
    exact records_named (fun ending => admits (fits ending)) noBrace conforms
      (ih conforms clear (by simp))
  | unnamed entry tail ih =>
    obtain ⟨rfl, nonempty, noEntry, conforms⟩ := conforms
    obtain ⟨entry, nested⟩ := entry
    cases entry with
    | nil => exact absurd rfl nonempty
    | cons first passage =>
      by_cases taken : turn = .comma ∧ first.kind = .colon
      · obtain ⟨rfl, colon⟩ := taken
        obtain ⟨kind, line⟩ := first
        obtain rfl : kind = .colon := colon
        obtain ⟨noKey, clear⟩ : beginsKey passage = false ∧
          tail.Unambiguous (if passage = [] then .entry else .ending) := clear
        exact records_taken nested noKey conforms (ih conforms clear (by simp))
      · have clear : tail.Unambiguous .ending := by
          simpa [Body.Unambiguous, Passage.beginsWith, taken] using clear
        exact records_unnamed nested (fun ending => by simpa using fits ending)
          (fun comma colon => taken ⟨comma, colon⟩) (beginsKey_of_beginsEntry noEntry) conforms
          (ih conforms clear (by simp))

theorem run_literal {literal : Literal} (conforms : literal.Conforms)
    (clear : literal.Unambiguous) (trailing : List Token) :
    ∃ plain, (initial literal.brace).run (literal.body.tokens ++ trailing) =
      ⟨literal.outline.nodes, [], plain⟩ := by
  obtain ⟨plain, read⟩ : ∃ plain,
      run ⟨(initial literal.brace).nodes, [⟨Outline.root, min 0 maxDepth, .entry⟩], #[]⟩
          ([] ++ (literal.body.tokens ++ trailing)) =
        run ⟨literal.body.entries.record (initial literal.brace).nodes Outline.root 0, [], plain⟩
          trailing :=
    Body.Conforms.records conforms clear (by simp) _ Outline.root 0 _ [] #[] [] trailing .entry
      Nat.zero_lt_one (.inl rfl)
  have nodes : literal.body.entries.record (initial literal.brace).nodes Outline.root 0 =
      literal.outline.nodes := by
    simp [Entries.record, Entries.adopt, initial, outline, Entries.outline, Outline.root]
  exact ⟨plain, read.trans (nodes ▸ run_of_closed rfl trailing)⟩

/-- However a literal is written, and whatever follows its closing brace. -/
theorem outline_ofTokens_append (literal : Literal) (conforms : literal.Conforms)
    (clear : literal.Unambiguous) (trailing : List Token) :
    (ofTokens (literal.tokens ++ trailing)).outline = some literal.outline := by
  obtain ⟨plain, read⟩ := run_literal conforms clear trailing
  refine outline_eq_some.mpr ⟨literal.brace, literal.body.tokens ++ trailing, rfl, ?_⟩
  rw [read]
  exact ⟨rfl, rfl⟩

/-- Braces on separate lines, a separator too many, one left out, and entries of every form. -/
def assorted : Literal :=
  ⟨1, .comma 1 <|
    .object ⟨"a", false, 2⟩ 2 2
      (.named ⟨"x", true, 3⟩ 3 ⟨[⟨.word "p", 3⟩, ⟨.other '?', 3⟩, ⟨.word "q", 3⟩, ⟨.colon, 3⟩,
          ⟨.word "r", 3⟩], rfl⟩ <|
        .comma 3 <| .unnamed ⟨[⟨.spread, 4⟩, ⟨.word "s", 4⟩], rfl⟩ <| .close 5) <|
    .object ⟨"b", true, 6⟩ 6 7 (.close 7) <| .comma 7 <|
    .named ⟨"c-d", true, 8⟩ 8
      ⟨[⟨.leftBrace, 8⟩, ⟨.word "e", 8⟩, ⟨.colon, 8⟩, ⟨.rightBrace, 8⟩], rfl⟩ <|
    .comma 8 <| .comma 9 <|
    .unnamed ⟨[⟨.leftBracket, 9⟩, ⟨.word "f", 9⟩, ⟨.comma, 9⟩, ⟨.rightBracket, 9⟩, ⟨.colon, 9⟩], rfl⟩ <|
    .close 10⟩

theorem outline_ofTokens_assorted :
    assorted.Conforms ∧ assorted.Unambiguous ∧
      (ofTokens (assorted.tokens ++ [⟨.colon, 10⟩, ⟨.template, 10⟩])).outline =
        some ⟨#[⟨.object, none, #[1, 4], 0, 1⟩, ⟨.key "a", some 0, #[2], 1, 2⟩,
          ⟨.object, some 1, #[3], 1, 2⟩, ⟨.key "x", some 2, #[], 2, 3⟩,
          ⟨.key "b", some 0, #[5], 1, 6⟩, ⟨.object, some 4, #[], 1, 7⟩]⟩ :=
  have conforms : assorted.Conforms := by decide
  have clear : assorted.Unambiguous := by decide
  ⟨conforms, clear, outline_ofTokens_append assorted conforms clear _⟩

/-- An entry that begins with a colon right after a leading comma, which takes the colon along. -/
def stray : Literal :=
  ⟨1, .comma 1 <|
    .unnamed ⟨[⟨.colon, 1⟩, ⟨.word "a", 1⟩, ⟨.colon, 1⟩, ⟨.leftBrace, 1⟩, ⟨.rightBrace, 1⟩], rfl⟩ <|
    .close 1⟩

theorem outline_ofTokens_stray :
    stray.Conforms ∧ stray.outline = ⟨#[⟨.object, none, #[], 0, 1⟩]⟩ ∧
      (ofTokens stray.tokens).outline = some ⟨#[⟨.object, none, #[1], 0, 1⟩,
        ⟨.key "a", some 0, #[2], 1, 1⟩, ⟨.object, some 1, #[], 1, 1⟩]⟩ ∧
      (ofTokens stray.tokens).outline ≠ some stray.outline := by
  decide

end StyleAudit.Literal
