import StyleAudit.Proofs.Audit.Result
import StyleAudit.Proofs.Checked.Reading

/-! An audit with its faults, and that it has none. Every bracket that is counted is a character
of the source, so a source with fewer characters than the counter can hold keeps it in range. -/
namespace StyleAudit

open Token (Kind Lexer Phase)

theorem Token.Phase.pending_closer? {operand : Bool} {phase : Phase} {kind : Kind}
    (member : kind ∈ phase.pending operand) : kind.closer? = none := by
  cases phase with
  | dots two => cases two <;> simp_all [pending, Kind.closer?]
  | slash => cases operand <;> simp_all [pending, Kind.closer?]
  | _ => simp_all [pending, Kind.closer?]

namespace Checked

theorem openings_append (first second : List Token) :
    openings (first ++ second) = openings first + openings second :=
  List.countP_append

theorem openings_pending (operand : Bool) (phase : Phase) (line : Nat) :
    openings ((phase.pending operand).map (⟨·, line⟩)) = 0 := by
  refine List.countP_eq_zero.mpr fun token member => ?_
  obtain ⟨kind, among, rfl⟩ := List.mem_map.mp member
  simp [Phase.pending_closer? among]

theorem openings_step (lexer : Lexer) (c : Char) : openings (lexer.step c).1 ≤ 1 := by
  obtain ⟨phase, operand, line, start⟩ := lexer
  have taken (operand : Bool) (start : Nat) (move : Token.Move) :
      openings (Lexer.take operand line start c move).1 ≤ 1 := by
    cases move with
    | stay => exact Nat.zero_le 1
    | close kind => exact List.countP_le_length
  simp only [Lexer.step]
  cases extension : phase.extend operand c with
  | belongs move => exact taken operand start move
  | after kinds =>
    obtain rfl := Phase.eq_pending_of_extend extension
    rw [openings_append, openings_pending, Nat.zero_add]
    exact taken _ line _

theorem openings_tokens (lexer : Lexer) (text : List Char) :
    openings (lexer.tokens text) ≤ text.length := by
  induction text generalizing lexer with
  | nil =>
    rw [Lexer.tokens_eq]
    exact Nat.le_of_eq (openings_pending _ _ _)
  | cons c text ih =>
    rw [Lexer.tokens_cons, openings_append, List.length_cons]
    have first := openings_step lexer c
    have rest := ih (lexer.step c).2
    omega

theorem openings_container {source marker : String} {container : Container}
    (located : Container.locate? marker (Token.ofText source 1) = some container) :
    openings container.tokens ≤ source.length := by
  obtain ⟨_, found⟩ := Container.locate?_eq_some.mp located
  obtain ⟨before, after, whole, _, call, arguments, paren, rest, _⟩ :=
    Container.first?_eq_some.mp found
  have total : openings (Token.ofText source 1) ≤ source.length := openings_tokens _ _
  have suffix : container.tokens <:+ Token.ofText source 1 :=
    ⟨before ++ (call ++ (arguments ++ [paren])), by simp [whole, rest]⟩
  exact Nat.le_trans (suffix.sublist.countP_le) total

/-- A property with the name and the line that its key has. -/
def reread (outline : Outline) (property : Property) : Except OutOfRange (Option Property) := do
  let key ← outline.node property.key
  return key.name?.map fun name => { property with name, line := key.line }

def report (outline : Outline) : Except OutOfRange Report := do
  let groups ← outline.groups
  let properties ← collect (reread outline) #[] (← outline.properties)
  return ⟨(Outline.repeatedGroups groups).map (·.name),
    (Outline.repeatedProperties properties).map (·.finding)⟩

def outcome (source marker : String) : Except Fault Outcome := do
  match ← locate? marker (← ofText source 1) with
  | none => return .notFound
  | some container =>
    match (← ofTokens container.tokens).outline with
    | none => return .notFound
    | some outline => return .scanned (← (report outline).mapError .outOfRange)

section Queries

variable {outline : Outline}

theorem report_eq (linked : Linked outline.nodes) : report outline = outline.report := by
  obtain ⟨groups, foundGroups, _⟩ := linked.groups_eq
  obtain ⟨properties, foundProperties, _, isProperty⟩ := linked.properties_eq
  have again : ∀ property ∈ properties, reread outline property = .ok (some property) := by
    intro property member
    obtain ⟨_, key, found, isKey, line, _⟩ := (isProperty property).mp member
    simp only [reread, Outline.node_eq_ok.mpr found, bind, Except.bind,
      Node.name?_eq_some.mpr isKey, line]
    rfl
  have same : collect (reread outline) #[] properties = .ok properties := by
    simpa using (Yields.map again).collect #[]
  simp only [report, Outline.report, foundGroups, foundProperties, same, bind, Except.bind]

theorem queries_settle (linked : Linked outline.nodes) {index : Nat}
    (inside : index < outline.nodes.size) :
    (∃ name, outline.name? index = .ok name) ∧ (∃ value, outline.value? index = .ok value) ∧
      ∃ keys, outline.keysOf index = .ok keys := by
  have found : outline.nodes[index]? = some outline.nodes[index] := Array.getElem?_eq_getElem inside
  obtain ⟨keys, listed, _⟩ := linked.keysOf_eq found
  refine ⟨⟨_, Outline.name?_eq found⟩, ?_, keys, listed⟩
  obtain ⟨value, first⟩ := Outline.firstObject?_settles fun child member =>
    (linked.child_inside found member).imp fun _ => And.left
  refine ⟨value, ?_⟩
  rw [Outline.value?, Outline.node_eq_ok.mpr found]
  exact first

end Queries

/-- The checked audit of a short source takes every step and has the result of the plain one. -/
theorem outcome_eq {source : String} (marker : String) (short : source.length < UInt32.size) :
    ∃ found, outcome source marker = .ok found ∧
      (Audit.ofSource source marker).result = .ok found := by
  rw [Audit.result_eq]
  unfold Outline.ofSource?
  simp only [outcome, ofText_eq, locate?_eq, bind, Except.bind]
  cases located : Container.locate? marker (Token.ofText source 1) with
  | none => exact ⟨.notFound, rfl, rfl⟩
  | some container =>
    have room := Nat.lt_of_le_of_lt (openings_container located) short
    simp only [ofTokens_eq room, Option.bind_some]
    cases read : (Reading.ofTokens container.tokens).outline with
    | none => exact ⟨.notFound, rfl, rfl⟩
    | some outline =>
      have linked := Reading.linked_of_outline read
      obtain ⟨report, reported⟩ := linked.exists_report
      simp only [report_eq linked, reported]
      exact ⟨.scanned report, rfl, rfl⟩

/-- An audit of a source with fewer than `2 ^ 32` characters goes wrong at no step. Nor does any
query on the outline, and nothing is passed over inside more brackets than were opened. -/
theorem exists_outcome {source : String} (marker : String) (short : source.length < UInt32.size) :
    (∃ found, outcome source marker = .ok found ∧
      (Audit.ofSource source marker).result = .ok found) ∧
    (∀ outline, Outline.ofSource? source marker = some outline →
      (∃ groups, outline.groups = .ok groups) ∧
      (∃ properties, outline.properties = .ok properties) ∧
      ∀ index < outline.nodes.size, (∃ name, outline.name? index = .ok name) ∧
        (∃ value, outline.value? index = .ok value) ∧ ∃ keys, outline.keysOf index = .ok keys) ∧
    ∀ line tokens, ∀ frame ∈ ((Reading.Reader.initial line).run tokens).frames,
      frame.expecting.brackets ≤ openings tokens := by
  refine ⟨outcome_eq marker short, fun outline found => ?_, fun line tokens frame member => ?_⟩
  · obtain ⟨container, _, read⟩ := Outline.ofSource?_eq_some.mp found
    have linked := Reading.linked_of_outline read
    obtain ⟨groups, foundGroups, _⟩ := linked.groups_eq
    obtain ⟨properties, foundProperties, _⟩ := linked.properties_eq
    exact ⟨⟨groups, foundGroups⟩, ⟨properties, foundProperties⟩,
      fun index inside => queries_settle linked inside⟩
  · have bounded := ((Safe.initial line).run tokens).bounded frame member
    rwa [Nat.zero_add] at bounded

/-- Type arguments in type arguments, braces in an interpolation, and brackets closed too often. -/
def nested : String :=
  "make<A<B>>(\x7b a: \x7b p: [\x60$\x7b\x7b\x7d\x7d\x60])], p: 1 \x7d \x7d)"

theorem exists_outcome_nested : nested.length < UInt32.size ∧
    (∃ found, outcome nested "make" = .ok found ∧ (Audit.ofSource nested "make").result = .ok found) ∧
    ∃ outline, Outline.ofSource? nested "make" = some outline ∧ outline.nodes.size = 5 ∧
      ∃ properties, outline.properties = .ok properties := by
  have short : nested.length < UInt32.size := by decide
  obtain ⟨succeeds, settles, _⟩ := exists_outcome "make" short
  have sized : (Outline.ofSource? nested "make").map (·.nodes.size) = some 5 := by decide +kernel
  obtain ⟨outline, found, size⟩ := Option.map_eq_some_iff.mp sized
  exact ⟨short, succeeds, outline, found, size, (settles outline found).2.1⟩

end Checked

end StyleAudit
