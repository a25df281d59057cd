import StyleAudit.Proofs.Literal.Audit
import StyleAudit.Proofs.Outline.Report
import StyleAudit.Proofs.Reading.PlainEntries

/-! What the notes of an audit tell of its outcome. The notes on entries are made while the
container is read, and those on groups when its outline is complete. Both agree on every entry. -/
namespace StyleAudit

/-- The message of a note and its fields, as a log shows them. -/
abbrev Event := String × List (String × Json.Value)

def Note.event (note : Note) : Event := (note.message, note.fields)

def Audit.events (audit : Audit) : List Event := audit.notes.map Note.event

namespace Event

def located (marker : String) (line : Nat) : Event :=
  ("container located", [("marker", .string marker), ("line", .number line)])

def plainEntry (entry : PlainEntry) : Event :=
  ("top-level entry is not an object literal",
    [("entry", .string entry.name), ("line", .number entry.line)])

def unclosed (marker : String) (line : Nat) : Event :=
  ("container literal is not closed", [("marker", .string marker), ("line", .number line)])

def outlined (nodes : Nat) : Event := ("container parsed", [("nodes", .number nodes)])

def grouped (groups : Nat) : Event := ("extracted groups", [("groups", .number groups)])

def repeatedGroup (group : Group) : Event :=
  ("repeated group", [("group", .string group.name), ("line", .number group.line)])

end Event

/-- The events that go with a container and an outcome. An entry of the container is in the log just
if it is no group. In a container that is not closed, one more key may be `due` that has no value
so far. -/
inductive Log (marker : String) : Option Container → Outcome → List Event → Prop where
  | missing : Log marker none .notFound []
  | unclosed {container : Container} {reading : Reading} {reader : Reading.Reader} :
      reading = .ofTokens container.tokens → reading.outline = none →
      reader = (Reading.Reader.initial container.brace.line).run container.body →
      Outline.Entries ⟨reader.nodes⟩ keys groups (reading.plain.map (·.name) ++ due) →
      due.length ≤ 1 →
      Log marker (some container) .notFound
        (.located marker container.brace.line :: reading.plain.map Event.plainEntry ++
          [.unclosed marker container.brace.line])
  | closed {container : Container} {reading : Reading} {again : List Group} :
      reading = .ofTokens container.tokens → reading.outline = some outline →
      outline.Entries keys groups (reading.plain.map (·.name)) → outline.report = .ok report →
      IsRepeats (·.name) groups again → report.repeatedGroups = again.map (·.name) →
      Log marker (some container) (.scanned report)
        (.located marker container.brace.line :: reading.plain.map Event.plainEntry ++
          (.outlined outline.nodes.size :: .grouped groups.length :: again.map Event.repeatedGroup))

/-- The groups whose name comes again are noted and reported together. -/
theorem Outline.notes_eq {outline : Outline} {groups : List Group}
    (found : outline.groups = .ok groups) : outline.notes.map Note.event =
      .outlined outline.nodes.size :: .grouped groups.length ::
        (repeatsAfter (·.name) [] groups).map Event.repeatedGroup := by
  simp only [notes, found, repeatedGroups, repeats_eq_repeatsAfter, List.map_cons, List.map_map]
  rfl

namespace Audit

theorem events_closed (marker : String) {container : Container} {outline : Outline}
    {groups : List Group} (read : (Reading.ofTokens container.tokens).outline = some outline)
    (found : outline.groups = .ok groups) : (ofContainer marker container).events =
      .located marker container.brace.line ::
        (Reading.ofTokens container.tokens).plain.map Event.plainEntry ++
          (.outlined outline.nodes.size :: .grouped groups.length ::
            (repeatsAfter (·.name) [] groups).map Event.repeatedGroup) := by
  simp only [events, ofContainer, read, List.map_append, List.map_cons, List.map_map,
    Outline.notes_eq found]
  rfl

theorem log_ofContainer (marker : String) {container : Container}
    (isBrace : container.brace.kind = .leftBrace) :
    ∃ outcome, (ofContainer marker container).result = .ok outcome ∧
      Log marker (some container) outcome (ofContainer marker container).events := by
  obtain ⟨⟨kind, line⟩, body⟩ := container
  obtain rfl : kind = .leftBrace := isBrace
  obtain ⟨keys, groups, due, entries, few, settled⟩ := (Reading.Noted.run line body).entries
  cases read : (Reading.ofTokens (Container.tokens ⟨⟨.leftBrace, line⟩, body⟩)).outline with
  | none =>
    refine ⟨.notFound, by simp only [ofContainer, read], ?_⟩
    simp only [events, ofContainer, read, List.map_append, List.map_cons, List.map_map]
    exact .unclosed rfl read rfl entries few
  | some outline =>
    obtain ⟨_, _, same, closed, complete⟩ := Reading.outline_eq_some.mp read
    cases same
    rw [settled closed, List.append_nil, ← complete] at entries
    obtain ⟨properties, foundProperties, _⟩ := (Reading.linked_of_outline read).properties_eq
    have reported := Outline.report_eq_ok entries.hasGroups foundProperties
    refine ⟨_, by simp only [ofContainer, read, reported]; rfl, ?_⟩
    rw [events_closed marker read entries.hasGroups]
    exact .closed rfl read entries reported (isRepeats_repeatsAfter _ groups) rfl

/-- Every audit has an outcome, and its log agrees with it. -/
theorem log_ofSource (source marker : String) :
    ∃ outcome, (ofSource source marker).result = .ok outcome ∧
      Log marker (Container.locate? marker (Token.ofText source 1)) outcome
        (ofSource source marker).events := by
  cases located : Container.locate? marker (Token.ofText source 1) with
  | none =>
    simp only [ofSource, located]
    exact ⟨.notFound, rfl, .missing⟩
  | some container =>
    simp only [ofSource, located]
    exact log_ofContainer marker (Container.kind_brace located)

def noted : String :=
  "make(\x7b\n a: \x7bp, q: \x7br: 1\x7d\x7d, b: 2,\n a: \x7b\x7d, 'c': []\x7d)"

/-- The last key has no value so far. -/
def unfinished : String := "\n make(\x7ba: \x7bb: 1\x7d, c: 2, d:"

theorem log_ofSource_noted :
    Log "make" (Container.locate? "make" (Token.ofText noted 1)) (.scanned ⟨["a"], []⟩) [
      ("container located", [("marker", .string "make"), ("line", .number 1)]),
      ("top-level entry is not an object literal", [("entry", .string "b"), ("line", .number 2)]),
      ("top-level entry is not an object literal", [("entry", .string "c"), ("line", .number 3)]),
      ("container parsed", [("nodes", .number 10)]),
      ("extracted groups", [("groups", .number 2)]),
      ("repeated group", [("group", .string "a"), ("line", .number 3)])] ∧
    Log "make" (Container.locate? "make" (Token.ofText unfinished 1)) .notFound [
      ("container located", [("marker", .string "make"), ("line", .number 2)]),
      ("top-level entry is not an object literal", [("entry", .string "c"), ("line", .number 2)]),
      ("container literal is not closed", [("marker", .string "make"), ("line", .number 2)])] := by
  constructor
  · let entries : Literal.Entries :=
      .object "a" 2 2 (.object "q" 2 2 (.plain "r" 2 .nil) .nil)
        (.plain "b" 2 (.object "a" 3 3 .nil (.plain "c" 3 .nil)))
    have outline : Outline.ofSource? noted "make" = some (entries.outline 1) := by decide +kernel
    have groups : (entries.outline 1).groups = .ok [⟨"a", 2, 2⟩, ⟨"a", 3, 8⟩] := rfl
    obtain ⟨container, located, read⟩ := Outline.ofSource?_eq_some.mp outline
    have marked : (Container.locate? "make" (Token.ofText noted 1)).map (fun container =>
        (container.brace.line, (Reading.ofTokens container.tokens).plain)) =
          some (1, [⟨"b", 2⟩, ⟨"c", 3⟩]) := by decide +kernel
    rw [located, Option.map_some, Option.some_inj, Prod.mk.injEq] at marked
    obtain ⟨outcome, audited, log⟩ := log_ofSource noted "make"
    have reported := Literal.Entries.result_of_outline outline
    have report : entries.report = ⟨["a"], []⟩ := by decide
    rw [audited, report] at reported
    obtain rfl := Except.ok.inj reported
    simp only [ofSource, located] at log
    rw [events_closed "make" read groups, marked.1, marked.2] at log
    rw [located]
    exact log
  · have notes : (ofSource unfinished "make").notes =
        [.located "make" 2, .plainEntry "c" 2, .unclosed "make" 2] := by decide +kernel
    have result : (ofSource unfinished "make").result = .ok .notFound := by decide +kernel
    obtain ⟨outcome, audited, log⟩ := log_ofSource unfinished "make"
    obtain rfl := Except.ok.inj (result.symm.trans audited)
    rw [events, notes] at log
    exact log

end Audit

end StyleAudit
