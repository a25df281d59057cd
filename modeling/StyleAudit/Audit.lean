import StyleAudit.Container
import StyleAudit.Note
import StyleAudit.Outline.Reading
import StyleAudit.Report

/-! An audit of a source text locates its container, reads the outline and reports repeats.
A container that is missing or never closed is an outcome and no failure. The result can fail
only by a link out of range, which the outlines read from tokens do not have. -/
namespace StyleAudit

inductive Outcome where
  | notFound
  | scanned (report : Report)
  deriving DecidableEq, Repr

def Outcome.hasRepeats : Outcome → Bool
  | .notFound => false
  | .scanned report => !report.isClean

structure Audit where
  notes : List Note
  result : Except OutOfRange Outcome

/-- The notes that go with the report on an outline. -/
def Outline.notes (outline : Outline) : List Note :=
  .outlined outline.size ::
    match outline.groups with
    | .error _ => []
    | .ok groups =>
      .grouped groups.length ::
        (repeatedGroups groups).map fun group => .repeatedGroup group.name group.line

namespace Audit

def ofContainer (marker : String) (container : Container) : Audit :=
  let reading := Reading.ofTokens container.tokens
  let notes := .located marker container.brace.line ::
    reading.plain.map fun entry => .plainEntry entry.name entry.line
  match reading.outline with
  | none => ⟨notes ++ [.unclosed marker container.brace.line], .ok .notFound⟩
  | some outline => ⟨notes ++ outline.notes, outline.report.map .scanned⟩

def ofSource (source marker : String) : Audit :=
  match Container.locate? marker (Token.ofText source 1) with
  | none => ⟨[], .ok .notFound⟩
  | some container => ofContainer marker container

/-- The audit of a file that holds `source`, which the notes mention first. -/
def ofFile (path source marker : String) : Audit :=
  let audit := ofSource source marker
  { audit with notes := .loaded path source.utf8ByteSize :: audit.notes }

end Audit

/-- The outline of the container in a source, if there is one and it is closed. -/
def Outline.ofSource? (source marker : String) : Option Outline :=
  (Container.locate? marker (Token.ofText source 1)).bind fun container =>
    (Reading.ofTokens container.tokens).outline

end StyleAudit
