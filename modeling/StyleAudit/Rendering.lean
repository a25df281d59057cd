import StyleAudit.Audit

/-! The two forms of an outcome: lines of text for people and a JSON document for programs.
Only the document tells the lines of the findings. -/
namespace StyleAudit

inductive Format where
  | text | json
  deriving DecidableEq, Repr

def quotedNames (names : List String) : String :=
  "[" ++ ", ".intercalate (names.map fun name => "'" ++ name ++ "'") ++ "]"

def Finding.text (finding : Finding) : String :=
  "Duplicate prop '" ++ finding.property ++ "' in '" ++ finding.group ++ "'\n"

/-- A line on the groups and a line for each finding. -/
def Report.text (report : Report) : String :=
  report.repeatedProperties.foldl (fun out finding => out ++ finding.text)
    ("Top-level duplicates: " ++ quotedNames report.repeatedGroups ++ "\n")

def Finding.value (finding : Finding) : Json.Value :=
  .object [("group", .string finding.group), ("line", .number finding.line),
    ("property", .string finding.property)]

/-- Fields are in alphabetical order. -/
def Report.value (report : Report) : Json.Value :=
  .object [("duplicate_props", .list (report.repeatedProperties.map Finding.value)),
    ("top_level_duplicates", .list (report.repeatedGroups.map .string))]

namespace Outcome

def text (marker : String) : Outcome → String
  | .notFound => "Could not find " ++ marker ++ "\n"
  | .scanned report => report.text

def value (marker : String) : Outcome → Json.Value
  | .notFound => .object [("error", .string "container_not_found"), ("marker", .string marker)]
  | .scanned report => report.value

def render (outcome : Outcome) (marker : String) : Format → String
  | .text => outcome.text marker
  | .json => (outcome.value marker).document

end Outcome

end StyleAudit
