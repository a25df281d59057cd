import Mathlib.Data.List.Nodup
import StyleAudit.CommandLine

/-! Command lines put together from parts: a path, options with their values in any spelling, and
a flag. Each part fills a place of its own in the draft, hence their order does not matter. -/
namespace StyleAudit.CommandLine

def Valued.long : Valued → String
  | .marker => "marker"
  | .format => "format"

def Valued.short : Valued → Char
  | .marker => 'm'
  | .format => 'f'

/-- The ways to give an option its value. -/
inductive Spelling where
  /-- The long name and an equals sign. -/
  | longEquals
  /-- The long name, with the value in the next argument. -/
  | longApart
  | shortEquals
  | shortApart
  /-- The short name and the value in one argument. -/
  | joined
  deriving DecidableEq, Repr

namespace Spelling

def arguments (option : Valued) (value : String) : Spelling → List String
  | .longEquals => ["--" ++ option.long ++ "=" ++ value]
  | .longApart => ["--" ++ option.long, value]
  | .shortEquals => [("-".push option.short).push '=' ++ value]
  | .shortApart => ["-".push option.short, value]
  | .joined => ["-".push option.short ++ value]

/-- The values that can be given so. -/
def Accepts (value : String) : Spelling → Prop
  | .longEquals | .shortEquals => True
  | .longApart | .shortApart => value.toList.head? ≠ some '-'
  | .joined => value ≠ "" ∧ value.toList.head? ≠ some '='

instance (value : String) : DecidablePred (Accepts value)
  | .longEquals | .shortEquals => inferInstanceAs (Decidable True)
  | .longApart | .shortApart => inferInstanceAs (Decidable (value.toList.head? ≠ some '-'))
  | .joined => inferInstanceAs (Decidable (value ≠ "" ∧ value.toList.head? ≠ some '='))

end Spelling

namespace Draft

variable {draft next : Draft} {option : Valued} {value : String}

end Draft

def formatName : Format → String
  | .text => "text"
  | .json => "json"

inductive Part where
  | path (path : String)
  | marker (value : String) (spelling : Spelling)
  | format (value : Format) (spelling : Spelling)
  | deny
  deriving DecidableEq, Repr

namespace Part

def arguments : Part → List String
  | path name => [name]
  | marker value spelling => spelling.arguments .marker value
  | format value spelling => spelling.arguments .format (formatName value)
  | deny => ["--deny-duplicates"]

def Accepted : Part → Prop
  | path name => name ≠ "" ∧ name.toList.head? ≠ some '-'
  | marker value spelling => spelling.Accepts value
  | format _ _ | deny => True

/-- Parts with one place exclude each other. -/
def place : Part → Nat
  | path _ => 0
  | marker _ _ => 1
  | format _ _ => 2
  | deny => 3

end Part

/-- What a command line says, and how it spells its options. -/
structure Wording where
  path : String
  marker : Option (String × Spelling)
  format : Option (Format × Spelling)
  denyRepeats : Bool
  deriving DecidableEq, Repr

namespace Wording

def options (wording : Wording) : Options :=
  ⟨wording.path, (wording.marker.map (·.1)).getD defaultMarker,
    (wording.format.map (·.1)).getD .text, wording.denyRepeats⟩

def parts (wording : Wording) : List Part :=
  .path wording.path :: ((wording.marker.map fun given => .marker given.1 given.2).toList ++
    ((wording.format.map fun given => .format given.1 given.2).toList ++
      if wording.denyRepeats then [.deny] else []))

structure Accepted (wording : Wording) : Prop where
  path : wording.path ≠ ""
  plain : wording.path.toList.head? ≠ some '-'
  marker : ∀ value spelling, wording.marker = some (value, spelling) → spelling.Accepts value

theorem Accepted.parts {wording : Wording} (accepted : wording.Accepted) :
    ∀ part ∈ wording.parts, part.Accepted := by
  intro part member
  rcases List.mem_cons.mp member with rfl | member
  · exact ⟨accepted.path, accepted.plain⟩
  rcases List.mem_append.mp member with member | member
  · obtain ⟨⟨value, spelling⟩, given, rfl⟩ :=
      Option.map_eq_some_iff.mp (Option.mem_toList.mp member)
    exact accepted.marker value spelling given
  · cases part with
    | format | deny => trivial
    | path | marker => cases format : wording.format <;> simp [format] at member

end Wording

end StyleAudit.CommandLine
