import StyleAudit.Outline
import StyleAudit.Repeats

/-! The report on a container: the group names that occur again, and the property names that
occur again within one group body. Bodies are told apart by position, so two groups of one
name do not mix their properties. -/
namespace StyleAudit

/-- A property name that its group body already has. The line is that of the repeat. -/
structure Finding where
  group : String
  property : String
  line : Nat
  deriving DecidableEq, Repr

structure Report where
  /-- One element for each repeat, in the order of the source. -/
  repeatedGroups : List String
  repeatedProperties : List Finding
  deriving DecidableEq, Repr

def Report.isClean (report : Report) : Bool :=
  report.repeatedGroups.isEmpty && report.repeatedProperties.isEmpty

def Property.finding (property : Property) : Finding :=
  ⟨property.group.name, property.name, property.line⟩

namespace Outline

def repeatedGroups (groups : List Group) : List Group := repeats (·.name) groups

def repeatedProperties (properties : List Property) : List Property :=
  repeatsWithin (·.group.body) (·.name) properties

def report (outline : Outline) : Except OutOfRange Report := do
  let groups ← outline.groups
  let properties ← outline.properties
  return ⟨(repeatedGroups groups).map (·.name), (repeatedProperties properties).map (·.finding)⟩

end Outline

end StyleAudit
