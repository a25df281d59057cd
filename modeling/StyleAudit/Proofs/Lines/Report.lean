import StyleAudit.Audit
import StyleAudit.Proofs.Lines.Reading
import StyleAudit.Proofs.Repeats

/-! Reports on other line numbers. Nothing is found or left out because of a line, hence other
lines in the source show up as other lines in the report and nowhere else. -/
namespace StyleAudit

variable {f : Nat → Nat}

def Group.relabel (f : Nat → Nat) (group : Group) : Group := { group with line := f group.line }

def Property.relabel (f : Nat → Nat) (property : Property) : Property :=
  { property with group := property.group.relabel f, line := f property.line }

def Finding.relabel (f : Nat → Nat) (finding : Finding) : Finding :=
  { finding with line := f finding.line }

def Report.relabel (f : Nat → Nat) (report : Report) : Report :=
  { report with repeatedProperties := report.repeatedProperties.map (Finding.relabel f) }

theorem collect_map {choose : α → Except ε (Option β)} {choose' : α' → Except ε (Option β')}
    (label : α → α') (result : β → β')
    (same : ∀ item, choose' (label item) = (choose item).map (Option.map result))
    (found : Array β) (items : List α) :
    collect choose' (found.map result) (items.map label) =
      (collect choose found items).map (List.map result) := by
  induction items generalizing found with
  | nil => simp [collect, Except.map]
  | cons item items ih =>
    simp only [List.map_cons, collect, same]
    cases choose item with
    | error failure => rfl
    | ok chosen =>
      cases chosen with
      | none => exact ih found
      | some kept =>
        simp only [Except.map, Option.map_some]
        rw [← Array.map_push]
        exact ih (found.push kept)

namespace Outline

variable (outline : Outline)

theorem node_relabel (index : Nat) :
    (outline.relabel f).node index = (outline.node index).map (Node.relabel f) := by
  simp only [node, relabel, size, Array.getElem?_map, Array.size_map]
  cases outline.nodes[index]? <;> rfl

theorem firstObject?_relabel (children : List Nat) :
    (outline.relabel f).firstObject? children = outline.firstObject? children := by
  induction children with
  | nil => rfl
  | cons index rest ih =>
    simp only [firstObject?, node_relabel, ih]
    cases outline.node index <;> rfl

theorem group?_relabel (index : Nat) :
    (outline.relabel f).group? index =
      (outline.group? index).map (Option.map (Group.relabel f)) := by
  simp only [group?, value?, node_relabel]
  cases outline.node index with
  | error failure => rfl
  | ok node =>
    obtain ⟨kind, parent, children, depth, line⟩ := node
    cases kind with
    | object => rfl
    | key name =>
      simp only [Except.map, bind, Except.bind, Node.relabel, firstObject?_relabel]
      cases outline.firstObject? children.toList with
      | error failure => rfl
      | ok body => cases body <;> rfl

theorem property?_relabel (node : Node) (index : Nat) :
    (outline.relabel f).property? (node.relabel f) index =
      (outline.property? node index).map (Option.map (Property.relabel f)) := by
  obtain ⟨kind, parent, children, depth, line⟩ := node
  cases kind with
  | object => rfl
  | key name =>
    cases parent with
    | none => rfl
    | some body =>
      simp only [property?, Node.relabel, node_relabel]
      split
      · cases outline.node body with
        | error failure => rfl
        | ok object =>
          obtain ⟨_, owner, _, _, _⟩ := object
          cases owner with
          | none => rfl
          | some owner =>
            simp only [Except.map, bind, Except.bind, Node.relabel]
            cases outline.node owner with
            | error failure => rfl
            | ok entry =>
              obtain ⟨kind, _, _, _, _⟩ := entry
              cases kind <;> rfl
      · rfl

theorem groups_relabel :
    (outline.relabel f).groups = outline.groups.map (List.map (Group.relabel f)) := by
  simp only [groups, node_relabel]
  cases outline.node root with
  | error failure => rfl
  | ok node =>
    have same := collect_map id (Group.relabel f) (group?_relabel outline) #[] node.children.toList
    simpa [Except.map, bind, Except.bind, Node.relabel] using same

theorem properties_relabel :
    (outline.relabel f).properties = outline.properties.map (List.map (Property.relabel f)) := by
  have places : (outline.relabel f).nodes.toList.zipIdx =
      outline.nodes.toList.zipIdx.map (Prod.map (Node.relabel f) id) := by
    simp [relabel, List.zipIdx_map]
  have same : collect (fun place : Node × Nat => (outline.relabel f).property? place.1 place.2)
        (Array.map (Property.relabel f) #[])
        (outline.nodes.toList.zipIdx.map (Prod.map (Node.relabel f) id)) =
      outline.properties.map (List.map (Property.relabel f)) :=
    collect_map _ _ (fun place => property?_relabel outline place.1 place.2) #[] _
  rw [Array.map_empty] at same
  rw [properties, places]
  exact same

/-- Names and positions decide what is a repeat. -/
theorem report_relabel : (outline.relabel f).report = outline.report.map (Report.relabel f) := by
  simp only [report, groups_relabel, properties_relabel]
  cases outline.groups with
  | error failure => rfl
  | ok groups =>
    cases outline.properties with
    | error failure => rfl
    | ok properties =>
      have names : (repeatedGroups (groups.map (Group.relabel f))).map Group.name =
          (repeatedGroups groups).map Group.name := by
        simp only [repeatedGroups, repeats_eq_repeatsAfter]
        rw [repeatsAfter_map, List.map_map]
        rfl
      have findings : (repeatedProperties (properties.map (Property.relabel f))).map
            Property.finding =
          ((repeatedProperties properties).map Property.finding).map (Finding.relabel f) := by
        simp only [repeatedProperties, repeatsWithin_eq_repeatsAfter]
        rw [repeatsAfter_map, List.map_map, List.map_map]
        rfl
      simp only [Except.map, bind, Except.bind, pure, Except.pure, names, findings]
      rfl

end Outline

end StyleAudit
