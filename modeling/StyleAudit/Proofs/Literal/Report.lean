import StyleAudit.Proofs.Literal.Outline
import StyleAudit.Proofs.Outline.Collect
import StyleAudit.Proofs.Repeats
import StyleAudit.Report

/-! The report on an object literal, from its entries alone, and that the outline of the
literal leads to it. Positions serve only to tell group bodies apart. -/
namespace StyleAudit

namespace Literal.Entries

/-- The entries whose values are objects, with what these hold. -/
def objects : Entries → List (String × Entries)
  | nil => []
  | plain _ _ rest => rest.objects
  | object name _ _ inner rest => (name, inner) :: rest.objects

def names : Entries → List (String × Nat)
  | nil => []
  | plain name line rest => (name, line) :: rest.names
  | object name line _ _ rest => (name, line) :: rest.names

/-- The names that occur again in the body of a group. -/
def findings (group : String) (body : Entries) : List Finding :=
  (repeatsAfter Prod.fst [] body.names).map fun (property, line) => ⟨group, property, line⟩

def report (entries : Entries) : Report :=
  ⟨repeatsAfter id [] (entries.objects.map Prod.fst),
    entries.objects.flatMap fun (group, body) => body.findings group⟩

/-- The groups when the first node has the position `start`. -/
def groups (start : Nat) : Entries → List Group
  | nil => []
  | plain _ _ rest => rest.groups (start + 1)
  | object name line _ inner rest =>
    ⟨name, line, start + 1⟩ :: rest.groups (start + 2 + inner.size)

def propertiesOf (group : Group) (start : Nat) : Entries → List Property
  | nil => []
  | plain name line rest => ⟨group, start, name, line⟩ :: rest.propertiesOf group (start + 1)
  | object name line _ inner rest =>
    ⟨group, start, name, line⟩ :: rest.propertiesOf group (start + 2 + inner.size)

def properties (start : Nat) : Entries → List Property
  | nil => []
  | plain _ _ rest => rest.properties (start + 1)
  | object name line _ inner rest =>
    inner.propertiesOf ⟨name, line, start + 1⟩ (start + 2) ++
      rest.properties (start + 2 + inner.size)

end Literal.Entries

theorem Outline.group?_of_key {outline : Outline} {index : Nat} {entry : Node} {name : String}
    {body : Option Nat} (found : outline.node index = .ok entry) (isKey : entry.kind = .key name)
    (value : outline.firstObject? entry.children.toList = .ok body) :
    outline.group? index = .ok (body.map fun body => ⟨name, entry.line, body⟩) := by
  simp [group?, value?, found, isKey, value, bind, Except.bind, pure, Except.pure]

/-- A stretch of an outline, from the position `start` on. -/
def Outline.Holds (outline : Outline) (start : Nat) (nodes : List Node) : Prop :=
  ∀ i node, nodes[i]? = some node → outline.node (start + i) = .ok node

namespace Outline.Holds

variable {outline : Outline} {start : Nat} {node : Node} {nodes more : List Node}

theorem head (holds : outline.Holds start (node :: nodes)) : outline.node start = .ok node :=
  holds 0 node rfl

theorem tail (holds : outline.Holds start (node :: nodes)) : outline.Holds (start + 1) nodes := by
  intro i other found
  rw [Nat.add_assoc, Nat.add_comm 1]
  exact holds (i + 1) other found

theorem right (holds : outline.Holds start (nodes ++ more)) :
    outline.Holds (start + nodes.length) more := by
  intro i other found
  rw [Nat.add_assoc]
  exact holds _ other (by rw [List.getElem?_append_right (by omega)]; simpa using found)

theorem all (outline : Outline) : outline.Holds 0 outline.nodes.toList := by
  intro i other found
  simp only [Array.getElem?_toList] at found
  simp [Outline.node, found]

end Outline.Holds

namespace Literal.Entries

open Reading (maxDepth)

variable {outline : Outline} {owner level start : Nat} {entries : Entries}

theorem yields_groups (holds : outline.Holds start (entries.nodes owner level start)) :
    Yields outline.group? (entries.keys start) (entries.groups start) := by
  induction entries generalizing start with
  | nil => exact .nil
  | plain name line rest ih =>
    exact .skip (Outline.group?_of_key holds.head rfl rfl) (ih holds.tail)
  | object name line brace inner rest _ ih =>
    have after : outline.Holds (start + 2 + inner.size)
        (rest.nodes owner level (start + 2 + inner.size)) := by
      simpa [length_nodes] using holds.tail.tail.right
    have body : outline.firstObject? [start + 1] = .ok (some (start + 1)) := by
      simp [Outline.firstObject?, holds.tail.head]
    exact .keep (Outline.group?_of_key holds.head rfl body) (ih after)

/-- How properties are chosen among the nodes and their positions. -/
abbrev chooseProperty (outline : Outline) (place : Node × Nat) :
    Except OutOfRange (Option Property) :=
  outline.property? place.1 place.2

theorem depth_of_mem {node : Node} (member : node ∈ entries.nodes owner level start) :
    ∃ deeper, level < deeper ∧ node.depth = min deeper maxDepth := by
  induction entries generalizing owner level start with
  | nil => simp [nodes] at member
  | plain name line rest ih =>
    rcases List.mem_cons.mp member with rfl | member
    · exact ⟨level + 1, Nat.lt_succ_self _, rfl⟩
    · exact ih member
  | object name line brace inner rest ihInner ihRest =>
    simp only [nodes, List.mem_cons, List.mem_append] at member
    rcases member with rfl | rfl | member | member
    · exact ⟨level + 1, Nat.lt_succ_self _, rfl⟩
    · exact ⟨level + 1, Nat.lt_succ_self _, rfl⟩
    · obtain ⟨deeper, below, depth⟩ := ihInner member
      exact ⟨deeper, by omega, depth⟩
    · exact ihRest member

/-- No property stands deeper than directly in a group body, not even with its depth capped. -/
theorem yields_deep (deep : 2 ≤ level) :
    Yields (chooseProperty outline) ((entries.nodes owner level start).zipIdx start) [] := by
  refine .none fun (node, index) member => ?_
  obtain ⟨deeper, below, depth⟩ := depth_of_mem (List.fst_mem_of_mem_zipIdx member)
  have apart : node.depth ≠ Outline.propertyDepth := by
    have depth : node.depth = min deeper maxDepth := depth
    rw [depth, maxDepth, Outline.propertyDepth]
    omega
  simp only [chooseProperty, Outline.property?]
  split <;> simp [apart]

theorem yields_propertiesOf (group : Group) {body entry : Node} {key : Nat}
    (isBody : outline.node group.body = .ok body) (parent : body.parent = some key)
    (isKey : outline.node key = .ok entry) (name : entry.kind = .key group.name)
    (line : entry.line = group.line) :
    Yields (chooseProperty outline) ((entries.nodes group.body 1 start).zipIdx start)
      (entries.propertiesOf group start) := by
  have chosen (property : String) (children : Array Nat) (at' index : Nat) :
      outline.property? ⟨.key property, some group.body, children, min (1 + 1) maxDepth, at'⟩
          index =
        .ok (some ⟨group, index, property, at'⟩) := by
    simp [Outline.property?, Outline.propertyDepth, maxDepth, isBody, parent, isKey, Node.name?,
      name, line, bind, Except.bind, pure, Except.pure]
  induction entries generalizing start with
  | nil => exact .nil
  | plain property at' rest ih => exact .keep (chosen _ _ _ _) ih
  | object property at' brace inner rest _ ih =>
    refine .keep (chosen _ _ _ _) (.skip rfl ?_)
    rw [List.zipIdx_append, length_nodes]
    exact (yields_deep (Nat.le_refl 2)).append ih

theorem yields_properties (holds : outline.Holds start (entries.nodes owner 0 start)) :
    Yields (chooseProperty outline) ((entries.nodes owner 0 start).zipIdx start)
      (entries.properties start) := by
  induction entries generalizing start with
  | nil => exact .nil
  | plain name line rest ih => exact .skip rfl (ih holds.tail)
  | object name line brace inner rest _ ih =>
    have after : outline.Holds (start + 2 + inner.size)
        (rest.nodes owner 0 (start + 2 + inner.size)) := by
      simpa [length_nodes] using holds.tail.tail.right
    refine .skip rfl (.skip rfl ?_)
    rw [List.zipIdx_append, length_nodes]
    refine .append ?_ (ih after)
    exact yields_propertiesOf ⟨name, line, start + 1⟩ holds.tail.head rfl holds.head rfl rfl

theorem map_groups (entries : Entries) (start : Nat) :
    (entries.groups start).map Group.name = entries.objects.map Prod.fst := by
  induction entries generalizing start with
  | nil => rfl
  | plain name line rest ih => exact ih _
  | object name line brace inner rest _ ih => simp [groups, objects, ih]

theorem group_of_mem {group : Group} {property : Property}
    (member : property ∈ entries.propertiesOf group start) : property.group = group := by
  induction entries generalizing start with
  | nil => simp [propertiesOf] at member
  | plain name line rest ih | object name line brace inner rest _ ih =>
    rcases List.mem_cons.mp member with rfl | member
    · rfl
    · exact ih member

theorem map_propertiesOf (entries : Entries) (group : Group) (start : Nat) :
    (entries.propertiesOf group start).map Property.finding =
      entries.names.map fun (property, line) => ⟨group.name, property, line⟩ := by
  induction entries generalizing start with
  | nil => rfl
  | plain name line rest ih | object name line brace inner rest _ ih =>
    simp [propertiesOf, names, Property.finding, ih]

/-- What makes two properties repeats of each other. -/
abbrev place (property : Property) : Nat × String := (property.group.body, property.name)

theorem place_of_mem {group : Group} {property : Property}
    (member : property ∈ entries.propertiesOf group start) : (place property).1 = group.body :=
  congrArg Group.body (group_of_mem member)

/-- Within one body, places are told apart by name. -/
theorem repeats_propertiesOf (entries : Entries) (group : Group) (start : Nat) :
    (repeatsAfter place [] (entries.propertiesOf group start)).map Property.finding =
      entries.findings group.name := by
  have named : repeatsAfter place [] (entries.propertiesOf group start) =
      repeatsAfter (fun property => property.finding.property) []
        (entries.propertiesOf group start) := by
    have same : ∀ x ∈ [] ++ entries.propertiesOf group start,
        ∀ y ∈ entries.propertiesOf group start,
          place x = place y ↔ x.finding.property = y.finding.property := by
      intro x first y second
      rw [place, place, group_of_mem first, group_of_mem second]
      simp [Property.finding]
    exact repeatsAfter_rekey same
  rw [named, ← repeatsAfter_map, map_propertiesOf, repeatsAfter_map]
  rfl

theorem repeats_properties {before : List (Nat × String)} (early : ∀ k ∈ before, k.1 ≤ start) :
    (repeatsAfter place before (entries.properties start)).map Property.finding =
      entries.objects.flatMap fun (group, body) => body.findings group := by
  induction entries generalizing start before with
  | nil => rfl
  | plain name line rest ih => exact ih fun k member => Nat.le_succ_of_le (early k member)
  | object name line brace inner rest _ ih =>
    have apart : ∀ property ∈ inner.propertiesOf ⟨name, line, start + 1⟩ (start + 2),
        place property ∉ before := by
      intro property member seen
      have bound := early _ seen
      rw [place_of_mem member] at bound
      exact Nat.not_succ_le_self start bound
    have later : ∀ k ∈ (inner.propertiesOf ⟨name, line, start + 1⟩ (start + 2)).map place ++ before,
        k.1 ≤ start + 2 + inner.size := by
      intro k member
      rcases List.mem_append.mp member with member | member
      · obtain ⟨property, inside, rfl⟩ := List.mem_map.mp member
        rw [place_of_mem inside, Nat.add_assoc]
        exact Nat.add_le_add_left (by omega) start
      · have bound := early k member
        omega
    simp only [properties, objects, List.flatMap_cons]
    rw [repeatsAfter_append, repeatsAfter_nil_of_apart apart, List.map_append,
      repeats_propertiesOf, ih later]

theorem report_outline (entries : Entries) (brace : Nat) :
    (entries.outline brace).report = .ok entries.report := by
  have holds : (entries.outline brace).Holds 1 (entries.nodes Outline.root 0 1) :=
    (Outline.Holds.all (entries.outline brace)).tail
  have groups : (entries.outline brace).groups = .ok (entries.groups 1) := by
    have read : (entries.outline brace).groups =
      collect (entries.outline brace).group? #[] (entries.keys 1) := rfl
    rw [read, (yields_groups holds).collect]
    rfl
  have properties : (entries.outline brace).properties = .ok (entries.properties 1) := by
    have all : Yields (chooseProperty (entries.outline brace))
        ((entries.outline brace).nodes.toList.zipIdx 0) (entries.properties 1) :=
      .skip rfl (yields_properties holds)
    exact (all.collect #[]).trans rfl
  have names : (repeatsAfter Group.name [] (entries.groups 1)).map Group.name =
      repeatsAfter id [] (entries.objects.map Prod.fst) := by
    rw [← map_groups entries 1, repeatsAfter_map]
    rfl
  have nothing : ∀ k ∈ ([] : List (Nat × String)), k.1 ≤ 1 := by simp
  rw [Outline.report, groups, properties, report, ← names, ← repeats_properties nothing]
  simp only [Outline.repeatedGroups, Outline.repeatedProperties, repeats_eq_repeatsAfter,
    repeatsWithin_eq_repeatsAfter]
  rfl

end Literal.Entries

end StyleAudit
