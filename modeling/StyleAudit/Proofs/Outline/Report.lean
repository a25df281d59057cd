import StyleAudit.Proofs.Outline.Queries
import StyleAudit.Proofs.Repeats.Places
import StyleAudit.Report

/-! What a report says of the groups and properties of an outline, whatever its links. Each repeat
of a name is reported once, where it stands, and each body is judged by its own keys. -/
namespace StyleAudit

/-- The body and the name, by which properties are compared. -/
def Property.slot (property : Property) : Nat × String := (property.group.body, property.name)

def Property.isIn (body : Nat) (property : Property) : Bool := property.group.body = body

theorem Property.slot_eq_iff {body : Nat} {first second : Property}
    (left : first.isIn body = true) (right : second.isIn body = true) :
    first.slot = second.slot ↔ first.name = second.name := by
  simp only [isIn, decide_eq_true_eq] at left right
  simp [slot, left, right]

theorem Property.isIn_of_slot {body : Nat} {first second : Property}
    (same : first.slot = second.slot) : first.isIn body = second.isIn body := by
  rw [isIn, isIn, (Prod.mk.inj same).1]

theorem Property.nodup_slots_iff {properties : List Property} :
    (properties.map (·.slot)).Nodup ↔
      ∀ body, ((properties.filter (·.isIn body)).map (·.name)).Nodup := by
  simp only [List.Nodup, List.pairwise_map, List.pairwise_filter]
  constructor
  · intro apart body
    exact apart.imp fun differ left right same => differ ((slot_eq_iff left right).mpr same)
  · intro apart
    rw [List.pairwise_iff_getElem]
    intro i j _ _ less same
    have isIn : (properties[i]).isIn properties[i].group.body = true := decide_eq_true rfl
    have alike := isIn_of_slot same ▸ isIn
    exact List.pairwise_iff_getElem.mp (apart _) i j _ _ less isIn alike
      ((slot_eq_iff isIn alike).mp same)

/-- A report on just the repeats among groups and properties. -/
structure Report.Exact (groups : List Group) (properties repeated : List Property)
    (report : Report) : Prop where
  repeatedGroups : ∃ again, IsRepeats (·.name) groups again ∧
    report.repeatedGroups = again.map (·.name)
  repeatedProperties : IsRepeats Property.slot properties repeated
  findings : report.repeatedProperties =
    repeated.map fun property => ⟨property.group.name, property.name, property.line⟩
  /-- Of the groups with one name each but the first is reported. -/
  countGroups : ∀ name,
    report.repeatedGroups.count name = (groups.map (·.name)).count name - 1
  countProperties : ∀ slot,
    (repeated.map (·.slot)).count slot = (properties.map (·.slot)).count slot - 1
  /-- The findings in a body are the repeats of names in this body alone. -/
  bodies : ∀ body,
    IsRepeats (·.name) (properties.filter (·.isIn body)) (repeated.filter (·.isIn body))
  clean : report.isClean = true ↔ (groups.map (·.name)).Nodup ∧
    ∀ body, ((properties.filter (·.isIn body)).map (·.name)).Nodup

/-- Within a body, properties are told apart by name alone. -/
theorem repeatsAfter_slots (body : Nat) (properties : List Property) :
    (repeatsAfter Property.slot [] properties).filter (·.isIn body) =
      repeatsAfter (·.name) [] (properties.filter (·.isIn body)) := by
  have same : ∀ x ∈ [] ++ properties.filter (·.isIn body), ∀ y ∈ properties.filter (·.isIn body),
      x.slot = y.slot ↔ x.name = y.name := fun x left y right =>
    Property.slot_eq_iff (List.of_mem_filter left) (List.of_mem_filter right)
  rw [filter_repeatsAfter fun _ _ same => Property.isIn_of_slot same]
  exact repeatsAfter_rekey same

namespace Outline

variable {outline : Outline} {groups : List Group} {properties : List Property}

theorem report_eq_ok (foundGroups : outline.groups = .ok groups)
    (foundProperties : outline.properties = .ok properties) : outline.report =
      .ok ⟨(repeatsAfter (·.name) [] groups).map (·.name),
        (repeatsAfter Property.slot [] properties).map (·.finding)⟩ := by
  rw [report, foundGroups, foundProperties, ← repeats_eq_repeatsAfter]
  simp only [bind, Except.bind, repeatedProperties, repeatsWithin_eq_repeatsAfter]
  rfl

theorem found_of_report {report : Report} (reported : outline.report = .ok report) :
    ∃ groups properties, outline.groups = .ok groups ∧ outline.properties = .ok properties := by
  cases foundGroups : outline.groups with
  | error failure => simp [Outline.report, foundGroups, bind, Except.bind] at reported
  | ok groups =>
    cases foundProperties : outline.properties with
    | error failure =>
      simp [Outline.report, foundGroups, foundProperties, bind, Except.bind] at reported
    | ok properties => exact ⟨groups, properties, rfl, rfl⟩

theorem property?_eq_some {node : Node} {index : Nat} {property : Property}
    (chosen : outline.property? node index = .ok (some property)) :
    property.key = index ∧ node.kind = .key property.name ∧ node.line = property.line ∧
      node.parent = some property.group.body := by
  unfold property? at chosen
  split at chosen
  next name body isKey parent =>
    split at chosen
    next =>
      cases atBody : outline.node body with
      | error failure => simp [atBody, bind, Except.bind] at chosen
      | ok object =>
        simp only [atBody, bind, Except.bind] at chosen
        split at chosen
        next => cases chosen
        next owner _ =>
          cases atOwner : outline.node owner with
          | error failure => simp [atOwner] at chosen
          | ok entry =>
            simp only [atOwner, pure, Except.pure, Except.ok.injEq] at chosen
            obtain ⟨group, _, rfl⟩ := Option.map_eq_some_iff.mp chosen
            exact ⟨rfl, isKey, rfl, parent⟩
    next => cases chosen
  next => cases chosen

/-- A property is a key in its body, with the name and line of its node. -/
theorem hasKey_of_mem (found : outline.properties = .ok properties) :
    ∀ property ∈ properties,
      outline.HasKey property.group.body property.key property.name property.line := by
  intro property member
  obtain ⟨_, rfl, yields⟩ := Yields.of_collect found
  obtain ⟨⟨node, index⟩, place, chosen⟩ := yields.exists_item property member
  rw [List.mem_zipIdx_iff_getElem?, Array.getElem?_toList] at place
  obtain ⟨rfl, shape⟩ := property?_eq_some chosen
  exact ⟨node, place, shape⟩

theorem isClean_iff (foundGroups : outline.groups = .ok groups)
    (foundProperties : outline.properties = .ok properties) {report : Report}
    (reported : outline.report = .ok report) : report.isClean = true ↔
      (groups.map (·.name)).Nodup ∧ (properties.map (·.slot)).Nodup := by
  rw [report_eq_ok foundGroups foundProperties] at reported
  obtain rfl := Except.ok.inj reported
  rw [Report.isClean, Bool.and_eq_true, List.isEmpty_iff, List.isEmpty_iff, List.map_eq_nil_iff,
    List.map_eq_nil_iff, repeatsAfter_eq_nil_iff, repeatsAfter_eq_nil_iff]
  simp

theorem report_exact (foundGroups : outline.groups = .ok groups)
    (foundProperties : outline.properties = .ok properties) :
    ∃ report repeated, outline.report = .ok report ∧ report.Exact groups properties repeated ∧
      ∀ property ∈ properties,
        outline.HasKey property.group.body property.key property.name property.line := by
  have reported := report_eq_ok foundGroups foundProperties
  refine ⟨_, repeatsAfter Property.slot [] properties, reported, ?_, hasKey_of_mem foundProperties⟩
  constructor
  case repeatedGroups => exact ⟨_, isRepeats_repeatsAfter _ groups, rfl⟩
  case repeatedProperties => exact isRepeats_repeatsAfter _ properties
  case findings => rfl
  case countGroups => exact count_repeatsAfter groups
  case countProperties => exact count_repeatsAfter properties
  case bodies =>
    intro body
    rw [repeatsAfter_slots]
    exact isRepeats_repeatsAfter _ _
  case clean =>
    rw [isClean_iff foundGroups foundProperties reported, Property.nodup_slots_iff]

/-- The container lists its first entry twice and one of the keys that stand in the body of that
entry. A link that nothing follows leads nowhere. -/
def doubled : Outline :=
  ⟨#[⟨.object, none, #[1, 1, 3], 0, 1⟩, ⟨.key "a", some 0, #[2], 1, 2⟩, ⟨.object, some 1, #[], 1, 2⟩,
    ⟨.key "x", some 2, #[], 2, 3⟩, ⟨.key "y", some 2, #[9], 2, 4⟩, ⟨.key "x", some 2, #[], 2, 5⟩]⟩

theorem report_exact_doubled :
    doubled.groups = .ok [⟨"a", 2, 2⟩, ⟨"a", 2, 2⟩] ∧
    doubled.properties = .ok [⟨⟨"a", 2, 2⟩, 3, "x", 3⟩, ⟨⟨"a", 2, 2⟩, 4, "y", 4⟩,
      ⟨⟨"a", 2, 2⟩, 5, "x", 5⟩] ∧
    ∃ report repeated, doubled.report = .ok report ∧
      report.Exact [⟨"a", 2, 2⟩, ⟨"a", 2, 2⟩] [⟨⟨"a", 2, 2⟩, 3, "x", 3⟩, ⟨⟨"a", 2, 2⟩, 4, "y", 4⟩,
        ⟨⟨"a", 2, 2⟩, 5, "x", 5⟩] repeated := by
  have groups : doubled.groups = .ok [⟨"a", 2, 2⟩, ⟨"a", 2, 2⟩] := rfl
  have properties : doubled.properties = .ok [⟨⟨"a", 2, 2⟩, 3, "x", 3⟩, ⟨⟨"a", 2, 2⟩, 4, "y", 4⟩,
    ⟨⟨"a", 2, 2⟩, 5, "x", 5⟩] := rfl
  obtain ⟨report, repeated, reported, exact', _⟩ := report_exact groups properties
  exact ⟨groups, properties, report, repeated, reported, exact'⟩

end Outline

end StyleAudit
