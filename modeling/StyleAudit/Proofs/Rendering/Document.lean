import StyleAudit.Proofs.Json.RoundTrip
import StyleAudit.Rendering

/-! The JSON document of an outcome, as a reader of that format sees it. It holds everything that
a report says, and for a container that is not found its marker. -/
namespace StyleAudit

open Json (Datum)

def Finding.datum (finding : Finding) : Datum :=
  .object [("group", .string finding.group), ("line", .number finding.line),
    ("property", .string finding.property)]

def Report.datum (report : Report) : Datum :=
  .object [("duplicate_props", .array (report.repeatedProperties.map Finding.datum)),
    ("top_level_duplicates", .array (report.repeatedGroups.map .string))]

def Outcome.datum (marker : String) : Outcome → Datum
  | .notFound => .object [("error", .string "container_not_found"), ("marker", .string marker)]
  | .scanned report => report.datum

theorem Json.itemData_map (f : α → Json.Value) (items : List α) :
    Json.itemData (items.map f) = items.map fun item => (f item).datum := by
  induction items with
  | nil => rw [List.map_nil, Json.itemData, List.map_nil]
  | cons item items ih => rw [List.map_cons, Json.itemData, ih, List.map_cons]

theorem Outcome.datum_value (marker : String) (outcome : Outcome) :
    (outcome.value marker).datum = outcome.datum marker := by
  cases outcome with
  | notFound => simp [value, datum, Json.Value.datum, Json.fieldData]
  | scanned report =>
    simp [value, datum, Report.value, Report.datum, Finding.value, Finding.datum, Json.Value.datum,
      Json.fieldData, Json.itemData_map]

theorem Finding.datum_inj {finding other : Finding} :
    finding.datum = other.datum ↔ finding = other := by
  constructor
  · intro same
    obtain ⟨group, property, line⟩ := finding
    obtain ⟨otherGroup, otherProperty, otherLine⟩ := other
    simp only [datum, Datum.object.injEq, List.cons.injEq, Prod.mk.injEq, Datum.string.injEq,
      Datum.number.injEq, Rat.natCast_inj, true_and, and_true] at same
    obtain ⟨rfl, rfl, rfl⟩ := same
    rfl
  · rintro rfl
    rfl

theorem Report.datum_inj {report other : Report} :
    report.datum = other.datum ↔ report = other := by
  have findings : Function.Injective Finding.datum := fun _ _ => Finding.datum_inj.mp
  have groups : Function.Injective Datum.string := fun _ _ => Datum.string.inj
  constructor
  · intro same
    obtain ⟨repeatedGroups, repeatedProperties⟩ := report
    obtain ⟨otherGroups, otherProperties⟩ := other
    simp only [datum, Datum.object.injEq, List.cons.injEq, Prod.mk.injEq, Datum.array.injEq,
      true_and, and_true] at same
    rw [findings.list_map same.1, groups.list_map same.2]
  · rintro rfl
    rfl

theorem Outcome.datum_inj {outcome other : Outcome} {marker another : String} :
    outcome.datum marker = other.datum another ↔
      outcome = other ∧ (outcome = .notFound → marker = another) := by
  cases outcome with
  | notFound =>
    cases other with
    | notFound => simp [datum]
    | scanned report => simp [datum, Report.datum]
  | scanned report =>
    cases other with
    | notFound => simp [datum, Report.datum]
    | scanned twin => simp [datum, Report.datum_inj]

/-- A reader of documents gets back what an outcome says, and a line break is all that is left. -/
theorem Outcome.readDocument_render (outcome : Outcome) (marker : String) :
    Json.readDocument (outcome.render marker .json) = some (outcome.datum marker, "\n") ∧
    Json.read? (outcome.render marker .json) = some (outcome.datum marker) ∧
    ∀ other another, outcome.render marker .json = other.render another .json ↔
      outcome = other ∧ (outcome = .notFound → marker = another) := by
  have read (outcome : Outcome) (marker : String) :
      Json.readDocument (outcome.render marker .json) = some (outcome.datum marker, "\n") := by
    rw [render, Json.readDocument_document, datum_value]
  refine ⟨read outcome marker, ?_, fun other another => ?_⟩
  · rw [render, Json.read?_document, datum_value]
  · constructor
    · intro same
      have data := read outcome marker
      rw [same, read other another] at data
      obtain ⟨same, _⟩ := Prod.mk.inj (Option.some.inj data)
      exact datum_inj.mp same.symm
    · rintro ⟨rfl, same⟩
      cases outcome with
      | notFound => rw [same rfl]
      | scanned report => rfl

example : Outcome.notFound.render "\"\\\x00é" .json =
    "\x7b\n  \"error\": \"container_not_found\",\n  \"marker\": \"\\\"\\\\\\u0000é\"\n\x7d\n" := by
  rfl

end StyleAudit
