import StyleAudit.Proofs.Audit.Result
import StyleAudit.Proofs.Repeats

/-! The names in a report on a source. They come from keys of its outline, and the reader
records no key whose name is not plain. -/
namespace StyleAudit

open Reading (isPlainName)

/-- Every name is made of ASCII letters, digits and underscores. -/
structure Report.IsPlain (report : Report) : Prop where
  groups : ∀ name ∈ report.repeatedGroups, isPlainName name = true
  findings : ∀ finding ∈ report.repeatedProperties,
    isPlainName finding.group = true ∧ isPlainName finding.property = true

theorem Linked.plain_of_hasKey {outline : Outline} (linked : Linked outline.nodes)
    {object key line : Nat} {name : String} (entry : outline.HasKey object key name line) :
    isPlainName name = true := by
  obtain ⟨node, found, isKey, _⟩ := entry
  obtain ⟨_, _, _, _, _, _, plain⟩ := linked.key_fits found isKey
  exact plain

theorem Linked.report_isPlain {outline : Outline} (linked : Linked outline.nodes) {report : Report}
    (reported : outline.report = .ok report) : report.IsPlain := by
  obtain ⟨groups, foundGroups, _, isGroup⟩ := linked.groups_eq
  obtain ⟨properties, foundProperties, _, isProperty⟩ := linked.properties_eq
  simp only [Outline.report, foundGroups, foundProperties] at reported
  obtain rfl := Except.ok.inj reported
  constructor
  case groups =>
    intro name member
    obtain ⟨group, again, rfl⟩ := List.mem_map.mp member
    rw [Outline.repeatedGroups, repeats_eq_repeatsAfter] at again
    obtain ⟨key, entry, _⟩ := (isGroup group).mp ((repeatsAfter_sublist [] groups).subset again)
    exact linked.plain_of_hasKey entry
  case findings =>
    intro finding member
    obtain ⟨property, again, rfl⟩ := List.mem_map.mp member
    rw [Outline.repeatedProperties, repeatsWithin_eq_repeatsAfter] at again
    obtain ⟨⟨owner, entry, _⟩, has⟩ :=
      (isProperty property).mp ((repeatsAfter_sublist [] properties).subset again)
    exact ⟨linked.plain_of_hasKey entry, linked.plain_of_hasKey has⟩

theorem Audit.isPlain_of_scanned {source marker : String} {report : Report}
    (scanned : (ofSource source marker).result = .ok (.scanned report)) : report.IsPlain := by
  obtain ⟨_, _, _, read, reported⟩ := result_eq_scanned.mp scanned
  exact (Reading.linked_of_outline read).report_isPlain reported

end StyleAudit
