import StyleAudit.Audit
import StyleAudit.Proofs.Container.Call
import StyleAudit.Proofs.Reading.Properties

/-! What the result of an audit depends on: the container that is located, its outline and the
report on that. The notes are left out. -/
namespace StyleAudit

theorem Outline.ofSource?_eq_some {source marker : String} {outline : Outline} :
    ofSource? source marker = some outline ↔ ∃ container,
      Container.locate? marker (Token.ofText source 1) = some container ∧
        (Reading.ofTokens container.tokens).outline = some outline :=
  Option.bind_eq_some_iff

theorem Audit.result_eq (source marker : String) : (Audit.ofSource source marker).result =
    match Outline.ofSource? source marker with
    | none => .ok .notFound
    | some outline => outline.report.map .scanned := by
  unfold Audit.ofSource Outline.ofSource?
  cases Container.locate? marker (Token.ofText source 1) with
  | none => rfl
  | some container =>
    simp only [ofContainer, Option.bind_some]
    cases (Reading.ofTokens container.tokens).outline <;> rfl

/-- No audit fails by a link out of range. -/
theorem Audit.exists_result (source marker : String) :
    ∃ outcome, (Audit.ofSource source marker).result = .ok outcome := by
  rw [Audit.result_eq]
  cases found : Outline.ofSource? source marker with
  | none => exact ⟨.notFound, rfl⟩
  | some outline =>
    obtain ⟨container, _, read⟩ := Outline.ofSource?_eq_some.mp found
    obtain ⟨report, reported⟩ := (Reading.linked_of_outline read).exists_report
    exact ⟨.scanned report, by simp only [reported]; rfl⟩

theorem Audit.result_eq_scanned {source marker : String} {report : Report} :
    (Audit.ofSource source marker).result = .ok (.scanned report) ↔ ∃ container outline,
      Container.locate? marker (Token.ofText source 1) = some container ∧
        (Reading.ofTokens container.tokens).outline = some outline ∧
          outline.report = .ok report := by
  cases located : Container.locate? marker (Token.ofText source 1) with
  | none => simp [ofSource, located]
  | some container =>
    cases read : (Reading.ofTokens container.tokens).outline with
    | none => simp [ofSource, located, ofContainer, read]
    | some outline =>
      cases reported : outline.report <;>
        simp [ofSource, located, ofContainer, read, reported, Except.map]

end StyleAudit
