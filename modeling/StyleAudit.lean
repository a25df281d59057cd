import StyleAudit.Main
import StyleAudit.Proofs.Audit.Notes
import StyleAudit.Proofs.Audit.Returns
import StyleAudit.Proofs.Audit.Surroundings
import StyleAudit.Proofs.Checked.Audit
import StyleAudit.Proofs.CommandLine.Run
import StyleAudit.Proofs.Container.Place
import StyleAudit.Proofs.Outline.Lookups
import StyleAudit.Proofs.Reading.Origins
import StyleAudit.Proofs.Reading.Separators
import StyleAudit.Proofs.Rendering.Document
import StyleAudit.Proofs.Rendering.Text
import StyleAudit.Proofs.Token.LineBreak
import StyleAudit.Proofs.Token.Print
import StyleAudit.Proofs.Token.Regex
import StyleAudit.Proofs.Token.Template
import StyleAudit.Proofs.Token.Tiling
