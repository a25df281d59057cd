import StyleAudit.Proofs.Container.Replace
import StyleAudit.Proofs.Lines.Report
import StyleAudit.Proofs.Lines.Source
import StyleAudit.Proofs.Literal.Audit
import StyleAudit.Proofs.Reading.Closing

/-! Code around a container. Statements before it move its lines, and what comes after its
closing brace does nothing at all. -/
namespace StyleAudit

open Container (NoCall first? noCall_of_semicolon first?_append first?_replace first?_relabel)
open Token (Lexer)

theorem Token.spansLines_of_semicolon {pre : List Char}
    (closed : ((Lexer.initial 1).after pre).phase.isUnclosed = false)
    (last : ((Lexer.initial 1).tokens pre).getLast?.map (·.kind) = some (.other ';')) :
    ((Lexer.initial 1).after pre).phase.spansLines = false := by
  rw [Lexer.tokens_eq, Lexer.pending] at last
  cases phase : ((Lexer.initial 1).after pre).phase with
  | quoted quote escaped content => simp [phase, Phase.pending] at last
  | blockComment star => simp [phase, Phase.isUnclosed] at closed
  | template mark depth => simp [phase, Phase.isUnclosed] at closed
  | _ => rfl

theorem Token.ofText_after {pre : String} (text : String)
    (closed : ((Lexer.initial 1).after pre.toList).phase.isUnclosed = false)
    (last : (Token.ofText pre 1).getLast?.map (·.kind) = some (.other ';')) :
    Token.ofText (pre ++ "\n" ++ text) 1 = Token.ofText pre 1 ++
      (Token.ofText text 1).map (Token.relabel (· + (1 + pre.toList.count '\n'))) := by
  have flat := spansLines_of_semicolon closed last
  have due : Lexer.operandAfter (Lexer.initial 1).operand
      (((Lexer.initial 1).tokens pre.toList).map (·.kind)) = true := by
    have last : ((Lexer.initial 1).tokens pre.toList).getLast?.map (·.kind) =
      some (.other ';') := last
    rw [Lexer.operandAfter, List.getLast?_map, last]
    decide
  have lines : (Lexer.initial 1).line + pre.toList.count '\n' + 1 =
      1 + (1 + pre.toList.count '\n') := by
    simp only [Lexer.initial]
    omega
  have characters : (pre ++ "\n" ++ text).toList = pre.toList ++ '\n' :: text.toList := by simp
  rw [Token.ofText, characters, Lexer.tokens_lineBreak flat, due, lines, Token.ofText, Token.ofText,
    ← Lexer.tokens_later]
  rfl

theorem Container.locate?_append {marker s : String} {container : Container} {outline : Outline}
    (located : locate? marker (Token.ofText s 1) = some container)
    (read : (Reading.ofTokens container.tokens).outline = some outline) (t : String) :
    ∃ other, locate? marker (Token.ofText (s ++ t) 1) = some other ∧
      (Reading.ofTokens other.tokens).outline = some outline := by
  obtain ⟨brace, body⟩ := container
  obtain ⟨marks, found⟩ := locate?_eq_some.mp located
  obtain ⟨front, tokens, anew⟩ := first?_replace found
  obtain ⟨inside, close, rest, rfl, isBrace, again⟩ := Reading.outline_closes read
  have tokens : (Lexer.initial 1).tokens s.toList =
      (front ++ brace :: inside) ++ close :: rest := tokens.trans (by simp)
  obtain ⟨others, tokens⟩ := Lexer.tokens_append_of_brace tokens isBrace t.toList
  have more : Token.ofText (s ++ t) 1 = front ++ brace :: (inside ++ close :: others) := by
    rw [Token.ofText, String.toList_append, tokens]
    simp
  refine ⟨⟨brace, inside ++ close :: others⟩, locate?_eq_some.mpr ⟨marks, ?_⟩, again others⟩
  rw [more, anew]

theorem Container.locate?_after {marker : String} {before tokens : List Token} {last : Token}
    {container : Container} (located : locate? marker tokens = some container)
    (free : NoCall (markerKinds marker) (before ++ [last]) []) (semicolon : last.kind = .other ';')
    (foreign : .other ';' ∉ markerKinds marker) (f : Nat → Nat) :
    locate? marker (before ++ [last] ++ tokens.map (Token.relabel f)) =
      some (container.relabel f) := by
  obtain ⟨marks, found⟩ := locate?_eq_some.mp located
  have free := noCall_of_semicolon free semicolon foreign (tokens.map (Token.relabel f))
  rw [locate?_eq_some]
  refine ⟨marks, ?_⟩
  rw [first?_append free, first?_relabel, found, Option.map_some]

/-- Statements before a container shift the lines of the report, and nothing else changes. The
text may go on after the closing brace both in `s` and in `t`. -/
theorem Audit.result_surrounded {pre s marker : String} {report : Report}
    (scanned : (Audit.ofSource s marker).result = .ok (.scanned report))
    (foreign : .other ';' ∉ markerKinds marker)
    (closed : ((Lexer.initial 1).after pre.toList).phase.isUnclosed = false)
    (last : (Token.ofText pre 1).getLast?.map (·.kind) = some (.other ';'))
    (free : NoCall (markerKinds marker) (Token.ofText pre 1) []) (t : String) :
    (Audit.ofSource (pre ++ "\n" ++ s ++ t) marker).result =
      .ok (.scanned (report.relabel (· + (1 + pre.toList.count '\n')))) := by
  obtain ⟨container, outline, located, read, reported⟩ := result_eq_scanned.mp scanned
  obtain ⟨other, located, read⟩ := Container.locate?_append located read t
  obtain ⟨semicolon, ends, kind⟩ := Option.map_eq_some_iff.mp last
  obtain ⟨before, tokens⟩ := List.getLast?_eq_some_iff.mp ends
  have source : Token.ofText (pre ++ "\n" ++ s ++ t) 1 = before ++ [semicolon] ++
      (Token.ofText (s ++ t) 1).map (Token.relabel (· + (1 + pre.toList.count '\n'))) := by
    rw [String.append_assoc, Token.ofText_after (s ++ t) closed last, tokens]
  let f : Nat → Nat := (· + (1 + pre.toList.count '\n'))
  have found : Container.locate? marker (Token.ofText (pre ++ "\n" ++ s ++ t) 1) =
      some (other.relabel f) := by
    rw [source]
    exact Container.locate?_after located (tokens ▸ free) kind foreign f
  have outlined : (Reading.ofTokens (other.relabel f).tokens).outline =
      some (outline.relabel f) := by
    have same := Reading.outline_relabel other.tokens (f := f)
    rw [read] at same
    exact same
  have report : (outline.relabel f).report = .ok (report.relabel f) := by
    rw [Outline.report_relabel, reported]
    rfl
  exact result_eq_scanned.mpr ⟨other.relabel f, outline.relabel f, found, outlined, report⟩

/-- Two lines of statements go before, one of which mentions the marker, and an open quote
comes after. -/
theorem Audit.result_surrounded_make :
    (ofSource "make(\x7b a: \x7b p: 1,\n p: 2 \x7d \x7d" "make").result =
        .ok (.scanned ⟨[], [⟨"a", "p", 2⟩]⟩) ∧
      (ofSource ("let r = /;/;\n// make(\nmake<T>();" ++ "\n" ++
          "make(\x7b a: \x7b p: 1,\n p: 2 \x7d \x7d" ++ ": 'x") "make").result =
        .ok (.scanned ⟨[], [⟨"a", "p", 5⟩]⟩) := by
  have scanned : (ofSource "make(\x7b a: \x7b p: 1,\n p: 2 \x7d \x7d" "make").result =
      .ok (.scanned ⟨[], [⟨"a", "p", 2⟩]⟩) := by
    let entries : Literal.Entries := .object "a" 1 1 (.plain "p" 1 (.plain "p" 2 .nil)) .nil
    have outline : Outline.ofSource? "make(\x7b a: \x7b p: 1,\n p: 2 \x7d \x7d" "make" =
        some (entries.outline 1) := by decide +kernel
    exact Literal.Entries.result_of_outline outline
  exact ⟨scanned, result_surrounded scanned (by decide) (by decide) (by decide) (by decide) _⟩

end StyleAudit
