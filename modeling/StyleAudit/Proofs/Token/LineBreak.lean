import StyleAudit.Proofs.Token.Seam

/-! Two texts with a line break between them. An unclosed string or regex goes no further than
its line, so that all but a few elements leave what is behind the line break as it is. -/
namespace StyleAudit.Token

namespace Lexer

/-- A lexer for the text behind some tokens, which knows of them only whether the last one makes
an operand due. -/
def resumed (line : Nat) (found : List Token) : Lexer :=
  ⟨.between, operandAfter true (found.map (·.kind)), line, line⟩

theorem tokens_resumed (line : Nat) (found : List Token) :
    (resumed line found).tokens ['a'] = [⟨.word "a", line⟩] := rfl

theorem length_tokens_of_spansLines {lexer : Lexer} (spans : lexer.phase.spansLines = true) :
    (lexer.tokens ['\n', 'a']).length = lexer.pending.length := by
  obtain ⟨phase, operand, line, start⟩ := lexer
  cases phase with
  | blockComment star => cases star <;> rfl
  | template mark depth => cases mark <;> cases depth <;> rfl
  | quoted quote escaped content =>
    cases escaped with
    | false => cases spans
    | true =>
      -- The letter may be the closing quote: one token all the same.
      by_cases closes : 'a' = quote
      · subst closes
        rfl
      · have inside : (Phase.quoted quote false (content.push '\n')).extend operand 'a' =
            .belongs (.stay (.quoted quote false ((content.push '\n').push 'a'))) := by
          simp [Phase.extend, quotedExtension, closes]
        have lineBreak : step ⟨.quoted quote true content, operand, line, start⟩ '\n' =
            ([], ⟨.quoted quote false (content.push '\n'), operand, line + 1, start⟩) := rfl
        rw [tokens_cons, tokens_cons, lineBreak]
        simp only [step, inside, take]
        rfl
  | _ => cases spans

end Lexer

/-- A line break parts the tokens on its two sides, whatever comes behind it, if and only if the
text before it leaves no block comment and no template open, nor a string right after a backslash.
Of what came before, the next line needs no more than the last token and the line number. -/
theorem ofText_lineBreak_iff (s : String) (line : Nat) :
    (∀ t : String, ofText (s ++ "\n" ++ t) line = ofText s line ++
      (Lexer.resumed (line + 1 + s.toList.count '\n') (ofText s line)).tokens t.toList) ↔
    ((Lexer.initial line).after s.toList).phase.spansLines = false := by
  have whole (t : String) : ofText (s ++ "\n" ++ t) line =
      (Lexer.initial line).tokens (s.toList ++ '\n' :: t.toList) := by simp [ofText]
  constructor
  · intro parted
    refine Bool.eq_false_iff.mpr fun spans => ?_
    have taken := Lexer.length_tokens_of_spansLines spans
    have next := congrArg List.length (parted "a")
    have later : (Lexer.initial line).tokens (s.toList ++ ['\n', 'a']) =
        (Lexer.initial line).complete s.toList ++
          ((Lexer.initial line).after s.toList).tokens ['\n', 'a'] :=
      Lexer.tokens_append _ _ _
    have letter : "a".toList = ['a'] := by simp
    rw [whole, letter, later, Lexer.tokens_resumed, ofText, Lexer.tokens_eq s.toList] at next
    simp only [List.length_append, List.length_singleton] at next
    omega
  · intro flat t
    have lines : line + s.toList.count '\n' + 1 = line + 1 + s.toList.count '\n' := by omega
    rw [whole, Lexer.tokens_lineBreak flat]
    simp only [Lexer.initial, lines]
    rfl

theorem ofText_lineBreak_iff_unclosed :
    ((Lexer.initial 3).after "a: 'b \x7b //".toList).phase.spansLines = false ∧
    ofText ("a: 'b \x7b //" ++ "\n" ++ "/ c\x7d") 3 = [⟨.word "a", 3⟩, ⟨.colon, 3⟩,
      ⟨.quoted "b \x7b //", 3⟩, ⟨.other '/', 4⟩, ⟨.word "c", 4⟩, ⟨.rightBrace, 4⟩] ∧
    ((Lexer.initial 3).after "a = /[b".toList).phase.spansLines = false ∧
    ofText ("a = /[b" ++ "\n" ++ "c]/") 3 = [⟨.word "a", 3⟩, ⟨.other '=', 3⟩, ⟨.regex, 3⟩,
      ⟨.word "c", 4⟩, ⟨.rightBracket, 4⟩, ⟨.other '/', 4⟩] := by
  have string : ((Lexer.initial 3).after "a: 'b \x7b //".toList).phase.spansLines = false := by
    decide
  have regex : ((Lexer.initial 3).after "a = /[b".toList).phase.spansLines = false := by decide
  -- The slash on the second line divides, as it would behind a string that is closed.
  refine ⟨string, ?_, regex, ?_⟩
  · rw [(ofText_lineBreak_iff "a: 'b \x7b //" 3).mpr string]
    decide
  · rw [(ofText_lineBreak_iff "a = /[b" 3).mpr regex]
    decide

end StyleAudit.Token
