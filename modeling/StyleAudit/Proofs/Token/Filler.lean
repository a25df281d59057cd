import StyleAudit.Proofs.Token.Boundary

/-! Blanks and comments, which may stand between any two elements. They have no tokens, and they
do not change whether an operand is due. -/
namespace StyleAudit.Token

/-- Blanks and closed comments. A line comment is closed by its line break. -/
inductive Filler : List Char → Prop where
  | nil : Filler []
  | blank : Text.isBlank c = true → Filler rest → Filler (c :: rest)
  | lineComment : '\n' ∉ text → Filler rest → Filler ('/' :: '/' :: (text ++ '\n' :: rest))
  | blockComment : ¬ ['*', '/'] <:+: text → Filler rest →
      Filler ('/' :: '*' :: (text ++ '*' :: '/' :: rest))

theorem Filler.append {first second : List Char} (before : Filler first) (after : Filler second) :
    Filler (first ++ second) := by
  induction before with
  | nil => exact after
  | blank blank _ ih => exact .blank blank ih
  | lineComment flat _ ih => simpa using lineComment flat ih
  | blockComment opened _ ih => simpa using blockComment opened ih

namespace Lexer

variable {operand : Bool} {line start : Nat} {text : List Char}

theorem tokens_blank {c : Char} (blank : Text.isBlank c = true) (rest : List Char) :
    tokens ⟨.between, operand, line, start⟩ (c :: rest) =
      tokens ⟨.between, operand, bump line c, bump line c⟩ rest := by
  have opening : Phase.opening c = .stay .between := if_pos blank
  have step : step ⟨.between, operand, line, start⟩ c =
      ([], ⟨.between, operand, bump line c, line⟩) := by
    simp [step, Phase.extend, opening, take, operandAfter]
  rw [tokens_cons, step, List.nil_append, tokens_between]

theorem tokens_lineComment (flat : '\n' ∉ text) (rest : List Char) :
    tokens ⟨.lineComment, operand, line, start⟩ (text ++ '\n' :: rest) =
      tokens ⟨.between, operand, line + 1, line + 1⟩ rest := by
  induction text with
  | nil =>
    have step : step ⟨.lineComment, operand, line, start⟩ '\n' =
        ([], ⟨.between, operand, line + 1, line⟩) := step_lineBreak rfl
    rw [List.nil_append, tokens_cons, step, List.nil_append, tokens_between]
  | cons c text ih =>
    rw [List.mem_cons, not_or] at flat
    obtain ⟨first, flat⟩ := flat
    have other : c ≠ '\n' := Ne.symm first
    have step : step ⟨.lineComment, operand, line, start⟩ c =
        ([], ⟨.lineComment, operand, line, start⟩) := by
      simp [step, Phase.extend, other, take, bump]
    rw [List.cons_append, tokens_cons, step, List.nil_append, ih flat]

/-- A star read last may be the first half of the end of the comment. -/
theorem tokens_blockComment {star : Bool}
    (opened : ¬ ['*', '/'] <:+: if star then '*' :: text else text) (rest : List Char) :
    tokens ⟨.blockComment star, operand, line, start⟩ (text ++ '*' :: '/' :: rest) =
      tokens ⟨.between, operand, line + text.count '\n', line + text.count '\n'⟩ rest := by
  induction text generalizing star line with
  | nil =>
    have first : step ⟨.blockComment star, operand, line, start⟩ '*' =
        ([], ⟨.blockComment true, operand, line, start⟩) := by cases star <;> rfl
    have second : step ⟨.blockComment true, operand, line, start⟩ '/' =
        ([], ⟨.between, operand, line, start⟩) := rfl
    rw [List.nil_append, tokens_cons, first, tokens_cons, second, tokens_between]
    rfl
  | cons c text ih =>
    have inside : (star && c == '/') = false := by
      rw [Bool.and_eq_false_imp]
      intro ended
      simp only [ended, if_true] at opened
      refine beq_eq_false_iff_ne.mpr fun slash => opened ?_
      exact ⟨[], text, by simp [slash]⟩
    have step : step ⟨.blockComment star, operand, line, start⟩ c =
        ([], ⟨.blockComment (c == '*'), operand, bump line c, start⟩) := by
      simp [step, Phase.extend, inside, take]
    have later : ¬ ['*', '/'] <:+: if (c == '*') = true then '*' :: text else text := by
      intro closes
      refine opened (closes.trans ?_)
      split
      next isStar =>
        obtain rfl : c = '*' := by simpa using isStar
        split
        · exact (List.suffix_cons _ _).isInfix
        · exact List.infix_rfl
      next =>
        split
        · exact ((List.suffix_cons _ _).trans (List.suffix_cons _ _)).isInfix
        · exact (List.suffix_cons _ _).isInfix
    rw [List.cons_append, tokens_cons, step, List.nil_append, ih later, bump_add_count]

theorem tokens_filler {filler : List Char} (skips : Filler filler) (rest : List Char) :
    tokens ⟨.between, operand, line, start⟩ (filler ++ rest) =
      tokens ⟨.between, operand, line + filler.count '\n', line + filler.count '\n'⟩ rest := by
  have slash (line start : Nat) : step ⟨.between, operand, line, start⟩ '/' =
      ([], ⟨.slash, operand, line, line⟩) := rfl
  induction skips generalizing line start with
  | nil => exact tokens_between operand line start rest
  | @blank c others blank _ ih =>
    rw [List.cons_append, tokens_blank blank, ih, bump_add_count]
  | @lineComment text others flat _ ih =>
    have opened : step ⟨.slash, operand, line, line⟩ '/' =
        ([], ⟨.lineComment, operand, line, line⟩) := rfl
    have none : text.count '\n' = 0 := List.count_eq_zero.mpr flat
    rw [List.cons_append, tokens_cons, slash, List.cons_append, tokens_cons, opened,
      List.nil_append, List.nil_append, List.append_assoc, List.cons_append,
      tokens_lineComment flat, ih]
    simp [none, Nat.add_assoc, Nat.add_comm 1]
  | @blockComment text others opened _ ih =>
    have first : step ⟨.slash, operand, line, line⟩ '*' =
        ([], ⟨.blockComment false, operand, line, line⟩) := rfl
    have unstarred : ¬ ['*', '/'] <:+: if false = true then '*' :: text else text := opened
    rw [List.cons_append, tokens_cons, slash, List.cons_append, tokens_cons, first,
      List.nil_append, List.nil_append, List.append_assoc, List.cons_append, List.cons_append,
      tokens_blockComment unstarred, ih]
    simp [Nat.add_assoc]

end Lexer

/-- A line break and filler behind it move the tokens that follow down, and nothing else. -/
theorem Boundary.tokens_filled {s t filler : List Char} (boundary : Boundary s t)
    (nonempty : t ≠ []) (skips : Filler filler) (line : Nat) :
    (Lexer.initial line).tokens (s ++ '\n' :: (filler ++ t)) = (Lexer.initial line).tokens s ++
      (following s t line).map (relabel (· + (1 + filler.count '\n'))) := by
  obtain ⟨c, rest, rfl⟩ := List.exists_cons_of_ne_nil nonempty
  have flat := Phase.spansLines_of_endsBefore (boundary.endsBefore line)
  have lines : line + s.count '\n' + 1 + filler.count '\n' =
      line + s.count '\n' + (1 + filler.count '\n') := Nat.add_assoc _ _ _
  rw [Lexer.tokens_lineBreak flat, following, ← Lexer.tokens_later, Lexer.later]
  simp only [Lexer.initial]
  rw [Lexer.tokens_filler skips, lines]

end StyleAudit.Token
