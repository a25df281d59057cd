import StyleAudit.Token.Lexer

/-! Lexing across the place where two texts meet. What the second text becomes depends on the
first only through the lexer that the first one leaves, and a line break ends almost every
element, so that lexing starts afresh after it. -/
namespace StyleAudit.Token

/-- Elements that a line break does not end. -/
def Phase.spansLines : Phase → Bool
  | .blockComment _ | .template _ _ | .quoted _ true _ => true
  | _ => false

/-- Comments and templates that wait for their end. -/
def Phase.isUnclosed : Phase → Bool
  | .blockComment _ | .template _ _ => true
  | _ => false

theorem isWordChar_lineBreak : isWordChar '\n' = false := by decide

theorem Phase.extend_lineBreak {phase : Phase} (operand : Bool)
    (flat : phase.spansLines = false) :
    phase.extend operand '\n' = .after (phase.pending operand) := by
  cases phase with
  | slash => cases operand <;> rfl
  | quoted quote escaped content =>
    cases escaped with
    | false => rfl
    | true => simp [spansLines] at flat
  | regexFlags | word => simp [extend, isWordChar_lineBreak, pending]
  | blockComment | template => simp [spansLines] at flat
  | _ => rfl

/-- An element that the end of the text completes is no single character with a name. -/
theorem Phase.pending_ne_rightBrace {operand : Bool} {phase : Phase} {kind : Kind}
    (member : kind ∈ phase.pending operand) : kind ≠ .rightBrace := by
  rintro rfl
  cases phase with
  | dots two => cases two <;> simp [pending] at member
  | slash => cases operand <;> simp [pending] at member
  | _ => simp [pending] at member

namespace Lexer

/-- The tokens that are complete when a text ends. -/
def complete (lexer : Lexer) (text : List Char) : List Token := (lexer.run #[] text).1.toList

def after (lexer : Lexer) (text : List Char) : Lexer := (lexer.run #[] text).2

theorem bump_add_count (line : Nat) (c : Char) (text : List Char) :
    bump line c + text.count '\n' = line + (c :: text).count '\n' := by
  rw [List.count_cons, bump]
  by_cases lineBreak : c = '\n'
  · simp [lineBreak]
    omega
  · simp [lineBreak]

section Run

variable {lexer : Lexer}

theorem run_cons (c : Char) (text : List Char) :
    lexer.complete (c :: text) = (lexer.step c).1 ++ (lexer.step c).2.complete text ∧
      lexer.after (c :: text) = (lexer.step c).2.after text := by
  have first : lexer.run #[] (c :: text) =
      run (#[] ++ (lexer.step c).1) (lexer.step c).2 text := rfl
  simp only [complete, after]
  rw [first, run_eq]
  simp

theorem tokens_eq (text : List Char) :
    lexer.tokens text = lexer.complete text ++ (lexer.after text).pending := by
  simp [tokens, complete, after]

theorem tokens_cons (c : Char) (text : List Char) :
    lexer.tokens (c :: text) = (lexer.step c).1 ++ (lexer.step c).2.tokens text := by
  rw [tokens_eq, tokens_eq, (run_cons c text).1, (run_cons c text).2, List.append_assoc]

theorem operandAfter_append (operand : Bool) (first second : List Kind) :
    operandAfter (operandAfter operand first) second = operandAfter operand (first ++ second) := by
  simp only [operandAfter, List.getLast?_append]
  cases second.getLast? <;> simp

theorem take_operand (operand : Bool) (line start : Nat) (c : Char) (move : Move) :
    (take operand line start c move).2.operand =
      operandAfter operand ((take operand line start c move).1.map (·.kind)) := by
  cases move <;> rfl

theorem step_operand (lexer : Lexer) (c : Char) : (lexer.step c).2.operand =
    operandAfter lexer.operand ((lexer.step c).1.map (·.kind)) := by
  obtain ⟨phase, operand, line, start⟩ := lexer
  simp only [step]
  cases phase.extend operand c with
  | belongs move => exact take_operand operand line start c move
  | after kinds =>
    simp only [List.map_append, List.map_map, Function.comp_def, List.map_id']
    rw [take_operand, operandAfter_append]

theorem step_line (lexer : Lexer) (c : Char) : (lexer.step c).2.line = bump lexer.line c := by
  obtain ⟨phase, operand, line, start⟩ := lexer
  have taken (operand : Bool) (start : Nat) (move : Move) :
      (take operand line start c move).2.line = bump line c := by cases move <;> rfl
  simp only [step]
  cases phase.extend operand c with
  | belongs move => exact taken operand start move
  | after kinds => exact taken _ line _

/-- Whether an operand is due depends on the tokens alone. -/
theorem after_operand (lexer : Lexer) (text : List Char) : (lexer.after text).operand =
    operandAfter lexer.operand ((lexer.complete text).map (·.kind)) := by
  induction text generalizing lexer with
  | nil => rfl
  | cons c text ih =>
    rw [(run_cons c text).1, (run_cons c text).2, ih, step_operand, operandAfter_append,
      List.map_append]

theorem after_line (lexer : Lexer) (text : List Char) :
    (lexer.after text).line = lexer.line + text.count '\n' := by
  induction text generalizing lexer with
  | nil => rfl
  | cons c text ih =>
    rw [(run_cons c text).2, ih, step_line, bump_add_count]

end Run

/-- Where no element is open, nothing has begun on an earlier line. -/
theorem tokens_between (operand : Bool) (line start : Nat) (text : List Char) :
    tokens ⟨.between, operand, line, start⟩ text = tokens ⟨.between, operand, line, line⟩ text := by
  cases text with
  | nil => rfl
  | cons c text =>
    rw [tokens_cons, tokens_cons]
    rfl

theorem step_lineBreak {lexer : Lexer} (flat : lexer.phase.spansLines = false) :
    lexer.step '\n' = (lexer.pending, ⟨.between,
      operandAfter lexer.operand (lexer.pending.map (·.kind)), lexer.line + 1, lexer.line⟩) := by
  obtain ⟨phase, operand, line, start⟩ := lexer
  have ended : phase.extend operand '\n' = .after (phase.pending operand) :=
    phase.extend_lineBreak operand flat
  have blank : Phase.opening '\n' = .stay .between := by decide
  simp only [step, ended, blank, take, pending, List.append_nil, List.map_map, bump, if_pos]
  simp [Function.comp_def]

theorem pending_ne_rightBrace {lexer : Lexer} {token : Token} (member : token ∈ lexer.pending) :
    token.kind ≠ .rightBrace := by
  obtain ⟨kind, among, rfl⟩ := List.mem_map.mp member
  exact Phase.pending_ne_rightBrace among

/-- A brace is complete as soon as it is read, whatever follows. -/
theorem tokens_append_of_brace {lexer : Lexer} {s : List Char} {read rest : List Token}
    {brace : Token} (tokens : lexer.tokens s = read ++ brace :: rest)
    (isBrace : brace.kind = .rightBrace) (t : List Char) :
    ∃ rest', lexer.tokens (s ++ t) = read ++ brace :: rest' := by
  have later : lexer.tokens (s ++ t) = lexer.complete s ++ (lexer.after s).tokens t :=
    tokens_append lexer s t
  rw [tokens_eq] at tokens
  -- The brace is none of the tokens that the end of the text completes.
  rcases List.append_eq_append_iff.mp tokens with ⟨more, _, pending⟩ | ⟨more, complete, same⟩
  · have member : brace ∈ (lexer.after s).pending := by simp [pending]
    exact absurd isBrace (pending_ne_rightBrace member)
  · cases more with
    | nil =>
      have pending : brace :: rest = (lexer.after s).pending := same
      have member : brace ∈ (lexer.after s).pending := by simp [← pending]
      exact absurd isBrace (pending_ne_rightBrace member)
    | cons first more =>
      obtain ⟨rfl, _⟩ := List.cons.inj same
      exact ⟨more ++ (lexer.after s).tokens t, by simp [later, complete]⟩

theorem tokens_lineBreak {lexer : Lexer} {s : List Char}
    (flat : (lexer.after s).phase.spansLines = false) (t : List Char) :
    lexer.tokens (s ++ '\n' :: t) = lexer.tokens s ++
      tokens ⟨.between, operandAfter lexer.operand ((lexer.tokens s).map (·.kind)),
        lexer.line + s.count '\n' + 1, lexer.line + s.count '\n' + 1⟩ t := by
  have ended : operandAfter (lexer.after s).operand ((lexer.after s).pending.map (·.kind)) =
      operandAfter lexer.operand ((lexer.tokens s).map (·.kind)) := by
    rw [after_operand, operandAfter_append, tokens_eq, List.map_append]
  have first : lexer.tokens (s ++ '\n' :: t) =
      lexer.complete s ++ (lexer.after s).tokens ('\n' :: t) := tokens_append lexer s _
  rw [first, tokens_cons, step_lineBreak flat, tokens_between, ended, after_line, tokens_eq s,
    List.append_assoc]

end Lexer

end StyleAudit.Token
