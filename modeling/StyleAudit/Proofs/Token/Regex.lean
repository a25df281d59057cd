import StyleAudit.Proofs.Token.Filler

/-! Regex literals. Where an operand is due, a literal is one token whatever its body holds.
Elsewhere its first slash is a token and the rest is read like any other text. -/
namespace StyleAudit.Token

/-- Between the brackets of a class, where a slash stands for itself. -/
inductive RegexClass : List Char → Prop where
  | nil : RegexClass []
  | plain : c ∉ ['\n', '\\', ']'] → RegexClass rest → RegexClass (c :: rest)
  | escape : c ≠ '\n' → RegexClass rest → RegexClass ('\\' :: c :: rest)

/-- Between the slashes of a literal. -/
inductive RegexBody : List Char → Prop where
  | nil : RegexBody []
  | plain : c ∉ ['\n', '\\', '[', '/'] → RegexBody rest → RegexBody (c :: rest)
  | escape : c ≠ '\n' → RegexBody rest → RegexBody ('\\' :: c :: rest)
  | charClass : RegexClass inside → RegexBody rest →
      RegexBody ('[' :: (inside ++ ']' :: rest))

/-- An empty body or one that begins with a star would make a comment of the literal. -/
structure RegexLiteral where
  body : List Char
  flags : List Char
  isBody : RegexBody body
  nonempty : body ≠ []
  unstarred : body.head? ≠ some '*'
  areFlags : ∀ c ∈ flags, isWordChar c = true

namespace RegexLiteral

def text (literal : RegexLiteral) : List Char := '/' :: (literal.body ++ '/' :: literal.flags)

/-- The character behind the first slash does not open a comment. -/
theorem exists_body (literal : RegexLiteral) :
    ∃ c rest, literal.body = c :: rest ∧ c ≠ '/' ∧ c ≠ '*' := by
  obtain ⟨c, rest, same⟩ := List.exists_cons_of_ne_nil literal.nonempty
  have star : c ≠ '*' := fun star => literal.unstarred (by rw [same, star]; rfl)
  have read := literal.isBody
  rw [same] at read
  refine ⟨c, rest, same, ?_, star⟩
  rintro rfl
  cases read with
  | plain plain => exact plain (by decide)

end RegexLiteral

theorem regexExtension_plain {inClass : Bool} {c : Char}
    (plain : c ∉ '\n' :: '\\' :: if inClass then [']'] else ['[', '/']) :
    regexExtension false inClass c = .belongs (.stay (.regex false inClass)) := by
  cases inClass <;> simp_all [regexExtension] <;> split <;> simp_all

theorem regexExtension_escape (inClass : Bool) :
    regexExtension false inClass '\\' = .belongs (.stay (.regex true inClass)) := rfl

theorem regexExtension_escaped {c : Char} (flat : c ≠ '\n') (inClass : Bool) :
    regexExtension true inClass c = .belongs (.stay (.regex false inClass)) := if_neg flat

namespace Lexer

variable {operand : Bool} {line start : Nat} {text : List Char}

theorem tokens_regexMove {escaped inClass : Bool} {c : Char} {phase : Phase}
    (move : regexExtension escaped inClass c = .belongs (.stay phase)) (text : List Char) :
    tokens ⟨.regex escaped inClass, operand, line, start⟩ (c :: text) =
      tokens ⟨phase, operand, line, start⟩ text := by
  have flat : c ≠ '\n' := by
    rintro rfl
    simp [regexExtension] at move
  have step : step ⟨.regex escaped inClass, operand, line, start⟩ c =
      ([], ⟨phase, operand, line, start⟩) := by
    simp [step, Phase.extend, move, take, bump, flat]
  rw [tokens_cons, step, List.nil_append]

theorem tokens_regexClass (inside : RegexClass text) (rest : List Char) :
    tokens ⟨.regex false true, operand, line, start⟩ (text ++ rest) =
      tokens ⟨.regex false true, operand, line, start⟩ rest := by
  induction inside with
  | nil => rfl
  | plain plain _ ih =>
    rw [List.cons_append, tokens_regexMove (regexExtension_plain plain), ih]
  | escape flat _ ih =>
    rw [List.cons_append, List.cons_append, tokens_regexMove (regexExtension_escape true),
      tokens_regexMove (regexExtension_escaped flat true), ih]

theorem tokens_regexBody (body : RegexBody text) (rest : List Char) :
    tokens ⟨.regex false false, operand, line, start⟩ (text ++ rest) =
      tokens ⟨.regex false false, operand, line, start⟩ rest := by
  induction body with
  | nil => rfl
  | plain plain _ ih =>
    rw [List.cons_append, tokens_regexMove (regexExtension_plain plain), ih]
  | escape flat _ ih =>
    rw [List.cons_append, List.cons_append, tokens_regexMove (regexExtension_escape false),
      tokens_regexMove (regexExtension_escaped flat false), ih]
  | charClass closed _ ih =>
    have opening : regexExtension false false '[' = .belongs (.stay (.regex false true)) := rfl
    have closing : regexExtension false true ']' = .belongs (.stay (.regex false false)) := rfl
    rw [List.cons_append, tokens_regexMove opening, List.append_assoc, tokens_regexClass closed,
      List.cons_append, tokens_regexMove closing, ih]

theorem tokens_regexFlags {flags : List Char} (areFlags : ∀ c ∈ flags, isWordChar c = true)
    (apart : ∀ c ∈ text.head?, isWordChar c = false) :
    tokens ⟨.regexFlags, operand, line, start⟩ (flags ++ text) =
      ⟨.regex, start⟩ :: tokens ⟨.between, false, line, line⟩ text := by
  induction flags generalizing line with
  | nil =>
    cases text with
    | nil => rfl
    | cons c text =>
      have after : Phase.regexFlags.extend operand c = .after [.regex] :=
        if_neg (by simp [apart c rfl])
      exact tokens_of_after text after
  | cons c flags ih =>
    obtain ⟨flag, areFlags⟩ := List.forall_mem_cons.mp areFlags
    have flat : c ≠ '\n' := by
      rintro rfl
      exact absurd flag (by decide)
    have step : step ⟨.regexFlags, operand, line, start⟩ c =
        ([], ⟨.regexFlags, operand, line, start⟩) := by
      simp [step, Phase.extend, flag, take, bump, flat]
    rw [List.cons_append, tokens_cons, step, List.nil_append, ih areFlags]

/-- Behind a token and filler it depends on the token alone whether an operand is due. -/
theorem tokens_behind {before filler : List Char} {token : Token}
    (closed : ((initial line).after before).phase = .between)
    (last : ((initial line).tokens before).getLast? = some token) (skips : Filler filler)
    (nonempty : text ≠ []) :
    (initial line).tokens (before ++ (filler ++ text)) = (initial line).tokens before ++
      tokens ⟨.between, token.kind.precedesOperand,
        line + before.count '\n' + filler.count '\n',
        line + before.count '\n' + filler.count '\n'⟩ text := by
  have ends : ((initial line).after before).phase.endsBefore
      ((initial line).after before).operand (filler ++ text) = true := by
    rw [closed]
    rfl
  have onLine : (initial line).DotsOnLine := fun _ dots => nomatch dots
  have operand : operandAfter (initial line).operand (((initial line).tokens before).map (·.kind)) =
      token.kind.precedesOperand := by simp [operandAfter, last]
  rw [tokens_append_of_endsBefore onLine (List.append_ne_nil_of_right_ne_nil _ nonempty) ends,
    operand, tokens_filler skips]
  rfl

end Lexer

namespace RegexLiteral

variable {line start : Nat} {before filler after : List Char} {token : Token}

theorem text_append (literal : RegexLiteral) (after : List Char) :
    literal.text ++ after = '/' :: (literal.body ++ '/' :: (literal.flags ++ after)) := by
  simp [text]

theorem tokens_text (literal : RegexLiteral) (apart : ∀ c ∈ after.head?, isWordChar c = false) :
    Lexer.tokens ⟨.between, true, line, start⟩ (literal.text ++ after) =
      ⟨.regex, line⟩ :: Lexer.tokens ⟨.between, false, line, line⟩ after := by
  have opened : Lexer.step ⟨.between, true, line, start⟩ '/' =
      ([], ⟨.slash, true, line, line⟩) := rfl
  have closing : regexExtension false false '/' = .belongs (.stay .regexFlags) := rfl
  -- The first character of the body tells the slash from that of a comment.
  have entered : Lexer.tokens ⟨.slash, true, line, line⟩
      (literal.body ++ '/' :: (literal.flags ++ after)) =
      Lexer.tokens ⟨.regex false false, true, line, line⟩
        (literal.body ++ '/' :: (literal.flags ++ after)) := by
    obtain ⟨c, rest, body, slash, star⟩ := literal.exists_body
    have same : Lexer.step ⟨.slash, true, line, line⟩ c =
        Lexer.step ⟨.regex false false, true, line, line⟩ c := by
      simp [Lexer.step, Phase.extend, slash, star]
    rw [body, List.cons_append, Lexer.tokens_cons, same, ← Lexer.tokens_cons]
  rw [text_append, Lexer.tokens_cons, opened, List.nil_append, entered,
    Lexer.tokens_regexBody literal.isBody, Lexer.tokens_regexMove closing,
    Lexer.tokens_regexFlags literal.areFlags apart]

/-- Where no operand is due, the slash divides and the body is read like any other text. -/
theorem tokens_divided (literal : RegexLiteral)
    (closed : ((Lexer.initial line).after before).phase = .between)
    (last : ((Lexer.initial line).tokens before).getLast? = some token)
    (operator : token.kind.precedesOperand = false) (skips : Filler filler) (after : List Char) :
    (Lexer.initial line).tokens (before ++ (filler ++ (literal.text ++ after))) =
      (Lexer.initial line).tokens before ++
        ⟨.other '/', line + before.count '\n' + filler.count '\n'⟩ ::
          Lexer.tokens ⟨.between, false, line + before.count '\n' + filler.count '\n',
            line + before.count '\n' + filler.count '\n'⟩
            (literal.body ++ '/' :: (literal.flags ++ after)) := by
  obtain ⟨c, rest, body, slash, star⟩ := literal.exists_body
  have opened (line : Nat) : Lexer.step ⟨.between, false, line, line⟩ '/' =
      ([], ⟨.slash, false, line, line⟩) := rfl
  have divides : Phase.slash.extend false c = .after [.other '/'] := by
    simp [Phase.extend, slash, star, Phase.pending]
  rw [Lexer.tokens_behind closed last skips (by simp [text]), operator, text_append,
    Lexer.tokens_cons, opened, List.nil_append, body]
  exact congrArg _ (Lexer.tokens_of_after _ divides)

end RegexLiteral

/-- Punctuators after which an operand is due. The arrow, which is two tokens, is another. -/
def operandPunctuators : List Kind :=
  [.leftParen, .leftBracket, .leftBrace, .comma, .colon, .spread, .other '=', .other '?',
    .other '!', .other '&', .other '|', .other '+', .other '-', .other '*', .other '%', .other '~',
    .other '^', .other ';']

theorem precedesOperand_of_punctuator :
    ∀ kind ∈ operandPunctuators, kind.precedesOperand = true := by decide

theorem RegexLiteral.tokens_punctuator (literal : RegexLiteral)
    {line : Nat} {before filler after : List Char} {token : Token}
    (closed : ((Lexer.initial line).after before).phase = .between)
    (last : ((Lexer.initial line).tokens before).getLast? = some token)
    (punctuator : token.kind ∈ operandPunctuators) (skips : Filler filler)
    (apart : ∀ c ∈ after.head?, isWordChar c = false) :
    (Lexer.initial line).tokens (before ++ (filler ++ (literal.text ++ after))) =
      (Lexer.initial line).tokens before ++
        ⟨.regex, line + before.count '\n' + filler.count '\n'⟩ ::
          Lexer.tokens ⟨.between, false, line + before.count '\n' + filler.count '\n',
            line + before.count '\n' + filler.count '\n'⟩ after := by
  rw [Lexer.tokens_behind closed last skips (by simp [text]),
    precedesOperand_of_punctuator _ punctuator, tokens_text literal apart]

/-- A brace, an escaped bracket, a quote and a slash in a class, and an escaped slash behind it. -/
def bracketed : RegexLiteral where
  body := "[/\x7d\\]'](\\/".toList
  flags := ['g', 'i']
  isBody :=
    have inside : RegexClass "/\x7d\\]'".toList :=
      .plain (by decide) (.plain (by decide) (.escape (by decide) (.plain (by decide) .nil)))
    .charClass inside (.plain (by decide) (.escape (by decide) .nil))
  nonempty := by decide
  unstarred := by decide
  areFlags := List.all_eq_true.mp (by decide)

theorem RegexLiteral.tokens_punctuator_bracketed :
    (Lexer.initial 1).tokens "a(\n/* / */ /[/\x7d\\]'](\\//gi)".toList =
      [⟨.word "a", 1⟩, ⟨.leftParen, 1⟩, ⟨.regex, 2⟩, ⟨.rightParen, 2⟩] := by
  have whole : "a(\n/* / */ /[/\x7d\\]'](\\//gi)".toList =
      "a(".toList ++ ("\n/* / */ ".toList ++ (bracketed.text ++ [')'])) := by decide
  have last : ((Lexer.initial 1).tokens "a(".toList).getLast? = some ⟨.leftParen, 1⟩ := by decide
  have skips : Filler "\n/* / */ ".toList :=
    .blank (by decide) (@Filler.blockComment " / ".toList _ (by decide) (.blank (by decide) .nil))
  rw [whole, bracketed.tokens_punctuator (by decide) last (by decide) skips
    (by rintro _ ⟨⟩; decide)]
  decide

/-- The literal `/\x7d/` is one token behind the punctuators, but not behind an arrow. -/
def closingBrace : RegexLiteral where
  body := ['\x7d']
  flags := []
  isBody := .plain (by decide) .nil
  nonempty := by decide
  unstarred := by decide
  areFlags := List.all_eq_true.mp (by decide)

theorem RegexLiteral.tokens_arrow :
    (Lexer.initial 1).tokens "x=>".toList = [⟨.word "x", 1⟩, ⟨.other '=', 1⟩, ⟨.other '>', 1⟩] ∧
      (Lexer.initial 1).tokens ("x=>".toList ++ closingBrace.text) =
        [⟨.word "x", 1⟩, ⟨.other '=', 1⟩, ⟨.other '>', 1⟩, ⟨.other '/', 1⟩, ⟨.rightBrace, 1⟩,
          ⟨.other '/', 1⟩] := by
  decide

end StyleAudit.Token
