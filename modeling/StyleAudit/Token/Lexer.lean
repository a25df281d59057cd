import StyleAudit.Token.Phase

/-! The lexer runs the phases over a text and counts lines. Each step reads one character,
so a run over a text is a run over its first part continued over the second. -/
namespace StyleAudit.Token

structure Lexer where
  phase : Phase
  /-- Whether an operand is due, by the last token. Blanks and comments do not change it. -/
  operand : Bool
  /-- The line of the next character. -/
  line : Nat
  /-- The line of the first character of the open element. -/
  start : Nat
  deriving DecidableEq, Repr

namespace Lexer

def initial (line : Nat) : Lexer := ⟨.between, true, line, line⟩

def bump (line : Nat) (c : Char) : Nat := if c = '\n' then line + 1 else line

def operandAfter (operand : Bool) (kinds : List Kind) : Bool :=
  (kinds.getLast?.map Kind.precedesOperand).getD operand

/-- Take a character on `line` into an element that began on the line `start`. -/
def take (operand : Bool) (line start : Nat) (c : Char) : Move → List Token × Lexer
  | .stay phase => ([], ⟨phase, operand, bump line c, start⟩)
  | .close kind => ([⟨kind, start⟩], ⟨.between, kind.precedesOperand, bump line c, start⟩)

/-- A character that does not belong to the open element opens one of its own. -/
def step : Lexer → Char → List Token × Lexer
  | ⟨phase, operand, line, start⟩, c =>
    match phase.extend operand c with
    | .belongs move => take operand line start c move
    | .after kinds =>
      let (opened, lexer) := take (operandAfter operand kinds) line line c (Phase.opening c)
      (kinds.map (⟨·, start⟩) ++ opened, lexer)

def pending (lexer : Lexer) : List Token :=
  (lexer.phase.pending lexer.operand).map (⟨·, lexer.start⟩)

def run (found : Array Token) (lexer : Lexer) (text : List Char) : Array Token × Lexer :=
  text.foldl (fun (found, lexer) c =>
    let (tokens, lexer) := lexer.step c
    (found ++ tokens, lexer)) (found, lexer)

theorem run_append (found : Array Token) (lexer : Lexer) (s t : List Char) :
    run found lexer (s ++ t) = run (run found lexer s).1 (run found lexer s).2 t := by
  simp [run]

/-- What was found before plays no part in the run. -/
theorem run_eq (found : Array Token) (lexer : Lexer) (text : List Char) :
    run found lexer text = (found ++ (run #[] lexer text).1, (run #[] lexer text).2) := by
  induction text generalizing found lexer with
  | nil => simp [run]
  | cons c text ih =>
    have first (found : Array Token) : run found lexer (c :: text) =
        run (found ++ (lexer.step c).1) (lexer.step c).2 text := rfl
    rw [first found, first #[], ih (found ++ (lexer.step c).1),
      ih ((#[] : Array Token) ++ (lexer.step c).1)]
    simp [← Array.toList_inj]

/-- All tokens of the characters that follow, the last element ended by the end of the text. -/
def tokens (lexer : Lexer) (text : List Char) : List Token :=
  let (found, lexer) := lexer.run #[] text
  (found ++ lexer.pending).toList

theorem tokens_append (lexer : Lexer) (s t : List Char) :
    lexer.tokens (s ++ t) = (lexer.run #[] s).1.toList ++ (lexer.run #[] s).2.tokens t := by
  simp only [tokens, run_append]
  rw [run_eq (run #[] lexer s).1]
  simp

end Lexer

def ofText (text : String) (line : Nat) : List Token := (Lexer.initial line).tokens text.toList

end StyleAudit.Token
