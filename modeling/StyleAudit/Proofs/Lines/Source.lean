import StyleAudit.Container
import StyleAudit.Proofs.Lines.Reading
import StyleAudit.Proofs.Token.Seam

/-! The same source further down. Its tokens are the same on later lines, and so is the
container that the search finds in them. -/
namespace StyleAudit

variable {f : Nat → Nat}

namespace Token.Lexer

def later (k : Nat) (lexer : Lexer) : Lexer :=
  { lexer with line := lexer.line + k, start := lexer.start + k }

theorem take_later (operand : Bool) (line start k : Nat) (c : Char) (move : Move) :
    take operand (line + k) (start + k) c move =
      ((take operand line start c move).1.map (relabel (· + k)),
        (take operand line start c move).2.later k) := by
  have bumped : bump (line + k) c = bump line c + k := by
    simp only [bump]
    split <;> omega
  cases move <;> simp [take, later, relabel, bumped]

theorem step_later (lexer : Lexer) (k : Nat) (c : Char) :
    (lexer.later k).step c =
      ((lexer.step c).1.map (relabel (· + k)), (lexer.step c).2.later k) := by
  obtain ⟨phase, operand, line, start⟩ := lexer
  simp only [later, step]
  cases phase.extend operand c with
  | belongs move => exact take_later operand line start k c move
  | after kinds =>
    simp only [take_later]
    simp [relabel, Function.comp_def, later]

theorem tokens_later (lexer : Lexer) (k : Nat) (text : List Char) :
    (lexer.later k).tokens text = (lexer.tokens text).map (relabel (· + k)) := by
  induction text generalizing lexer with
  | nil => simp [tokens, run, pending, later, relabel, Function.comp_def]
  | cons c text ih => rw [tokens_cons, tokens_cons, step_later, ih, List.map_append]

theorem after_later (lexer : Lexer) (k : Nat) (text : List Char) :
    (lexer.later k).after text = (lexer.after text).later k := by
  induction text generalizing lexer with
  | nil => rfl
  | cons c text ih => rw [(run_cons c text).2, (run_cons c text).2, step_later, ih]

end Token.Lexer

namespace Container

def relabel (f : Nat → Nat) (container : Container) : Container :=
  ⟨container.brace.relabel f, container.body.map (Token.relabel f)⟩

theorem afterKinds_relabel (marker : List Token.Kind) (tokens : List Token) :
    afterKinds marker (tokens.map (Token.relabel f)) =
      (afterKinds marker tokens).map (List.map (Token.relabel f)) := by
  induction marker generalizing tokens with
  | nil => rfl
  | cons kind marker ih =>
    cases tokens with
    | nil => rfl
    | cons token tokens =>
      simp only [List.map_cons, afterKinds, ih]
      split <;> simp_all [Token.relabel]

theorem afterClosing_relabel (inner : Nat) (tokens : List Token) :
    afterClosing inner (tokens.map (Token.relabel f)) =
      (afterClosing inner tokens).map (List.map (Token.relabel f)) := by
  induction tokens generalizing inner with
  | nil => rfl
  | cons token tokens ih =>
    simp only [List.map_cons, afterClosing, ih, Token.relabel]
    split
    next => rfl
    next => cases inner <;> rfl
    all_goals rfl

theorem afterTypeArguments_relabel (tokens : List Token) :
    afterTypeArguments (tokens.map (Token.relabel f)) =
      (afterTypeArguments tokens).map (List.map (Token.relabel f)) := by
  cases tokens with
  | nil => rfl
  | cons token tokens =>
    simp only [List.map_cons, afterTypeArguments, afterClosing_relabel]
    split <;> simp_all [Token.relabel]

theorem ofArguments?_relabel (tokens : List Token) :
    ofArguments? (tokens.map (Token.relabel f)) = (ofArguments? tokens).map (relabel f) := by
  cases tokens with
  | nil => rfl
  | cons paren tokens =>
    cases tokens with
    | nil => rfl
    | cons brace body =>
      simp only [List.map_cons, ofArguments?]
      split <;> simp_all [Token.relabel, relabel]

theorem ofCall?_relabel (marker : List Token.Kind) (tokens : List Token) :
    ofCall? marker (tokens.map (Token.relabel f)) = (ofCall? marker tokens).map (relabel f) := by
  simp only [ofCall?, afterKinds_relabel]
  cases afterKinds marker tokens with
  | none => rfl
  | some rest =>
    simp only [Option.map_some, Option.bind_some, afterTypeArguments_relabel]
    cases afterTypeArguments rest with
    | none => rfl
    | some rest => exact ofArguments?_relabel rest

theorem first?_relabel (marker : List Token.Kind) (tokens : List Token) :
    first? marker (tokens.map (Token.relabel f)) = (first? marker tokens).map (relabel f) := by
  induction tokens with
  | nil => rfl
  | cons token tokens ih =>
    have here := ofCall?_relabel marker (token :: tokens) (f := f)
    rw [List.map_cons] at here ⊢
    rw [first?, first?, here, ih]
    cases ofCall? marker (token :: tokens) <;> rfl

end Container

end StyleAudit
