import StyleAudit.Outline
import StyleAudit.Proofs.Container.Call
import StyleAudit.Proofs.Token.Seam

/-! Steps that a machine can fail at, made to fail. A checked function lowers no counter below zero
and looks up by position what its plain counterpart has at hand. Counters as wide as an address
count what a text in memory holds, and they are raised without a check. Here are the counters of
the lexer and of the search for a container. -/
namespace StyleAudit

open Token (Kind Lexer Move Phase TemplateMark)

inductive Fault where
  /-- A counter at zero is lowered. -/
  | underflow
  /-- A counter is raised beyond its width. -/
  | overflow
  | outOfRange (failure : OutOfRange)
  deriving DecidableEq, Repr

namespace Checked

def decrement : Nat → Except Fault Nat
  | 0 => .error .underflow
  | n + 1 => .ok n

/-- A brace inside an interpolation is counted, and nothing else changes the count. -/
def templateMove (mark : TemplateMark) (depth : Nat) (c : Char) : Except Fault Move :=
  if mark = .backslash then .ok (.stay (.template .plain depth))
  else if c = '\\' then .ok (.stay (.template .backslash depth))
  else if c = '\x60' ∧ depth = 0 then .ok (.close .template)
  else if c = '\x7b' ∧ depth = 0 ∧ mark = .dollar then .ok (.stay (.template .plain 1))
  else if c = '$' ∧ depth = 0 then .ok (.stay (.template .dollar 0))
  else if c = '\x7b' ∧ 0 < depth then .ok (.stay (.template .plain (depth + 1)))
  else if c = '\x7d' ∧ 0 < depth then do
    return .stay (.template .plain (← decrement depth))
  else .ok (.stay (.template .plain depth))

def extend (operand : Bool) (c : Char) : Phase → Except Fault Token.Extension
  | .template mark depth => do return .belongs (← templateMove mark depth c)
  | phase => .ok (phase.extend operand c)

def lexStep : Lexer → Char → Except Fault (List Token × Lexer)
  | ⟨phase, operand, line, start⟩, c => do
    match ← extend operand c phase with
    | .belongs move => return Lexer.take operand line start c move
    | .after kinds =>
      let (opened, lexer) :=
        Lexer.take (Lexer.operandAfter operand kinds) line line c (Phase.opening c)
      return (kinds.map (⟨·, start⟩) ++ opened, lexer)

def tokens (lexer : Lexer) : List Char → Except Fault (List Token)
  | [] => .ok lexer.pending
  | c :: text => do
    let (found, lexer) ← lexStep lexer c
    return found ++ (← tokens lexer text)

def ofText (text : String) (line : Nat) : Except Fault (List Token) :=
  tokens (.initial line) text.toList

/-- What follows the bracket that closes the first of `depth` type argument lists. -/
def afterClosing (depth : Nat) : List Token → Except Fault (Option (List Token))
  | [] => .ok none
  | token :: tokens =>
    match token.kind with
    | .other '<' => afterClosing (depth + 1) tokens
    | .other '>' => do
      let depth ← decrement depth
      if depth = 0 then return some tokens else afterClosing depth tokens
    | .leftParen | .leftBrace | .other ';' => .ok none
    | _ => afterClosing depth tokens

/-- The count begins at zero and its first bracket raises it. -/
def afterTypeArguments : List Token → Except Fault (Option (List Token))
  | [] => .ok none
  | token :: tokens =>
    if token.kind = .other '<' then afterClosing 0 (token :: tokens) else .ok (some (token :: tokens))

def ofCall? (marker : List Kind) (tokens : List Token) : Except Fault (Option Container) :=
  match Container.afterKinds marker tokens with
  | none => .ok none
  | some rest => do return (← afterTypeArguments rest).bind Container.ofArguments?

def first? (marker : List Kind) : List Token → Except Fault (Option Container)
  | [] => .ok none
  | token :: tokens => do
    match ← ofCall? marker (token :: tokens) with
    | some container => return some container
    | none => first? marker tokens

def locate? (marker : String) (tokens : List Token) : Except Fault (Option Container) := do
  match (← ofText marker 1).map (·.kind) with
  | [] => return none
  | kind :: kinds => first? (kind :: kinds) tokens

/-- The count of an interpolation is lowered only when it is above zero. -/
theorem templateMove_eq (mark : TemplateMark) (depth : Nat) (c : Char) :
    templateMove mark depth c = .ok (Token.templateMove mark depth c) := by
  by_cases special : c ∈ ['\\', '\x60', '$', '\x7b', '\x7d']
  · simp only [List.mem_cons, List.not_mem_nil, or_false] at special
    rcases special with rfl | rfl | rfl | rfl | rfl <;> cases mark <;> cases depth <;> rfl
  · simp only [List.mem_cons, List.not_mem_nil, or_false, not_or] at special
    obtain ⟨backslash, tick, dollar, left, right⟩ := special
    unfold templateMove Token.templateMove
    simp only [backslash, tick, dollar, left, right, false_and, if_false, ite_self]
    split <;> first | rfl | contradiction

theorem extend_eq (operand : Bool) (c : Char) (phase : Phase) :
    extend operand c phase = .ok (phase.extend operand c) := by
  cases phase with
  | template mark depth =>
    rw [extend, templateMove_eq]
    rfl
  | _ => rfl

theorem lexStep_eq (lexer : Lexer) (c : Char) : lexStep lexer c = .ok (lexer.step c) := by
  obtain ⟨phase, operand, line, start⟩ := lexer
  simp only [lexStep, Lexer.step, extend_eq]
  cases phase.extend operand c <;> rfl

theorem tokens_eq (lexer : Lexer) (text : List Char) :
    tokens lexer text = .ok (lexer.tokens text) := by
  induction text generalizing lexer with
  | nil => simp [tokens, Lexer.tokens, Lexer.run]
  | cons c text ih =>
    simp only [tokens, lexStep_eq, ih, Lexer.tokens_cons]
    rfl

theorem ofText_eq (text : String) (line : Nat) : ofText text line = .ok (Token.ofText text line) :=
  tokens_eq _ _

/-- Within a list the count is above zero, since it includes the bracket that the list began with. -/
theorem afterClosing_eq (inner : Nat) (tokens : List Token) :
    afterClosing (inner + 1) tokens = .ok (Container.afterClosing inner tokens) := by
  fun_induction Container.afterClosing inner tokens with
  | case1 inner => rfl
  | case2 inner token tokens bracket ih =>
    simp only [afterClosing, bracket]
    exact ih
  | case3 token tokens bracket =>
    simp only [afterClosing, bracket]
    rfl
  | case4 token tokens bracket inner ih =>
    simp only [afterClosing, bracket]
    exact ih
  | case5 inner token tokens kind | case6 inner token tokens kind | case7 inner token tokens kind =>
    simp only [afterClosing, kind]
  | case8 inner token tokens notOpening notClosing notParen notBrace notEnd ih =>
    simp only [afterClosing]
    exact ih

theorem afterTypeArguments_eq (tokens : List Token) :
    afterTypeArguments tokens = .ok (Container.afterTypeArguments tokens) := by
  cases tokens with
  | nil => rfl
  | cons token tokens =>
    simp only [afterTypeArguments, Container.afterTypeArguments]
    by_cases bracket : token.kind = .other '<'
    · rw [if_pos bracket, if_pos bracket, afterClosing, bracket]
      exact afterClosing_eq 0 tokens
    · rw [if_neg bracket, if_neg bracket]

theorem ofCall?_eq (marker : List Kind) (tokens : List Token) :
    ofCall? marker tokens = .ok (Container.ofCall? marker tokens) := by
  unfold ofCall? Container.ofCall?
  cases Container.afterKinds marker tokens with
  | none => rfl
  | some rest =>
    simp only [afterTypeArguments_eq]
    rfl

theorem first?_eq (marker : List Kind) (tokens : List Token) :
    first? marker tokens = .ok (Container.first? marker tokens) := by
  induction tokens with
  | nil => rfl
  | cons token tokens ih =>
    simp only [first?, Container.first?, ofCall?_eq, ih]
    cases Container.ofCall? marker (token :: tokens) <;> rfl

theorem locate?_eq (marker : String) (tokens : List Token) :
    locate? marker tokens = .ok (Container.locate? marker tokens) := by
  simp only [locate?, Container.locate?, ofText_eq, first?_eq, markerKinds, bind, Except.bind]
  cases (Token.ofText marker 1).map (·.kind) <;> rfl

end Checked

end StyleAudit
