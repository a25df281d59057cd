import StyleAudit.Token.Lexer

/-! The container is the object literal that the audit reads: the first one passed as the
leading argument of a call of the marker, with or without type arguments between the marker
and the parenthesis. Since the search runs over tokens, a call inside a comment or a string
is not found. -/
namespace StyleAudit

open Token (Kind)

def defaultMarker : String := "StyleSheet.create"

def markerKinds (marker : String) : List Kind := (Token.ofText marker 1).map (·.kind)

/-- A container literal: its opening brace and all the tokens after that. -/
structure Container where
  brace : Token
  body : List Token
  deriving DecidableEq, Repr

namespace Container

def tokens (container : Container) : List Token := container.brace :: container.body

/-- The place of the brace in the token list that the container was found in. -/
def index (container : Container) (source : List Token) : Nat :=
  source.length - container.tokens.length

def afterKinds : List Kind → List Token → Option (List Token)
  | [], tokens => some tokens
  | _ :: _, [] => none
  | kind :: kinds, token :: tokens => if token.kind = kind then afterKinds kinds tokens else none

/-- What follows the bracket that closes a type argument list, inside `inner` further lists. -/
def afterClosing (inner : Nat) : List Token → Option (List Token)
  | [] => none
  | token :: tokens =>
    match token.kind with
    | .other '<' => afterClosing (inner + 1) tokens
    | .other '>' =>
      match inner with
      | 0 => some tokens
      | inner + 1 => afterClosing inner tokens
    | .leftParen | .leftBrace | .other ';' => none
    | _ => afterClosing inner tokens

def afterTypeArguments : List Token → Option (List Token)
  | [] => none
  | token :: tokens =>
    if token.kind = .other '<' then afterClosing 0 tokens else some (token :: tokens)

def ofArguments? : List Token → Option Container
  | paren :: brace :: body =>
    if paren.kind = .leftParen ∧ brace.kind = .leftBrace then some ⟨brace, body⟩ else none
  | _ => none

def ofCall? (marker : List Kind) (tokens : List Token) : Option Container :=
  ((afterKinds marker tokens).bind afterTypeArguments).bind ofArguments?

def first? (marker : List Kind) : List Token → Option Container
  | [] => none
  | token :: tokens =>
    match ofCall? marker (token :: tokens) with
    | some container => some container
    | none => first? marker tokens

/-- A marker without tokens marks nothing. -/
def locate? (marker : String) (tokens : List Token) : Option Container :=
  match markerKinds marker with
  | [] => none
  | kind :: kinds => first? (kind :: kinds) tokens

end Container

end StyleAudit
