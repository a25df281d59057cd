import StyleAudit.Outline.Reading

/-! Object literals as they are written. A `Literal` holds every choice of its writing: quoted
or bare names, extra separators, the line of each token and the tokens of what is passed over.
`Body.Conforms` states the grammar and nothing about how a literal is read. The one place where
reading departs from it is `Body.Unambiguous`. -/
namespace StyleAudit

open Token (Kind)

namespace Token

def Kind.closer? : Kind → Option Kind
  | .leftBrace => some .rightBrace
  | .leftParen => some .rightParen
  | .leftBracket => some .rightBracket
  | _ => none

def Kind.closes : Kind → Bool
  | .rightBrace | .rightParen | .rightBracket => true
  | _ => false

/-- Brackets are nested by kind, with `due` still to be closed, and commas are inside them. -/
def isNested : List Kind → List Token → Bool
  | due, [] => due.isEmpty
  | due, token :: rest =>
    match token.kind.closer? with
    | some closer => isNested (closer :: due) rest
    | none =>
      if token.kind.closes then
        match due with
        | [] => false
        | closer :: due => token.kind = closer && isNested due rest
      else (token.kind ≠ .comma || !due.isEmpty) && isNested due rest

/-- The tokens begin with a word or string and a colon. -/
def beginsEntry : List Token → Bool
  | name :: colon :: _ => name.kind.text?.isSome && colon.kind = .colon
  | _ => false

/-- They do, and the name is one that is recorded. -/
def beginsKey : List Token → Bool
  | name :: colon :: _ => name.kind.text?.any Reading.isPlainName && colon.kind = .colon
  | _ => false

end Token

namespace Literal

structure Name where
  text : String
  quoted : Bool
  line : Nat
  deriving DecidableEq, Repr

def Name.token (name : Name) : Token :=
  ⟨if name.quoted then .quoted name.text else .word name.text, name.line⟩

/-- Tokens that are no object literal and no separator, whatever else they are. -/
structure Passage where
  tokens : List Token
  nested : Token.isNested [] tokens = true
  deriving DecidableEq, Repr

def Passage.beginsWith (passage : Passage) (kind : Kind) : Bool :=
  passage.tokens.head?.map (·.kind) = some kind

/-- The rest of an object literal, from some place in it to its closing brace. Tokens of a
fixed kind are given by their lines. -/
inductive Body where
  | close (line : Nat)
  | comma (line : Nat) (rest : Body)
  /-- An entry whose value is an object. -/
  | object (name : Name) (colon brace : Nat) (inner rest : Body)
  /-- An entry with any other value, or with a name that is not recorded. -/
  | named (name : Name) (colon : Nat) (value : Passage) (rest : Body)
  /-- An entry without a name. -/
  | unnamed (entry : Passage) (rest : Body)
  deriving DecidableEq, Repr

/-- What the text before a place in an object allows there. -/
inductive Gap where
  | separated
  /-- An object value was closed. The comma after it may be left out before a name. -/
  | object
  | value
  deriving DecidableEq, Repr

/-- What reading has in mind at a place: that a comma was the last token while an entry was
due, that an entry is due, or that something is still being passed over. -/
inductive Turn where
  | comma | entry | ending
  deriving DecidableEq, Repr

open Reading (isPlainName)

namespace Body

def tokens : Body → List Token
  | close line => [⟨.rightBrace, line⟩]
  | comma line rest => ⟨.comma, line⟩ :: rest.tokens
  | object name colon brace inner rest =>
    name.token :: ⟨.colon, colon⟩ :: ⟨.leftBrace, brace⟩ :: (inner.tokens ++ rest.tokens)
  | named name colon value rest =>
    name.token :: ⟨.colon, colon⟩ :: (value.tokens ++ rest.tokens)
  | unnamed entry rest => entry.tokens ++ rest.tokens

def Conforms : Gap → Body → Prop
  | _, close _ => True
  | _, comma _ rest => rest.Conforms .separated
  | gap, object name _ _ inner rest =>
    gap ≠ .value ∧ isPlainName name.text = true ∧ inner.Conforms .separated ∧ rest.Conforms .object
  | gap, named name _ value rest =>
    gap ≠ .value ∧ (isPlainName name.text = true → value.beginsWith .leftBrace = false) ∧
      rest.Conforms .value
  | gap, unnamed entry rest =>
    gap = .separated ∧ entry.tokens ≠ [] ∧ Token.beginsEntry entry.tokens = false ∧
      rest.Conforms .value

instance decidableConforms : (gap : Gap) → (body : Body) → Decidable (body.Conforms gap)
  | _, close _ => .isTrue trivial
  | _, comma _ rest => decidableConforms .separated rest
  | _, object _ _ _ inner rest =>
    have := decidableConforms .separated inner
    have := decidableConforms .object rest
    inferInstanceAs (Decidable (_ ∧ _ ∧ _ ∧ _))
  | _, named _ _ _ rest =>
    have := decidableConforms .value rest
    inferInstanceAs (Decidable (_ ∧ _ ∧ _))
  | _, unnamed _ rest =>
    have := decidableConforms .value rest
    inferInstanceAs (Decidable (_ ∧ _ ∧ _ ∧ _))

/-- A colon directly after a comma that is read while an entry is due goes with the comma. What
comes after that colon must not look like a key. -/
def Unambiguous : Turn → Body → Prop
  | _, close _ => True
  | turn, comma _ rest => rest.Unambiguous (if turn = .ending then .entry else .comma)
  | _, object _ _ _ inner rest => inner.Unambiguous .entry ∧ rest.Unambiguous .entry
  | _, named _ _ _ rest => rest.Unambiguous .ending
  | turn, unnamed entry rest =>
    if turn = .comma ∧ entry.beginsWith .colon then
      Token.beginsKey entry.tokens.tail = false ∧
        rest.Unambiguous (if entry.tokens.tail = [] then .entry else .ending)
    else rest.Unambiguous .ending

instance decidableUnambiguous : (turn : Turn) → (body : Body) → Decidable (body.Unambiguous turn)
  | _, close _ => .isTrue trivial
  | turn, comma _ rest => decidableUnambiguous (if turn = .ending then .entry else .comma) rest
  | _, object _ _ _ inner rest =>
    have := decidableUnambiguous .entry inner
    have := decidableUnambiguous .entry rest
    inferInstanceAs (Decidable (_ ∧ _))
  | _, named _ _ _ rest => decidableUnambiguous .ending rest
  | turn, unnamed entry rest =>
    have := decidableUnambiguous (if entry.tokens.tail = [] then .entry else .ending) rest
    have := decidableUnambiguous .ending rest
    inferInstanceAs (Decidable (if turn = .comma ∧ entry.beginsWith .colon then _ ∧ _ else _))

end Body

/-- What an object literal says: its recorded entries, in order. -/
inductive Entries where
  | nil
  | plain (name : String) (line : Nat) (rest : Entries)
  | object (name : String) (line brace : Nat) (inner rest : Entries)
  deriving DecidableEq, Repr

def Body.entries : Body → Entries
  | close _ => .nil
  | comma _ rest => rest.entries
  | object name _ brace inner rest =>
    .object name.text name.line brace inner.entries rest.entries
  | named name _ _ rest =>
    if isPlainName name.text then .plain name.text name.line rest.entries else rest.entries
  | unnamed _ rest => rest.entries

end Literal

structure Literal where
  /-- The line of the opening brace. -/
  brace : Nat
  body : Literal.Body
  deriving DecidableEq, Repr

namespace Literal

def tokens (literal : Literal) : List Token := ⟨.leftBrace, literal.brace⟩ :: literal.body.tokens

def Conforms (literal : Literal) : Prop := literal.body.Conforms .separated

def Unambiguous (literal : Literal) : Prop := literal.body.Unambiguous .entry

instance (literal : Literal) : Decidable literal.Conforms :=
  Body.decidableConforms .separated literal.body

instance (literal : Literal) : Decidable literal.Unambiguous :=
  Body.decidableUnambiguous .entry literal.body

end Literal

end StyleAudit
