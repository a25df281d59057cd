import StyleAudit.Text.Alphanumeric
import StyleAudit.Text.Blank

/-! Tokens of a script source, as far as finding object literals needs them: brackets and
separators by name, the content of words and strings, and every other character by itself. -/
namespace StyleAudit

inductive Token.Kind where
  | leftBrace | rightBrace
  | leftParen | rightParen
  | leftBracket | rightBracket
  | colon | comma
  | spread
  /-- An identifier, keyword or number. -/
  | word (spelling : String)
  /-- A string literal, by its content with the escaping backslashes dropped. -/
  | quoted (content : String)
  | template
  | regex
  | other (c : Char)
  deriving DecidableEq, Repr

structure Token where
  kind : Token.Kind
  /-- The line of the first character. -/
  line : Nat
  deriving DecidableEq, Repr

namespace Token

def isWordChar (c : Char) : Bool := Text.isAlphanumeric c || c == '_' || c == '$'

def Kind.ofChar : Char → Kind
  | '\x7b' => .leftBrace
  | '\x7d' => .rightBrace
  | '(' => .leftParen
  | ')' => .rightParen
  | '[' => .leftBracket
  | ']' => .rightBracket
  | ':' => .colon
  | ',' => .comma
  | c => .other c

def operandWords : List String :=
  ["return", "typeof", "case", "in", "of", "new", "delete", "void", "throw"]

/-- Operators after which an operand is due. The angle brackets are not among them, so that
the slash of a closing markup tag is not taken for a regex. -/
def operandSigns : List Char :=
  ['=', '?', '!', '&', '|', '+', '-', '*', '%', '~', '^', ';']

/-- Whether a slash after such a token opens a regex and does not divide. -/
def Kind.precedesOperand : Kind → Bool
  | .leftParen | .leftBracket | .leftBrace | .colon | .comma | .spread => true
  | .other c => operandSigns.contains c
  | .word spelling => operandWords.contains spelling
  | _ => false

/-- The text of a word or string, either of which may name an entry. -/
def Kind.text? : Kind → Option String
  | .word text | .quoted text => some text
  | _ => none

end Token

end StyleAudit
