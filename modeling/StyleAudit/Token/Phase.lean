import StyleAudit.Token

/-! Lexical elements one character at a time. A phase says which element is being read and
what of it still matters; a character either belongs to that element or comes after it. -/
namespace StyleAudit.Token

inductive TemplateMark where
  | plain | backslash | dollar
  deriving DecidableEq, Repr

inductive Phase where
  /-- No element is open. -/
  | between
  /-- One or two dots, which a further one may make a spread. -/
  | dots (two : Bool)
  /-- A slash whose meaning the next character decides. -/
  | slash
  | lineComment
  /-- A comment whose last character was a star that may end it. -/
  | blockComment (star : Bool)
  | quoted (quote : Char) (escaped : Bool) (content : String)
  /-- A template inside so many braces of an interpolation. -/
  | template (mark : TemplateMark) (depth : Nat)
  | regex (escaped inClass : Bool)
  | regexFlags
  | word (spelling : String)
  deriving DecidableEq, Repr

/-- The tokens of an element that ends where it stands, at the end of the text or before a
character that does not belong to it. `operand` says that an operand is due, so that a slash
opens a regex. -/
def Phase.pending (operand : Bool) : Phase → List Kind
  | .between | .lineComment | .blockComment _ => []
  | .dots two => if two then [.other '.', .other '.'] else [.other '.']
  | .slash => if operand then [.regex] else [.other '/']
  | .quoted _ _ content => [.quoted content]
  | .template _ _ => [.template]
  | .regex _ _ | .regexFlags => [.regex]
  | .word spelling => [.word spelling]

inductive Move where
  | stay (phase : Phase)
  | close (kind : Kind)
  deriving DecidableEq, Repr

inductive Extension where
  | belongs (move : Move)
  | after (kinds : List Kind)
  deriving DecidableEq, Repr

def Phase.opening (c : Char) : Move :=
  if Text.isBlank c then .stay .between
  else match c with
    | '/' => .stay .slash
    | '.' => .stay (.dots false)
    | '\'' | '"' => .stay (.quoted c false "")
    | '\x60' => .stay (.template .plain 0)
    | _ => if isWordChar c then .stay (.word (String.singleton c)) else .close (.ofChar c)

/-- A template ends at a backtick outside its interpolations. Inside one only braces count. -/
def templateMove (mark : TemplateMark) (depth : Nat) (c : Char) : Move :=
  match mark, depth, c with
  | .backslash, depth, _ => .stay (.template .plain depth)
  | _, depth, '\\' => .stay (.template .backslash depth)
  | .dollar, 0, '\x7b' => .stay (.template .plain 1)
  | _, 0, '$' => .stay (.template .dollar 0)
  | _, 0, '\x60' => .close .template
  | _, depth + 1, '\x7b' => .stay (.template .plain (depth + 2))
  | _, depth + 1, '\x7d' => .stay (.template .plain depth)
  | _, depth, _ => .stay (.template .plain depth)

def regexExtension (escaped inClass : Bool) (c : Char) : Extension :=
  -- Not even a backslash carries a regex over a line break.
  if c = '\n' then .after [.regex]
  else .belongs <| .stay <|
    if escaped then .regex false inClass
    else match c with
      | '\\' => .regex true inClass
      | '[' => .regex false true
      | ']' => .regex false false
      | '/' => if inClass then .regex false inClass else .regexFlags
      | _ => .regex false inClass

/-- A string ends at its quote, and before a line break that no backslash precedes. A
backslash is dropped and the character after it kept. -/
def quotedExtension (quote : Char) (escaped : Bool) (content : String) (c : Char) : Extension :=
  if escaped then .belongs (.stay (.quoted quote false (content.push c)))
  else if c = '\n' then .after [.quoted content]
  else if c = '\\' then .belongs (.stay (.quoted quote true content))
  else if c = quote then .belongs (.close (.quoted content))
  else .belongs (.stay (.quoted quote false (content.push c)))

def Phase.extend (operand : Bool) (c : Char) : Phase → Extension
  | .between => .after []
  | .dots two =>
    if c = '.' then .belongs (if two then .close .spread else .stay (.dots true))
    else .after ((Phase.dots two).pending operand)
  | .slash =>
    if c = '/' then .belongs (.stay .lineComment)
    else if c = '*' then .belongs (.stay (.blockComment false))
    else if operand then regexExtension false false c
    else .after (Phase.slash.pending operand)
  | .lineComment => if c = '\n' then .after [] else .belongs (.stay .lineComment)
  | .blockComment star =>
    .belongs (.stay (if star && c == '/' then .between else .blockComment (c == '*')))
  | .quoted quote escaped content => quotedExtension quote escaped content c
  | .template mark depth => .belongs (templateMove mark depth c)
  | .regex escaped inClass => regexExtension escaped inClass c
  | .regexFlags => if isWordChar c then .belongs (.stay .regexFlags) else .after [.regex]
  | .word spelling =>
    if isWordChar c then .belongs (.stay (.word (spelling.push c))) else .after [.word spelling]

theorem Phase.eq_pending_of_extend {operand : Bool} {c : Char} {phase : Phase}
    {kinds : List Kind} (ended : phase.extend operand c = .after kinds) :
    kinds = phase.pending operand := by
  cases phase with
  | slash =>
    simp only [extend, regexExtension] at ended
    (repeat' split at ended) <;> simp_all [pending]
  | regex =>
    simp only [extend, regexExtension] at ended
    split at ended <;> simp_all [pending]
  | quoted =>
    simp only [extend, quotedExtension] at ended
    (repeat' split at ended) <;> simp_all [pending]
  | _ =>
    simp only [extend] at ended
    try split at ended
    all_goals simp_all [pending]

end StyleAudit.Token
