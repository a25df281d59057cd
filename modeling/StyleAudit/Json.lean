/-! Documents of the JSON data format and their indented text: two blanks for each level, one
item or field to a line, and a blank after each colon. Strings are written as they are except
for quotes, backslashes and the control characters of ASCII's first column. -/
namespace StyleAudit.Json

inductive Value where
  | string (text : String)
  | number (n : Nat)
  | list (items : List Value)
  | object (fields : List (String × Value))
  deriving Repr

def hexDigit (n : Nat) : Char := if n < 10 then Char.ofNat (48 + n) else Char.ofNat (87 + n)

def escape : Char → String
  | '"' => "\\\""
  | '\\' => "\\\\"
  | '\x08' => "\\b"
  | '\t' => "\\t"
  | '\n' => "\\n"
  | '\x0c' => "\\f"
  | '\r' => "\\r"
  | c =>
    if c.toNat < 0x20 then
      (("\\u00".push (hexDigit (c.toNat / 16))).push (hexDigit (c.toNat % 16)))
    else String.singleton c

def writeString (out : String) (text : String) : String :=
  (text.toList.foldl (fun out c => out ++ escape c) (out.push '"')).push '"'

def newLine (out : String) (level : Nat) : String :=
  level.fold (fun _ _ out => out ++ "  ") (out.push '\n')

mutual

/-- Append a value at some level of indentation. -/
def Value.write (level : Nat) (out : String) : Value → String
  | .string text => writeString out text
  | .number n => out ++ n.repr
  | .list [] => out ++ "[]"
  | .list (item :: items) =>
    let out := item.write (level + 1) (newLine (out.push '[') (level + 1))
    (newLine (writeItems (level + 1) out items) level).push ']'
  | .object [] => out ++ "\x7b\x7d"
  | .object ((name, value) :: fields) =>
    let out := writeString (newLine (out.push '\x7b') (level + 1)) name ++ ": "
    let out := value.write (level + 1) out
    (newLine (writeFields (level + 1) out fields) level).push '\x7d'

def writeItems (level : Nat) (out : String) : List Value → String
  | [] => out
  | item :: items =>
    writeItems level (item.write level (newLine (out.push ',') level)) items

def writeFields (level : Nat) (out : String) : List (String × Value) → String
  | [] => out
  | (name, value) :: fields =>
    let out := writeString (newLine (out.push ',') level) name ++ ": "
    writeFields level (value.write level out) fields

end

/-- A document ends with a line break. -/
def Value.document (value : Value) : String := (value.write 0 "").push '\n'

end StyleAudit.Json
