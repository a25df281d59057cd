/-! A reader of the JSON data format: all its values, blanks wherever they may stand, and every
way to write a number or a character. It is told nothing of how documents are written here. -/
namespace StyleAudit.Json

/-- What a document says. Fields keep their order. -/
inductive Datum where
  | null
  | bool (value : Bool)
  | number (value : Rat)
  | string (text : String)
  | array (items : List Datum)
  | object (fields : List (String × Datum))

def isBlank (c : Char) : Bool := c == ' ' || c == '\t' || c == '\n' || c == '\r'

def skipBlanks (text : List Char) : List Char := text.dropWhile isBlank

/-- A part of a string as it is written: a character, or a code unit of UTF-16. -/
inductive Piece where
  | char (c : Char)
  | unit (n : Nat)

def hexValue? (c : Char) : Option Nat :=
  if '0' ≤ c ∧ c ≤ '9' then some (c.toNat - 48)
  else if 'a' ≤ c ∧ c ≤ 'f' then some (c.toNat - 87)
  else if 'A' ≤ c ∧ c ≤ 'F' then some (c.toNat - 55)
  else none

def readUnit (digits : List Char) : Option Nat :=
  digits.foldlM (fun n digit => (hexValue? digit).map (16 * n + ·)) 0

def unescape? : Char → Option Char
  | '"' => some '"'
  | '\\' => some '\\'
  | '/' => some '/'
  | 'b' => some '\x08'
  | 'f' => some '\x0c'
  | 'n' => some '\n'
  | 'r' => some '\r'
  | 't' => some '\t'
  | _ => none

/-- The pieces before the closing quote. Control characters must be escaped. -/
def readPieces : List Char → Option (List Piece × List Char)
  | [] => none
  | '"' :: rest => some ([], rest)
  | '\\' :: 'u' :: a :: b :: c :: d :: rest => do
    let n ← readUnit [a, b, c, d]
    let (pieces, rest) ← readPieces rest
    return (.unit n :: pieces, rest)
  | '\\' :: c :: rest => do
    let c ← unescape? c
    let (pieces, rest) ← readPieces rest
    return (.char c :: pieces, rest)
  | c :: rest =>
    if c = '\\' ∨ c.toNat < 0x20 then none
    else do
      let (pieces, rest) ← readPieces rest
      return (.char c :: pieces, rest)

/-- The characters that pieces stand for. A character beyond the first 65536 may be written as a
high and a low unit, which mean nothing apart. -/
def joinPieces (high : Option Nat) : List Piece → Option (List Char)
  | [] => if high = none then some [] else none
  | .char c :: pieces => if high = none then (joinPieces none pieces).map (c :: ·) else none
  | .unit n :: pieces =>
    match high with
    | none =>
      if 0xd800 ≤ n ∧ n < 0xdc00 then joinPieces (some n) pieces
      else if 0xdc00 ≤ n ∧ n < 0xe000 then none
      else (joinPieces none pieces).map (Char.ofNat n :: ·)
    | some high =>
      if 0xdc00 ≤ n ∧ n < 0xe000 then
        (joinPieces none pieces).map
          (Char.ofNat (0x10000 + (high - 0xd800) * 0x400 + (n - 0xdc00)) :: ·)
      else none

def readString (text : List Char) : Option (String × List Char) := do
  let (pieces, rest) ← readPieces text
  let content ← joinPieces none pieces
  return (String.ofList content, rest)

def readDigits (text : List Char) : Option (List Char × List Char) :=
  match text.takeWhile Char.isDigit with
  | [] => none
  | digits => some (digits, text.dropWhile Char.isDigit)

/-- Digits that do not begin with a zero, unless it stands alone. -/
def readWhole (text : List Char) : Option (List Char × List Char) :=
  match readDigits text with
  | some ('0' :: _ :: _, _) => none
  | whole => whole

def readFraction : List Char → Option (List Char × List Char)
  | '.' :: rest => readDigits rest
  | text => some ([], text)

def valueOf (digits : List Char) : Nat := Nat.ofDigitChars 10 digits 0

def readExponent : List Char → Option (Int × List Char)
  | c :: text =>
    if c = 'e' ∨ c = 'E' then
      match text with
      | '-' :: text => (readDigits text).map fun (digits, rest) => (-valueOf digits, rest)
      | '+' :: text => (readDigits text).map fun (digits, rest) => (valueOf digits, rest)
      | text => (readDigits text).map fun (digits, rest) => (valueOf digits, rest)
    else some (0, c :: text)
  | [] => some (0, [])

def readMagnitude (text : List Char) : Option (Rat × List Char) := do
  let (whole, rest) ← readWhole text
  let (fraction, rest) ← readFraction rest
  let (exponent, rest) ← readExponent rest
  return (valueOf (whole ++ fraction) * 10 ^ (exponent - fraction.length), rest)

def readNumber : List Char → Option (Rat × List Char)
  | '-' :: text => (readMagnitude text).map fun (value, rest) => (-value, rest)
  | text => readMagnitude text

example : readNumber "-1.50e+1,".toList = some (-15, [',']) := by decide +kernel

section

variable (readOne : List Char → Option (α × List Char)) (closing : Char)

def readElements : Nat → List Char → Option (List α × List Char)
  | 0, _ => none
  | fuel + 1, text => do
    let (first, rest) ← readOne (skipBlanks text)
    match skipBlanks rest with
    | ',' :: rest => do
      let (more, rest) ← readElements fuel rest
      return (first :: more, rest)
    | c :: rest => if c = closing then some ([first], rest) else none
    | [] => none

def readEnclosed (fuel : Nat) (text : List Char) : Option (List α × List Char) :=
  match skipBlanks text with
  | c :: rest => if c = closing then some ([], rest) else readElements readOne closing fuel text
  | [] => none

end

def readField (readValue : List Char → Option (Datum × List Char)) :
    List Char → Option ((String × Datum) × List Char)
  | '"' :: text => do
    let (name, rest) ← readString text
    match skipBlanks rest with
    | ':' :: rest => do
      let (value, rest) ← readValue (skipBlanks rest)
      return ((name, value), rest)
    | _ => none
  | _ => none

/-- The value that a text begins with. The fuel bounds the depth of values, and the number of
elements in one value. -/
def readValue : Nat → List Char → Option (Datum × List Char)
  | 0, _ => none
  | fuel + 1, text =>
    match text with
    | 'n' :: 'u' :: 'l' :: 'l' :: rest => some (.null, rest)
    | 't' :: 'r' :: 'u' :: 'e' :: rest => some (.bool true, rest)
    | 'f' :: 'a' :: 'l' :: 's' :: 'e' :: rest => some (.bool false, rest)
    | '"' :: rest => (readString rest).map fun (text, rest) => (.string text, rest)
    | '[' :: rest =>
      (readEnclosed (readValue fuel) ']' fuel rest).map fun (items, rest) => (.array items, rest)
    | '\x7b' :: rest =>
      (readEnclosed (readField (readValue fuel)) '\x7d' fuel rest).map
        fun (fields, rest) => (.object fields, rest)
    | _ => (readNumber text).map fun (value, rest) => (.number value, rest)

def readDocument (text : String) : Option (Datum × String) :=
  (readValue text.length (skipBlanks text.toList)).map fun (datum, rest) =>
    (datum, String.ofList rest)

def read? (text : String) : Option Datum :=
  match readDocument text with
  | some (datum, rest) => if skipBlanks rest.toList = [] then some datum else none
  | none => none

example : read? " \x7b\"a\": [true, \"\\u00E9\\ud83d\\ude00\\/\"] , \"b\":null\x7d\n" =
    some (.object [("a", .array [.bool true, .string "é😀/"]), ("b", .null)]) := by rfl

example : read? "[1,]" = none ∧ read? "01" = none ∧ read? "\"\t\"" = none ∧
    read? "\"\\ud83d\"" = none ∧ read? "[] []" = none := by
  refine ⟨?_, ?_, ?_, ?_, ?_⟩ <;> rfl

end StyleAudit.Json
