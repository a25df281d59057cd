import StyleAudit.Outline
import StyleAudit.Token

/-! Reading an outline off the tokens of a container literal. The reader keeps the objects
that are open and, for the innermost, what it expects next. Entries without a plain name and
values that are no object are passed over by counting brackets, so a literal that does not
follow the grammar still has an outline as long as its brace is closed. -/
namespace StyleAudit

open Token (Kind)

/-- An entry of the container whose value is no object, with the line where that value begins. -/
structure PlainEntry where
  name : String
  line : Nat
  deriving DecidableEq, Repr

namespace Reading

/-- The largest depth told apart. Below it everything counts as equally deep. -/
def maxDepth : Nat := 65535

structure Key where
  index : Nat
  name : String
  deriving DecidableEq, Repr

inductive Expecting where
  /-- An entry, a separator or the closing brace. A separator may be left out. -/
  | entry
  /-- The value of an entry, recorded if it has a plain name. -/
  | value (key : Option Key)
  /-- The end of something passed over, inside so many brackets of it. -/
  | ending (brackets : Nat)
  deriving DecidableEq, Repr

structure Frame where
  object : Nat
  depth : Nat
  expecting : Expecting
  deriving DecidableEq, Repr

/-- The open objects, innermost first. When none is left the literal is closed. -/
structure Reader where
  nodes : Array Node
  frames : List Frame
  plain : Array PlainEntry
  deriving DecidableEq, Repr

def isPlainName (name : String) : Bool :=
  name ≠ "" && name.toList.all fun c => c.isAlphanum || c == '_'

/-- One token of something passed over. `none` means that it closes the enclosing object,
whatever kind of bracket was open. -/
def passOver (brackets : Nat) : Kind → Option Expecting
  | .leftBrace | .leftParen | .leftBracket => some (.ending (brackets + 1))
  | .rightBrace => if brackets = 0 then none else some (.ending (brackets - 1))
  | .rightParen | .rightBracket => some (.ending (brackets - 1))
  | .comma => some (if brackets = 0 then .entry else .ending brackets)
  | _ => some (.ending brackets)

namespace Reader

def initial (line : Nat) : Reader :=
  ⟨#[⟨.object, none, #[], 0, line⟩], [⟨Outline.root, 0, .entry⟩], #[]⟩

def closed (reader : Reader) : Bool := reader.frames.isEmpty

def expectsEntry (reader : Reader) : Bool :=
  match reader.frames with
  | ⟨_, _, .entry⟩ :: _ => true
  | _ => false

def addNode (nodes : Array Node) (kind : Node.Kind) (parent depth line : Nat) : Array Node :=
  let index := nodes.size
  (nodes.push ⟨kind, some parent, #[], depth, line⟩).modify parent fun node =>
    { node with children := node.children.push index }

def proceed (reader : Reader) (frame : Frame) (outer : List Frame) :
    Option Expecting → Reader
  | some expecting => { reader with frames := { frame with expecting } :: outer }
  | none => { reader with frames := outer }

def beginEntry (reader : Reader) (frame : Frame) (outer : List Frame) (name : String)
    (line : Nat) : Reader :=
  if isPlainName name then
    let index := reader.nodes.size
    { reader with
      nodes := addNode reader.nodes (.key name) frame.object (min (frame.depth + 1) maxDepth) line
      frames := { frame with expecting := .value (some ⟨index, name⟩) } :: outer }
  else reader.proceed frame outer (some (.value none))

def beginObject (reader : Reader) (frame : Frame) (outer : List Frame) (key : Key)
    (line : Nat) : Reader :=
  let index := reader.nodes.size
  let depth := min (frame.depth + 1) maxDepth
  { reader with
    nodes := addNode reader.nodes .object key.index depth line
    frames := ⟨index, depth, .entry⟩ :: { frame with expecting := .entry } :: outer }

def notePlain (reader : Reader) (frame : Frame) (key : Key) (line : Nat) : Reader :=
  if frame.object = Outline.root then
    { reader with plain := reader.plain.push ⟨key.name, line⟩ }
  else reader

/-- Read one token. `named` says that a colon comes next, so that a word or string where an
entry is expected names one. -/
def step (reader : Reader) (token : Token) (named : Bool) : Reader :=
  match reader.frames with
  | [] => reader
  | frame :: outer =>
    match frame.expecting with
    | .entry =>
      match token.kind with
      | .rightBrace => reader.proceed frame outer none
      | .comma => reader
      | kind =>
        match named, kind.text? with
        | true, some name => reader.beginEntry frame outer name token.line
        | _, _ => reader.proceed frame outer (passOver 0 kind)
    | .value (some key) =>
      match token.kind with
      | .leftBrace => reader.beginObject frame outer key token.line
      | kind => (reader.notePlain frame key token.line).proceed frame outer (passOver 0 kind)
    | .value none => reader.proceed frame outer (passOver 0 token.kind)
    | .ending brackets => reader.proceed frame outer (passOver brackets token.kind)

/-- A colon after a token is read with that token where an entry is expected, whatever the
token is. Nothing after the closing brace matters. -/
def run (reader : Reader) : List Token → Reader
  | [] => reader
  | [token] => reader.step token false
  | token :: next :: rest =>
    if next.kind = .colon ∧ reader.expectsEntry then run (reader.step token true) rest
    else run (reader.step token false) (next :: rest)

theorem step_of_closed {reader : Reader} (closed : reader.frames = []) (token : Token)
    (named : Bool) : reader.step token named = reader := by
  simp [step, closed]

theorem run_of_closed {reader : Reader} (closed : reader.frames = []) (tokens : List Token) :
    reader.run tokens = reader := by
  fun_induction run reader tokens with
  | case1 => rfl
  | case2 reader token => exact step_of_closed closed token false
  | case3 reader token next rest _ ih =>
    rw [step_of_closed closed] at ih ⊢
    exact ih closed
  | case4 reader token next rest _ ih =>
    rw [step_of_closed closed] at ih ⊢
    exact ih closed

end Reader

end Reading

/-- What the tokens of a container literal yield. There is no outline when they do not begin
with a brace or end before that brace is closed. -/
structure Reading where
  outline : Option Outline
  plain : List PlainEntry
  deriving DecidableEq, Repr

def Reading.ofTokens : List Token → Reading
  | ⟨.leftBrace, line⟩ :: rest =>
    let reader := (Reader.initial line).run rest
    ⟨if reader.closed then some ⟨reader.nodes⟩ else none, reader.plain.toList⟩
  | _ => ⟨none, []⟩

end StyleAudit
