import StyleAudit.Outline.Reading

/-! Other line numbers. Lines are carried along and never looked at, so that reading tokens with
other lines gives the same outline with these. -/
namespace StyleAudit

variable {f : Nat → Nat}

def Token.relabel (f : Nat → Nat) (token : Token) : Token := { token with line := f token.line }

def Node.relabel (f : Nat → Nat) (node : Node) : Node := { node with line := f node.line }

def Outline.relabel (f : Nat → Nat) (outline : Outline) : Outline :=
  ⟨outline.nodes.map (Node.relabel f)⟩

def PlainEntry.relabel (f : Nat → Nat) (entry : PlainEntry) : PlainEntry :=
  { entry with line := f entry.line }

namespace Reading

def Reader.relabel (f : Nat → Nat) (reader : Reader) : Reader :=
  { reader with
    nodes := reader.nodes.map (Node.relabel f)
    plain := reader.plain.map (PlainEntry.relabel f) }

namespace Reader

theorem addNode_relabel (nodes : Array Node) (kind : Node.Kind) (parent depth line : Nat) :
    addNode (nodes.map (Node.relabel f)) kind parent depth (f line) =
      (addNode nodes kind parent depth line).map (Node.relabel f) := by
  apply Array.ext_getElem?
  intro i
  simp only [addNode, Array.size_map, Array.getElem?_modify, Array.getElem?_map]
  have pushed : ((nodes.map (Node.relabel f)).push ⟨kind, some parent, #[], depth, f line⟩)[i]? =
      ((nodes.push ⟨kind, some parent, #[], depth, line⟩)[i]?).map (Node.relabel f) := by
    rw [← Array.getElem?_map, Array.map_push]
    rfl
  rw [pushed]
  split
  · simp [Function.comp_def, Node.relabel]
  · rfl

section Step

variable (reader : Reader) (frame : Frame) (outer : List Frame)

theorem proceed_relabel (next : Option Expecting) :
    (reader.relabel f).proceed frame outer next = (reader.proceed frame outer next).relabel f := by
  cases next <;> rfl

theorem beginEntry_relabel (name : String) (line : Nat) :
    (reader.relabel f).beginEntry frame outer name (f line) =
      (reader.beginEntry frame outer name line).relabel f := by
  simp only [beginEntry]
  split
  · simp [relabel, addNode_relabel]
  · exact proceed_relabel reader frame outer _

theorem beginObject_relabel (key : Key) (line : Nat) :
    (reader.relabel f).beginObject frame outer key (f line) =
      (reader.beginObject frame outer key line).relabel f := by
  simp [beginObject, relabel, addNode_relabel]

theorem notePlain_relabel (key : Key) (line : Nat) :
    (reader.relabel f).notePlain frame key (f line) =
      (reader.notePlain frame key line).relabel f := by
  simp only [notePlain]
  split
  · simp [relabel, PlainEntry.relabel]
  · rfl

end Step

theorem step_relabel (reader : Reader) (token : Token) (named : Bool) :
    (reader.relabel f).step (token.relabel f) named = (reader.step token named).relabel f := by
  obtain ⟨kind, line⟩ := token
  cases innermost : reader.frames with
  | nil =>
    rw [step_of_closed innermost, step_of_closed]
    exact innermost
  | cons frame outer =>
    have same : (reader.relabel f).frames = frame :: outer := innermost
    simp only [step, innermost, same, Token.relabel]
    cases frame.expecting with
    | entry =>
      cases kind
      case rightBrace | comma => rfl
      case word name | quoted name =>
        cases named with
        | false => exact proceed_relabel reader frame outer _
        | true => exact beginEntry_relabel reader frame outer name line
      all_goals cases named <;> exact proceed_relabel reader frame outer _
    | value key =>
      cases key with
      | none => exact proceed_relabel reader frame outer _
      | some key =>
        cases kind
        case leftBrace => exact beginObject_relabel reader frame outer key line
        all_goals
          simp only [notePlain_relabel]
          exact proceed_relabel _ frame outer _
    | ending brackets => exact proceed_relabel reader frame outer _

theorem run_relabel (reader : Reader) (tokens : List Token) :
    (reader.relabel f).run (tokens.map (Token.relabel f)) = (reader.run tokens).relabel f := by
  fun_induction run reader tokens with
  | case1 reader => rfl
  | case2 reader token => exact step_relabel reader token false
  | case3 reader token next rest taken ih =>
    have taken' : (next.relabel f).kind = .colon ∧ (reader.relabel f).expectsEntry = true := taken
    rw [List.map_cons, List.map_cons, run, if_pos taken', step_relabel, ih]
  | case4 reader token next rest apart ih =>
    have apart' : ¬ ((next.relabel f).kind = .colon ∧ (reader.relabel f).expectsEntry = true) :=
      apart
    rw [List.map_cons] at ih ⊢
    rw [List.map_cons, run, if_neg apart', step_relabel, ih]

end Reader

theorem outline_relabel (tokens : List Token) :
    (ofTokens (tokens.map (Token.relabel f))).outline =
      (ofTokens tokens).outline.map (Outline.relabel f) := by
  cases tokens with
  | nil => rfl
  | cons first rest =>
    obtain ⟨kind, line⟩ := first
    cases kind
    case leftBrace =>
      have start : Reader.initial (f line) = (Reader.initial line).relabel f := by
        simp [Reader.initial, Reader.relabel, Node.relabel]
      have read : (ofTokens (⟨.leftBrace, f line⟩ :: rest.map (Token.relabel f))).outline =
          if ((Reader.initial line).run rest).closed then
            some ⟨((Reader.initial line).run rest).nodes.map (Node.relabel f)⟩
          else none := by
        rw [ofTokens, start, Reader.run_relabel]
        rfl
      refine read.trans ?_
      simp only [ofTokens]
      split <;> rfl
    all_goals rfl

end Reading

end StyleAudit
