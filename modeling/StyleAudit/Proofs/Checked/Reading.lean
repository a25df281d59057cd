import StyleAudit.Proofs.Checked.Source
import StyleAudit.Proofs.Literal.Syntax
import StyleAudit.Proofs.Reading.Links

/-! The reader with its faults. It asks the nodes for the depths and names that the plain reader
keeps beside them, and the brackets of something passed over are counted in 32 bits. -/
namespace StyleAudit.Checked

open Reading (Change Expecting Frame Key Reader Sound isPlainName maxDepth)
open Token (Kind)

def increment (n : Nat) : Except Fault Nat :=
  if n + 1 < UInt32.size then .ok (n + 1) else .error .overflow

def lookUp (nodes : Array Node) (index : Nat) : Except Fault Node :=
  ((⟨nodes⟩ : Outline).node index).mapError .outOfRange

/-- A node is put below one that exists already. -/
def addNode (nodes : Array Node) (kind : Node.Kind) (parent depth line : Nat) :
    Except Fault (Array Node) := do
  let _ ← lookUp nodes parent
  return Reader.addNode nodes kind parent depth line

def passOver (brackets : Nat) : Kind → Except Fault (Option Expecting)
  | .leftBrace | .leftParen | .leftBracket => do return some (.ending (← increment brackets))
  | kind => .ok (Reading.passOver brackets kind)

def beginEntry (reader : Reader) (frame : Frame) (outer : List Frame) (name : String)
    (line : Nat) : Except Fault Reader :=
  if isPlainName name then do
    let above ← lookUp reader.nodes frame.object
    let nodes ← addNode reader.nodes (.key name) frame.object (min (above.depth + 1) maxDepth) line
    let key : Key := ⟨reader.nodes.size, name⟩
    return { reader with nodes, frames := { frame with expecting := .value (some key) } :: outer }
  else .ok (reader.proceed frame outer (some (.value none)))

def beginObject (reader : Reader) (frame : Frame) (outer : List Frame) (key : Key)
    (line : Nat) : Except Fault Reader := do
  let entry ← lookUp reader.nodes key.index
  let nodes ← addNode reader.nodes .object key.index entry.depth line
  let inner : Frame := ⟨reader.nodes.size, entry.depth, .entry⟩
  return { reader with nodes, frames := inner :: { frame with expecting := .entry } :: outer }

def notePlain (reader : Reader) (frame : Frame) (key : Key) (line : Nat) : Except Fault Reader :=
  if frame.object = Outline.root then do
    match (← lookUp reader.nodes key.index).name? with
    | some name => return { reader with plain := reader.plain.push ⟨name, line⟩ }
    | none => return reader
  else .ok reader

def step (reader : Reader) (token : Token) (named : Bool) : Except Fault Reader :=
  match reader.frames with
  | [] => .ok reader
  | frame :: outer =>
    match frame.expecting with
    | .entry =>
      match token.kind with
      | .rightBrace => .ok (reader.proceed frame outer none)
      | .comma => .ok reader
      | kind =>
        match named, kind.text? with
        | true, some name => beginEntry reader frame outer name token.line
        | _, _ => do return reader.proceed frame outer (← passOver 0 kind)
    | .value (some key) =>
      match token.kind with
      | .leftBrace => beginObject reader frame outer key token.line
      | kind => do
        let noted ← notePlain reader frame key token.line
        return noted.proceed frame outer (← passOver 0 kind)
    | .value none => do return reader.proceed frame outer (← passOver 0 token.kind)
    | .ending brackets => do return reader.proceed frame outer (← passOver brackets token.kind)

def run (reader : Reader) : List Token → Except Fault Reader
  | [] => .ok reader
  | [token] => step reader token false
  | token :: next :: rest =>
    if next.kind = .colon ∧ reader.expectsEntry then do run (← step reader token true) rest
    else do run (← step reader token false) (next :: rest)

def ofTokens : List Token → Except Fault Reading
  | ⟨.leftBrace, line⟩ :: rest => do
    let reader ← run (.initial line) rest
    return ⟨if reader.closed then some ⟨reader.nodes⟩ else none, reader.plain.toList⟩
  | _ => .ok ⟨none, []⟩

/-- The brackets opened by some tokens. -/
def openings (tokens : List Token) : Nat := tokens.countP fun token => token.kind.closer?.isSome

/-- A key whose value comes next has the name that its node has. -/
def Named (nodes : Array Node) (frames : List Frame) : Prop :=
  ∀ frame ∈ frames.head?, ∀ key, frame.expecting = .value (some key) →
    ∃ node, nodes[key.index]? = some node ∧ node.kind = .key key.name

def Bounded (frames : List Frame) (opened : Nat) : Prop :=
  ∀ frame ∈ frames, frame.expecting.brackets ≤ opened

/-- What keeps a reader from failing, `opened` brackets after it began. -/
structure Safe (reader : Reader) (opened : Nat) : Prop where
  sound : Sound reader.nodes reader.frames
  named : Named reader.nodes reader.frames
  bounded : Bounded reader.frames opened

theorem lookUp_eq {nodes : Array Node} {index : Nat} {node : Node}
    (found : nodes[index]? = some node) : lookUp nodes index = .ok node := by
  simp [lookUp, Outline.node, found, Except.mapError]

theorem addNode_eq {nodes : Array Node} {parent : Nat} {above : Node}
    (found : nodes[parent]? = some above) (kind : Node.Kind) (depth line : Nat) :
    addNode nodes kind parent depth line = .ok (Reader.addNode nodes kind parent depth line) := by
  rw [addNode, lookUp_eq found]
  rfl

theorem passOver_eq {brackets : Nat} {kind : Kind}
    (room : kind.closer?.isSome = true → brackets + 1 < UInt32.size) :
    passOver brackets kind = .ok (Reading.passOver brackets kind) := by
  cases kind with
  | leftBrace | leftParen | leftBracket =>
    rw [passOver, increment, if_pos (room rfl)]
    rfl
  | _ => rfl

theorem openings_cons (token : Token) (tokens : List Token) :
    openings (token :: tokens) = openings [token] + openings tokens := by
  simp [openings, List.countP_cons, Nat.add_comm]

theorem openings_of_closer {token : Token} (opens : token.kind.closer?.isSome = true) :
    openings [token] = 1 := by
  simp [openings, opens]

/-- Only an opening bracket is counted. -/
theorem brackets_le_of_passOver {token : Token} {brackets : Nat} {expecting : Expecting}
    (passed : Reading.passOver brackets token.kind = some expecting) :
    expecting.brackets ≤ brackets + openings [token] := by
  obtain ⟨kind, line⟩ := token
  cases kind with
  | leftBrace | leftParen | leftBracket =>
    obtain rfl := Option.some.inj passed
    rw [openings_of_closer rfl]
    exact Nat.le_refl _
  | rightBrace =>
    simp only [Reading.passOver, Option.ite_none_left_eq_some] at passed
    obtain rfl := Option.some.inj passed.2
    exact Nat.le_add_right_of_le (Nat.sub_le brackets 1)
  | rightParen | rightBracket =>
    obtain rfl := Option.some.inj passed
    exact Nat.le_add_right_of_le (Nat.sub_le brackets 1)
  | comma =>
    obtain rfl := Option.some.inj passed
    split
    · exact Nat.zero_le _
    · exact Nat.le_add_right brackets _
  | _ =>
    obtain rfl := Option.some.inj passed
    exact Nat.le_add_right brackets _

section Safe

variable {reader : Reader} {frame : Frame} {outer : List Frame} {opened : Nat}

theorem Safe.beginEntry_eq (safe : Safe reader opened) (innermost : reader.frames = frame :: outer)
    (name : String) (line : Nat) :
    beginEntry reader frame outer name line = .ok (reader.beginEntry frame outer name line) := by
  have path := safe.sound.path
  rw [innermost] at path
  obtain ⟨⟨above, found, _, depth⟩, _⟩ := path
  unfold beginEntry Reader.beginEntry
  split
  · simp only [lookUp_eq found, addNode_eq found, bind, Except.bind, depth]
    rfl
  · rfl

theorem Safe.beginObject_eq (safe : Safe reader opened) (innermost : reader.frames = frame :: outer)
    {key : Key} (due : frame.expecting = .value (some key)) (line : Nat) :
    beginObject reader frame outer key line = .ok (reader.beginObject frame outer key line) := by
  have pending := safe.sound.pending frame (by rw [innermost]; rfl) key due
  obtain ⟨entry, _, found, _, depth, _⟩ := pending
  unfold beginObject Reader.beginObject
  simp only [lookUp_eq found, addNode_eq found, bind, Except.bind, depth]
  rfl

theorem Safe.notePlain_eq (safe : Safe reader opened) (innermost : reader.frames = frame :: outer)
    {key : Key} (due : frame.expecting = .value (some key)) (line : Nat) :
    notePlain reader frame key line = .ok (reader.notePlain frame key line) := by
  obtain ⟨node, found, isKey⟩ := safe.named frame (by rw [innermost]; rfl) key due
  have name : node.name? = some key.name := by rw [Node.name?, isKey]
  unfold notePlain Reader.notePlain
  split
  · simp only [lookUp_eq found, bind, Except.bind, name]
    rfl
  · rfl

/-- No step fails while the brackets opened so far can be counted. -/
theorem Safe.step_eq (safe : Safe reader opened) {token : Token}
    (room : token.kind.closer?.isSome = true → opened + 1 < UInt32.size) (named : Bool) :
    step reader token named = .ok (reader.step token named) := by
  cases innermost : reader.frames with
  | nil => simp only [step, Reader.step, innermost]
  | cons frame outer =>
    have bound := safe.bounded frame (by rw [innermost]; exact List.mem_cons_self)
    -- What is open in something passed over was opened before, so one more can be counted.
    have pass {brackets : Nat} (inside : frame.expecting.brackets = brackets) (reader : Reader) :
        (do return reader.proceed frame outer (← passOver brackets token.kind)) =
          (.ok (reader.proceed frame outer (Reading.passOver brackets token.kind)) :
            Except Fault Reader) := by
      have counted : passOver brackets token.kind = .ok (Reading.passOver brackets token.kind) :=
        passOver_eq fun opens => Nat.lt_of_le_of_lt (by omega) (room opens)
      rw [counted]
      rfl
    simp only [step, Reader.step, innermost]
    cases due : frame.expecting with
    | entry =>
      have flat : frame.expecting.brackets = 0 := by rw [due]; rfl
      by_cases brace : token.kind = .rightBrace
      · simp only [brace]
      by_cases comma : token.kind = .comma
      · simp only [comma]
      simp only
      cases named with
      | false => exact pass flat reader
      | true =>
        cases token.kind.text? with
        | none => exact pass flat reader
        | some name => exact safe.beginEntry_eq innermost name token.line
    | value key =>
      have flat : frame.expecting.brackets = 0 := by rw [due]; rfl
      cases key with
      | none => exact pass flat reader
      | some key =>
        by_cases brace : token.kind = .leftBrace
        · simp only [brace]
          exact safe.beginObject_eq innermost due token.line
        · simp only [safe.notePlain_eq innermost due]
          exact pass flat _
    | ending brackets => exact pass (by rw [due]; rfl) reader

theorem Bounded.change {nodes nodes' : Array Node} {frames : List Frame} {token : Token}
    {named : Bool} (bounded : Bounded (frame :: outer) opened)
    (change : Change nodes frame outer token named nodes' frames) :
    Bounded frames (opened + openings [token]) := by
  have kept : Bounded (frame :: outer) (opened + openings [token]) := fun other member =>
    Nat.le_add_right_of_le (bounded other member)
  obtain ⟨_, outside⟩ := List.forall_mem_cons.mp kept
  cases change with
  | separator => exact kept
  | @pass expecting passed =>
    refine List.forall_mem_cons.mpr ⟨?_, outside⟩
    have bound := bounded frame List.mem_cons_self
    have counted := brackets_le_of_passOver passed
    exact Nat.le_trans counted (Nat.add_le_add_right bound _)
  | close => exact outside
  | unnamed | key => exact List.forall_mem_cons.mpr ⟨Nat.zero_le _, outside⟩
  | object =>
    have inner : Bounded ({ frame with expecting := .entry } :: outer) (opened + openings [token]) :=
      List.forall_mem_cons.mpr ⟨Nat.zero_le _, outside⟩
    exact List.forall_mem_cons.mpr ⟨Nat.zero_le _, inner⟩

theorem Named.change {nodes nodes' : Array Node} {frames : List Frame} {token : Token}
    {colon : Bool} (named : Named nodes (frame :: outer)) (sound : Sound nodes (frame :: outer))
    (change : Change nodes frame outer token colon nodes' frames) : Named nodes' frames := by
  have inside : frame.object < nodes.size := by
    obtain ⟨⟨_, found, _⟩, _⟩ := sound.path
    exact (Array.getElem?_eq_some_iff.mp found).1
  rcases sound.records change with
    ⟨rfl, free⟩ | ⟨name, _, _, _, _, rfl, rfl⟩ | ⟨key, _, _, rfl, rfl⟩
  · exact fun next head key due => absurd due (free next head key)
  · rintro _ ⟨⟩ _ ⟨⟩
    exact ⟨_, addNode_last inside, rfl⟩
  · rintro _ ⟨⟩ _ ⟨⟩

theorem Safe.initial (line : Nat) : Safe (.initial line) 0 where
  sound := .initial line
  named := by simp [Named, Reader.initial]
  bounded := by simp [Bounded, Reader.initial, Expecting.brackets]

theorem Safe.step (safe : Safe reader opened) (token : Token) (named : Bool) :
    Safe (reader.step token named) (opened + openings [token]) := by
  obtain ⟨sound, names, bounded⟩ := safe
  cases innermost : reader.frames with
  | nil =>
    rw [Reader.step_of_closed innermost]
    refine ⟨sound, names, fun frame member => ?_⟩
    simp [innermost] at member
  | cons frame outer =>
    have change := Reader.step_change innermost token named
    have later := sound.step token named
    rw [innermost] at sound names bounded
    exact ⟨later, names.change sound change, bounded.change change⟩

theorem Safe.run (safe : Safe reader opened) (tokens : List Token) :
    Safe (reader.run tokens) (opened + openings tokens) := by
  fun_induction Reader.run reader tokens generalizing opened with
  | case1 reader => exact safe
  | case2 reader token => exact safe.step token false
  | case3 reader token next rest taken ih =>
    -- The colon that is read with the token opens nothing.
    have colon : openings [next] = 0 := by simp [openings, taken.1, Kind.closer?]
    rw [openings_cons, openings_cons next, colon, Nat.zero_add, ← Nat.add_assoc]
    exact ih (safe.step token true)
  | case4 reader token next rest _ ih =>
    rw [openings_cons, ← Nat.add_assoc]
    exact ih (safe.step token false)

/-- Nor does a run. -/
theorem Safe.run_eq (safe : Safe reader opened) {tokens : List Token}
    (room : opened + openings tokens < UInt32.size) :
    Checked.run reader tokens = .ok (reader.run tokens) := by
  have first {opened : Nat} {token : Token} {rest : List Token}
      (room : opened + openings (token :: rest) < UInt32.size)
      (opens : token.kind.closer?.isSome = true) : opened + 1 < UInt32.size := by
    rw [openings_cons, openings_of_closer opens] at room
    omega
  fun_induction Reader.run reader tokens generalizing opened with
  | case1 reader => rfl
  | case2 reader token => exact safe.step_eq (first room) false
  | case3 reader token next rest taken ih =>
    have later : opened + openings [token] + openings rest < UInt32.size := by
      rw [openings_cons, openings_cons next] at room
      omega
    rw [Checked.run, if_pos taken, safe.step_eq (first room)]
    exact ih (safe.step token true) later
  | case4 reader token next rest apart ih =>
    have later : opened + openings [token] + openings (next :: rest) < UInt32.size := by
      rw [openings_cons] at room
      omega
    rw [Checked.run, if_neg apart, safe.step_eq (first room)]
    exact ih (safe.step token false) later

theorem ofTokens_eq {tokens : List Token} (room : openings tokens < UInt32.size) :
    ofTokens tokens = .ok (Reading.ofTokens tokens) := by
  cases tokens with
  | nil => rfl
  | cons first rest =>
    obtain ⟨kind, line⟩ := first
    cases kind with
    | leftBrace =>
      have inside : 0 + openings rest < UInt32.size := by
        rw [openings_cons] at room
        omega
      rw [ofTokens, (Safe.initial line).run_eq inside]
      rfl
    | _ => rfl

end Safe

end StyleAudit.Checked
