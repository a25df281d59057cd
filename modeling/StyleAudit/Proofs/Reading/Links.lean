import StyleAudit.Proofs.Outline.Tree
import StyleAudit.Proofs.Reading.Step

/-! The nodes that a reader records are linked, whatever tokens it reads. The open objects
are the node read last and nodes around it, which is where new nodes go. -/
namespace StyleAudit.Reading

open Reader (addNode)

/-- The open objects enclose each other, and the innermost encloses `tip`. -/
def Path (nodes : Array Node) : Nat → List Frame → Prop
  | _, [] => True
  | tip, frame :: outer =>
    (∃ node, nodes[frame.object]? = some node ∧ node.kind = .object ∧ node.depth = frame.depth) ∧
      Within nodes frame.object tip ∧ Path nodes frame.object outer

/-- A key whose value comes next is the node recorded last, and nothing is below it yet. -/
def Frame.Pending (nodes : Array Node) (frame : Frame) (key : Key) : Prop :=
  ∃ node name, nodes[key.index]? = some node ∧ node.kind = .key name ∧
    node.depth = min (frame.depth + 1) maxDepth ∧ node.children = #[] ∧
    key.index + 1 = nodes.size ∧ Within nodes frame.object key.index

/-- The value of a recorded key is not what comes next. -/
def NoneDue (frames : List Frame) : Prop :=
  ∀ frame ∈ frames.head?, ∀ key, frame.expecting ≠ .value (some key)

structure Sound (nodes : Array Node) (frames : List Frame) : Prop where
  linked : Linked nodes
  path : Path nodes (nodes.size - 1) frames
  /-- The objects around the innermost one go on with an entry. -/
  waiting : ∀ frame ∈ frames.tail, frame.expecting = .entry
  pending : ∀ frame ∈ frames.head?, ∀ key, frame.expecting = .value (some key) →
    frame.Pending nodes key

namespace Path

variable {nodes : Array Node} {frames : List Frame}

theorem within {tip lower : Nat} (path : Path nodes tip frames)
    (within : Within nodes tip lower) : Path nodes lower frames := by
  cases frames with
  | nil => trivial
  | cons frame outer => exact ⟨path.1, path.2.1.trans within, path.2.2⟩

theorem addNode {kind : Node.Kind} {p depth line : Nat} (inside : p < nodes.size) {tip : Nat}
    (path : Path nodes tip frames) :
    Path (Reader.addNode nodes kind p depth line) tip frames := by
  induction frames generalizing tip with
  | nil => trivial
  | cons frame outer ih =>
    obtain ⟨⟨node, found, shape⟩, within, rest⟩ := path
    obtain ⟨children, kept, _⟩ := addNode_old kind p depth line found
    exact ⟨⟨_, kept, shape⟩, within.addNode inside, ih rest⟩

end Path

namespace Sound

theorem initial (line : Nat) : Sound (Reader.initial line).nodes (Reader.initial line).frames where
  linked := .single_root line
  path := ⟨⟨_, rfl, rfl, rfl⟩, .refl, trivial⟩
  waiting := by simp [Reader.initial]
  pending := by simp [Reader.initial]

variable {nodes : Array Node} {frame : Frame} {outer : List Frame}

/-- Nothing is recorded, and what is due next is not the value of a recorded key. -/
theorem goOn (sound : Sound nodes (frame :: outer)) {expecting : Expecting}
    (free : ∀ key, expecting ≠ .value (some key)) :
    Sound nodes ({ frame with expecting } :: outer) where
  linked := sound.linked
  path := sound.path
  waiting := sound.waiting
  pending _ head key due := by
    obtain rfl := Option.some.inj head
    exact absurd due (free key)

theorem leave (sound : Sound nodes (frame :: outer)) : Sound nodes outer where
  linked := sound.linked
  path := sound.path.2.2.within sound.path.2.1
  waiting other member := sound.waiting other (List.mem_of_mem_tail member)
  pending other head key due := by
    have := sound.waiting other (List.mem_of_mem_head? head)
    simp [this] at due

theorem addKey (sound : Sound nodes (frame :: outer)) {name : String} (line : Nat)
    (plain : isPlainName name = true) :
    Sound (addNode nodes (.key name) frame.object (min (frame.depth + 1) maxDepth) line)
      ({ frame with expecting := .value (some ⟨nodes.size, name⟩) } :: outer) := by
  obtain ⟨⟨node, found, isObject, depth⟩, within, rest⟩ := sound.path
  have inside := (Array.getElem?_eq_some_iff.mp found).1
  have below : Within (addNode nodes (.key name) frame.object (min (frame.depth + 1) maxDepth) line)
      frame.object nodes.size := Within.below_addNode inside .refl
  constructor
  case linked =>
    refine sound.linked.addNode found within ⟨isObject, by rw [depth], plain⟩ fun key isKey => ?_
    simp [isObject] at isKey
  case path =>
    obtain ⟨children, kept, _⟩ := addNode_old (.key name) frame.object
      (min (frame.depth + 1) maxDepth) line found
    rw [size_addNode, Nat.add_sub_cancel]
    exact ⟨⟨_, kept, isObject, depth⟩, below, rest.addNode inside⟩
  case waiting => exact sound.waiting
  case pending =>
    intro _ head key due
    obtain rfl := Option.some.inj head
    obtain rfl := Option.some.inj (Expecting.value.inj due)
    exact ⟨_, name, addNode_last inside, rfl, rfl, rfl, size_addNode.symm, below⟩

theorem addObject (sound : Sound nodes (frame :: outer)) {key : Key} (line : Nat)
    (due : frame.expecting = .value (some key)) :
    Sound (addNode nodes .object key.index (min (frame.depth + 1) maxDepth) line)
      (⟨nodes.size, min (frame.depth + 1) maxDepth, .entry⟩ ::
        { frame with expecting := .entry } :: outer) := by
  obtain ⟨above, name, found, isKey, depth, bare, last, within⟩ := sound.pending frame rfl key due
  have inside := (Array.getElem?_eq_some_iff.mp found).1
  have path : Path (addNode nodes .object key.index (min (frame.depth + 1) maxDepth) line)
      (nodes.size - 1) (frame :: outer) := sound.path.addNode inside
  constructor
  case linked =>
    refine sound.linked.addNode found ?_ ⟨⟨name, isKey⟩, depth.symm⟩ fun _ _ => bare
    rw [← last, Nat.add_sub_cancel]
  case path =>
    rw [size_addNode, Nat.add_sub_cancel]
    exact ⟨⟨_, addNode_last inside, rfl, rfl⟩, .refl, path.1, within.below_addNode inside, path.2.2⟩
  case waiting =>
    intro other member
    rcases List.mem_cons.mp member with rfl | member
    · rfl
    · exact sound.waiting other member
  case pending =>
    intro _ head key due
    obtain rfl := Option.some.inj head
    simp at due

/-- A token records a key, whose value is then due, or that value, or nothing. -/
theorem records (sound : Sound nodes (frame :: outer)) {token : Token} {named : Bool}
    {nodes' : Array Node} {frames : List Frame}
    (change : Change nodes frame outer token named nodes' frames) :
    (nodes' = nodes ∧ NoneDue frames) ∨
    (∃ name, frame.expecting = .entry ∧ named = true ∧ token.kind.text? = some name ∧
      isPlainName name = true ∧
      nodes' = addNode nodes (.key name) frame.object (min (frame.depth + 1) maxDepth) token.line ∧
      frames = { frame with expecting := .value (some ⟨nodes.size, name⟩) } :: outer) ∨
    (∃ key, frame.expecting = .value (some key) ∧ token.kind = .leftBrace ∧
      nodes' = addNode nodes .object key.index (min (frame.depth + 1) maxDepth) token.line ∧
      frames = ⟨nodes.size, min (frame.depth + 1) maxDepth, .entry⟩ ::
        { frame with expecting := .entry } :: outer) := by
  cases change with
  | separator due => exact .inl ⟨rfl, by simp [NoneDue, due]⟩
  | pass passed =>
    refine .inl ⟨rfl, ?_⟩
    rintro _ ⟨⟩ key rfl
    exact passOver_ne_value passed
  | close =>
    refine .inl ⟨rfl, fun other head key => ?_⟩
    simp [sound.waiting other (List.mem_of_mem_head? head)]
  | unnamed => exact .inl ⟨rfl, by simp [NoneDue]⟩
  | key due isNamed text plain => exact .inr (.inl ⟨_, due, isNamed, text, plain, rfl, rfl⟩)
  | object due brace => exact .inr (.inr ⟨_, due, brace, rfl, rfl⟩)

/-- Every token preserves the invariant, whichever change it makes. -/
theorem change (sound : Sound nodes (frame :: outer)) {token : Token} {named : Bool}
    {nodes' : Array Node} {frames : List Frame}
    (change : Change nodes frame outer token named nodes' frames) : Sound nodes' frames := by
  cases change with
  | separator => exact sound
  | pass passed => exact sound.goOn fun _ same => passOver_ne_value (same ▸ passed)
  | close => exact sound.leave
  | unnamed => exact sound.goOn (by simp)
  | key _ _ _ plain => exact sound.addKey token.line plain
  | object due => exact sound.addObject token.line due

theorem step {reader : Reader} (sound : Sound reader.nodes reader.frames) (token : Token)
    (named : Bool) : Sound (reader.step token named).nodes (reader.step token named).frames := by
  cases innermost : reader.frames with
  | nil =>
    rw [Reader.step_of_closed innermost]
    exact sound
  | cons frame outer =>
    rw [innermost] at sound
    exact sound.change (Reader.step_change innermost token named)

theorem run (line : Nat) (tokens : List Token) :
    Sound ((Reader.initial line).run tokens).nodes ((Reader.initial line).run tokens).frames :=
  Reader.run_induction (fun reader => Sound reader.nodes reader.frames)
    (fun _ token named sound => sound.step token named) tokens (initial line)

end Sound

theorem linked_of_outline {tokens : List Token} {outline : Outline}
    (read : (ofTokens tokens).outline = some outline) : Linked outline.nodes := by
  obtain ⟨line, rest, _, _, rfl⟩ := outline_eq_some.mp read
  exact (Sound.run line rest).linked

/-- No condition on the tokens: this holds however malformed the literal is. -/
theorem isTree_of_outline {tokens : List Token} {outline : Outline}
    (read : (ofTokens tokens).outline = some outline) : outline.IsTree :=
  (linked_of_outline read).isTree

/-- A stray bracket, a name that is not recorded and a missing separator. -/
def straggling : List Token :=
  [⟨.leftBrace, 1⟩, ⟨.rightParen, 1⟩, ⟨.comma, 1⟩, ⟨.word "a", 2⟩, ⟨.colon, 2⟩, ⟨.leftBrace, 2⟩,
    ⟨.quoted "b-c", 3⟩, ⟨.colon, 3⟩, ⟨.rightBrace, 3⟩, ⟨.word "d", 4⟩, ⟨.colon, 4⟩, ⟨.rightBrace, 5⟩]

theorem straggling_isTree :
    (ofTokens straggling).outline = some ⟨#[⟨.object, none, #[1, 3], 0, 1⟩,
      ⟨.key "a", some 0, #[2], 1, 2⟩, ⟨.object, some 1, #[], 1, 2⟩, ⟨.key "d", some 0, #[], 1, 4⟩]⟩ ∧
    Outline.IsTree ⟨#[⟨.object, none, #[1, 3], 0, 1⟩,
      ⟨.key "a", some 0, #[2], 1, 2⟩, ⟨.object, some 1, #[], 1, 2⟩, ⟨.key "d", some 0, #[], 1, 4⟩]⟩ :=
  have read := by decide
  ⟨read, isTree_of_outline read⟩

end StyleAudit.Reading
