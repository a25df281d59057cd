import StyleAudit.Proofs.Outline.Entries
import StyleAudit.Proofs.Reading.Links

/-! The entries that a reader notes because their value is no object. A note is made when the value
begins, long before the container is closed. At every moment the notes are the keys of the container
that have nothing below them, except for a key whose value comes next. -/
namespace StyleAudit

section AddNode

open Reading.Reader (addNode)

variable {nodes : Array Node} {p depth line : Nat} {above : Node}

/-- What goes below an object takes no bare name away. -/
theorem bareName?_addNode (found : nodes[p]? = some above) (kind : Node.Kind) {index : Nat}
    (old : index < nodes.size) (free : index ≠ p ∨ above.kind = .object) :
    bareName? (addNode nodes kind p depth line) index = bareName? nodes index := by
  by_cases same : index = p
  · subst same
    have isObject : above.kind = .object := free.resolve_left fun other => other rfl
    simp [bareName?, addNode_parent found, found, Node.name?, isObject]
  · simp [bareName?, addNode_other old same]

theorem bareName?_last (inside : p < nodes.size) (kind : Node.Kind) :
    bareName? (addNode nodes kind p depth line) nodes.size =
      if p = Outline.root then (⟨kind, some p, #[], depth, line⟩ : Node).name? else none := by
  rw [bareName?, addNode_last inside]
  simp

theorem bareNames_addKey (found : nodes[p]? = some above) (isObject : above.kind = .object)
    (name : String) :
    bareNames (addNode nodes (.key name) p depth line) (nodes.size + 1) =
      bareNames nodes nodes.size ++ if p = Outline.root then [name] else [] := by
  have inside := (Array.getElem?_eq_some_iff.mp found).1
  have others : bareNames (addNode nodes (.key name) p depth line) nodes.size =
      bareNames nodes nodes.size :=
    List.filterMap_congr fun index member =>
      bareName?_addNode found _ (List.mem_range.mp member) (.inr isObject)
  rw [bareNames_succ, others, bareName?_last inside]
  split <;> rfl

/-- A key that gets its value was the last node. If it stands in the container, its name was the
last of the bare ones. -/
theorem bareNames_addObject (found : nodes[p]? = some above) {name : String}
    (isKey : above.kind = .key name) (bare : above.children = #[]) (last : p + 1 = nodes.size) :
    bareNames nodes nodes.size =
      bareNames (addNode nodes .object p depth line) (nodes.size + 1) ++
        if above.parent = some Outline.root then [name] else [] := by
  have inside := (Array.getElem?_eq_some_iff.mp found).1
  have others : bareNames (addNode nodes .object p depth line) p = bareNames nodes p :=
    List.filterMap_congr fun index member => by
      have below := List.mem_range.mp member
      exact bareName?_addNode found _ (Nat.lt_trans below inside) (.inl (Nat.ne_of_lt below))
  have key : bareName? (addNode nodes .object p depth line) p = none := by
    rw [bareName?, addNode_parent found]
    simp
  have value : bareName? (addNode nodes .object p depth line) nodes.size = none := by
    simp [bareName?_last inside, Node.name?]
  have before : bareName? nodes p = if above.parent = some Outline.root then some name else none := by
    simp [bareName?, found, bare, Node.name?, isKey]
  rw [bareNames_succ, value, ← last, bareNames_succ, bareNames_succ, others, key, before]
  split <;> simp

end AddNode

namespace Reading

open Reader (addNode)

/-- The name of a key of the container whose value comes next. -/
def Frame.dueNames (frame : Frame) : List String :=
  match frame.expecting with
  | .value (some key) => if frame.object = Outline.root then [key.name] else []
  | _ => []

def dueNames : List Frame → List String
  | [] => []
  | frame :: _ => frame.dueNames

theorem dueNames_eq_nil {frames : List Frame} (free : NoneDue frames) : dueNames frames = [] := by
  cases frames with
  | nil => rfl
  | cons frame outer =>
    rw [dueNames, Frame.dueNames]
    split
    next key due => exact absurd due (free frame rfl key)
    next => rfl

theorem length_dueNames_le (frames : List Frame) : (dueNames frames).length ≤ 1 := by
  cases frames with
  | nil => exact Nat.zero_le 1
  | cons frame outer =>
    rw [dueNames, Frame.dueNames]
    split
    · split <;> simp
    · exact Nat.zero_le 1

namespace Reader

variable {reader : Reader} {frame : Frame} {outer : List Frame}

/-- The names that a reader has noted. -/
def plainNames (reader : Reader) : List String := reader.plain.toList.map (·.name)

theorem plainNames_proceed (next : Option Expecting) :
    (reader.proceed frame outer next).plainNames = reader.plainNames := by
  cases next <;> rfl

theorem plainNames_beginEntry (name : String) (line : Nat) :
    (reader.beginEntry frame outer name line).plainNames = reader.plainNames := by
  unfold beginEntry
  split
  · rfl
  · exact plainNames_proceed _

theorem plainNames_notePlain (key : Key) (line : Nat) :
    (reader.notePlain frame key line).plainNames =
      reader.plainNames ++ if frame.object = Outline.root then [key.name] else [] := by
  unfold notePlain
  split <;> simp [plainNames]

/-- Unless it opens the value, a token settles that the key has none. -/
theorem plainNames_step (innermost : reader.frames = frame :: outer) {token : Token}
    (noObject : ∀ key, frame.expecting = .value (some key) → token.kind ≠ .leftBrace)
    (named : Bool) :
    (reader.step token named).plainNames = reader.plainNames ++ frame.dueNames := by
  simp only [step, innermost]
  cases due : frame.expecting with
  | entry =>
    simp only [Frame.dueNames, due, List.append_nil]
    split
    next => rfl
    next => rfl
    next =>
      split
      next => exact plainNames_beginEntry _ _
      next => exact plainNames_proceed _
  | value key =>
    cases key with
    | none =>
      simp only [Frame.dueNames, due, List.append_nil]
      exact plainNames_proceed _
    | some key =>
      simp only [Frame.dueNames, due]
      split
      next brace => exact absurd brace (noObject key due)
      next => rw [plainNames_proceed, plainNames_notePlain]
  | ending brackets =>
    simp only [Frame.dueNames, due, List.append_nil]
    exact plainNames_proceed _

end Reader

/-- The keys of the container that have nothing below them are the ones noted and the one due. -/
structure Noted (nodes : Array Node) (frames : List Frame) (names : List String) : Prop where
  sound : Sound nodes frames
  /-- A key whose value comes next stands in the innermost object. -/
  above : ∀ frame ∈ frames.head?, ∀ key, frame.expecting = .value (some key) →
    parent? nodes key.index = some frame.object
  bare : bareNames nodes nodes.size = names ++ dueNames frames

namespace Noted

variable {nodes : Array Node} {frame : Frame} {outer frames : List Frame} {names : List String}

theorem initial (line : Nat) : Noted (Reader.initial line).nodes (Reader.initial line).frames [] where
  sound := .initial line
  above := by simp [Reader.initial]
  bare := rfl

/-- Nothing is recorded, and from now on nothing is due. -/
theorem settle (noted : Noted nodes (frame :: outer) names) {frames : List Frame}
    (sound : Sound nodes frames) (free : NoneDue frames) :
    Noted nodes frames (names ++ frame.dueNames) where
  sound := sound
  above next head key due := absurd due (free next head key)
  bare := by rw [dueNames_eq_nil free, List.append_nil, noted.bare, dueNames]

theorem addKey (noted : Noted nodes (frame :: outer) names) (due : frame.expecting = .entry)
    {name : String} (line : Nat) (plain : isPlainName name = true) :
    Noted (addNode nodes (.key name) frame.object (min (frame.depth + 1) maxDepth) line)
      ({ frame with expecting := .value (some ⟨nodes.size, name⟩) } :: outer) names := by
  obtain ⟨_, found, isObject, _⟩ := noted.sound.path.1
  have inside := (Array.getElem?_eq_some_iff.mp found).1
  have bare := noted.bare
  simp only [dueNames, Frame.dueNames, due, List.append_nil] at bare
  constructor
  case sound => exact noted.sound.addKey line plain
  case above =>
    rintro _ ⟨⟩ _ ⟨⟩
    rw [parent?_addNode inside, if_pos rfl]
  case bare => rw [size_addNode, bareNames_addKey found isObject, bare, dueNames, Frame.dueNames]

theorem addObject (noted : Noted nodes (frame :: outer) names) {key : Key}
    (due : frame.expecting = .value (some key)) (line : Nat) :
    Noted (addNode nodes .object key.index (min (frame.depth + 1) maxDepth) line)
      (⟨nodes.size, min (frame.depth + 1) maxDepth, .entry⟩ ::
        { frame with expecting := .entry } :: outer) names := by
  obtain ⟨above, name, found, isKey, _, bare, last, _⟩ := noted.sound.pending frame rfl key due
  have link := noted.above frame rfl key due
  rw [parent?, found, Option.bind_some] at link
  -- The key is the last node. If it stands in the container, its name ends both sides.
  have before := noted.bare
  rw [bareNames_addObject found isKey bare last, dueNames, Frame.dueNames, due, link] at before
  simp only [Option.some.injEq] at before
  constructor
  case sound => exact noted.sound.addObject line due
  case above => rintro _ ⟨⟩ _ ⟨⟩
  case bare =>
    rw [size_addNode, dueNames, Frame.dueNames, List.append_nil]
    split at before
    next => exact (List.append_inj' before rfl).1
    next => simpa using before

/-- What is due is settled by every token that does not open an object value. -/
theorem change (noted : Noted nodes (frame :: outer) names) {token : Token} {named : Bool}
    (noObject : ∀ key, frame.expecting = .value (some key) → token.kind ≠ .leftBrace)
    {nodes' : Array Node} {frames : List Frame}
    (change : Change nodes frame outer token named nodes' frames) :
    Noted nodes' frames (names ++ frame.dueNames) := by
  have sound := noted.sound.change change
  rcases noted.sound.records change with
    ⟨rfl, free⟩ | ⟨name, due, _, _, plain, rfl, rfl⟩ | ⟨key, due, brace, _⟩
  · exact noted.settle sound free
  · rw [Frame.dueNames, due, List.append_nil]
    exact noted.addKey due token.line plain
  · exact absurd brace (noObject key due)

theorem step {reader : Reader} (noted : Noted reader.nodes reader.frames reader.plainNames)
    (token : Token) (named : Bool) :
    Noted (reader.step token named).nodes (reader.step token named).frames
      (reader.step token named).plainNames := by
  cases innermost : reader.frames with
  | nil =>
    rw [Reader.step_of_closed innermost]
    exact noted
  | cons frame outer =>
    rw [innermost] at noted
    -- A brace that opens the value is the one token that settles nothing and makes no note.
    by_cases opens : ∃ key, frame.expecting = .value (some key) ∧ token.kind = .leftBrace
    · obtain ⟨key, due, brace⟩ := opens
      have begins : reader.step token named = reader.beginObject frame outer key token.line := by
        simp only [Reader.step, innermost, due, brace]
      rw [begins]
      exact noted.addObject due token.line
    · have noObject : ∀ key, frame.expecting = .value (some key) → token.kind ≠ .leftBrace :=
        fun key due brace => opens ⟨key, due, brace⟩
      rw [Reader.plainNames_step innermost noObject]
      exact noted.change noObject (Reader.step_change innermost token named)

theorem run (line : Nat) (tokens : List Token) :
    Noted ((Reader.initial line).run tokens).nodes ((Reader.initial line).run tokens).frames
      ((Reader.initial line).run tokens).plainNames :=
  Reader.run_induction (fun reader => Noted reader.nodes reader.frames reader.plainNames)
    (fun _ token named noted => noted.step token named) tokens (initial line)

/-- When the container is closed, nothing is due. -/
theorem entries (noted : Noted nodes frames names) : ∃ keys groups due,
    Outline.Entries ⟨nodes⟩ keys groups (names ++ due) ∧ due.length ≤ 1 ∧
      (frames = [] → due = []) := by
  obtain ⟨keys, groups, entries⟩ := @Linked.entries_eq ⟨nodes⟩ noted.sound.linked
  refine ⟨keys, groups, dueNames frames, noted.bare ▸ entries, length_dueNames_le frames, ?_⟩
  rintro rfl
  rfl

end Noted

end Reading

end StyleAudit
