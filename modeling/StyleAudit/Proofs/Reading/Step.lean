import StyleAudit.Outline.Reading

/-! What one token does to a reader, once for all later arguments: the nodes and the open
objects before and after it. The notes on plain entries are left out, since no node or
object depends on them. -/
namespace StyleAudit.Reading

open Token (Kind)

def Expecting.brackets : Expecting → Nat
  | .ending brackets => brackets
  | _ => 0

/-- The changes that a token can make inside the innermost object. -/
inductive Change (nodes : Array Node) (frame : Frame) (outer : List Frame) (token : Token)
    (named : Bool) : Array Node → List Frame → Prop where
  /-- A separator is read where an entry is due. -/
  | separator : frame.expecting = .entry → token.kind = .comma →
      Change nodes frame outer token named nodes (frame :: outer)
  /-- Something is passed over, up to a comma or within brackets. -/
  | pass : passOver frame.expecting.brackets token.kind = some expecting →
      Change nodes frame outer token named nodes ({ frame with expecting } :: outer)
  | close : passOver frame.expecting.brackets token.kind = none →
      Change nodes frame outer token named nodes outer
  /-- An entry begins whose name is not recorded. -/
  | unnamed : frame.expecting = .entry → named = true → token.kind.text? = some name →
      isPlainName name = false →
      Change nodes frame outer token named nodes
        ({ frame with expecting := .value none } :: outer)
  | key : frame.expecting = .entry → named = true → token.kind.text? = some name →
      isPlainName name = true →
      Change nodes frame outer token named
        (Reader.addNode nodes (.key name) frame.object (min (frame.depth + 1) maxDepth) token.line)
        ({ frame with expecting := .value (some ⟨nodes.size, name⟩) } :: outer)
  | object : frame.expecting = .value (some key) → token.kind = .leftBrace →
      Change nodes frame outer token named
        (Reader.addNode nodes .object key.index (min (frame.depth + 1) maxDepth) token.line)
        (⟨nodes.size, min (frame.depth + 1) maxDepth, .entry⟩ ::
          { frame with expecting := .entry } :: outer)

theorem passOver_eq_none {brackets : Nat} {kind : Kind} :
    passOver brackets kind = none ↔ kind = .rightBrace ∧ brackets = 0 := by
  cases kind <;> simp [passOver]

theorem passOver_ne_value {brackets : Nat} {kind : Kind} {key : Option Key} :
    passOver brackets kind ≠ some (.value key) := by
  cases kind <;> simp only [passOver] <;> (try split) <;> simp

namespace Reader

theorem proceed_change {reader : Reader} {frame : Frame} {outer : List Frame} (token : Token)
    (named : Bool) {brackets : Nat} (inside : frame.expecting.brackets = brackets) :
    Change reader.nodes frame outer token named
      (reader.proceed frame outer (passOver brackets token.kind)).nodes
      (reader.proceed frame outer (passOver brackets token.kind)).frames := by
  subst inside
  cases passed : passOver frame.expecting.brackets token.kind with
  | none => exact .close passed
  | some expecting => exact .pass passed

theorem beginEntry_change {reader : Reader} {frame : Frame} {outer : List Frame} {token : Token}
    {name : String} (due : frame.expecting = .entry) (text : token.kind.text? = some name) :
    Change reader.nodes frame outer token true
      (reader.beginEntry frame outer name token.line).nodes
      (reader.beginEntry frame outer name token.line).frames := by
  unfold beginEntry
  split
  next plain => exact .key due rfl text plain
  next other => exact .unnamed due rfl text (Bool.eq_false_iff.mpr other)

theorem notePlain_nodes (reader : Reader) (frame : Frame) (key : Key) (line : Nat) :
    (reader.notePlain frame key line).nodes = reader.nodes := by
  unfold notePlain
  split <;> rfl

theorem step_change {reader : Reader} {frame : Frame} {outer : List Frame}
    (innermost : reader.frames = frame :: outer) (token : Token) (named : Bool) :
    Change reader.nodes frame outer token named (reader.step token named).nodes
      (reader.step token named).frames := by
  unfold step
  simp only [innermost]
  split
  next due =>
    have flat : frame.expecting.brackets = 0 := by rw [due]; rfl
    split
    next brace => exact .close (by rw [brace, flat]; rfl)
    next comma => rw [innermost]; exact .separator due comma
    next =>
      split
      next name text => exact beginEntry_change due text
      next => exact proceed_change token _ flat
  next key due =>
    have flat : frame.expecting.brackets = 0 := by rw [due]; rfl
    split
    next brace => exact .object due brace
    next =>
      rw [← notePlain_nodes reader frame key token.line]
      exact proceed_change token named flat
  next due => exact proceed_change token named (by rw [due]; rfl)
  next brackets due => exact proceed_change token named (by rw [due]; rfl)

/-- A brace outside all brackets leaves the innermost object, whatever is expected there. -/
theorem step_close {reader : Reader} {frame : Frame} {outer : List Frame}
    (innermost : reader.frames = frame :: outer) {token : Token}
    (isBrace : token.kind = .rightBrace) (flat : frame.expecting.brackets = 0) (named : Bool) :
    (reader.step token named).frames = outer := by
  have closing : passOver frame.expecting.brackets token.kind = none :=
    passOver_eq_none.mpr ⟨isBrace, flat⟩
  have change := step_change innermost token named
  generalize (reader.step token named).nodes = nodes at change
  generalize (reader.step token named).frames = frames at change ⊢
  cases change with
  | close => rfl
  | separator _ comma => simp [isBrace] at comma
  | pass passed => simp [closing] at passed
  | unnamed _ _ text _ | key _ _ text _ => simp [isBrace, Kind.text?] at text
  | object _ brace => simp [isBrace] at brace

/-- What every token preserves at its place holds after a run. A token that takes a colon along
takes up two places. -/
theorem run_induction_from {tokens : List Token} (property : Nat → Reader → Prop)
    (preserved : ∀ place reader token named, property place reader → tokens[place]? = some token →
      (named = true → ∃ colon, tokens[place + 1]? = some colon ∧ colon.kind = .colon) →
      property (place + if named then 2 else 1) (reader.step token named))
    {reader : Reader} {place : Nat} {rest : List Token} (left : tokens.drop place = rest)
    (initial : property place reader) : ∃ last, property last (reader.run rest) := by
  have here {token : Token} {rest : List Token} {place : Nat}
      (left : tokens.drop place = token :: rest) :
      tokens[place]? = some token ∧ tokens.drop (place + 1) = rest := by
    rw [← List.tail_drop, left, ← List.head?_drop, left]
    exact ⟨rfl, rfl⟩
  fun_induction run reader rest generalizing place with
  | case1 => exact ⟨place, initial⟩
  | case2 reader token =>
    exact ⟨_, preserved place reader token false initial (here left).1 (by simp)⟩
  | case3 reader token next rest due ih =>
    obtain ⟨atToken, later⟩ := here left
    obtain ⟨atColon, later⟩ := here later
    exact ih later (preserved place reader token true initial atToken fun _ =>
      ⟨next, atColon, due.1⟩)
  | case4 reader token next rest _ ih =>
    obtain ⟨atToken, later⟩ := here left
    exact ih later (preserved place reader token false initial atToken (by simp))

theorem run_induction (property : Reader → Prop)
    (preserved : ∀ reader token named, property reader → property (reader.step token named))
    {reader : Reader} (tokens : List Token) (initial : property reader) :
    property (reader.run tokens) := by
  have whole : tokens.drop 0 = tokens := rfl
  obtain ⟨_, holds⟩ := run_induction_from (fun _ => property)
    (fun _ reader token named holds _ _ => preserved reader token named holds) whole initial
  exact holds

end Reader

theorem outline_eq_some {tokens : List Token} {outline : Outline} :
    (ofTokens tokens).outline = some outline ↔ ∃ line rest, tokens = ⟨.leftBrace, line⟩ :: rest ∧
      ((Reader.initial line).run rest).frames = [] ∧
      outline = ⟨((Reader.initial line).run rest).nodes⟩ := by
  unfold ofTokens
  split
  next line rest =>
    simp only [Reader.closed, List.isEmpty_iff, Option.ite_none_right_eq_some, Option.some.injEq]
    constructor
    · rintro ⟨closed, rfl⟩
      exact ⟨line, rest, rfl, closed, rfl⟩
    · rintro ⟨_, _, same, closed, rfl⟩
      obtain ⟨brace, rfl⟩ := List.cons.inj same
      cases brace
      exact ⟨closed, rfl⟩
  next other =>
    refine ⟨fun impossible => (nomatch impossible), ?_⟩
    rintro ⟨line, rest, rfl, _⟩
    exact absurd rfl (other line rest)

end StyleAudit.Reading
