import StyleAudit.Proofs.Reading.Closing
import StyleAudit.Token.Lexer

/-! Where a container ends. A reader tracks nesting by the objects that it has open and by the
number of brackets in what it passes over. Together they agree with the brackets that the tokens
leave open, so the container ends at the brace that matches its first one. -/
namespace StyleAudit

open Token (Kind)

namespace Token

/-- The brackets still to be closed, innermost first, after a token of this kind. What closes
must be the bracket that is due. -/
def Kind.settle (due : List Kind) (kind : Kind) : Option (List Kind) :=
  match kind.closer? with
  | some closer => some (closer :: due)
  | none =>
    if kind.closes then
      match due with
      | [] => none
      | closer :: due => if kind = closer then some due else none
    else some due

/-- The brackets to be closed after some tokens, or `none` when brackets cross or one is closed
that was not opened. -/
def dueAfter (due : List Kind) (tokens : List Token) : Option (List Kind) :=
  tokens.foldlM (fun due token => token.kind.settle due) due

/-- The brackets of `inner` are closed again, and `close` is the brace right behind them. -/
structure Matching (body inner : List Token) (close : Token) : Prop where
  found : inner ++ [close] <+: body
  nested : dueAfter [] inner = some []
  brace : close.kind = .rightBrace

/-- Brackets are nested by kind up to the brace that closes one before the tokens, or up to the
end of the tokens when there is no such brace. -/
def NestedToMatch (body : List Token) : Prop :=
  (∃ due, dueAfter [] body = some due) ∨ ∃ inner close, Matching body inner close

variable {due after : List Kind} {kind : Kind} {token : Token} {tokens rest : List Token}

theorem dueAfter_cons : dueAfter due (token :: tokens) = some after ↔
    ∃ between, token.kind.settle due = some between ∧ dueAfter between tokens = some after := by
  rw [dueAfter, List.foldlM_cons]
  exact Option.bind_eq_some_iff

theorem dueAfter_append : dueAfter due (tokens ++ rest) = some after ↔
    ∃ between, dueAfter due tokens = some between ∧ dueAfter between rest = some after := by
  rw [dueAfter, List.foldlM_append]
  exact Option.bind_eq_some_iff

theorem settle_text {name : String} (text : kind.text? = some name) :
    kind.settle due = some due := by
  cases kind <;> first | rfl | cases text

end Token

namespace Reading

open Token (dueAfter)

theorem passOver_settles {kind : Kind} {brackets after : List Kind} {objects : Nat}
    (settled : kind.settle (brackets ++ List.replicate objects .rightBrace) = some after) :
    (∃ expecting inner, passOver brackets.length kind = some expecting ∧
      expecting.brackets = inner.length ∧ after = inner ++ List.replicate objects .rightBrace) ∨
    passOver brackets.length kind = none ∧ ∃ others, objects = others + 1 ∧
      after = List.replicate others .rightBrace := by
  cases kind
  case leftBrace | leftParen | leftBracket =>
    cases settled
    exact .inl ⟨_, _ :: brackets, rfl, rfl, rfl⟩
  case rightBrace =>
    cases brackets with
    | nil =>
      cases objects with
      | zero => cases settled
      | succ others =>
        cases settled
        exact .inr ⟨rfl, others, rfl, rfl⟩
    | cons closer brackets =>
      obtain ⟨_, rfl⟩ : Kind.rightBrace = closer ∧ brackets ++ _ = after := by
        simpa [Kind.settle, Kind.closer?, Kind.closes] using settled
      exact .inl ⟨_, brackets, rfl, rfl, rfl⟩
  case rightParen | rightBracket =>
    cases brackets with
    | nil => cases objects <;> cases settled
    | cons closer brackets =>
      obtain ⟨_, rfl⟩ : _ = closer ∧ brackets ++ _ = after := by
        simpa [Kind.settle, Kind.closer?, Kind.closes] using settled
      exact .inl ⟨_, brackets, rfl, rfl, rfl⟩
  case comma =>
    cases settled
    refine .inl ⟨_, brackets, rfl, ?_, rfl⟩
    split
    next none => simp [Expecting.brackets, none]
    next => rfl
  all_goals
    cases settled
    exact .inl ⟨_, brackets, rfl, rfl, rfl⟩

namespace Reader

/-- The reader is open, and these brackets are to be closed before the brace of its container. -/
def Owes (reader : Reader) (due : List Kind) : Prop :=
  ∃ frame outer brackets, reader.frames = frame :: outer ∧
    (∀ other ∈ outer, other.expecting = .entry) ∧
    brackets.length = frame.expecting.brackets ∧
    due = brackets ++ List.replicate outer.length .rightBrace

variable {reader : Reader} {due after : List Kind} {token : Token} {tokens rest : List Token}

theorem Owes.initial (line : Nat) : (Reader.initial line).Owes [] :=
  ⟨_, [], [], rfl, by simp, rfl, rfl⟩

theorem Owes.opened (owes : reader.Owes due) : reader.frames ≠ [] := by
  obtain ⟨frame, outer, _, frames, _⟩ := owes
  simp [frames]

theorem Owes.step (owes : reader.Owes due) (settled : token.kind.settle due = some after)
    (named : Bool) : (reader.step token named).Owes after := by
  obtain ⟨frame, outer, brackets, frames, entries, count, rfl⟩ := owes
  have change := step_change frames token named
  unfold Owes
  generalize (reader.step token named).nodes = nodes at change
  generalize (reader.step token named).frames = frames' at change ⊢
  cases change with
  | separator due comma =>
    rw [comma] at settled
    cases settled
    exact ⟨frame, outer, brackets, rfl, entries, count, rfl⟩
  | pass passed =>
    rw [← count] at passed
    rcases passOver_settles settled with ⟨expecting, inner, same, open', rfl⟩ | ⟨none, _⟩
    · obtain rfl := Option.some.inj (same.symm.trans passed)
      exact ⟨_, outer, inner, rfl, entries, open'.symm, rfl⟩
    · rw [none] at passed
      cases passed
  | close passed =>
    rw [← count] at passed
    rcases passOver_settles settled with ⟨expecting, inner, same, _⟩ | ⟨_, others, more, rfl⟩
    · rw [same] at passed
      cases passed
    · obtain ⟨next, outer, rfl⟩ := List.exists_cons_of_length_eq_add_one more
      obtain rfl : outer.length = others := by simpa using more
      obtain ⟨due, entries⟩ := List.forall_mem_cons.mp entries
      exact ⟨next, outer, [], rfl, entries, by rw [due]; rfl, rfl⟩
  | unnamed due _ text _ | key due _ text _ =>
    rw [Token.settle_text text] at settled
    cases settled
    rw [due] at count
    exact ⟨_, outer, brackets, rfl, entries, count, rfl⟩
  | object due brace =>
    rw [brace] at settled
    cases settled
    obtain rfl : brackets = [] := by
      rw [due] at count
      exact List.length_eq_zero_iff.mp count
    refine ⟨_, _, [], rfl, ?_, rfl, rfl⟩
    exact List.forall_mem_cons.mpr ⟨rfl, entries⟩

theorem Owes.run (owes : reader.Owes due) (settled : dueAfter due tokens = some after) :
    (reader.run tokens).Owes after := by
  fun_induction Reader.run reader tokens generalizing due with
  | case1 =>
    cases settled
    exact owes
  | case2 reader token =>
    obtain ⟨between, first, last⟩ := Token.dueAfter_cons.mp settled
    cases last
    exact owes.step first false
  | case3 reader token next rest taken ih =>
    obtain ⟨between, first, settled⟩ := Token.dueAfter_cons.mp settled
    obtain ⟨same, colon, settled⟩ := Token.dueAfter_cons.mp settled
    rw [taken.1] at colon
    cases colon
    exact ih (owes.step first true) settled
  | case4 reader token next rest _ ih =>
    obtain ⟨between, first, settled⟩ := Token.dueAfter_cons.mp settled
    exact ih (owes.step first false) settled

theorem Owes.closes (owes : reader.Owes []) (isBrace : token.kind = .rightBrace) (named : Bool) :
    (reader.step token named).frames = [] := by
  obtain ⟨frame, outer, brackets, frames, _, count, none⟩ := owes
  obtain ⟨rfl, last⟩ := List.append_eq_nil_iff.mp none.symm
  obtain rfl : outer = [] := by simpa using last
  exact step_close frames isBrace count.symm named

theorem run_append (apart : ∀ first ∈ rest.head?, first.kind ≠ .colon) :
    reader.run (tokens ++ rest) = (reader.run tokens).run rest := by
  fun_induction run reader tokens with
  | case1 => rfl
  | case2 reader token => exact run_cons (.inr apart)
  | case3 reader token next tokens taken ih =>
    rw [List.cons_append, List.cons_append, run, if_pos taken, ih]
  | case4 reader token next tokens other ih =>
    rw [List.cons_append, List.cons_append, run, if_neg other, ← List.cons_append, ih]

theorem run_append_of_closed (opened : reader.frames ≠ [])
    (closed : (reader.run tokens).frames = []) (others : List Token) :
    reader.run (tokens ++ others) = reader.run tokens := by
  obtain ⟨read, brace, rest, rfl, _, same⟩ := run_closes tokens opened closed
  rw [List.append_assoc, List.cons_append, same]

end Reader

open Token (Matching NestedToMatch)

variable {brace close : Token} {body inner tokens : List Token} {due : List Kind}

theorem ofTokens_append {outline : Outline} (closed : (ofTokens tokens).outline = some outline)
    (others : List Token) : ofTokens (tokens ++ others) = ofTokens tokens := by
  obtain ⟨line, rest, rfl, closed, _⟩ := outline_eq_some.mp closed
  have opened : (Reader.initial line).frames ≠ [] := (Reader.Owes.initial line).opened
  have same := Reader.run_append_of_closed opened closed others
  simp only [ofTokens, List.cons_append, same]

theorem outline_eq_none (nested : dueAfter [] body = some due) :
    (ofTokens (brace :: body)).outline = none := by
  cases outlined : (ofTokens (brace :: body)).outline with
  | none => rfl
  | some outline =>
    obtain ⟨line, rest, same, closed, _⟩ := outline_eq_some.mp outlined
    obtain ⟨_, rfl⟩ := List.cons.inj same
    exact absurd closed ((Reader.Owes.initial line).run nested).opened

theorem exists_outline (isBrace : brace.kind = .leftBrace) (nested : dueAfter [] inner = some [])
    (closing : close.kind = .rightBrace) :
    ∃ outline, (ofTokens (brace :: (inner ++ [close]))).outline = some outline := by
  obtain ⟨kind, line⟩ := brace
  obtain rfl : kind = .leftBrace := isBrace
  have closed : ((Reader.initial line).run (inner ++ [close])).frames = [] := by
    rw [Reader.run_append (by simp [closing])]
    exact ((Reader.Owes.initial line).run nested).closes closing false
  exact ⟨_, outline_eq_some.mpr ⟨line, _, rfl, closed, rfl⟩⟩

/-- A container whose brackets are nested has an outline exactly if its brace has a match, and
then the tokens up to the match and no fewer have that outline. Nested or not, what follows the
tokens of an outline does not change it. -/
theorem ofTokens_matching :
    (∀ brace body, brace.kind = .leftBrace → NestedToMatch body →
      ((∃ outline, (ofTokens (brace :: body)).outline = some outline) ↔
        ∃ inner close, Matching body inner close) ∧
      ∀ inner close, Matching body inner close →
        ofTokens (brace :: body) = ofTokens (brace :: (inner ++ [close])) ∧
        ∀ shorter, shorter <+: brace :: body → shorter.length < (brace :: (inner ++ [close])).length →
          (ofTokens shorter).outline = none) ∧
    ∀ tokens others outline, (ofTokens tokens).outline = some outline →
      ofTokens (tokens ++ others) = ofTokens tokens := by
  refine ⟨fun brace body isBrace nested => ⟨⟨?_, ?_⟩, ?_⟩,
    fun tokens others outline closed => ofTokens_append closed others⟩
  · rintro ⟨outline, outlined⟩
    rcases nested with ⟨due, nested⟩ | found
    · rw [outline_eq_none nested] at outlined
      cases outlined
    · exact found
  · rintro ⟨inner, close, ⟨rest, rfl⟩, settled, closing⟩
    obtain ⟨outline, outlined⟩ := exists_outline isBrace settled closing
    exact ⟨outline, by rw [← List.cons_append, ofTokens_append outlined, outlined]⟩
  · rintro inner close ⟨⟨rest, rfl⟩, settled, closing⟩
    obtain ⟨outline, outlined⟩ := exists_outline isBrace settled closing
    refine ⟨by rw [← List.cons_append, ofTokens_append outlined], fun shorter first short => ?_⟩
    have within : shorter <+: brace :: inner := by
      refine List.prefix_of_prefix_length_le first ⟨close :: rest, by simp⟩ ?_
      simp at short ⊢
      omega
    cases shorter with
    | nil => rfl
    | cons first shorter =>
      obtain ⟨_, others, rfl⟩ := List.cons_prefix_cons.mp within
      obtain ⟨due, settled, _⟩ := Token.dueAfter_append.mp settled
      exact outline_eq_none settled

/-- Brackets in a value, in a computed key and in a shorthand entry, the last of them right before
the brace that ends the container. -/
def tangled : List Token :=
  Token.ofText "a: f([\x7bx: 1\x7d], y),, [k]: (,), b: \x7b c: \x7b\x7d : \x7d g(\x7b:\x7d)" 1

theorem ofTokens_matching_tangled :
    Matching (tangled ++ ⟨.rightBrace, 2⟩ :: ⟨.colon, 2⟩ :: tangled) tangled ⟨.rightBrace, 2⟩ ∧
    (∃ outline, (ofTokens (⟨.leftBrace, 1⟩ ::
      (tangled ++ ⟨.rightBrace, 2⟩ :: ⟨.colon, 2⟩ :: tangled))).outline = some outline) ∧
    ofTokens (⟨.leftBrace, 1⟩ :: (tangled ++ ⟨.rightBrace, 2⟩ :: ⟨.colon, 2⟩ :: tangled)) =
      ofTokens (⟨.leftBrace, 1⟩ :: (tangled ++ [⟨.rightBrace, 2⟩])) ∧
    (ofTokens (⟨.leftBrace, 1⟩ :: tangled)).outline = none ∧
    ofTokens ([⟨.leftBrace, 1⟩, ⟨.rightParen, 1⟩, ⟨.rightBrace, 1⟩] ++ tangled) =
      ofTokens [⟨.leftBrace, 1⟩, ⟨.rightParen, 1⟩, ⟨.rightBrace, 1⟩] := by
  have matching : Matching (tangled ++ ⟨.rightBrace, 2⟩ :: ⟨.colon, 2⟩ :: tangled) tangled
      ⟨.rightBrace, 2⟩ := ⟨⟨⟨.colon, 2⟩ :: tangled, by simp⟩, by decide, rfl⟩
  obtain ⟨closes, same⟩ := ofTokens_matching.1 ⟨.leftBrace, 1⟩ _ rfl (.inr ⟨_, _, matching⟩)
  obtain ⟨same, shorter⟩ := same _ _ matching
  have crossed : (ofTokens [⟨.leftBrace, 1⟩, ⟨.rightParen, 1⟩, ⟨.rightBrace, 1⟩]).outline =
      some ⟨#[⟨.object, none, #[], 0, 1⟩]⟩ := by decide
  exact ⟨matching, closes.mpr ⟨_, _, matching⟩, same,
    shorter _ ⟨⟨.rightBrace, 2⟩ :: ⟨.colon, 2⟩ :: tangled, by simp⟩ (by simp),
    ofTokens_matching.2 _ tangled _ crossed⟩

end Reading

end StyleAudit
