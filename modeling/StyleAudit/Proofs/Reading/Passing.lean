import StyleAudit.Proofs.Literal.Syntax

/-! Passing over. Whatever the state in which a reader meets the first token of a passage, it
goes on as if it had been passing over all along, and a passage with nested brackets brings it
back to where it was. -/
namespace StyleAudit.Reading.Reader

open Token (isNested beginsKey)

variable {nodes : Array Node} {object depth : Nat} {outer : List Frame} {plain : Array PlainEntry}

theorem run_cons {reader : Reader} {token : Token} {tokens : List Token}
    (apart : reader.expectsEntry = false ∨ ∀ next ∈ tokens.head?, next.kind ≠ .colon) :
    reader.run (token :: tokens) = (reader.step token false).run tokens := by
  cases tokens with
  | nil => rfl
  | cons next rest =>
    rw [run, if_neg]
    rintro ⟨colon, due⟩
    rcases apart with passing | other
    · simp [passing] at due
    · exact other next rfl colon

theorem run_colon {reader : Reader} (due : reader.expectsEntry = true) (token colon : Token)
    (isColon : colon.kind = .colon) (tokens : List Token) :
    reader.run (token :: colon :: tokens) = (reader.step token true).run tokens := by
  rw [run, if_pos ⟨isColon, due⟩]

theorem run_ending {brackets : Nat} {token : Token} {tokens : List Token} :
    run ⟨nodes, ⟨object, depth, .ending brackets⟩ :: outer, plain⟩ (token :: tokens) =
      run (proceed ⟨nodes, ⟨object, depth, .ending brackets⟩ :: outer, plain⟩
        ⟨object, depth, .ending brackets⟩ outer (passOver brackets token.kind)) tokens :=
  run_cons (.inl rfl)

theorem run_idle {brackets : Nat} {token : Token} {tokens : List Token}
    (idle : passOver brackets token.kind = some (.ending brackets)) :
    run ⟨nodes, ⟨object, depth, .ending brackets⟩ :: outer, plain⟩ (token :: tokens) =
      run ⟨nodes, ⟨object, depth, .ending brackets⟩ :: outer, plain⟩ tokens := by
  rw [run_ending, idle]
  rfl

theorem passOver_text {brackets : Nat} {kind : Token.Kind} {name : String}
    (text : kind.text? = some name) : passOver brackets kind = some (.ending brackets) := by
  cases kind <;> cases text <;> rfl

/-- Counting brackets keeps up with brackets that are nested by kind. -/
theorem passOver_of_nested {due : List Token.Kind} {token : Token} {tokens : List Token}
    (nested : isNested due (token :: tokens) = true) :
    ∃ after : List Token.Kind, passOver due.length token.kind = some (.ending after.length) ∧
      isNested after tokens = true := by
  obtain ⟨kind, line⟩ := token
  cases kind
  case leftBrace | leftParen | leftBracket => exact ⟨_, rfl, nested⟩
  case rightBrace | rightParen | rightBracket =>
    cases due with
    | nil => simp [isNested, Token.Kind.closer?, Token.Kind.closes] at nested
    | cons closer due =>
      simp [isNested, Token.Kind.closer?, Token.Kind.closes] at nested
      exact ⟨due, rfl, nested.2⟩
  case comma =>
    cases due with
    | nil => simp [isNested, Token.Kind.closer?, Token.Kind.closes] at nested
    | cons closer due =>
      simp [isNested, Token.Kind.closer?, Token.Kind.closes] at nested
      exact ⟨closer :: due, rfl, nested⟩
  all_goals
    simp [isNested, Token.Kind.closer?, Token.Kind.closes] at nested
    exact ⟨due, rfl, nested⟩

theorem run_nested (due : List Token.Kind) {tokens : List Token} (rest : List Token)
    (nested : isNested due tokens = true) :
    run ⟨nodes, ⟨object, depth, .ending due.length⟩ :: outer, plain⟩ (tokens ++ rest) =
      run ⟨nodes, ⟨object, depth, .ending 0⟩ :: outer, plain⟩ rest := by
  induction tokens generalizing due with
  | nil =>
    simp only [isNested, List.isEmpty_iff] at nested
    rw [nested]
    rfl
  | cons token tokens ih =>
    obtain ⟨after, passed, nested⟩ := passOver_of_nested nested
    rw [List.cons_append, run_ending, passed]
    exact ih after nested

/-- Going on forgets what was expected. -/
theorem proceed_from (before after : Expecting) (next : Option Expecting) :
    proceed ⟨nodes, ⟨object, depth, before⟩ :: outer, plain⟩ ⟨object, depth, before⟩ outer next =
      proceed ⟨nodes, ⟨object, depth, after⟩ :: outer, plain⟩ ⟨object, depth, after⟩ outer next := by
  cases next <;> rfl

/-- The value of an entry is passed over, unless it is an object and the entry is recorded. -/
theorem run_value {key : Option Key} {token : Token} {tokens : List Token}
    (noObject : key.isSome = true → token.kind ≠ .leftBrace) :
    ∃ plain', run ⟨nodes, ⟨object, depth, .value key⟩ :: outer, plain⟩ (token :: tokens) =
      run ⟨nodes, ⟨object, depth, .ending 0⟩ :: outer, plain'⟩ (token :: tokens) := by
  rw [run_cons (.inl rfl)]
  cases key with
  | none =>
    refine ⟨plain, ?_⟩
    rw [run_ending]
    exact congrArg (run · tokens) (proceed_from (.value none) (.ending 0) _)
  | some key =>
    refine ⟨(notePlain ⟨nodes, [], plain⟩ ⟨object, depth, .value (some key)⟩ key
      token.line).plain, ?_⟩
    rw [run_ending]
    simp only [step]
    split
    next brace => exact absurd brace (noObject rfl)
    next =>
      simp only [notePlain]
      split <;> exact congrArg (run · tokens) (proceed_from (.value (some key)) (.ending 0) _)

theorem step_entry {token : Token} (named : Bool) (noComma : token.kind ≠ .comma)
    (noName : named = true → token.kind.text? = none) :
    step ⟨nodes, ⟨object, depth, .entry⟩ :: outer, plain⟩ token named =
      proceed ⟨nodes, ⟨object, depth, .ending 0⟩ :: outer, plain⟩ ⟨object, depth, .ending 0⟩ outer
        (passOver 0 token.kind) := by
  simp only [step]
  split
  next brace =>
    rw [brace]
    rfl
  next comma => exact absurd comma noComma
  next =>
    split
    next name text => simp [noName] at text
    next => exact proceed_from .entry (.ending 0) _

theorem step_unrecorded {token : Token} {name : String} (text : token.kind.text? = some name)
    (other : isPlainName name = false) :
    step ⟨nodes, ⟨object, depth, .entry⟩ :: outer, plain⟩ token true =
      ⟨nodes, ⟨object, depth, .value none⟩ :: outer, plain⟩ := by
  obtain ⟨kind, line⟩ := token
  cases kind <;> cases text <;> simp [step, Token.Kind.text?, beginEntry, other, proceed]

/-- So is an entry whose name is not recorded. -/
theorem run_unrecorded {token colon : Token} {name : String} {tokens : List Token}
    (text : token.kind.text? = some name) (other : isPlainName name = false)
    (isColon : colon.kind = .colon) (more : tokens ≠ []) :
    ∃ plain',
      run ⟨nodes, ⟨object, depth, .entry⟩ :: outer, plain⟩ (token :: colon :: tokens) =
        run ⟨nodes, ⟨object, depth, .ending 0⟩ :: outer, plain'⟩ (token :: colon :: tokens) := by
  have idle : passOver 0 colon.kind = some (.ending 0) := by
    rw [isColon]
    rfl
  obtain ⟨second, others, rfl⟩ := List.exists_cons_of_ne_nil more
  obtain ⟨plain', same⟩ : ∃ plain',
      run ⟨nodes, ⟨object, depth, .value none⟩ :: outer, plain⟩ (second :: others) =
        run ⟨nodes, ⟨object, depth, .ending 0⟩ :: outer, plain'⟩ (second :: others) :=
    run_value (by simp)
  refine ⟨plain', ?_⟩
  rw [run_colon rfl _ _ isColon, step_unrecorded text other, same, run_idle (passOver_text text),
    run_idle idle]

/-- So is an entry that does not begin with a key. A colon after its first token is taken with
that token, which makes no difference. -/
theorem run_entry {first last : Token} {passage : List Token} (rest : List Token)
    (nested : isNested [] (first :: passage) = true) (noKey : beginsKey (first :: passage) = false)
    (noColon : last.kind ≠ .colon) :
    ∃ plain',
      run ⟨nodes, ⟨object, depth, .entry⟩ :: outer, plain⟩ (first :: (passage ++ last :: rest)) =
        run ⟨nodes, ⟨object, depth, .ending 0⟩ :: outer, plain'⟩
          (first :: (passage ++ last :: rest)) := by
  obtain ⟨after, passed, _⟩ := passOver_of_nested nested
  rw [List.length_nil] at passed
  have noComma : first.kind ≠ .comma := by
    intro comma
    simp [comma, passOver] at passed
  have alone (others : List Token) (apart : ∀ next ∈ others.head?, next.kind ≠ .colon) :
      run ⟨nodes, ⟨object, depth, .entry⟩ :: outer, plain⟩ (first :: others) =
        run ⟨nodes, ⟨object, depth, .ending 0⟩ :: outer, plain⟩ (first :: others) := by
    rw [run_cons (.inr apart), run_ending, step_entry false noComma (by simp)]
  cases passage with
  | nil => exact ⟨plain, alone _ (by simpa using noColon)⟩
  | cons next passage =>
    by_cases colon : next.kind = .colon
    · cases text : first.kind.text? with
      | none =>
        refine ⟨plain, ?_⟩
        rw [List.cons_append, run_colon rfl _ _ colon, step_entry true noComma fun _ => text,
          run_ending, passed]
        exact (run_idle (by rw [colon]; rfl)).symm
      | some name =>
        have other : isPlainName name = false := by
          simpa [beginsKey, text, colon] using noKey
        exact run_unrecorded text other colon (by simp)
    · exact ⟨plain, alone _ (by simpa using colon)⟩

end StyleAudit.Reading.Reader
