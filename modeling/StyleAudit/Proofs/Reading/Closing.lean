import StyleAudit.Proofs.Reading.Passing
import StyleAudit.Proofs.Reading.Step

/-! Where a reader closes. Only a brace leaves the last open object, and reading has then seen
all that it will ever depend on. -/
namespace StyleAudit.Reading

namespace Reader

variable {reader : Reader} {token : Token} {named : Bool}

theorem closing_brace (opened : reader.frames ≠ [])
    (closed : (reader.step token named).frames = []) : token.kind = .rightBrace := by
  obtain ⟨frame, outer, innermost⟩ := List.exists_cons_of_ne_nil opened
  have change := step_change innermost token named
  generalize (reader.step token named).nodes = nodes at change
  rw [closed] at change
  cases change with
  | close passed => exact (passOver_eq_none.mp passed).1

theorem step_brace (isBrace : token.kind = .rightBrace) (named : Bool) :
    reader.step token named = reader.step token false := by
  obtain ⟨kind, line⟩ := token
  obtain rfl : kind = .rightBrace := isBrace
  obtain ⟨nodes, frames, plain⟩ := reader
  cases frames with
  | nil => rfl
  | cons frame outer =>
    obtain ⟨object, depth, expecting⟩ := frame
    rcases expecting with _ | (_ | key) | brackets <;> rfl

theorem run_closing (opened : reader.frames ≠ [])
    (closed : (reader.step token named).frames = []) (rest : List Token) :
    reader.run (token :: rest) = reader.step token named := by
  -- A brace names no entry, so a colon that it takes along makes no difference.
  have same : ∀ either, reader.step token either = reader.step token named := fun either => by
    rw [step_brace (closing_brace opened closed) either,
      step_brace (closing_brace opened closed) named]
  cases rest with
  | nil => exact same false
  | cons next rest =>
    rw [run]
    split
    · rw [same, run_of_closed closed]
    · rw [same, run_of_closed closed]

/-- The run depends on the tokens up to the closing brace, which end in that brace. -/
theorem run_closes (tokens : List Token) (opened : reader.frames ≠ [])
    (closed : (reader.run tokens).frames = []) : ∃ read brace rest,
      tokens = read ++ brace :: rest ∧ brace.kind = .rightBrace ∧
        ∀ others, reader.run (read ++ brace :: others) = reader.run tokens := by
  fun_induction run reader tokens with
  | case1 reader => exact absurd closed opened
  | case2 reader token =>
    exact ⟨[], token, [], rfl, closing_brace opened closed, run_closing opened closed⟩
  | case3 reader token next rest taken ih =>
    by_cases here : (reader.step token true).frames = []
    · refine ⟨[], token, next :: rest, rfl, closing_brace opened here, fun others => ?_⟩
      rw [List.nil_append, run_closing opened here, run_of_closed here]
    · obtain ⟨read, brace, after, rfl, isBrace, same⟩ := ih here closed
      refine ⟨token :: next :: read, brace, after, rfl, isBrace, fun others => ?_⟩
      rw [List.cons_append, List.cons_append, run, if_pos taken, same]
  | case4 reader token next rest apart ih =>
    by_cases here : (reader.step token false).frames = []
    · refine ⟨[], token, next :: rest, rfl, closing_brace opened here, fun others => ?_⟩
      rw [List.nil_append, run_closing opened here, run_of_closed here]
    · obtain ⟨read, brace, after, tokens, isBrace, same⟩ := ih here closed
      have longer : token :: next :: rest = token :: read ++ brace :: after := by
        rw [tokens, List.cons_append]
      refine ⟨token :: read, brace, after, longer, isBrace, fun others => ?_⟩
      -- What follows the token is what followed it before, or the brace.
      have first : reader.expectsEntry = false ∨
          ∀ first ∈ (read ++ brace :: others).head?, first.kind ≠ .colon := by
        cases read with
        | nil => exact .inr fun first member => by simp [← Option.some.inj member, isBrace]
        | cons first read =>
          obtain ⟨rfl, _⟩ := List.cons.inj tokens
          by_cases due : reader.expectsEntry = true
          · exact .inr fun first member colon => apart ⟨Option.some.inj member ▸ colon, due⟩
          · exact .inl (Bool.eq_false_iff.mpr due)
      rw [List.cons_append, run_cons first, same]

end Reader

theorem outline_closes {brace : Token} {body : List Token} {outline : Outline}
    (closed : (ofTokens (brace :: body)).outline = some outline) : ∃ read close rest,
      body = read ++ close :: rest ∧ close.kind = .rightBrace ∧
        ∀ others, (ofTokens (brace :: (read ++ close :: others))).outline = some outline := by
  obtain ⟨line, _, same, closing, rfl⟩ := outline_eq_some.mp closed
  obtain ⟨rfl, rfl⟩ := List.cons.inj same
  have opened : (Reader.initial line).frames ≠ [] := by simp [Reader.initial]
  obtain ⟨read, close, rest, tokens, isBrace, again⟩ := Reader.run_closes body opened closing
  refine ⟨read, close, rest, tokens, isBrace, fun others => ?_⟩
  refine outline_eq_some.mpr ⟨line, read ++ close :: others, rfl, ?_⟩
  rw [again]
  exact ⟨closing, rfl⟩

end StyleAudit.Reading
