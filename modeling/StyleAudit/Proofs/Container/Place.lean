import StyleAudit.Proofs.Container.Replace

/-! Calls by their places in a token list. The container that is located belongs to the first
place where a call begins, and no call that begins later has its brace earlier: between the
marker of a call and its brace there is no other brace. -/
namespace StyleAudit.Container

open Token (Kind)

/-- A call of the marker begins at `start`, and the brace of its container is at `brace`. -/
def CallAt (marker : List Kind) (tokens : List Token) (start brace : Nat) : Prop :=
  ∃ container, Calls marker (tokens.drop start) container ∧ tokens.drop brace = container.tokens

variable {marker : List Kind} {tokens : List Token} {start brace : Nat} {container : Container}

instance : Decidable (CallAt marker tokens start brace) :=
  decidable_of_iff
    (∃ container ∈ ofCall? marker (tokens.drop start), tokens.drop brace = container.tokens) (by
      simp only [CallAt, Option.mem_def, ofCall?_eq_some])

theorem drop_index (suffix : container.tokens <:+ tokens) :
    tokens.drop (container.index tokens) = container.tokens :=
  (List.suffix_iff_eq_drop.mp suffix).symm

theorem Calls.suffix (calls : Calls marker tokens container) : container.tokens <:+ tokens := by
  obtain ⟨call, arguments, paren, rfl, _⟩ := calls
  exact ⟨call ++ (arguments ++ [paren]), by simp⟩

theorem Calls.callAt (calls : Calls marker (tokens.drop start) container) :
    CallAt marker tokens start (container.index tokens) :=
  ⟨container, calls, drop_index (calls.suffix.trans (List.drop_suffix start tokens))⟩

theorem CallAt.between (call : CallAt marker tokens start brace) :
    start + marker.length < brace ∧
      (∃ token, tokens[brace]? = some token ∧ token.kind = .leftBrace) ∧
      ∀ i token, start + marker.length ≤ i → i < brace → tokens[i]? = some token →
        token.kind ≠ .leftBrace := by
  obtain ⟨container, ⟨called, arguments, paren, same, kinds, generic, isParen, isBrace⟩, rest⟩ :=
    call
  have same : tokens.drop start = called ++ ((arguments ++ [paren]) ++ container.tokens) := by
    simpa using same
  have lengths := congrArg List.length same
  have remaining := congrArg List.length rest
  have length : called.length = marker.length := by rw [← kinds, List.length_map]
  simp only [List.length_drop, List.length_append, List.length_cons, List.length_nil,
    Container.tokens] at lengths remaining
  refine ⟨by omega, ⟨container.brace, ?_, isBrace⟩, fun i token behind before found brace => ?_⟩
  · rw [← List.head?_drop, rest]
    rfl
  · -- The place is one of those of the type arguments and the parenthesis.
    obtain ⟨offset, rfl⟩ := Nat.exists_eq_add_of_le behind
    have within : offset < (arguments ++ [paren]).length := by simp; omega
    rw [Nat.add_assoc, ← List.getElem?_drop, same, ← length,
      List.getElem?_append_right (Nat.le_add_right _ _), Nat.add_sub_cancel_left,
      List.getElem?_append_left within] at found
    exact not_mem_arguments generic isParen (.inl brace) (List.mem_of_getElem? found)

/-- A call that begins later has its brace no earlier, although the two may overlap. -/
theorem CallAt.brace_le {later other : Nat} (call : CallAt marker tokens start brace)
    (next : CallAt marker tokens later other) (after : start ≤ later) : brace ≤ other := by
  obtain ⟨_, _, first⟩ := call.between
  obtain ⟨behind, ⟨token, found, isBrace⟩, _⟩ := next.between
  exact Nat.le_of_not_lt fun earlier =>
    first other token (by omega) earlier found isBrace

theorem noCall_iff {before after : List Token} : NoCall marker before after ↔
    ∀ other < before.length, ∀ container, ¬ Calls marker ((before ++ after).drop other) container := by
  constructor
  · intro none other earlier container calls
    have rest := List.drop_eq_getElem_cons earlier
    rw [List.drop_append_of_le_length (Nat.le_of_lt earlier), rest] at calls
    refine none (before.take other) before[other] (before.drop (other + 1)) ?_ container calls
    rw [← rest, List.take_append_drop]
  · rintro none skipped token tail rfl container calls
    refine none skipped.length (by simp) container ?_
    rwa [List.append_assoc, List.drop_left, List.cons_append]

theorem first?_eq_some_iff_callAt : Container.first? marker tokens = some container ↔
    tokens.drop (container.index tokens) = container.tokens ∧
      ∃ start, CallAt marker tokens start (container.index tokens) ∧
        ∀ other brace, CallAt marker tokens other brace → start ≤ other := by
  rw [first?_eq_some]
  constructor
  · rintro ⟨before, after, rfl, none, calls⟩
    have calls : Calls marker ((before ++ after).drop before.length) container := by
      rwa [List.drop_left]
    refine ⟨drop_index (calls.suffix.trans (List.drop_suffix _ _)), before.length, calls.callAt, ?_⟩
    rintro other brace ⟨container, calls, _⟩
    exact Nat.le_of_not_lt fun earlier => noCall_iff.mp none other earlier container calls
  · rintro ⟨rest, start, ⟨found, calls, brace⟩, first⟩
    obtain rfl : container = found := by
      obtain ⟨_, _⟩ := container
      obtain ⟨_, _⟩ := found
      cases rest.symm.trans brace
      rfl
    refine ⟨tokens.take start, tokens.drop start, (List.take_append_drop start tokens).symm,
      noCall_iff.mpr ?_, calls⟩
    rw [List.take_append_drop]
    intro other earlier container calls
    rw [List.length_take] at earlier
    have later := first other _ calls.callAt
    omega

theorem first?_eq_none_iff_callAt : Container.first? marker tokens = none ↔
    ∀ start brace, ¬ CallAt marker tokens start brace := by
  rw [first?_eq_none, noCall_iff, List.append_nil]
  constructor
  · rintro none start brace ⟨container, calls, _⟩
    by_cases inside : start < tokens.length
    · exact none start inside container calls
    · rw [List.drop_eq_nil_of_le (Nat.le_of_not_lt inside)] at calls
      have suffix := calls.suffix
      simp [Container.tokens] at suffix
  · intro none start _ container calls
    exact none start _ calls.callAt

/-- What is located, by places alone. A marker without tokens marks nothing. Otherwise the
container is that of the first call, its brace the first that any call has, and nothing is
located only where there is no call. -/
theorem locate?_least (marker : String) (tokens : List Token) :
    (locate? marker tokens = none ↔ markerKinds marker = [] ∨
      ∀ start brace, ¬ CallAt (markerKinds marker) tokens start brace) ∧
    ∀ container, locate? marker tokens = some container ↔ markerKinds marker ≠ [] ∧
      tokens.drop (container.index tokens) = container.tokens ∧
      ∃ start, CallAt (markerKinds marker) tokens start (container.index tokens) ∧
        ∀ other brace, CallAt (markerKinds marker) tokens other brace →
          start ≤ other ∧ container.index tokens ≤ brace := by
  constructor
  · rw [locate?_eq_none, first?_eq_none_iff_callAt]
  · intro container
    rw [locate?_eq_some, first?_eq_some_iff_callAt]
    constructor
    · rintro ⟨marks, rest, start, call, first⟩
      refine ⟨marks, rest, start, call, fun other brace next => ?_⟩
      exact ⟨first other brace next, call.brace_le next (first other brace next)⟩
    · rintro ⟨marks, rest, start, call, first⟩
      exact ⟨marks, rest, start, call, fun other brace next => (first other brace next).1⟩

/-- A call of `a a` without a brace, an occurrence that overlaps the next, one inside the type
arguments, and a call inside the container. -/
def overlapping : String := "a a<a a>(b)\na a a<a a<b>>(\x7b a a(\x7b"

theorem locate?_least_overlapping :
    locate? "a a" (Token.ofText overlapping 1) = some ⟨⟨.leftBrace, 2⟩,
      [⟨.word "a", 2⟩, ⟨.word "a", 2⟩, ⟨.leftParen, 2⟩, ⟨.leftBrace, 2⟩]⟩ ∧
    (∃ start, CallAt (markerKinds "a a") (Token.ofText overlapping 1) start 20 ∧
      ∀ other brace, CallAt (markerKinds "a a") (Token.ofText overlapping 1) other brace →
        start ≤ other ∧ 20 ≤ brace) ∧
    CallAt (markerKinds "a a") (Token.ofText overlapping 1) 10 20 ∧
    CallAt (markerKinds "a a") (Token.ofText overlapping 1) 21 24 ∧
    ∀ start brace, ¬ CallAt (markerKinds "b") (Token.ofText overlapping 1) start brace := by
  have located : locate? "a a" (Token.ofText overlapping 1) = some ⟨⟨.leftBrace, 2⟩,
      [⟨.word "a", 2⟩, ⟨.word "a", 2⟩, ⟨.leftParen, 2⟩, ⟨.leftBrace, 2⟩]⟩ := by decide
  have missed : locate? "b" (Token.ofText overlapping 1) = none := by decide
  obtain ⟨_, _, least⟩ := ((locate?_least "a a" _).2 _).mp located
  have absent := ((locate?_least "b" _).1.mp missed).resolve_left (by decide)
  exact ⟨located, least, by decide, by decide, absent⟩

end StyleAudit.Container
