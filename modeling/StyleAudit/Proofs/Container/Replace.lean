import StyleAudit.Proofs.Container.Call

/-! Other tokens after a call. Whether a call begins at a place is settled by the tokens up to
its brace, or up to a semicolon that it cannot contain. -/
namespace StyleAudit.Container

open Token (Kind)

theorem IsTypeArguments.plain {arguments : List Token} (generic : IsTypeArguments arguments)
    {token : Token} (member : token ∈ arguments) :
    token.kind ≠ .leftBrace ∧ token.kind ≠ .other ';' := by
  obtain ⟨bracket, inside, rfl, isBracket, closing⟩ := generic
  rcases List.mem_cons.mp member with rfl | member
  · simp [isBracket]
  · exact (closing.plain token member).2

theorem not_mem_arguments {arguments : List Token} {paren token : Token}
    (generic : arguments = [] ∨ IsTypeArguments arguments) (isParen : paren.kind = .leftParen)
    (settles : token.kind = .leftBrace ∨ token.kind = .other ';') :
    token ∉ arguments ++ [paren] := by
  intro member
  rcases List.mem_append.mp member with member | member
  · rcases generic with rfl | generic
    · simp at member
    · have plain := generic.plain member
      rcases settles with kind | kind <;> simp [kind] at plain
  · obtain rfl := List.mem_singleton.mp member
    rcases settles with kind | kind <;> simp [kind] at isParen

/-- A brace or a semicolon behind the marker ends the search for the container of a call, so
that what follows it does not matter. -/
theorem Calls.replace {marker : List Kind} {before after : List Token} {settling : Token}
    {container : Container} (calls : Calls marker (before ++ settling :: after) container)
    (settles : settling.kind = .leftBrace ∨ settling.kind = .other ';')
    (behind : settling.kind ∈ marker → marker.length ≤ before.length) (others : List Token) :
    ∃ other, Calls marker (before ++ settling :: others) other := by
  obtain ⟨call, arguments, paren, tokens, rfl, generic, isParen, isBrace⟩ := calls
  obtain ⟨brace, body⟩ := container
  have anew (more rest : List Token) (same : more ++ settling :: others = brace :: rest) :
      Calls (call.map (·.kind)) (call ++ (arguments ++ paren :: (more ++ settling :: others)))
        ⟨brace, rest⟩ :=
    ⟨call, arguments, paren, by rw [same]; rfl, rfl, generic, isParen, isBrace⟩
  have outside := not_mem_arguments generic isParen settles
  have tokens : before ++ settling :: after =
      (call ++ (arguments ++ [paren])) ++ brace :: body := by
    simpa [Container.tokens] using tokens
  rcases List.append_eq_append_iff.mp tokens with ⟨more, span, rest⟩ | ⟨more, rfl, rest⟩
  · cases more with
    | nil =>
      obtain ⟨rfl, rfl⟩ := List.cons.inj rest
      obtain rfl : call ++ (arguments ++ [paren]) = before := by simpa using span
      exact ⟨⟨settling, others⟩, by simpa using anew [] others rfl⟩
    | cons first more =>
      obtain ⟨rfl, rfl⟩ := List.cons.inj rest
      -- The token would have to stand in the marker, since it is none of those after it.
      rcases List.append_eq_append_iff.mp span with ⟨zone, _, inside⟩ | ⟨zone, rfl, inside⟩
      · exact absurd (inside ▸ by simp : settling ∈ arguments ++ [paren]) outside
      · cases zone with
        | nil =>
          have inside : settling :: more = arguments ++ [paren] := inside
          exact absurd (inside ▸ List.mem_cons_self) outside
        | cons first zone =>
          obtain ⟨rfl, _⟩ := List.cons.inj inside
          have short := behind (by simp)
          simp only [List.length_map, List.length_append, List.length_cons] at short
          omega
  · cases more with
    | nil =>
      obtain ⟨rfl, rfl⟩ := List.cons.inj rest
      exact ⟨⟨brace, others⟩, by simpa using anew [] others rfl⟩
    | cons first more =>
      obtain ⟨rfl, rfl⟩ := List.cons.inj rest
      exact ⟨⟨brace, more ++ settling :: others⟩, by simpa using anew (brace :: more) _ rfl⟩

variable {marker : List Kind} {before : List Token}

theorem first?_replace {tokens : List Token} {brace : Token} {body : List Token}
    (found : Container.first? marker tokens = some ⟨brace, body⟩) :
    ∃ front, tokens = front ++ brace :: body ∧
      ∀ others, Container.first? marker (front ++ brace :: others) = some ⟨brace, others⟩ := by
  obtain ⟨before, after, rfl, none, calls⟩ := first?_eq_some.mp found
  obtain ⟨call, arguments, paren, same, kinds, generic, isParen, isBrace⟩ := calls
  have front (others : List Token) : call ++ (arguments ++ paren :: brace :: others) =
      (call ++ (arguments ++ [paren])) ++ brace :: others := by simp
  have same : after = (call ++ (arguments ++ [paren])) ++ brace :: body := same.trans (front body)
  subst same
  refine ⟨before ++ (call ++ (arguments ++ [paren])), by simp, fun others => ?_⟩
  refine first?_eq_some.mpr ⟨before, (call ++ (arguments ++ [paren])) ++ brace :: others, by simp,
    ?_, call, arguments, paren, (front others).symm, kinds, generic, isParen, isBrace⟩
  intro skipped token tail split container calls
  -- The brace stands behind the marker of this call, and farther behind that of an earlier one.
  have behind : marker.length ≤ (token :: (tail ++ (call ++ (arguments ++ [paren])))).length := by
    rw [← kinds]
    simp
    omega
  have calls : Calls marker ((token :: (tail ++ (call ++ (arguments ++ [paren])))) ++
      brace :: others) container := by simpa using calls
  obtain ⟨other, again⟩ := calls.replace (.inl isBrace) (fun _ => behind) body
  exact none skipped token tail split other (by simpa using again)

/-- A call does not reach over a semicolon that is not in the marker. -/
theorem noCall_of_semicolon {last : Token} (none : NoCall marker (before ++ [last]) [])
    (semicolon : last.kind = .other ';') (foreign : .other ';' ∉ marker) (after : List Token) :
    NoCall marker (before ++ [last]) after := by
  intro skipped token tail split container calls
  obtain ⟨front, ends⟩ : ∃ front, token :: tail = front ++ [last] := by
    rcases List.append_eq_append_iff.mp split with ⟨more, _, rest⟩ | ⟨front, _, rest⟩
    · cases more with
      | nil => exact ⟨[], rest.symm⟩
      | cons first more => simp at rest
    · exact ⟨front, rest⟩
  have calls : Calls marker (front ++ last :: after) container := by
    have same : token :: (tail ++ after) = front ++ last :: after := by
      rw [← List.cons_append, ends]
      simp
    rwa [← same]
  obtain ⟨other, again⟩ := calls.replace (.inr semicolon)
    (fun member => absurd (semicolon ▸ member) foreign) []
  refine none skipped token tail split other ?_
  rw [← List.cons_append, ends]
  simpa using again

end StyleAudit.Container
