import StyleAudit.Container

/-! The calls that the search for a container accepts, stated without the search, and that it
takes the first of them. -/
namespace StyleAudit.Container

open Token (Kind)

def opens (tokens : List Token) : Nat := tokens.countP fun token => token.kind = .other '<'

def closes (tokens : List Token) : Nat := tokens.countP fun token => token.kind = .other '>'

/-- The rest of a type argument list, from inside `inner` further lists to its last bracket. -/
structure Closing (inner : Nat) (tokens : List Token) : Prop where
  plain : ∀ token ∈ tokens,
    token.kind ≠ .leftParen ∧ token.kind ≠ .leftBrace ∧ token.kind ≠ .other ';'
  closed : closes tokens = opens tokens + inner + 1
  first : ∀ before after, tokens = before ++ after → after ≠ [] →
    closes before ≤ opens before + inner

/-- A bracket and what follows it up to the first place where as many are closed as opened. -/
def IsTypeArguments (tokens : List Token) : Prop :=
  ∃ bracket inside, tokens = bracket :: inside ∧ bracket.kind = .other '<' ∧ Closing 0 inside

/-- A call of the marker begins at the first of the tokens and has this container. -/
def Calls (marker : List Kind) (tokens : List Token) (container : Container) : Prop :=
  ∃ call arguments paren, tokens = call ++ (arguments ++ paren :: container.tokens) ∧
    call.map (·.kind) = marker ∧ (arguments = [] ∨ IsTypeArguments arguments) ∧
    paren.kind = .leftParen ∧ container.brace.kind = .leftBrace

/-- No call begins in the tokens `before` when those `after` follow. -/
def NoCall (marker : List Kind) (before after : List Token) : Prop :=
  ∀ skipped token tail, before = skipped ++ token :: tail →
    ∀ container, ¬ Calls marker (token :: (tail ++ after)) container

theorem afterKinds_eq_some {marker : List Kind} {tokens rest : List Token} :
    afterKinds marker tokens = some rest ↔
      ∃ call, tokens = call ++ rest ∧ call.map (·.kind) = marker := by
  induction marker generalizing tokens with
  | nil =>
    simp only [afterKinds, Option.some.injEq, List.map_eq_nil_iff, exists_eq_right,
      List.nil_append]
  | cons kind marker ih =>
    cases tokens with
    | nil => simp [afterKinds]
    | cons token tokens =>
      simp only [afterKinds, Option.ite_none_right_eq_some, ih]
      constructor
      · rintro ⟨rfl, call, rfl, rfl⟩
        exact ⟨token :: call, rfl, rfl⟩
      · rintro ⟨call, same, kinds⟩
        cases call with
        | nil => simp at kinds
        | cons first call =>
          obtain ⟨rfl, rfl⟩ := List.cons.inj same
          obtain ⟨rfl, rfl⟩ := List.cons.inj kinds
          exact ⟨rfl, call, rfl, rfl⟩

section Closing

variable {inner : Nat} {token : Token} {tokens : List Token}

theorem not_closing_nil : ¬ Closing inner [] := by
  intro closing
  have closed := closing.closed
  simp [closes, opens] at closed

/-- The list is closed where its last bracket is. -/
theorem closing_last (last : token.kind = .other '>') :
    Closing 0 (token :: tokens) ↔ tokens = [] := by
  constructor
  · intro closing
    by_cases done : tokens = []
    · exact done
    · have bound := closing.first [token] tokens rfl done
      simp [closes, opens, last] at bound
  · rintro rfl
    constructor
    case plain => simp [last]
    case closed => simp [closes, opens, last]
    case first =>
      intro before after same nonempty
      cases before with
      | nil => simp [closes]
      | cons first before =>
        obtain ⟨_, rest⟩ := List.cons.inj same
        obtain ⟨_, none⟩ := List.append_eq_nil_iff.mp rest.symm
        exact absurd none nonempty

/-- Elsewhere a token only changes how many lists are open. -/
theorem closing_cons {next : Nat}
    (plain : token.kind ≠ .leftParen ∧ token.kind ≠ .leftBrace ∧ token.kind ≠ .other ';')
    (count : closes [token] + next = opens [token] + inner) :
    Closing inner (token :: tokens) ↔ Closing next tokens := by
  have split (some : List Token) : closes (token :: some) = closes [token] + closes some ∧
      opens (token :: some) = opens [token] + opens some := by
    simp only [closes, opens, List.countP_cons, List.countP_nil]
    omega
  have bounded : closes [token] ≤ opens [token] + inner := by omega
  constructor
  · intro closing
    have closed := closing.closed
    rw [(split tokens).1, (split tokens).2] at closed
    refine ⟨fun other member => closing.plain other (List.mem_cons_of_mem _ member), by omega, ?_⟩
    intro before after same nonempty
    have bound := closing.first (token :: before) after (by rw [same, List.cons_append]) nonempty
    rw [(split before).1, (split before).2] at bound
    omega
  · intro closing
    have closed := closing.closed
    constructor
    case plain =>
      intro other member
      rcases List.mem_cons.mp member with rfl | member
      · exact plain
      · exact closing.plain other member
    case closed =>
      rw [(split tokens).1, (split tokens).2]
      omega
    case first =>
      intro before after same nonempty
      cases before with
      | nil => simp [closes]
      | cons first before =>
        obtain ⟨rfl, rest⟩ := List.cons.inj same
        have bound := closing.first before after rest nonempty
        rw [(split before).1, (split before).2]
        omega

theorem exists_closing {rest : List Token} :
    (∃ list, token :: tokens = list ++ rest ∧ Closing inner list) ↔
      ∃ list, tokens = list ++ rest ∧ Closing inner (token :: list) := by
  constructor
  · rintro ⟨list, same, closing⟩
    cases list with
    | nil => exact absurd closing not_closing_nil
    | cons first list =>
      obtain ⟨rfl, rfl⟩ := List.cons.inj same
      exact ⟨list, rfl, closing⟩
  · rintro ⟨list, rfl, closing⟩
    exact ⟨token :: list, rfl, closing⟩

theorem afterClosing_eq_some {rest : List Token} :
    afterClosing inner tokens = some rest ↔
      ∃ list, tokens = list ++ rest ∧ Closing inner list := by
  fun_induction afterClosing inner tokens with
  | case1 inner =>
    refine ⟨fun impossible => (nomatch impossible), ?_⟩
    rintro ⟨list, same, closing⟩
    obtain ⟨rfl, rfl⟩ := List.append_eq_nil_iff.mp same.symm
    exact absurd closing not_closing_nil
  | case2 inner token tokens bracket ih =>
    have step (list : List Token) : Closing inner (token :: list) ↔ Closing (inner + 1) list :=
      closing_cons (by simp [bracket]) (by simp [closes, opens, bracket]; omega)
    simp only [ih, exists_closing, step]
  | case3 token tokens bracket =>
    simp only [exists_closing, closing_last bracket]
    simp [eq_comm]
  | case4 token tokens bracket inner ih =>
    have step (list : List Token) : Closing (inner + 1) (token :: list) ↔ Closing inner list :=
      closing_cons (by simp [bracket]) (by simp [closes, opens, bracket]; omega)
    simp only [ih, exists_closing, step]
  | case5 inner token tokens kind | case6 inner token tokens kind | case7 inner token tokens kind =>
    refine ⟨fun impossible => (nomatch impossible), ?_⟩
    rw [exists_closing]
    rintro ⟨list, _, closing⟩
    simpa [kind] using closing.plain token List.mem_cons_self
  | case8 inner token tokens notOpening notClosing notParen notBrace notEnd ih =>
    have notOpening : token.kind ≠ .other '<' := notOpening
    have notClosing : token.kind ≠ .other '>' := notClosing
    have step (list : List Token) : Closing inner (token :: list) ↔ Closing inner list :=
      closing_cons ⟨notParen, notBrace, notEnd⟩ (by simp [closes, opens, notOpening, notClosing])
    simp only [ih, exists_closing, step]

instance : Decidable (Closing inner tokens) :=
  decidable_of_iff (afterClosing inner tokens = some []) (by simp [afterClosing_eq_some])

end Closing

theorem afterTypeArguments_eq_some {tokens rest : List Token} :
    afterTypeArguments tokens = some rest ↔ ∃ arguments, tokens = arguments ++ rest ∧
      (arguments = [] ∧ (∃ token ∈ rest.head?, token.kind ≠ .other '<') ∨
        IsTypeArguments arguments) := by
  cases tokens with
  | nil =>
    refine ⟨fun impossible => (nomatch impossible), ?_⟩
    rintro ⟨arguments, same, form⟩
    obtain ⟨rfl, rfl⟩ := List.append_eq_nil_iff.mp same.symm
    rcases form with ⟨_, token, member, _⟩ | ⟨bracket, inside, same, _⟩
    · simp at member
    · simp at same
  | cons token tokens =>
    by_cases bracket : token.kind = .other '<'
    · simp only [afterTypeArguments, if_pos bracket, afterClosing_eq_some]
      constructor
      · rintro ⟨inside, rfl, closing⟩
        exact ⟨token :: inside, rfl, .inr ⟨token, inside, rfl, bracket, closing⟩⟩
      · rintro ⟨arguments, same, ⟨rfl, first, member, other⟩ | ⟨_, inside, rfl, _, closing⟩⟩
        · obtain rfl : token :: tokens = rest := same
          obtain rfl := Option.some.inj member
          exact absurd bracket other
        · obtain ⟨rfl, rfl⟩ := List.cons.inj same
          exact ⟨inside, rfl, closing⟩
    · simp only [afterTypeArguments, if_neg bracket, Option.some.injEq]
      constructor
      · rintro rfl
        exact ⟨[], rfl, .inl ⟨rfl, token, by simp, bracket⟩⟩
      · rintro ⟨arguments, same, ⟨rfl, _⟩ | ⟨first, inside, rfl, other, _⟩⟩
        · exact same
        · obtain ⟨rfl, _⟩ := List.cons.inj same
          exact absurd other bracket

theorem ofArguments?_eq_some {tokens : List Token} {container : Container} :
    ofArguments? tokens = some container ↔ ∃ paren, tokens = paren :: container.tokens ∧
      paren.kind = .leftParen ∧ container.brace.kind = .leftBrace := by
  obtain ⟨first, body⟩ := container
  unfold ofArguments?
  split
  next paren brace rest =>
    simp only [Option.ite_none_right_eq_some, Option.some.injEq, mk.injEq, Container.tokens]
    constructor
    · rintro ⟨⟨isParen, isBrace⟩, rfl, rfl⟩
      exact ⟨paren, rfl, isParen, isBrace⟩
    · rintro ⟨_, same, isParen, isBrace⟩
      obtain ⟨rfl, rfl, rfl⟩ : paren = _ ∧ brace = _ ∧ rest = _ := by simpa using same
      exact ⟨⟨isParen, isBrace⟩, rfl, rfl⟩
  next short =>
    refine ⟨fun impossible => (nomatch impossible), ?_⟩
    rintro ⟨paren, rfl, _⟩
    exact absurd rfl (short paren first body)

theorem ofCall?_eq_some {marker : List Kind} {tokens : List Token} {container : Container} :
    ofCall? marker tokens = some container ↔ Calls marker tokens container := by
  simp only [ofCall?, Option.bind_eq_some_iff, afterKinds_eq_some, afterTypeArguments_eq_some,
    ofArguments?_eq_some]
  constructor
  · rintro ⟨_, ⟨_, ⟨call, rfl, kinds⟩, arguments, rfl, form⟩, paren, rfl, isParen, isBrace⟩
    exact ⟨call, arguments, paren, rfl, kinds, form.imp_left And.left, isParen, isBrace⟩
  · rintro ⟨call, arguments, paren, rfl, kinds, form, isParen, isBrace⟩
    refine ⟨_, ⟨_, ⟨call, rfl, kinds⟩, arguments, rfl, ?_⟩, paren, rfl, isParen, isBrace⟩
    exact form.imp_left fun none => ⟨none, paren, by simp, by simp [isParen]⟩

section First

variable {marker : List Kind} {before after : List Token} {container : Container}

theorem noCall_nil : NoCall marker [] after := by
  intro skipped token tail same
  simp at same

theorem noCall_cons {token : Token} : NoCall marker (token :: before) after ↔
    (∀ container, ¬ Calls marker (token :: (before ++ after)) container) ∧
      NoCall marker before after := by
  constructor
  · intro none
    refine ⟨none [] token before rfl, fun skipped first tail same => ?_⟩
    exact none (token :: skipped) first tail (by rw [same, List.cons_append])
  · rintro ⟨first, none⟩ skipped other tail same
    cases skipped with
    | nil =>
      obtain ⟨rfl, rfl⟩ := List.cons.inj same
      exact first
    | cons head skipped =>
      obtain ⟨rfl, later⟩ := List.cons.inj same
      exact none skipped other tail later

instance decidableNoCall (marker : List Kind) :
    (before after : List Token) → Decidable (NoCall marker before after)
  | [], _ => .isTrue noCall_nil
  | token :: before, after =>
    have := decidableNoCall marker before after
    decidable_of_iff
      (ofCall? marker (token :: (before ++ after)) = none ∧ NoCall marker before after) (by
        simp only [noCall_cons, Option.eq_none_iff_forall_ne_some, ne_eq, ofCall?_eq_some])

theorem first?_cons (token : Token) (tokens : List Token) : first? marker (token :: tokens) =
    (ofCall? marker (token :: tokens)).or (first? marker tokens) := by
  rw [first?]
  split <;> simp_all

theorem first?_append (none : NoCall marker before after) :
    first? marker (before ++ after) = first? marker after := by
  induction before with
  | nil => rfl
  | cons token before ih =>
    obtain ⟨here, later⟩ := noCall_cons.mp none
    have missed : ofCall? marker (token :: (before ++ after)) = Option.none :=
      Option.eq_none_iff_forall_ne_some.mpr fun container found =>
        here container (ofCall?_eq_some.mp found)
    rw [List.cons_append, first?_cons, missed, Option.none_or, ih later]

theorem first?_eq_none {tokens : List Token} :
    first? marker tokens = none ↔ NoCall marker tokens [] := by
  induction tokens with
  | nil => simp [first?, noCall_nil]
  | cons token tokens ih =>
    rw [first?_cons, Option.or_eq_none_iff, noCall_cons, ih, List.append_nil]
    simp only [Option.eq_none_iff_forall_ne_some, ne_eq, ofCall?_eq_some]

theorem Calls.first? (calls : Calls marker after container) :
    first? marker after = some container := by
  cases after with
  | nil =>
    obtain ⟨call, arguments, paren, same, _⟩ := calls
    simp at same
  | cons token tokens =>
    rw [first?_cons, ofCall?_eq_some.mpr calls, Option.some_or]

/-- The container is that of the first place where a call begins. -/
theorem first?_eq_some {tokens : List Token} : Container.first? marker tokens = some container ↔
    ∃ before after, tokens = before ++ after ∧ NoCall marker before after ∧
      Calls marker after container := by
  constructor
  · intro found
    induction tokens with
    | nil => simp [Container.first?] at found
    | cons token tokens ih =>
      rw [first?_cons] at found
      cases here : ofCall? marker (token :: tokens) with
      | some other =>
        obtain rfl : other = container := by simpa [here] using found
        exact ⟨[], token :: tokens, rfl, noCall_nil, ofCall?_eq_some.mp here⟩
      | none =>
        obtain ⟨before, after, rfl, none, calls⟩ := ih (by simpa [here] using found)
        refine ⟨token :: before, after, rfl, noCall_cons.mpr ⟨fun other calls => ?_, none⟩, calls⟩
        have met : ofCall? marker (token :: (before ++ after)) = some other :=
          ofCall?_eq_some.mpr calls
        simp [met] at here
  · rintro ⟨before, after, rfl, none, calls⟩
    rw [first?_append none, calls.first?]

end First

theorem locate?_eq_some {marker : String} {tokens : List Token} {container : Container} :
    locate? marker tokens = some container ↔
      markerKinds marker ≠ [] ∧ first? (markerKinds marker) tokens = some container := by
  unfold locate?
  split
  next none => simp [none]
  next kind kinds some => simp [some]

theorem kind_brace {marker : String} {tokens : List Token} {container : Container}
    (located : locate? marker tokens = some container) : container.brace.kind = .leftBrace := by
  obtain ⟨_, found⟩ := locate?_eq_some.mp located
  obtain ⟨_, _, _, _, call, arguments, paren, _, _, _, _, isBrace⟩ := first?_eq_some.mp found
  exact isBrace

theorem locate?_eq_none {marker : String} {tokens : List Token} :
    locate? marker tokens = none ↔
      markerKinds marker = [] ∨ first? (markerKinds marker) tokens = none := by
  unfold locate?
  split
  next none => simp [none]
  next kind kinds some => simp [some]

end StyleAudit.Container
