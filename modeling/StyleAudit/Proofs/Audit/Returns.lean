import StyleAudit.Proofs.Audit.Result
import StyleAudit.Proofs.Literal.Audit
import StyleAudit.Proofs.Reading.Passing
import StyleAudit.Proofs.Token.Returns

/-! Line ends of two characters. A source has the same result whether its line breaks come with
carriage returns or alone, unless a string is open at one of them and matters to the audit. -/
namespace StyleAudit

open Token (Alike Kind Lexer insertReturns)

variable {marker kinds : List Kind} {tokens others : List Token}

namespace Reading.Reader

/-- Only the name of an entry is looked at, and only for being plain. -/
theorem step_content {content other : String} {named : Bool} (reader : Reader) (line : Nat)
    (unnamed : named = true → isPlainName content = false ∧ isPlainName other = false) :
    reader.step ⟨.quoted content, line⟩ named = reader.step ⟨.quoted other, line⟩ named := by
  cases innermost : reader.frames with
  | nil => rw [step_of_closed innermost, step_of_closed innermost]
  | cons frame outer =>
    simp only [step, innermost]
    cases frame.expecting with
    | entry =>
      cases named with
      | false => rfl
      | true => simp [Kind.text?, beginEntry, unnamed rfl]
    | value key => cases key <;> rfl
    | ending brackets => rfl

theorem run_alike (alike : Alike marker tokens others) (reader : Reader) :
    reader.run tokens = reader.run others := by
  fun_induction run reader tokens generalizing others with
  | case1 reader =>
    cases alike
    rfl
  | case2 reader token =>
    cases alike with
    | same token none => cases none; rfl
    | content line _ _ _ none => cases none; exact step_content reader line (by simp)
  | case3 reader token next rest taken ih =>
    obtain ⟨colon, due⟩ := taken
    cases alike with
    | same token more =>
      cases more with
      | same next more => rw [run_colon due token next colon, ih more]
      | content => cases colon
    | content line _ _ unnamed more =>
      have names := unnamed (by simp [colon])
      cases more with
      | same next more =>
        rw [run_colon due _ next colon, ← step_content reader line fun _ => names, ih more]
      | content => cases colon
  | case4 reader token next rest apart ih =>
    -- A colon stands in one list where one stands in the other.
    have alone {other : Token} {more : List Token} (alike : Alike marker (next :: rest) more) :
        reader.run (other :: more) = (reader.step other false).run more := by
      refine run_cons ?_
      by_cases due : reader.expectsEntry = true
      · refine .inr fun first here colon => apart ⟨?_, due⟩
        cases alike with
        | same next more =>
          obtain rfl := Option.some.inj here
          exact colon
        | content =>
          obtain rfl := Option.some.inj here
          cases colon
      · exact .inl (Bool.not_eq_true _ ▸ due)
    cases alike with
    | same token more => rw [alone more, ih more]
    | content line _ _ _ more =>
      rw [alone more, ih more, step_content reader line (by simp)]

end Reading.Reader

theorem Reading.ofTokens_alike (brace : Token) (alike : Alike marker tokens others) :
    ofTokens (brace :: tokens) = ofTokens (brace :: others) := by
  obtain ⟨kind, line⟩ := brace
  cases kind with
  | leftBrace => simp only [ofTokens, Reader.run_alike alike]
  | _ => rfl

namespace Container

/-- Containers that open with one brace and go on alike. -/
def Alike (marker : List Kind) (container other : Container) : Prop :=
  container.brace = other.brace ∧ Token.Alike marker container.body other.body

theorem afterKinds_alike (alike : Token.Alike marker tokens others) (known : kinds ⊆ marker) :
    Option.Rel (Token.Alike marker) (afterKinds kinds tokens) (afterKinds kinds others) := by
  induction kinds generalizing tokens others with
  | nil => exact .some alike
  | cons kind kinds ih =>
    obtain ⟨member, known⟩ := List.cons_subset.mp known
    cases alike with
    | nil => exact .none
    | same token more =>
      by_cases here : token.kind = kind
      · simpa only [afterKinds, if_pos here] using ih more known
      · simpa only [afterKinds, if_neg here] using .none
    | content line foreign foreignOther _ more =>
      have apart {content : String} (foreign : .quoted content ∉ marker) :
          Kind.quoted content ≠ kind := fun same => foreign (same ▸ member)
      simpa only [afterKinds, if_neg (apart foreign), if_neg (apart foreignOther)] using .none

theorem afterClosing_alike (alike : Token.Alike marker tokens others) (inner : Nat) :
    Option.Rel (Token.Alike marker) (afterClosing inner tokens) (afterClosing inner others) := by
  induction alike generalizing inner with
  | nil => exact .none
  | same token more ih =>
    simp only [afterClosing]
    split
    case h_1 => exact ih (inner + 1)
    case h_2 =>
      cases inner with
      | zero => exact .some more
      | succ inner => exact ih inner
    case h_3 | h_4 | h_5 => exact .none
    case h_6 => exact ih inner
  | content line _ _ _ more ih => exact ih inner

theorem afterTypeArguments_alike (alike : Token.Alike marker tokens others) :
    Option.Rel (Token.Alike marker) (afterTypeArguments tokens) (afterTypeArguments others) := by
  cases alike with
  | nil => exact .none
  | same token more =>
    by_cases opens : token.kind = .other '<'
    · simpa only [afterTypeArguments, if_pos opens] using afterClosing_alike more 0
    · simpa only [afterTypeArguments, if_neg opens] using .some (.same token more)
  | content line foreign foreignOther unnamed more =>
    exact .some (.content line foreign foreignOther unnamed more)

theorem ofArguments?_alike (alike : Token.Alike marker tokens others) :
    Option.Rel (Alike marker) (ofArguments? tokens) (ofArguments? others) := by
  cases alike with
  | nil => exact .none
  | same paren more =>
    cases more with
    | nil => exact .none
    | same brace more =>
      by_cases opens : paren.kind = .leftParen ∧ brace.kind = .leftBrace
      · simpa only [ofArguments?, if_pos opens] using .some ⟨rfl, more⟩
      · simpa only [ofArguments?, if_neg opens] using .none
    | content => simp [ofArguments?]
  | content line _ _ _ more => cases more <;> simp [ofArguments?]

theorem rel_bind {r : α → β → Prop} {s : γ → δ → Prop} {x : Option α} {y : Option β}
    {f : α → Option γ} {g : β → Option δ} (first : Option.Rel r x y)
    (second : ∀ a b, r a b → Option.Rel s (f a) (g b)) : Option.Rel s (x.bind f) (y.bind g) := by
  cases first with
  | some related => exact second _ _ related
  | none => exact .none

theorem rel_or {r : α → β → Prop} {x x' : Option α} {y y' : Option β} (first : Option.Rel r x y)
    (second : Option.Rel r x' y') : Option.Rel r (x.or x') (y.or y') := by
  cases first with
  | some related => exact .some related
  | none => exact second

theorem ofCall?_alike (alike : Token.Alike marker tokens others) :
    Option.Rel (Alike marker) (ofCall? marker tokens) (ofCall? marker others) := by
  have marked := afterKinds_alike alike (List.Subset.refl marker)
  exact rel_bind (rel_bind marked fun _ _ => afterTypeArguments_alike) fun _ _ => ofArguments?_alike

theorem first?_alike (alike : Token.Alike marker tokens others) :
    Option.Rel (Alike marker) (first? marker tokens) (first? marker others) := by
  induction alike with
  | nil => exact .none
  | same token more ih =>
    rw [first?_cons, first?_cons]
    exact rel_or (ofCall?_alike (.same token more)) ih
  | content line foreign foreignOther unnamed more ih =>
    rw [first?_cons, first?_cons]
    exact rel_or (ofCall?_alike (.content line foreign foreignOther unnamed more)) ih

theorem locate?_alike {marker : String} (alike : Token.Alike (markerKinds marker) tokens others) :
    Option.Rel (Alike (markerKinds marker)) (locate? marker tokens) (locate? marker others) := by
  have found := first?_alike alike
  unfold locate?
  generalize markerKinds marker = kinds at found ⊢
  cases kinds with
  | nil => exact .none
  | cons kind kinds => exact found

end Container

/-- What is found in one source is found in the other, and reads as the same outline. -/
theorem Outline.ofSource?_alike {source other marker : String}
    (alike : Alike (markerKinds marker) (Token.ofText source 1) (Token.ofText other 1)) :
    ofSource? source marker = ofSource? other marker := by
  have located := Container.locate?_alike alike
  unfold ofSource?
  generalize Container.locate? marker (Token.ofText source 1) = container at located ⊢
  generalize Container.locate? marker (Token.ofText other 1) = twin at located ⊢
  cases located with
  | some related =>
    obtain ⟨brace, more⟩ := related
    simp only [Option.bind_some, Container.tokens, brace, Reading.ofTokens_alike _ more]
  | none => rfl

/-- The source with a carriage return before each line break. -/
def withReturns (source : String) : String := .ofList (insertReturns source.toList)

/-- At no line break is a string open that goes on behind it, that the marker has, or that names
an entry. -/
def Audit.BreaksFreely (source marker : String) : Prop :=
  ∀ before after, source.toList = before ++ '\n' :: after →
    ((Lexer.initial 1).after before).BreaksFreely (markerKinds marker) after

instance (source marker : String) : Decidable (Audit.BreaksFreely source marker) :=
  decidable_of_iff (∀ i < source.toList.length, source.toList[i]? = some '\n' →
      ((Lexer.initial 1).after (source.toList.take i)).BreaksFreely (markerKinds marker)
        (source.toList.drop (i + 1))) (by
    constructor
    · intro everywhere before after split
      have here := everywhere before.length (by simp [split]) (by simp [split])
      rw [split] at here
      simpa using here
    · intro everywhere i bound found
      refine everywhere _ _ ?_
      obtain ⟨_, same⟩ := List.getElem?_eq_some_iff.mp found
      rw [← same, ← List.drop_eq_getElem_cons bound, List.take_append_drop])

theorem Audit.result_withReturns {source marker : String} (free : BreaksFreely source marker) :
    (ofSource (withReturns source) marker).result = (ofSource source marker).result := by
  have quotes : (Lexer.initial 1).Quotes := fun _ _ _ quoted => nomatch quoted
  have alike : Alike (markerKinds marker) (Token.ofText source 1)
      (Token.ofText (withReturns source) 1) := by
    rw [Token.ofText, Token.ofText, withReturns, String.toList_ofList]
    exact Lexer.tokens_insertReturns quotes free
  rw [result_eq, result_eq, Outline.ofSource?_alike alike]

/-- An apostrophe in a comment opens no string. One in markup and the name of an entry that is
not recorded are strings that line breaks end. -/
def Audit.apostrophes : String :=
  "// it's\nlet t = <T>don't</T>\nmake(\x7b a: \x7b 'p-q\n: 1, p: 2,\n p: 3 \x7d \x7d)"

theorem Audit.result_withReturns_apostrophes : BreaksFreely apostrophes "make" ∧
    (ofSource (withReturns apostrophes) "make").result = .ok (.scanned ⟨[], [⟨"a", "p", 5⟩]⟩) := by
  have free : BreaksFreely apostrophes "make" := by decide +kernel
  let entries : Literal.Entries := .object "a" 3 3 (.plain "p" 4 (.plain "p" 5 .nil)) .nil
  have read : Outline.ofSource? apostrophes "make" = some (entries.outline 3) := by decide +kernel
  have report : entries.report = ⟨[], [⟨"a", "p", 5⟩]⟩ := by decide
  refine ⟨free, ?_⟩
  rw [result_withReturns free, Literal.Entries.result_of_outline read, report]

/-- A string that a line break ends names a group. -/
def Audit.brokenName : String := "f(\x7b'a\n:\x7b\x7d,a:\x7b\x7d\x7d)"

/-- A string goes on behind a line break. -/
def Audit.continued : String := "f(\x7ba:'\\\n',a:\x7b\x7d\x7d)"

/-- A string that a line break ends is what is called. -/
def Audit.brokenCall : String := "'f\n(\x7b\x7d)"

/-- Where a string is open in one of these ways, carriage returns can hide a repeat or the whole
container, and they can bring a container about. -/
theorem Audit.result_withReturns_ne :
    ('\r' ∉ brokenName.toList ∧
      (ofSource brokenName "f").result = .ok (.scanned ⟨["a"], []⟩) ∧
      (ofSource (withReturns brokenName) "f").result = .ok (.scanned ⟨[], []⟩)) ∧
    ('\r' ∉ continued.toList ∧
      (ofSource continued "f").result = .ok (.scanned ⟨[], []⟩) ∧
      (ofSource (withReturns continued) "f").result = .ok .notFound) ∧
    ('\r' ∉ brokenCall.toList ∧
      (ofSource brokenCall "'f").result = .ok (.scanned ⟨[], []⟩) ∧
      (ofSource (withReturns brokenCall) "'f").result = .ok .notFound ∧
      (ofSource brokenCall "'f\r").result = .ok .notFound ∧
      (ofSource (withReturns brokenCall) "'f\r").result = .ok (.scanned ⟨[], []⟩)) := by
  let twice : Literal.Entries := .object "a" 1 2 .nil (.object "a" 2 2 .nil .nil)
  let once : Literal.Entries := .object "a" 2 2 .nil .nil
  let mixed : Literal.Entries := .plain "a" 1 (.object "a" 2 2 .nil .nil)
  have named : Outline.ofSource? brokenName "f" = some (twice.outline 1) := by decide +kernel
  have unnamed : Outline.ofSource? (withReturns brokenName) "f" = some (once.outline 1) := by
    decide +kernel
  have whole : Outline.ofSource? continued "f" = some (mixed.outline 1) := by decide +kernel
  have called : Outline.ofSource? brokenCall "'f" = some (Literal.Entries.nil.outline 2) := by
    decide +kernel
  have recalled : Outline.ofSource? (withReturns brokenCall) "'f\r" =
      some (Literal.Entries.nil.outline 2) := by decide +kernel
  exact ⟨⟨by decide, Literal.Entries.result_of_outline named,
      Literal.Entries.result_of_outline unnamed⟩,
    ⟨by decide, Literal.Entries.result_of_outline whole, rfl⟩,
    ⟨by decide, Literal.Entries.result_of_outline called, rfl, rfl,
      Literal.Entries.result_of_outline recalled⟩⟩

end StyleAudit
