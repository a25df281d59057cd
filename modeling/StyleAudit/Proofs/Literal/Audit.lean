import StyleAudit.Proofs.Audit.Result
import StyleAudit.Proofs.Literal.Reading
import StyleAudit.Proofs.Literal.Report

/-! The audit of a source whose container is an object literal reports what the entries of the
literal say, whatever stands around it. -/
namespace StyleAudit.Literal

open Container (Calls NoCall IsTypeArguments)

/-- The literal is the argument of a call, and no call begins before that one. -/
theorem result_ofSource {source marker : String} {literal : Literal} {paren : Token}
    {before call arguments rest : List Token}
    (tokens : Token.ofText source 1 =
      before ++ (call ++ (arguments ++ paren :: (literal.tokens ++ rest))))
    (marks : markerKinds marker ≠ []) (kinds : call.map (·.kind) = markerKinds marker)
    (generic : arguments = [] ∨ IsTypeArguments arguments) (isParen : paren.kind = .leftParen)
    (first : NoCall (markerKinds marker) before
      (call ++ (arguments ++ paren :: (literal.tokens ++ rest))))
    (conforms : literal.Conforms) (clear : literal.Unambiguous) :
    (Audit.ofSource source marker).result = .ok (.scanned literal.body.entries.report) := by
  let container : Container := ⟨⟨.leftBrace, literal.brace⟩, literal.body.tokens ++ rest⟩
  have calls : Calls (markerKinds marker)
      (call ++ (arguments ++ paren :: (literal.tokens ++ rest))) container :=
    ⟨call, arguments, paren, rfl, kinds, generic, isParen, rfl⟩
  have located : Container.locate? marker (Token.ofText source 1) = some container :=
    Container.locate?_eq_some.mpr
      ⟨marks, Container.first?_eq_some.mpr ⟨before, _, tokens, first, calls⟩⟩
  have read : (Reading.ofTokens container.tokens).outline = some literal.outline := by
    obtain ⟨plain, run⟩ := run_literal conforms clear rest
    refine Reading.outline_eq_some.mpr ⟨literal.brace, literal.body.tokens ++ rest, rfl, ?_⟩
    rw [run]
    exact ⟨rfl, rfl⟩
  exact Audit.result_eq_scanned.mpr
    ⟨container, literal.outline, located, read, Entries.report_outline _ _⟩

theorem Entries.result_of_outline {source marker : String} {entries : Entries} {brace : Nat}
    (read : Outline.ofSource? source marker = some (entries.outline brace)) :
    (Audit.ofSource source marker).result = .ok (.scanned entries.report) := by
  rw [Audit.result_eq, read]
  simp only [entries.report_outline]
  rfl

/-- Two groups of one name, the first of which has a property twice. -/
def boxes : Literal :=
  ⟨2, .object ⟨"box", false, 3⟩ 3 3
      (.named ⟨"p", true, 3⟩ 3 ⟨[⟨.word "f", 3⟩, ⟨.leftParen, 3⟩, ⟨.word "a", 3⟩, ⟨.comma, 3⟩,
          ⟨.word "b", 3⟩, ⟨.rightParen, 3⟩], rfl⟩ <|
        .comma 3 <| .named ⟨"p", false, 4⟩ 4 ⟨[⟨.word "1", 4⟩], rfl⟩ <| .close 4) <|
    .object ⟨"box", false, 5⟩ 5 5 (.named ⟨"p", false, 5⟩ 5 ⟨[⟨.word "2", 5⟩], rfl⟩ <| .close 5) <|
    .comma 5 <| .unnamed ⟨[⟨.spread, 6⟩, ⟨.word "rest", 6⟩], rfl⟩ <| .close 7⟩

def boxesSource : String :=
  "/* make(\x7b\x7d) */ const s =\nmake<A<B>>(\x7b\n box: \x7b 'p': f(a, b),\n p: 1 \x7d\n" ++
    " box: \x7b p: 2 \x7d,\n ...rest\n\x7d, 0);"

theorem result_boxesSource : (Audit.ofSource boxesSource "make").result =
    .ok (.scanned ⟨["box"], [⟨"box", "p", 4⟩]⟩) := by
  let before : List Token := [⟨.word "const", 1⟩, ⟨.word "s", 1⟩, ⟨.other '=', 1⟩]
  let call : List Token := [⟨.word "make", 2⟩]
  let arguments : List Token := [⟨.other '<', 2⟩, ⟨.word "A", 2⟩, ⟨.other '<', 2⟩, ⟨.word "B", 2⟩,
    ⟨.other '>', 2⟩, ⟨.other '>', 2⟩]
  let rest : List Token := [⟨.comma, 7⟩, ⟨.word "0", 7⟩, ⟨.rightParen, 7⟩, ⟨.other ';', 7⟩]
  have tokens : Token.ofText boxesSource 1 =
      before ++ (call ++ (arguments ++ ⟨.leftParen, 2⟩ :: (boxes.tokens ++ rest))) := by
    decide +kernel
  have generic : IsTypeArguments arguments := ⟨_, _, rfl, rfl, by decide⟩
  have first : NoCall (markerKinds "make") before
      (call ++ (arguments ++ ⟨.leftParen, 2⟩ :: (boxes.tokens ++ rest))) := by decide
  exact result_ofSource tokens (by decide) (by decide) (.inr generic) rfl first (by decide)
    (by decide)

theorem nested_straying : Token.isNested [] [⟨.colon, 1⟩, ⟨.word "a", 1⟩, ⟨.colon, 1⟩,
    ⟨.leftBrace, 1⟩, ⟨.rightBrace, 1⟩] = true := rfl

def strays : Literal :=
  ⟨1, .comma 1 <|
    .unnamed ⟨[⟨.colon, 1⟩, ⟨.word "a", 1⟩, ⟨.colon, 1⟩, ⟨.leftBrace, 1⟩, ⟨.rightBrace, 1⟩],
      nested_straying⟩ <|
    .comma 1 <| .object ⟨"a", false, 1⟩ 1 1 (.close 1) <| .close 1⟩

/-- Its comma takes the colon along and leaves a second group. A marker without tokens is never
found. -/
theorem result_strays :
    (Token.ofText "f(\x7b,:a:\x7b\x7d,a:\x7b\x7d\x7d)" 1 =
        ⟨.word "f", 1⟩ :: ⟨.leftParen, 1⟩ :: (strays.tokens ++ [⟨.rightParen, 1⟩]) ∧
      strays.Conforms ∧ strays.body.entries.report = ⟨[], []⟩ ∧
      (Audit.ofSource "f(\x7b,:a:\x7b\x7d,a:\x7b\x7d\x7d)" "f").result =
        .ok (.scanned ⟨["a"], []⟩)) ∧
    (Token.ofText "(\x7b\x7d)" 1 =
        ⟨.leftParen, 1⟩ :: ((⟨1, .close 1⟩ : Literal).tokens ++ [⟨.rightParen, 1⟩]) ∧
      markerKinds "" = [] ∧ (Audit.ofSource "(\x7b\x7d)" "").result = .ok .notFound) := by
  have twice : (Audit.ofSource "f(\x7b,:a:\x7b\x7d,a:\x7b\x7d\x7d)" "f").result =
      .ok (.scanned ⟨["a"], []⟩) := by
    let entries : Entries := .object "a" 1 1 .nil (.object "a" 1 1 .nil .nil)
    have located : Container.locate? "f" (Token.ofText "f(\x7b,:a:\x7b\x7d,a:\x7b\x7d\x7d)" 1) =
        some ⟨⟨.leftBrace, 1⟩, strays.body.tokens ++ [⟨.rightParen, 1⟩]⟩ := by decide
    have read : (Reading.ofTokens (strays.tokens ++ [⟨.rightParen, 1⟩])).outline =
        some (entries.outline 1) := by decide
    exact Audit.result_eq_scanned.mpr
      ⟨_, _, located, read, Entries.report_outline entries 1⟩
  have missed : (Audit.ofSource "(\x7b\x7d)" "").result = .ok .notFound := rfl
  exact ⟨⟨by decide, by decide, by decide, twice⟩, by decide, by decide, missed⟩

end StyleAudit.Literal
