import StyleAudit.Proofs.Lines.Report
import StyleAudit.Proofs.Literal.Audit
import StyleAudit.Proofs.Token.Filler

/-! Blanks and comments between the elements of a source. An audit depends on them only by the
lines that it reports. -/
namespace StyleAudit

open Token (Kind Lexer)

/-- What a report says without its lines. -/
def Report.names (report : Report) : List String × List (String × String) :=
  (report.repeatedGroups,
    report.repeatedProperties.map fun finding => (finding.group, finding.property))

/-- What an outcome says without its lines, if a container is found. -/
def Outcome.names : Outcome → Option (List String × List (String × String))
  | .notFound => none
  | .scanned report => some report.names

theorem Report.names_relabel (f : Nat → Nat) (report : Report) :
    (report.relabel f).names = report.names := by
  simp [names, relabel, Finding.relabel, Function.comp_def]

theorem Container.locate?_relabel (f : Nat → Nat) (marker : String) (tokens : List Token) :
    locate? marker (tokens.map (Token.relabel f)) = (locate? marker tokens).map (relabel f) := by
  unfold locate?
  split
  next => rfl
  next kind kinds _ => exact first?_relabel (kind :: kinds) tokens

theorem Outline.ofSource?_congr {source other : String} (marker : String)
    (same : (Token.ofText source 1).map (·.kind) = (Token.ofText other 1).map (·.kind)) :
    (ofSource? source marker).map (relabel fun _ => 0) =
      (ofSource? other marker).map (relabel fun _ => 0) := by
  let erase := Token.relabel fun _ => 0
  have erased : (Token.ofText source 1).map erase = (Token.ofText other 1).map erase := by
    have kinds (tokens : List Token) : tokens.map erase = (tokens.map (·.kind)).map (⟨·, 0⟩) := by
      rw [List.map_map]
      rfl
    rw [kinds, kinds, same]
  have outlines (source : String) : (ofSource? source marker).map (relabel fun _ => 0) =
      (Container.locate? marker ((Token.ofText source 1).map erase)).bind fun container =>
        (Reading.ofTokens container.tokens).outline := by
    rw [ofSource?, Container.locate?_relabel]
    cases Container.locate? marker (Token.ofText source 1) with
    | none => rfl
    | some container => exact (Reading.outline_relabel container.tokens).symm
  rw [outlines, outlines, erased]

theorem Audit.names_congr {source other marker : String} {outcome another : Outcome}
    (same : (Token.ofText source 1).map (·.kind) = (Token.ofText other 1).map (·.kind))
    (first : (Audit.ofSource source marker).result = .ok outcome)
    (second : (Audit.ofSource other marker).result = .ok another) :
    outcome.names = another.names := by
  have outlines := Outline.ofSource?_congr marker same
  rw [result_eq] at first second
  cases found : Outline.ofSource? source marker with
  | none =>
    rw [found] at first outlines
    have missed := Option.map_eq_none_iff.mp outlines.symm
    rw [missed] at second
    cases first
    cases second
    rfl
  | some outline =>
    rw [found] at first outlines
    obtain ⟨twin, foundTwin, erased⟩ := Option.map_eq_some_iff.mp outlines.symm
    rw [foundTwin] at second
    have reported {outline : Outline} {outcome : Outcome}
        (scanned : outline.report.map .scanned = .ok outcome) :
        ∃ report, outcome = .scanned report ∧
          (outline.relabel fun _ => 0).report = .ok (report.relabel fun _ => 0) := by
      rw [Outline.report_relabel]
      cases read : outline.report with
      | error failure => simp [read, Except.map] at scanned
      | ok report =>
        rw [read] at scanned
        exact ⟨report, (Except.ok.inj scanned).symm, rfl⟩
    obtain ⟨report, rfl, read⟩ := reported first
    obtain ⟨twinReport, rfl, readTwin⟩ := reported second
    rw [erased, read] at readTwin
    have names := congrArg Report.names (Except.ok.inj readTwin)
    rw [Report.names_relabel, Report.names_relabel] at names
    exact congrArg some names

/-- Filler that begins with a line break may be put between any two elements of a source. -/
theorem Audit.result_filled {s t filler : String} (boundary : Token.Boundary s.toList t.toList)
    (nonempty : t ≠ "") (skips : Token.Filler filler.toList) :
    (∀ line, Token.ofText (s ++ t) line =
        Token.ofText s line ++ Token.following s.toList t.toList line ∧
      Token.ofText (s ++ "\n" ++ filler ++ t) line = Token.ofText s line ++
        (Token.following s.toList t.toList line).map
          (Token.relabel (· + (1 + filler.toList.count '\n')))) ∧
    ∀ marker, ∃ before after, (Audit.ofSource (s ++ t) marker).result = .ok before ∧
      (Audit.ofSource (s ++ "\n" ++ filler ++ t) marker).result = .ok after ∧
      after.names = before.names := by
  have rest : t.toList ≠ [] := by simpa using nonempty
  have apart (line : Nat) : Token.ofText (s ++ t) line =
      Token.ofText s line ++ Token.following s.toList t.toList line := by
    rw [Token.ofText, String.toList_append]
    exact boundary.tokens_append rest line
  have filled (line : Nat) : Token.ofText (s ++ "\n" ++ filler ++ t) line =
      Token.ofText s line ++ (Token.following s.toList t.toList line).map
        (Token.relabel (· + (1 + filler.toList.count '\n'))) := by
    have characters : (s ++ "\n" ++ filler ++ t).toList =
        s.toList ++ '\n' :: (filler.toList ++ t.toList) := by simp
    rw [Token.ofText, characters]
    exact boundary.tokens_filled rest skips line
  refine ⟨fun line => ⟨apart line, filled line⟩, fun marker => ?_⟩
  have same : (Token.ofText (s ++ "\n" ++ filler ++ t) 1).map (·.kind) =
      (Token.ofText (s ++ t) 1).map (·.kind) := by
    rw [apart, filled, List.map_append, List.map_append, List.map_map]
    rfl
  obtain ⟨before, first⟩ := exists_result (s ++ t) marker
  obtain ⟨after, second⟩ := exists_result (s ++ "\n" ++ filler ++ t) marker
  exact ⟨before, after, first, second, names_congr same second first⟩

def undivided : String := "make(\x7b a: \x7b p: x "

def divisor : String := "/ y, p: 2 \x7d \x7d)"

def remarks : String := " /* ' \x7b **/// make(\n"

theorem Audit.result_filled_division :
    Token.Boundary undivided.toList divisor.toList ∧ Token.Filler remarks.toList ∧
    ∃ before after, (ofSource (undivided ++ divisor) "make").result = .ok before ∧
      (ofSource (undivided ++ "\n" ++ remarks ++ divisor) "make").result = .ok after ∧
      before = .scanned ⟨[], [⟨"a", "p", 1⟩]⟩ ∧ after = .scanned ⟨[], [⟨"a", "p", 3⟩]⟩ ∧
      after.names = before.names := by
  have boundary : Token.Boundary undivided.toList divisor.toList := by decide +kernel
  have skips : Token.Filler remarks.toList :=
    .blank (by decide) (@Token.Filler.blockComment " ' \x7b *".toList _ (by decide)
      (@Token.Filler.lineComment " make(".toList _ (by decide) .nil))
  let entries (again : Nat) : Literal.Entries :=
    .object "a" 1 1 (.plain "p" 1 (.plain "p" again .nil)) .nil
  have reported {source : String} {again : Nat}
      (read : Outline.ofSource? source "make" = some ((entries again).outline 1)) :
      (ofSource source "make").result = .ok (.scanned ⟨[], [⟨"a", "p", again⟩]⟩) :=
    Literal.Entries.result_of_outline read
  have near : Outline.ofSource? (undivided ++ divisor) "make" = some ((entries 1).outline 1) := by
    decide +kernel
  have far : Outline.ofSource? (undivided ++ "\n" ++ remarks ++ divisor) "make" =
      some ((entries 3).outline 1) := by decide +kernel
  obtain ⟨before, after, first, second, names⟩ :=
    (result_filled boundary (by decide) skips).2 "make"
  exact ⟨boundary, skips, before, after, first, second,
    Except.ok.inj (first.symm.trans (reported near)),
    Except.ok.inj (second.symm.trans (reported far)), names⟩

end StyleAudit
