import StyleAudit.Proofs.Token.Filler
import StyleAudit.Proofs.Token.WellFormed

/-! Token kinds as text. A printed token is read back as one token that ends before a blank, so
blanks between the tokens are enough to keep them apart. -/
namespace StyleAudit.Token

/-- The quotes that a string may stand in. -/
inductive Quote where
  | single | double
  deriving DecidableEq, Repr

def Quote.char : Quote → Char
  | .single => '\''
  | .double => '"'

/-- The content of a string with a backslash before each character that would end it. -/
def escape (quote : Quote) (content : List Char) : List Char :=
  content.flatMap fun c => if c ∈ [quote.char, '\\', '\n'] then ['\\', c] else [c]

/-- What a template or regex held is lost, and any will do in its place. -/
def Kind.spelling (quote : Quote) : Kind → List Char
  | .leftBrace => ['\x7b']
  | .rightBrace => ['\x7d']
  | .leftParen => ['(']
  | .rightParen => [')']
  | .leftBracket => ['[']
  | .rightBracket => [']']
  | .colon => [':']
  | .comma => [',']
  | .spread => ['.', '.', '.']
  | .word spelling => spelling.toList
  | .quoted content => quote.char :: (escape quote content.toList ++ [quote.char])
  | .template => ['\x60', '\x60']
  | .regex => ['/', 'a', '/']
  | .other c => [c]

/-- Kinds with the quotes that each would stand in, one blank between any two. -/
def print (printed : List (Kind × Quote)) : String :=
  .ofList ([' '].intercalate (printed.map fun entry => entry.1.spelling entry.2))

theorem isBlank_of_isWordChar {c : Char} (word : isWordChar c = true) : Text.isBlank c = false := by
  have apart : ∀ r ∈ Text.alphanumericRanges, ∀ b ∈ Text.blankRanges,
      r.high < b.low ∨ b.high < r.low := by decide +kernel
  rw [Bool.eq_false_iff, Ne, Text.isBlank_iff]
  rintro ⟨b, blank, above, below⟩
  simp only [isWordChar, Bool.or_eq_true, beq_iff_eq] at word
  rcases word with (alphanumeric | rfl) | rfl
  · obtain ⟨r, member, low, high⟩ := (Text.isAlphanumeric_iff c).mp alphanumeric
    have := apart r member b blank
    omega
  · revert b
    decide
  · revert b
    decide

theorem Phase.opening_word {c : Char} (word : isWordChar c = true) :
    Phase.opening c = .stay (.word (.singleton c)) := by
  have differs {sign : Char} (other : isWordChar sign = false) : c ≠ sign := by
    rintro rfl
    simp [word] at other
  unfold opening
  rw [isBlank_of_isWordChar word, word]
  split
  next blank => cases blank
  next =>
    split
    case h_6 => rfl
    all_goals exact absurd rfl (differs (by decide))

theorem Phase.opening_other {operand : Bool} {c : Char} (fits : (Kind.other c).Fits operand)
    (slash : c ≠ '/') (dot : c ≠ '.') : Phase.opening c = .close (.other c) := by
  obtain ⟨visible, sign, unreserved, -⟩ := fits
  have single : Kind.ofChar c = .other c := by
    unfold Kind.ofChar
    split <;> first | rfl | exact absurd (by decide) unreserved
  unfold opening
  rw [visible, sign, single]
  split
  next blank => cases blank
  next =>
    split
    case h_1 => exact absurd rfl slash
    case h_2 => exact absurd rfl dot
    case h_6 => rfl
    all_goals exact absurd (by decide) unreserved

namespace Lexer

/-- With the text the open element becomes one token, and a blank behind it would end it. -/
structure Reads (lexer : Lexer) (text : List Char) (kind : Kind) : Prop where
  tokens : (lexer.tokens text).map (·.kind) = [kind]
  ends : ∀ rest,
    (lexer.after text).phase.endsBefore (lexer.after text).operand (' ' :: rest) = true

section Reads

variable {lexer next : Lexer} {kind : Kind} {operand : Bool} {line start : Nat}

theorem Reads.nil (pending : lexer.phase.pending lexer.operand = [kind])
    (ends : ∀ rest, lexer.phase.endsBefore lexer.operand (' ' :: rest) = true) :
    lexer.Reads [] kind where
  tokens := by
    rw [tokens_eq]
    exact (pending_kinds lexer).trans pending
  ends := ends

theorem Reads.cons {c : Char} {text : List Char} (step : lexer.step c = ([], next))
    (reads : next.Reads text kind) : lexer.Reads (c :: text) kind where
  tokens := by
    rw [tokens_cons, step]
    exact reads.tokens
  ends := by
    rw [(run_cons c text).2, step]
    exact reads.ends

theorem Reads.close {c : Char}
    (step : lexer.step c = ([⟨kind, start⟩], ⟨.between, operand, line, start⟩)) :
    lexer.Reads [c] kind where
  tokens := by
    rw [tokens_cons, step]
    rfl
  ends rest := by
    rw [(run_cons c []).2, step]
    rfl

theorem reads_word {spelling : String} {text : List Char}
    (word : ∀ c ∈ text, isWordChar c = true) :
    Reads ⟨.word spelling, operand, line, start⟩ text (.word (spelling ++ .ofList text)) := by
  induction text generalizing spelling line with
  | nil =>
    refine .nil (by simp [Phase.pending]) fun rest => ?_
    have blank : isWordChar ' ' = false := by decide
    simp [Phase.endsBefore, Phase.extend, blank]
  | cons c text ih =>
    obtain ⟨first, word⟩ := List.forall_mem_cons.mp word
    have step : step ⟨.word spelling, operand, line, start⟩ c =
        ([], ⟨.word (spelling.push c), operand, bump line c, start⟩) := by
      simp [step, Phase.extend, first, take]
    have pushed : spelling ++ .ofList (c :: text) = spelling.push c ++ .ofList text := by
      simp [← String.toList_inj]
    rw [pushed]
    exact .cons step (ih word)

theorem reads_quoted (quote : Quote) (content : String) (text : List Char) :
    Reads ⟨.quoted quote.char false content, operand, line, start⟩
      (escape quote text ++ [quote.char]) (.quoted (content ++ .ofList text)) := by
  have flat : quote.char ≠ '\n' := by cases quote <;> decide
  have plain : quote.char ≠ '\\' := by cases quote <;> decide
  induction text generalizing content line with
  | nil =>
    have step : step ⟨.quoted quote.char false content, operand, line, start⟩ quote.char =
        ([⟨.quoted content, start⟩], ⟨.between, false, bump line quote.char, start⟩) := by
      simp [step, Phase.extend, quotedExtension, flat, plain, take, Kind.precedesOperand]
    have whole : content ++ .ofList [] = content := by simp
    rw [whole]
    exact .close step
  | cons c text ih =>
    have pushed : content ++ .ofList (c :: text) = content.push c ++ .ofList text := by
      simp [← String.toList_inj]
    rw [escape, List.flatMap_cons, List.append_assoc, pushed]
    split
    next special =>
      have backslash : step ⟨.quoted quote.char false content, operand, line, start⟩ '\\' =
          ([], ⟨.quoted quote.char true content, operand, line, start⟩) := rfl
      have escaped : step ⟨.quoted quote.char true content, operand, line, start⟩ c =
          ([], ⟨.quoted quote.char false (content.push c), operand, bump line c, start⟩) := rfl
      exact .cons backslash (.cons escaped (ih (content.push c)))
    next ordinary =>
      simp only [List.mem_cons, List.not_mem_nil, or_false, not_or] at ordinary
      obtain ⟨other, unescaped, sameLine⟩ := ordinary
      have step : step ⟨.quoted quote.char false content, operand, line, start⟩ c =
          ([], ⟨.quoted quote.char false (content.push c), operand, bump line c, start⟩) := by
        simp [step, Phase.extend, quotedExtension, other, unescaped, sameLine, take]
      exact .cons step (ih (content.push c))

theorem reads_other {c : Char} (fits : (Kind.other c).Fits operand) :
    Reads ⟨.between, operand, line, start⟩ [c] (.other c) := by
  by_cases dot : c = '.'
  · subst dot
    have opened : step ⟨.between, operand, line, start⟩ '.' =
        ([], ⟨.dots false, operand, line, line⟩) := rfl
    exact .cons opened (.nil rfl fun _ => rfl)
  by_cases slash : c = '/'
  · subst slash
    obtain rfl : operand = false := fits.2.2.2 rfl
    have opened : step ⟨.between, false, line, start⟩ '/' =
        ([], ⟨.slash, false, line, line⟩) := rfl
    exact .cons opened (.nil rfl fun _ => rfl)
  · have opening := Phase.opening_other fits slash dot
    have step : step ⟨.between, operand, line, start⟩ c =
        ([⟨.other c, line⟩], ⟨.between, (Kind.other c).precedesOperand, bump line c, line⟩) := by
      simp [step, Phase.extend, opening, take]
    exact .close step

/-- A kind that fits is read back from its spelling. -/
theorem reads_spelling {kind : Kind} (quote : Quote) (fits : kind.Fits operand) :
    Reads ⟨.between, operand, line, start⟩ (kind.spelling quote) kind := by
  cases kind with
  | word spelling =>
    obtain ⟨nonempty, word⟩ := fits
    have nonempty : spelling.toList ≠ [] := by simpa using nonempty
    obtain ⟨c, text, spelled⟩ := List.exists_cons_of_ne_nil nonempty
    rw [spelled] at word
    obtain ⟨first, word⟩ := List.forall_mem_cons.mp word
    have step : step ⟨.between, operand, line, start⟩ c =
        ([], ⟨.word (.singleton c), operand, bump line c, line⟩) := by
      simp [step, Phase.extend, Phase.opening_word first, take, operandAfter]
    have whole : spelling = .singleton c ++ .ofList text := by
      simp [← String.toList_inj, spelled]
    rw [Kind.spelling, spelled, whole]
    exact .cons step (reads_word word)
  | quoted content =>
    have step : step ⟨.between, operand, line, start⟩ quote.char =
        ([], ⟨.quoted quote.char false "", operand, line, line⟩) := by cases quote <;> rfl
    have whole : content = "" ++ .ofList content.toList := by simp
    have reads := Reads.cons step (reads_quoted quote "" content.toList)
    rwa [← whole] at reads
  | spread =>
    have first : step ⟨.between, operand, line, start⟩ '.' =
        ([], ⟨.dots false, operand, line, line⟩) := rfl
    have second : step ⟨.dots false, operand, line, line⟩ '.' =
        ([], ⟨.dots true, operand, line, line⟩) := rfl
    exact .cons first (.cons second (.close rfl))
  | template =>
    have opened : step ⟨.between, operand, line, start⟩ '\x60' =
        ([], ⟨.template .plain 0, operand, line, line⟩) := rfl
    exact .cons opened (.close rfl)
  | regex =>
    obtain rfl : operand = true := fits
    have opened : step ⟨.between, true, line, start⟩ '/' = ([], ⟨.slash, true, line, line⟩) := rfl
    have body : step ⟨.slash, true, line, line⟩ 'a' =
        ([], ⟨.regex false false, true, line, line⟩) := rfl
    have closed : step ⟨.regex false false, true, line, line⟩ '/' =
        ([], ⟨.regexFlags, true, line, line⟩) := rfl
    have blank : isWordChar ' ' = false := by decide
    refine .cons opened (.cons body (.cons closed (.nil rfl fun rest => ?_)))
    simp [Phase.endsBefore, Phase.extend, blank]
  | other c => exact reads_other fits
  | _ => exact .close rfl

end Reads

/-- A blank sets a token apart from what follows. -/
theorem tokens_of_reads {kind : Kind} {operand : Bool} {line : Nat} {text : List Char}
    (reads : Reads ⟨.between, operand, line, line⟩ text kind) (rest : List Char) :
    ∃ later, (tokens ⟨.between, operand, line, line⟩ (text ++ ' ' :: rest)).map (·.kind) =
      kind :: (tokens ⟨.between, kind.precedesOperand, later, later⟩ rest).map (·.kind) := by
  have onLine : DotsOnLine ⟨.between, operand, line, line⟩ := fun _ dots => nomatch dots
  rw [tokens_append_of_endsBefore onLine (List.cons_ne_nil _ _) (reads.ends rest),
    tokens_blank (by decide), List.map_append, reads.tokens]
  exact ⟨_, rfl⟩

theorem tokens_intercalate {printed : List (Kind × Quote)} {operand : Bool} (line : Nat)
    (wellFormed : WellFormed operand (printed.map Prod.fst)) :
    (tokens ⟨.between, operand, line, line⟩
      ([' '].intercalate (printed.map fun entry => entry.1.spelling entry.2))).map (·.kind) =
        printed.map Prod.fst := by
  induction printed generalizing operand line with
  | nil => rfl
  | cons first printed ih =>
    obtain ⟨kind, quote⟩ := first
    obtain ⟨fits, wellFormed⟩ := wellFormed
    have reads : Reads ⟨.between, operand, line, line⟩ (kind.spelling quote) kind :=
      reads_spelling quote fits
    cases printed with
    | nil =>
      rw [List.map_singleton, List.intercalate_singleton]
      exact reads.tokens
    | cons second printed =>
      simp only [List.map_cons, List.intercalate_cons_cons, List.append_assoc,
        List.singleton_append] at ih ⊢
      obtain ⟨later, tokens⟩ := tokens_of_reads reads
        ([' '].intercalate (second.1.spelling second.2 ::
          printed.map fun entry => entry.1.spelling entry.2))
      rw [tokens, ih later wellFormed]

end Lexer

theorem kinds_ofText_print {printed : List (Kind × Quote)}
    (wellFormed : WellFormed true (printed.map Prod.fst)) (line : Nat) :
    (ofText (print printed) line).map (·.kind) = printed.map Prod.fst := by
  rw [ofText, print, String.toList_ofList]
  exact Lexer.tokens_intercalate line wellFormed

/-- Lexing undoes printing, and the kinds that lexing finds are those that can be printed. Hence
the tokens of a text survive printing and lexing once more. -/
theorem ofText_print :
    (∀ (printed : List (Kind × Quote)) (line : Nat), WellFormed true (printed.map Prod.fst) →
      (ofText (print printed) line).map (·.kind) = printed.map Prod.fst) ∧
    (∀ (text : String) (line : Nat), WellFormed true ((ofText text line).map (·.kind))) ∧
    ∀ (text : String) (line again : Nat) (printed : List (Kind × Quote)),
      printed.map Prod.fst = (ofText text line).map (·.kind) →
        (ofText (print printed) again).map (·.kind) = (ofText text line).map (·.kind) := by
  refine ⟨fun printed line wellFormed => kinds_ofText_print wellFormed line, wellFormed_ofText,
    fun text line again printed kinds => ?_⟩
  rw [← kinds]
  refine kinds_ofText_print ?_ again
  rw [kinds]
  exact wellFormed_ofText text line

/-- A regex in either place, a division, dots that are no spread, and each character that is
escaped in one string or the other. -/
def assorted : List (Kind × Quote) := [
  (.regex, .single), (.other '/', .single), (.word "return", .single), (.regex, .double),
  (.other '.', .single), (.other '.', .single), (.other '.', .single), (.spread, .single),
  (.quoted "'\\\"\n", .single), (.colon, .double), (.quoted "'\\\"\n", .double),
  (.template, .single)]

theorem ofText_print_assorted :
    WellFormed true (assorted.map Prod.fst) ∧
    (ofText (print assorted) 3).map (·.kind) = assorted.map Prod.fst ∧
    WellFormed true ((ofText "a: /\x7b/g /* , */ / 2" 1).map (·.kind)) ∧
    (ofText (print ((ofText "a: /\x7b/g /* , */ / 2" 1).map (·.kind, .double))) 4).map (·.kind) =
      (ofText "a: /\x7b/g /* , */ / 2" 1).map (·.kind) := by
  have fits : WellFormed true (assorted.map Prod.fst) := by decide +kernel
  refine ⟨fits, ofText_print.1 assorted 3 fits, ofText_print.2.1 _ 1,
    ofText_print.2.2 _ 1 4 _ ?_⟩
  simp [Function.comp_def]

end StyleAudit.Token
