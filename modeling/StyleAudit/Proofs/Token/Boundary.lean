import StyleAudit.Proofs.Lines.Source

/-! Places of a text between two lexical elements. What follows such a place owes nothing to the
text before it but the line and whether an operand is due. -/
namespace StyleAudit.Token

/-- Whether the open element ends when the text goes on like this. One dot or two are elements
of their own unless the text makes a spread of them. -/
def Phase.endsBefore (operand : Bool) : Phase → List Char → Bool
  | .between, _ => true
  | .dots two, text => !(if two then ['.'] else ['.', '.']).isPrefixOf text
  | _, [] => true
  | phase, c :: _ =>
    match phase.extend operand c with
    | .after _ => true
    | .belongs _ => false

theorem Phase.extend_of_endsBefore {operand : Bool} {phase : Phase} {c : Char} {text : List Char}
    (ends : phase.endsBefore operand (c :: text) = true) :
    phase.extend operand c = .after (phase.pending operand) ∨
      phase = .dots false ∧ c = '.' ∧ text.head? ≠ some '.' := by
  have settle (after : ∃ kinds, phase.extend operand c = .after kinds) :
      phase.extend operand c = .after (phase.pending operand) := by
    obtain ⟨kinds, after⟩ := after
    rw [after, eq_pending_of_extend after]
  cases phase with
  | between => exact .inl rfl
  | dots two =>
    by_cases dot : c = '.'
    · subst dot
      cases two with
      | true => simp [endsBefore] at ends
      | false =>
        refine .inr ⟨rfl, rfl, fun spread => ?_⟩
        obtain ⟨rest, rfl⟩ := List.head?_eq_some_iff.mp spread
        simp [endsBefore] at ends
    · exact .inl (settle ⟨_, if_neg dot⟩)
  | _ =>
    simp only [endsBefore] at ends
    split at ends
    next kinds after => exact .inl (settle ⟨kinds, after⟩)
    next => cases ends

theorem Phase.spansLines_of_endsBefore {operand : Bool} {phase : Phase} {c : Char}
    {text : List Char} (ends : phase.endsBefore operand (c :: text) = true) :
    phase.spansLines = false := by
  cases phase with
  | blockComment | template => simp [endsBefore, extend] at ends
  | quoted quote escaped content =>
    cases escaped with
    | true => simp [endsBefore, extend, quotedExtension] at ends
    | false => rfl
  | _ => rfl

theorem Phase.dot_of_opening {c : Char} {two : Bool}
    (opening : Phase.opening c = .stay (.dots two)) : c = '.' := by
  unfold Phase.opening at opening
  split at opening
  · cases opening
  · split at opening <;> first | rfl | cases opening | skip
    split at opening <;> cases opening

/-- What an open element becomes when a character belongs to it and completes no token. -/
inductive Phase.Continues (c : Char) : Phase → Phase → Prop where
  | dots : c = '.' → Continues c (.dots false) (.dots true)
  | lineComment : c = '/' → Continues c .slash .lineComment
  | blockComment : c = '*' → Continues c .slash (.blockComment false)
  | regex : Continues c .slash (.regex escaped inClass)
  | inLineComment : Continues c .lineComment .lineComment
  | inBlockComment {star star' : Bool} : Continues c (.blockComment star) (.blockComment star')
  | closed : c = '/' → Continues c (.blockComment true) .between
  | quoted : Continues c (.quoted quote escaped content) (.quoted quote escaped' content')
  | template : Continues c (.template mark depth) (.template mark' depth')
  | inRegex : Continues c (.regex escaped inClass) (.regex escaped' inClass')
  | regexFlags : Continues c (.regex escaped inClass) .regexFlags
  | inRegexFlags : Continues c .regexFlags .regexFlags
  | word : Continues c (.word spelling) (.word spelling')

theorem Phase.continues_of_extend {operand : Bool} {phase next : Phase} {c : Char}
    (extension : phase.extend operand c = .belongs (.stay next)) : Continues c phase next := by
  cases phase with
  | between => cases extension
  | dots two =>
    simp only [extend] at extension
    split at extension
    next dot =>
      cases two <;> cases extension
      exact .dots dot
    next => cases extension
  | slash =>
    simp only [extend] at extension
    split at extension
    next slash =>
      cases extension
      exact .lineComment slash
    next noLine =>
      split at extension
      next star =>
        cases extension
        exact .blockComment star
      next =>
        simp only [regexExtension] at extension
        (repeat' split at extension) <;> cases extension <;> first | exact .regex | contradiction
  | lineComment =>
    simp only [extend] at extension
    split at extension <;> cases extension
    exact .inLineComment
  | blockComment star =>
    cases extension
    cases star with
    | false => exact .inBlockComment
    | true =>
      by_cases slash : c = '/'
      · subst slash
        exact .closed rfl
      · have open' : (true && c == '/') = false := by simp [slash]
        rw [open']
        exact .inBlockComment
  | quoted =>
    simp only [extend, quotedExtension] at extension
    (repeat' split at extension) <;> cases extension <;> exact .quoted
  | template =>
    simp only [extend, templateMove] at extension
    split at extension <;> cases extension <;> exact .template
  | regex =>
    simp only [extend, regexExtension] at extension
    (repeat' split at extension) <;> cases extension <;> first | exact .inRegex | exact .regexFlags
  | regexFlags =>
    simp only [extend] at extension
    split at extension <;> cases extension
    exact .inRegexFlags
  | word =>
    simp only [extend] at extension
    split at extension <;> cases extension
    exact .word

theorem Phase.dot_of_extend {operand : Bool} {phase : Phase} {c : Char} {two : Bool}
    (extension : phase.extend operand c = .belongs (.stay (.dots two))) :
    phase = .dots false ∧ c = '.' := by
  cases continues_of_extend extension with
  | dots dot => exact ⟨rfl, dot⟩

namespace Lexer

/-- The lexer once its open element has ended where it stands. -/
def ended (lexer : Lexer) : Lexer :=
  ⟨.between, operandAfter lexer.operand (lexer.pending.map (·.kind)), lexer.line, lexer.line⟩

/-- Dots stand on the line they begin on. -/
def DotsOnLine (lexer : Lexer) : Prop := ∀ two, lexer.phase = .dots two → lexer.start = lexer.line

section Run

variable {lexer : Lexer}

theorem pending_kinds (lexer : Lexer) :
    lexer.pending.map (·.kind) = lexer.phase.pending lexer.operand := by
  simp [pending, Function.comp_def]

theorem step_of_after {c : Char}
    (after : lexer.phase.extend lexer.operand c = .after (lexer.phase.pending lexer.operand)) :
    lexer.step c = (lexer.pending ++ (lexer.ended.step c).1, (lexer.ended.step c).2) := by
  have kinds := lexer.pending_kinds
  obtain ⟨phase, operand, line, start⟩ := lexer
  have afresh (operand : Bool) : step ⟨.between, operand, line, line⟩ c =
    take operand line line c (Phase.opening c) := rfl
  rw [ended, kinds, afresh]
  simp only [step, after, pending]

theorem tokens_of_after {c : Char} (text : List Char)
    (after : lexer.phase.extend lexer.operand c = .after (lexer.phase.pending lexer.operand)) :
    lexer.tokens (c :: text) = lexer.pending ++ lexer.ended.tokens (c :: text) := by
  rw [tokens_cons, tokens_cons, step_of_after after, List.append_assoc]

/-- Two dots before something else are read as if each stood alone. -/
theorem tokens_dot {text : List Char} (alone : text.head? ≠ some '.') (operand : Bool)
    (line : Nat) : tokens ⟨.dots false, operand, line, line⟩ ('.' :: text) =
      ⟨.other '.', line⟩ :: tokens ⟨.between, false, line, line⟩ ('.' :: text) := by
  have first : step ⟨.dots false, operand, line, line⟩ '.' =
      ([], ⟨.dots true, operand, line, line⟩) := rfl
  have second : step ⟨.between, false, line, line⟩ '.' =
      ([], ⟨.dots false, false, line, line⟩) := rfl
  rw [tokens_cons, tokens_cons, first, second, List.nil_append, List.nil_append]
  cases text with
  | nil => rfl
  | cons c text =>
    have other : c ≠ '.' := fun dot => alone (by rw [dot]; rfl)
    have after (two operand : Bool) : (Phase.dots two).extend operand c =
      .after ((Phase.dots two).pending operand) := if_neg other
    have pair : tokens ⟨.dots true, operand, line, line⟩ (c :: text) =
        [⟨.other '.', line⟩, ⟨.other '.', line⟩] ++ tokens ⟨.between, false, line, line⟩ (c :: text) :=
      tokens_of_after text (after true operand)
    have single : tokens ⟨.dots false, false, line, line⟩ (c :: text) =
        [⟨.other '.', line⟩] ++ tokens ⟨.between, false, line, line⟩ (c :: text) :=
      tokens_of_after text (after false false)
    rw [pair, single]
    rfl

/-- The tokens of what follows an element that ends are those of a text of its own. -/
theorem tokens_of_endsBefore {text : List Char} (nonempty : text ≠ []) (onLine : lexer.DotsOnLine)
    (ends : lexer.phase.endsBefore lexer.operand text = true) :
    lexer.tokens text = lexer.pending ++ lexer.ended.tokens text := by
  obtain ⟨c, text, rfl⟩ := List.exists_cons_of_ne_nil nonempty
  rcases Phase.extend_of_endsBefore ends with after | ⟨dots, rfl, alone⟩
  · exact tokens_of_after text after
  · have start := onLine false dots
    obtain ⟨phase, operand, line, _⟩ := lexer
    cases dots
    cases start
    exact tokens_dot alone operand line

theorem step_dotsOnLine (onLine : lexer.DotsOnLine) (c : Char) : (lexer.step c).2.DotsOnLine := by
  obtain ⟨phase, operand, line, start⟩ := lexer
  have opened (operand : Bool) : (take operand line line c (Phase.opening c)).2.DotsOnLine := by
    intro two dots
    cases opening : Phase.opening c with
    | close kind => simp [opening, take] at dots
    | stay next =>
      simp only [opening, take] at dots ⊢
      obtain rfl := Phase.dot_of_opening (opening.trans (by rw [dots]))
      rfl
  simp only [step]
  cases extension : phase.extend operand c with
  | after kinds => exact opened _
  | belongs move =>
    intro two dots
    cases move with
    | close kind => simp [take] at dots
    | stay next =>
      simp only [take] at dots ⊢
      obtain ⟨rfl, rfl⟩ := Phase.dot_of_extend (extension.trans (by rw [dots]))
      exact onLine false rfl

theorem after_dotsOnLine (onLine : lexer.DotsOnLine) (text : List Char) :
    (lexer.after text).DotsOnLine := by
  induction text generalizing lexer with
  | nil => exact onLine
  | cons c text ih =>
    rw [(run_cons c text).2]
    exact ih (step_dotsOnLine onLine c)

theorem ended_after (lexer : Lexer) (text : List Char) : (lexer.after text).ended =
    ⟨.between, operandAfter lexer.operand ((lexer.tokens text).map (·.kind)),
      lexer.line + text.count '\n', lexer.line + text.count '\n'⟩ := by
  rw [ended, after_operand, operandAfter_append, after_line, tokens_eq, List.map_append]

/-- A text cut between two elements is lexed part by part. -/
theorem tokens_append_of_endsBefore {s t : List Char} (onLine : lexer.DotsOnLine)
    (nonempty : t ≠ [])
    (ends : (lexer.after s).phase.endsBefore (lexer.after s).operand t = true) :
    lexer.tokens (s ++ t) = lexer.tokens s ++
      tokens ⟨.between, operandAfter lexer.operand ((lexer.tokens s).map (·.kind)),
        lexer.line + s.count '\n', lexer.line + s.count '\n'⟩ t := by
  rw [← ended_after, tokens_eq s, List.append_assoc,
    ← tokens_of_endsBefore nonempty (after_dotsOnLine onLine s) ends]
  exact tokens_append lexer s t

end Run

end Lexer

/-- No element is open between two parts of a text. -/
def Boundary (s t : List Char) : Prop :=
  ((Lexer.initial 1).after s).phase.endsBefore ((Lexer.initial 1).after s).operand t = true

instance (s t : List Char) : Decidable (Boundary s t) := by
  unfold Boundary
  infer_instance

/-- The tokens of `t` in a text where it follows `s`, whose first character is on `line`. -/
def following (s t : List Char) (line : Nat) : List Token :=
  Lexer.tokens ⟨.between,
    Lexer.operandAfter true (((Lexer.initial line).tokens s).map (·.kind)),
    line + s.count '\n', line + s.count '\n'⟩ t

variable {s t : List Char}

/-- Where a text may be cut does not depend on its first line. -/
theorem Boundary.endsBefore (boundary : Boundary s t) (line : Nat) :
    ((Lexer.initial line).after s).phase.endsBefore ((Lexer.initial line).after s).operand t =
      true := by
  have later (line : Nat) : (Lexer.initial line).after s =
      ((Lexer.initial 0).after s).later line := by
    rw [← Lexer.after_later]
    simp [Lexer.later, Lexer.initial]
  rw [Boundary, later 1] at boundary
  rw [later line]
  exact boundary

theorem Boundary.tokens_append (boundary : Boundary s t) (nonempty : t ≠ []) (line : Nat) :
    (Lexer.initial line).tokens (s ++ t) =
      (Lexer.initial line).tokens s ++ following s t line :=
  Lexer.tokens_append_of_endsBefore (fun _ dots => nomatch dots) nonempty
    (boundary.endsBefore line)

example : Boundary ['a', '.'] ['.', 'b'] ∧ ¬ Boundary ['a', '.'] ['.', '.', 'b'] := by decide

end StyleAudit.Token
