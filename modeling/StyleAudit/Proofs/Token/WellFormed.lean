import StyleAudit.Proofs.Token.Boundary

/-! Token kinds as a text can have them. A word or a sign has the characters that its kind
promises, and a slash is a regex exactly where an operand is due. -/
namespace StyleAudit.Token

/-- Characters that never stand for themselves. -/
def reserved : List Char :=
  ['\x7b', '\x7d', '(', ')', '[', ']', ':', ',', '\'', '"', '\x60']

/-- Whether a token of this kind can stand where an operand is due, or where none is. -/
def Kind.Fits (operand : Bool) : Kind → Prop
  | .word spelling => spelling ≠ "" ∧ ∀ c ∈ spelling.toList, isWordChar c = true
  | .other c => Text.isBlank c = false ∧ isWordChar c = false ∧ c ∉ reserved ∧
    (c = '/' → operand = false)
  | .regex => operand = true
  | _ => True

instance decidableFits (operand : Bool) : (kind : Kind) → Decidable (kind.Fits operand)
  | .word spelling =>
    decidable_of_iff (spelling ≠ "" ∧ spelling.toList.all isWordChar = true) (by
      rw [List.all_eq_true]
      rfl)
  | .other c => inferInstanceAs (Decidable (Text.isBlank c = false ∧ isWordChar c = false ∧
      c ∉ reserved ∧ (c = '/' → operand = false)))
  | .regex => inferInstanceAs (Decidable (operand = true))
  | .leftBrace | .rightBrace | .leftParen | .rightParen | .leftBracket | .rightBracket | .colon
  | .comma | .spread | .quoted _ | .template => .isTrue trivial

/-- Each kind fits its place. Whether an operand is due is settled by the kind before, and by
`operand` for the first. -/
def WellFormed (operand : Bool) : List Kind → Prop
  | [] => True
  | kind :: kinds => kind.Fits operand ∧ WellFormed kind.precedesOperand kinds

instance decidableWellFormed (operand : Bool) :
    (kinds : List Kind) → Decidable (WellFormed operand kinds)
  | [] => .isTrue trivial
  | kind :: kinds =>
    have := decidableWellFormed kind.precedesOperand kinds
    inferInstanceAs (Decidable (_ ∧ _))

theorem wellFormed_append {operand : Bool} {first second : List Kind} :
    WellFormed operand (first ++ second) ↔
      WellFormed operand first ∧ WellFormed (Lexer.operandAfter operand first) second := by
  induction first generalizing operand with
  | nil => simp [WellFormed, Lexer.operandAfter]
  | cons kind first ih =>
    have last : Lexer.operandAfter operand (kind :: first) =
        Lexer.operandAfter kind.precedesOperand first := by
      simp only [Lexer.operandAfter, List.getLast?_cons]
      cases first.getLast? <;> rfl
    rw [List.cons_append, WellFormed, WellFormed, ih, last, and_assoc]

/-- An open element that can become tokens that fit. -/
def Phase.Fits (operand : Bool) : Phase → Prop
  | .word spelling => spelling ≠ "" ∧ ∀ c ∈ spelling.toList, isWordChar c = true
  | .regex _ _ | .regexFlags => operand = true
  | _ => True

def Move.Fits (operand : Bool) : Move → Prop
  | .stay phase => phase.Fits operand
  | .close kind => kind.Fits operand

theorem fits_dot (operand : Bool) : (Kind.other '.').Fits operand := by
  refine ⟨by decide, by decide, by decide, fun slash => ?_⟩
  simp at slash

theorem Phase.Fits.pending {operand : Bool} {phase : Phase} (fits : phase.Fits operand) :
    WellFormed operand (phase.pending operand) := by
  cases phase with
  | between | lineComment | blockComment => trivial
  | dots two =>
    cases two with
    | false => exact ⟨fits_dot operand, trivial⟩
    | true => exact ⟨fits_dot operand, fits_dot false, trivial⟩
  | slash =>
    cases operand with
    | true => exact ⟨rfl, trivial⟩
    | false => exact ⟨⟨by decide, by decide, by decide, fun _ => rfl⟩, trivial⟩
  | quoted | template => exact ⟨trivial, trivial⟩
  | regex | regexFlags => exact ⟨fits, trivial⟩
  | word => exact ⟨fits, trivial⟩

theorem Kind.ofChar_fits {c : Char} (operand : Bool) (visible : Text.isBlank c = false)
    (sign : isWordChar c = false) (plain : c ∉ ['/', '\'', '"', '\x60']) :
    (Kind.ofChar c).Fits operand := by
  unfold Kind.ofChar
  split
  case h_9 =>
    have unreserved : c ∉ reserved := by simp_all [reserved]
    exact ⟨visible, sign, unreserved, fun slash => absurd (by simp [slash]) plain⟩
  all_goals trivial

theorem Phase.opening_fits (operand : Bool) (c : Char) : (Phase.opening c).Fits operand := by
  unfold Phase.opening
  split
  next => trivial
  next visible =>
    rw [Bool.not_eq_true] at visible
    split
    case h_6 =>
      split
      next word =>
        refine ⟨by simp, fun other member => ?_⟩
        obtain rfl : other = c := by simpa using member
        exact word
      next sign => exact Kind.ofChar_fits operand visible (by simpa using sign) (by simp_all)
    all_goals trivial

theorem regexExtension_fits {operand escaped inClass : Bool} {c : Char} {move : Move}
    (due : operand = true) (extension : regexExtension escaped inClass c = .belongs move) :
    move.Fits operand := by
  unfold regexExtension at extension
  (repeat' split at extension) <;> cases extension <;> exact due

theorem Phase.Fits.extend {operand : Bool} {phase : Phase} {c : Char} {move : Move}
    (fits : phase.Fits operand) (extension : phase.extend operand c = .belongs move) :
    move.Fits operand := by
  cases phase with
  | slash =>
    simp only [Phase.extend] at extension
    split at extension
    · cases extension
      trivial
    · split at extension
      · cases extension
        trivial
      · split at extension
        next due => exact regexExtension_fits due extension
        next => cases extension
  | regex escaped inClass => exact regexExtension_fits fits extension
  | regexFlags =>
    simp only [Phase.extend] at extension
    split at extension <;> cases extension
    exact fits
  | word spelling =>
    simp only [Phase.extend] at extension
    split at extension
    next word =>
      cases extension
      refine ⟨String.push_ne_empty, fun other member => ?_⟩
      rw [String.toList_push, List.mem_append] at member
      rcases member with member | member
      · exact fits.2 other member
      · obtain rfl : other = c := by simpa using member
        exact word
    next => cases extension
  | template mark depth =>
    cases extension
    unfold templateMove
    split <;> trivial
  | quoted quote escaped content =>
    simp only [Phase.extend, quotedExtension] at extension
    (repeat' split at extension) <;> cases extension <;> trivial
  | blockComment star =>
    cases extension
    simp only [Move.Fits]
    split <;> trivial
  | between => cases extension
  | dots two =>
    simp only [Phase.extend] at extension
    split at extension <;> cases extension
    cases two <;> trivial
  | lineComment =>
    simp only [Phase.extend] at extension
    split at extension <;> cases extension
    trivial

namespace Lexer

variable {lexer : Lexer}

/-- Taking a character keeps the tokens well formed and leaves an open element that fits. -/
theorem take_fits {operand : Bool} {move : Move} (fits : move.Fits operand)
    (line start : Nat) (c : Char) :
    WellFormed operand ((take operand line start c move).1.map (·.kind)) ∧
      (take operand line start c move).2.phase.Fits (take operand line start c move).2.operand := by
  cases move with
  | stay phase => exact ⟨trivial, fits⟩
  | close kind => exact ⟨⟨fits, trivial⟩, trivial⟩

theorem step_fits (fits : lexer.phase.Fits lexer.operand) (c : Char) :
    WellFormed lexer.operand ((lexer.step c).1.map (·.kind)) ∧
      (lexer.step c).2.phase.Fits (lexer.step c).2.operand := by
  obtain ⟨phase, operand, line, start⟩ := lexer
  simp only [step]
  cases extension : phase.extend operand c with
  | belongs move => exact take_fits (Phase.Fits.extend fits extension) line start c
  | after kinds =>
    obtain rfl := Phase.eq_pending_of_extend extension
    have opened := take_fits (Phase.opening_fits (operandAfter operand (phase.pending operand)) c)
      line line c
    refine ⟨?_, opened.2⟩
    simp only [List.map_append, List.map_map, Function.comp_def, List.map_id']
    exact wellFormed_append.mpr ⟨Phase.Fits.pending fits, opened.1⟩

theorem tokens_wellFormed (fits : lexer.phase.Fits lexer.operand) (text : List Char) :
    WellFormed lexer.operand ((lexer.tokens text).map (·.kind)) := by
  induction text generalizing lexer with
  | nil =>
    rw [tokens_eq]
    exact (pending_kinds lexer).symm ▸ Phase.Fits.pending fits
  | cons c text ih =>
    obtain ⟨complete, later⟩ := step_fits fits c
    rw [tokens_cons, List.map_append, wellFormed_append, ← step_operand]
    exact ⟨complete, ih later⟩

end Lexer

/-- Whatever the text, its tokens are well formed. -/
theorem wellFormed_ofText (text : String) (line : Nat) :
    WellFormed true ((ofText text line).map (·.kind)) :=
  have fits : (Lexer.initial line).phase.Fits (Lexer.initial line).operand := trivial
  Lexer.tokens_wellFormed fits text.toList

end StyleAudit.Token
