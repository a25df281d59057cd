import StyleAudit.Proofs.Token.Boundary

/-! Carriage returns before the line breaks of a text. Every element but a string takes the two
characters as it takes the line break alone. A string that a line break ends has the carriage
return in its content, and after a backslash it goes on behind a line break only if there is
none. -/
namespace StyleAudit.Token

open Reading (isPlainName)

/-- The text with a carriage return before each line break. -/
def insertReturns (text : List Char) : List Char :=
  text.flatMap fun c => if c = '\n' then ['\r', '\n'] else [c]

/-- Token lists that differ in the contents of strings which no kind in `marker` names and which
do not name an entry. -/
inductive Alike (marker : List Kind) : List Token → List Token → Prop where
  | nil : Alike marker [] []
  | same (token : Token) : Alike marker tokens others →
      Alike marker (token :: tokens) (token :: others)
  | content (line : Nat) : .quoted content ∉ marker → .quoted other ∉ marker →
      (tokens.head?.map (·.kind) = some .colon →
        isPlainName content = false ∧ isPlainName other = false) →
      Alike marker tokens others →
      Alike marker (⟨.quoted content, line⟩ :: tokens) (⟨.quoted other, line⟩ :: others)

theorem Alike.append {marker : List Kind} {tokens others : List Token} (first : List Token)
    (alike : Alike marker tokens others) : Alike marker (first ++ tokens) (first ++ others) := by
  induction first with
  | nil => exact alike
  | cons token first ih => exact .same token ih

theorem Alike.refl (marker : List Kind) (tokens : List Token) : Alike marker tokens tokens := by
  induction tokens with
  | nil => exact .nil
  | cons token tokens ih => exact .same token ih

theorem isPlainName_push_return (content : String) : isPlainName (content.push '\r') = false := by
  simp [isPlainName, String.toList_push]

theorem Phase.quote_of_opening {c quote : Char} {escaped : Bool} {content : String}
    (opening : Phase.opening c = .stay (.quoted quote escaped content)) : quote ≠ '\r' := by
  unfold Phase.opening at opening
  split at opening
  · cases opening
  · split at opening
    case h_3 | h_4 =>
      cases opening
      decide
    case h_6 => split at opening <;> cases opening
    all_goals cases opening

theorem Phase.quote_of_extend {operand : Bool} {phase : Phase} {c quote : Char} {escaped : Bool}
    {content : String} (extension : phase.extend operand c =
      .belongs (.stay (.quoted quote escaped content))) :
    ∃ before earlier, phase = .quoted quote before earlier := by
  cases continues_of_extend extension with
  | quoted => exact ⟨_, _, rfl⟩

namespace Lexer

/-- No open string waits for a carriage return. -/
def Quotes (lexer : Lexer) : Prop :=
  ∀ quote escaped content, lexer.phase = .quoted quote escaped content → quote ≠ '\r'

theorem step_quotes {lexer : Lexer} (quotes : lexer.Quotes) (c : Char) :
    (lexer.step c).2.Quotes := by
  obtain ⟨phase, operand, line, start⟩ := lexer
  have opened (operand : Bool) : (take operand line line c (Phase.opening c)).2.Quotes := by
    intro quote escaped content quoted
    cases opening : Phase.opening c with
    | close kind => simp [opening, take] at quoted
    | stay next =>
      simp only [opening, take] at quoted
      exact Phase.quote_of_opening (opening.trans (by rw [quoted]))
  simp only [step]
  cases extension : phase.extend operand c with
  | after kinds => exact opened _
  | belongs move =>
    intro quote escaped content quoted
    cases move with
    | close kind => simp [take] at quoted
    | stay next =>
      simp only [take] at quoted
      obtain ⟨before, earlier, here⟩ := Phase.quote_of_extend (extension.trans (by rw [quoted]))
      exact quotes quote before earlier here

/-- Apart from strings, the two characters do what the line break alone does. -/
theorem step_return {lexer : Lexer}
    (unquoted : ∀ quote escaped content, lexer.phase ≠ .quoted quote escaped content) :
    (lexer.step '\r').1 ++ ((lexer.step '\r').2.step '\n').1 = (lexer.step '\n').1 ∧
      ((lexer.step '\r').2.step '\n').2 = (lexer.step '\n').2 := by
  obtain ⟨phase, operand, line, start⟩ := lexer
  cases phase with
  | quoted quote escaped content => exact absurd rfl (unquoted quote escaped content)
  | dots two => cases two <;> exact ⟨rfl, rfl⟩
  | slash => cases operand <;> exact ⟨rfl, rfl⟩
  | blockComment star => cases star <;> exact ⟨rfl, rfl⟩
  | template mark depth => cases mark <;> cases depth <;> exact ⟨rfl, rfl⟩
  | regex escaped inClass => cases escaped <;> exact ⟨rfl, rfl⟩
  | _ => exact ⟨rfl, rfl⟩

/-- How a line break with a carriage return before it may find the lexer. A string that it ends
is no string of the marker, with or without the carriage return, and is no name before a colon.
A string does not go on behind it. -/
def BreaksFreely (marker : List Kind) (lexer : Lexer) (rest : List Char) : Prop :=
  match lexer.phase with
  | .quoted _ escaped content =>
    escaped = false ∧ .quoted content ∉ marker ∧ .quoted (content.push '\r') ∉ marker ∧
      ((lexer.ended.tokens ('\n' :: rest)).head?.map (·.kind) = some .colon →
        isPlainName content = false)
  | _ => True

instance (marker : List Kind) (lexer : Lexer) (rest : List Char) :
    Decidable (lexer.BreaksFreely marker rest) := by
  unfold BreaksFreely
  split <;> infer_instance

section Broken

variable {quote : Char} {content : String} {operand : Bool} {line start : Nat}

theorem tokens_broken (text : List Char) :
    tokens ⟨.quoted quote false content, operand, line, start⟩ ('\n' :: text) =
      ⟨.quoted content, start⟩ :: tokens ⟨.between, false, line + 1, line⟩ text := by
  have step : step ⟨.quoted quote false content, operand, line, start⟩ '\n' =
      ([⟨.quoted content, start⟩], ⟨.between, false, line + 1, line⟩) := step_lineBreak rfl
  rw [tokens_cons, step, List.singleton_append]

theorem tokens_return_broken (other : quote ≠ '\r') (text : List Char) :
    tokens ⟨.quoted quote false content, operand, line, start⟩ ('\r' :: '\n' :: text) =
      ⟨.quoted (content.push '\r'), start⟩ :: tokens ⟨.between, false, line + 1, line⟩ text := by
  have step : step ⟨.quoted quote false content, operand, line, start⟩ '\r' =
      ([], ⟨.quoted quote false (content.push '\r'), operand, line, start⟩) := by
    simp [step, Phase.extend, quotedExtension, other.symm, take, bump]
  rw [tokens_cons, step, List.nil_append, tokens_broken]

end Broken

/-- Carriage returns change the contents of broken strings and nothing else. -/
theorem tokens_insertReturns {marker : List Kind} {lexer : Lexer} {text : List Char}
    (quotes : lexer.Quotes) (free : ∀ before after, text = before ++ '\n' :: after →
      (lexer.after before).BreaksFreely marker after) :
    Alike marker (lexer.tokens text) (lexer.tokens (insertReturns text)) := by
  induction text generalizing lexer with
  | nil => exact .refl marker _
  | cons c text ih =>
    have later := ih (step_quotes quotes c) fun before after split => by
      rw [← (run_cons c before).2]
      exact free (c :: before) after (by rw [split, List.cons_append])
    by_cases lineBreak : c = '\n'
    · subst lineBreak
      have pair : insertReturns ('\n' :: text) = '\r' :: '\n' :: insertReturns text := rfl
      rw [pair]
      by_cases quoted : ∃ quote escaped content, lexer.phase = .quoted quote escaped content
      · obtain ⟨quote, escaped, content, phase⟩ := quoted
        have freely := free [] text rfl
        have other := quotes quote escaped content phase
        obtain ⟨_, operand, line, start⟩ := lexer
        subst phase
        obtain ⟨rfl, foreign, foreignReturn, unnamed⟩ := freely
        rw [tokens_broken, tokens_return_broken other]
        exact .content start foreign foreignReturn
          (fun colon => ⟨unnamed colon, isPlainName_push_return content⟩) later
      · have unquoted : ∀ quote escaped content, lexer.phase ≠ .quoted quote escaped content :=
          fun quote escaped content phase => quoted ⟨quote, escaped, content, phase⟩
        obtain ⟨read, left⟩ := step_return unquoted
        rw [tokens_cons, tokens_cons, tokens_cons, ← List.append_assoc, read, left]
        exact later.append _
    · have single : insertReturns (c :: text) = c :: insertReturns text := by
        simp [insertReturns, lineBreak]
      rw [single, tokens_cons, tokens_cons]
      exact later.append _

end Lexer

end StyleAudit.Token
