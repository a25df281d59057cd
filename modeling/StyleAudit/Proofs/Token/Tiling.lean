import StyleAudit.Proofs.Token.Filler
import StyleAudit.Proofs.Token.WellFormed

/-! Where the tokens of a text stand. Blanks and comments apart, every character belongs to one
token, and the line of a token counts the line breaks in all that comes before it. -/
namespace StyleAudit.Token

/-- The characters that a token may be read from. What a template or regex holds, and how a
string spells its content, is left open. -/
inductive Kind.Spelled : Kind → List Char → Prop where
  | leftBrace : Spelled .leftBrace ['\x7b']
  | rightBrace : Spelled .rightBrace ['\x7d']
  | leftParen : Spelled .leftParen ['(']
  | rightParen : Spelled .rightParen [')']
  | leftBracket : Spelled .leftBracket ['[']
  | rightBracket : Spelled .rightBracket [']']
  | colon : Spelled .colon [':']
  | comma : Spelled .comma [',']
  | spread : Spelled .spread ['.', '.', '.']
  | other : c ∉ reserved → Spelled (.other c) [c]
  | word {spelling : String} : spelling ≠ "" → (∀ c ∈ spelling.toList, isWordChar c = true) →
      Spelled (.word spelling) spelling.toList
  | quoted : quote ∈ ['\'', '"'] → Spelled (.quoted content) (quote :: body)
  | template : Spelled .template ('\x60' :: body)
  | regex : Spelled .regex ('/' :: body)

/-- A text cut up into its tokens and the filler before each. -/
inductive Tiling (line : Nat) : List Char → List Token → Prop where
  | nil : Tiling line [] []
  | token {kind : Kind} : Tiling line text tokens → Filler gap → kind.Spelled lexeme →
      Tiling line (text ++ gap ++ lexeme)
        (tokens ++ [⟨kind, line + (text ++ gap).count '\n'⟩])

/-- What may stand behind the last token: filler, and a comment that the end of the text ends. -/
inductive LastGap : List Char → Prop where
  | filler : Filler gap → LastGap gap
  | lineComment : Filler gap → '\n' ∉ text → LastGap (gap ++ '/' :: '/' :: text)
  | blockComment : Filler gap → ¬ ['*', '/'] <:+: text → LastGap (gap ++ '/' :: '*' :: text)

theorem Kind.spelled_ofChar {c : Char} (plain : c ∉ ['\'', '"', '\x60']) :
    (Kind.ofChar c).Spelled [c] := by
  unfold Kind.ofChar
  split
  case h_9 => exact .other (by simp_all [reserved])
  all_goals constructor

theorem Kind.Spelled.ne_nil {kind : Kind} {lexeme : List Char} (spelled : kind.Spelled lexeme) :
    lexeme ≠ [] := by
  cases spelled with
  | word nonempty _ => simpa using nonempty
  | _ => simp

namespace Tiling

variable {line : Nat} {text : List Char} {tokens : List Token}

theorem line_le (tiling : Tiling line text tokens) :
    ∀ token ∈ tokens, token.line ≤ line + text.count '\n' := by
  induction tiling with
  | nil => simp
  | token _ _ _ ih =>
    intro token member
    rcases List.mem_append.mp member with earlier | last
    · have := ih token earlier
      simp only [List.count_append]
      omega
    · obtain rfl := List.mem_singleton.mp last
      simp only [List.count_append]
      omega

theorem ascending (tiling : Tiling line text tokens) :
    (tokens.map (·.line)).Pairwise (· ≤ ·) := by
  induction tiling with
  | nil => exact .nil
  | token before _ _ ih =>
    rw [List.map_append, List.pairwise_append]
    refine ⟨ih, List.pairwise_singleton _ _, ?_⟩
    intro earlier member last here
    obtain ⟨token, among, rfl⟩ := List.mem_map.mp member
    obtain rfl := List.mem_singleton.mp here
    have := before.line_le token among
    simp only [List.count_append]
    omega

theorem length_le (tiling : Tiling line text tokens) : tokens.length ≤ text.length := by
  induction tiling with
  | nil => exact Nat.le_refl 0
  | token _ _ spelled ih =>
    have := List.length_pos_iff.mpr spelled.ne_nil
    simp only [List.length_append, List.length_singleton]
    omega

end Tiling

/-- What has been read of the open element. Between elements it is what no token holds. -/
def Phase.Opened (opened : List Char) : Phase → Prop
  | .between => Filler opened
  | .dots two => opened = if two then ['.', '.'] else ['.']
  | .slash => opened = ['/']
  | .lineComment => ∃ text, opened = '/' :: '/' :: text ∧ '\n' ∉ text
  | .blockComment star => ∃ text, opened = '/' :: '*' :: text ∧ ¬ ['*', '/'] <:+: text ∧
      (text.getLast? = some '*' ↔ star = true)
  | .quoted quote _ _ => quote ∈ ['\'', '"'] ∧ ∃ body, opened = quote :: body
  | .template _ _ => ∃ body, opened = '\x60' :: body
  | .regex _ _ | .regexFlags => ∃ body, opened = '/' :: body
  | .word spelling =>
    spelling ≠ "" ∧ (∀ c ∈ spelling.toList, isWordChar c = true) ∧ opened = spelling.toList

def Move.Covers (read : List Char) : Move → Prop
  | .stay phase => phase.Opened read
  | .close kind => kind.Spelled read

theorem Phase.opening_covers (c : Char) : (Phase.opening c).Covers [c] := by
  unfold Phase.opening
  split
  next blank => exact Filler.blank blank .nil
  next =>
    split
    case h_1 | h_2 => rfl
    case h_3 | h_4 => exact ⟨by decide, [], rfl⟩
    case h_5 => exact ⟨[], rfl⟩
    case h_6 =>
      split
      next isWord => exact ⟨by simp, by simpa using isWord, by simp⟩
      next => exact Kind.spelled_ofChar (by simp_all)

theorem regexExtension_covers {escaped inClass : Bool} {c : Char} {move : Move}
    {body : List Char} (extension : regexExtension escaped inClass c = .belongs move) :
    move.Covers ('/' :: body) := by
  unfold regexExtension at extension
  (repeat' split at extension) <;> cases extension <;> exact ⟨body, rfl⟩

theorem templateMove_covers (mark : TemplateMark) (depth : Nat) (c : Char) (body : List Char) :
    (templateMove mark depth c).Covers ('\x60' :: body) := by
  unfold templateMove
  split
  case h_5 => exact Kind.Spelled.template
  all_goals exact ⟨body, rfl⟩

/-- A star before a slash closes a block comment, and nothing else does. -/
theorem Phase.Opened.blockComment {star : Bool} {opened : List Char}
    (held : (Phase.blockComment star).Opened opened) (c : Char) :
    (if star && c == '/' then Phase.between else .blockComment (c == '*')).Opened
      (opened ++ [c]) := by
  obtain ⟨text, rfl, unclosed, starred⟩ := held
  split
  next closes =>
    rw [Bool.and_eq_true, beq_iff_eq] at closes
    obtain ⟨before, rfl⟩ := List.getLast?_eq_some_iff.mp (starred.mpr closes.1)
    have inside : ¬ ['*', '/'] <:+: before := fun inner =>
      unclosed (inner.trans (List.prefix_append before ['*']).isInfix)
    have whole : '/' :: '*' :: (before ++ ['*']) ++ [c] =
        '/' :: '*' :: (before ++ '*' :: '/' :: []) := by simp [closes.2]
    rw [whole]
    exact Filler.blockComment inside .nil
  next stays =>
    refine ⟨text ++ [c], rfl, ?_, by simp⟩
    rw [List.infix_concat_iff, not_or]
    refine ⟨?_, unclosed⟩
    rintro ⟨before, ends⟩
    have split : (before ++ ['*']) ++ ['/'] = text ++ [c] := by simpa using ends
    obtain ⟨rfl, slash⟩ := List.append_inj' split rfl
    obtain rfl := List.singleton_inj.mp slash
    exact stays (by simp [← starred])

theorem Phase.Opened.extend {operand : Bool} {phase : Phase} {opened : List Char} {c : Char}
    {move : Move} (held : phase.Opened opened)
    (extension : phase.extend operand c = .belongs move) : move.Covers (opened ++ [c]) := by
  cases phase with
  | between => cases extension
  | dots two =>
    obtain rfl := held
    simp only [Phase.extend] at extension
    split at extension <;> cases extension
    next dot =>
      subst dot
      cases two with
      | false => rfl
      | true => exact Kind.Spelled.spread
  | slash =>
    obtain rfl := held
    simp only [Phase.extend] at extension
    split at extension
    next slash =>
      cases extension
      exact ⟨[], by simp [slash]⟩
    next =>
      split at extension
      next star =>
        cases extension
        exact ⟨[], by simp [star]⟩
      next =>
        split at extension
        next => exact regexExtension_covers extension
        next => cases extension
  | lineComment =>
    obtain ⟨text, rfl, flat⟩ := held
    simp only [Phase.extend] at extension
    split at extension <;> cases extension
    next other => exact ⟨text ++ [c], rfl, by simpa [flat] using Ne.symm other⟩
  | blockComment star =>
    cases extension
    exact held.blockComment c
  | quoted quote escaped content =>
    obtain ⟨isQuote, body, rfl⟩ := held
    simp only [Phase.extend, quotedExtension] at extension
    (repeat' split at extension) <;> cases extension <;>
      first | exact ⟨isQuote, body ++ [c], rfl⟩ | exact Kind.Spelled.quoted isQuote
  | template mark depth =>
    obtain ⟨body, rfl⟩ := held
    cases extension
    exact templateMove_covers mark depth c (body ++ [c])
  | regex escaped inClass =>
    obtain ⟨body, rfl⟩ := held
    exact regexExtension_covers extension
  | regexFlags =>
    obtain ⟨body, rfl⟩ := held
    simp only [Phase.extend] at extension
    split at extension <;> cases extension
    exact ⟨body ++ [c], rfl⟩
  | word spelling =>
    obtain ⟨nonempty, letters, rfl⟩ := held
    simp only [Phase.extend] at extension
    split at extension <;> cases extension
    next letter =>
      refine ⟨String.push_ne_empty, fun other member => ?_, by simp⟩
      rw [String.toList_push, List.mem_append, List.mem_singleton] at member
      rcases member with earlier | rfl
      · exact letters other earlier
      · exact letter

namespace Lexer

/-- A lexer that has read tokens and their gaps, then `gap` and the open element `opened`, which
begins on the line that the gap leads to. -/
structure Holds (line : Nat) (done gap opened : List Char) (found : List Token) (lexer : Lexer) :
    Prop where
  tiling : Tiling line done found
  skips : Filler gap
  held : lexer.phase.Opened opened
  line_eq : lexer.line = line + (done ++ gap ++ opened).count '\n'
  start_eq : lexer.phase ≠ .between → lexer.start = line + (done ++ gap).count '\n'

def Tiled (line : Nat) (text : List Char) (found : List Token) (lexer : Lexer) : Prop :=
  ∃ done gap opened, text = done ++ gap ++ opened ∧ Holds line done gap opened found lexer

section Tiled

variable {line : Nat} {done gap opened text : List Char} {found : List Token} {lexer : Lexer}

theorem Holds.ended (holds : Holds line done gap opened found lexer)
    (noLine : lexer.phase ≠ .lineComment) (noBlock : ∀ star, lexer.phase ≠ .blockComment star) :
    ∃ tiled left, done ++ gap ++ opened = tiled ++ left ∧ Filler left ∧
      Tiling line tiled (found ++ lexer.pending) := by
  obtain ⟨tiling, skips, held, -, start_eq⟩ := holds
  obtain ⟨phase, operand, here, start⟩ := lexer
  -- One token takes up the whole element.
  have single {kind : Kind} (isOpen : phase ≠ .between) (spelled : kind.Spelled opened) :
      ∃ tiled left, done ++ gap ++ opened = tiled ++ left ∧ Filler left ∧
        Tiling line tiled (found ++ [⟨kind, start⟩]) := by
    obtain rfl := start_eq isOpen
    exact ⟨_, [], (List.append_nil _).symm, .nil, .token tiling skips spelled⟩
  cases phase with
  | lineComment => exact absurd rfl noLine
  | blockComment star => exact absurd rfl (noBlock star)
  | between =>
    exact ⟨done, gap ++ opened, List.append_assoc _ _ _, skips.append held,
      by simpa [pending, Phase.pending] using tiling⟩
  | dots two =>
    obtain rfl := held
    cases two with
    | false => exact single (by simp) (.other (by decide))
    | true =>
      obtain rfl := start_eq (by simp)
      have dot : (Kind.other '.').Spelled ['.'] := .other (by decide)
      have second := (tiling.token skips dot).token .nil dot
      refine ⟨done ++ gap ++ ['.'] ++ [] ++ ['.'], [], by simp, .nil, ?_⟩
      simpa [pending, Phase.pending] using second
  | slash =>
    obtain rfl := held
    cases operand with
    | true => exact single (by simp) .regex
    | false => exact single (by simp) (.other (by decide))
  | quoted =>
    obtain ⟨isQuote, body, rfl⟩ := held
    exact single (by simp) (.quoted isQuote)
  | template =>
    obtain ⟨body, rfl⟩ := held
    exact single (by simp) .template
  | regex | regexFlags =>
    obtain ⟨body, rfl⟩ := held
    exact single (by simp) .regex
  | word spelling =>
    obtain ⟨nonempty, letters, rfl⟩ := held
    exact single (by simp) (.word nonempty letters)

theorem Tiled.initial (line : Nat) : Tiled line [] [] (.initial line) :=
  ⟨[], [], [], rfl, .nil, .nil, .nil, rfl, fun isOpen => absurd rfl isOpen⟩

theorem Tiled.take {operand : Bool} {here start : Nat} {c : Char} {move : Move}
    (tiling : Tiling line done found) (skips : Filler gap) (covers : move.Covers opened)
    (bumped : bump here c = line + (done ++ gap ++ opened).count '\n')
    (begins : move ≠ .stay .between → start = line + (done ++ gap).count '\n') :
    Tiled line (done ++ gap ++ opened) (found ++ (Lexer.take operand here start c move).1)
      (Lexer.take operand here start c move).2 := by
  cases move with
  | stay phase =>
    rw [Lexer.take, List.append_nil]
    exact ⟨done, gap, opened, rfl, tiling, skips, covers, bumped,
      fun isOpen => begins (by simpa using isOpen)⟩
  | close kind =>
    obtain rfl := begins (by simp)
    refine ⟨_, [], [], by simp, .token tiling skips covers, .nil, .nil, ?_,
      fun isOpen => absurd rfl isOpen⟩
    simpa [Lexer.take] using bumped

theorem Tiled.step (tiled : Tiled line text found lexer) (c : Char) :
    Tiled line (text ++ [c]) (found ++ (lexer.step c).1) (lexer.step c).2 := by
  obtain ⟨done, gap, opened, rfl, holds⟩ := tiled
  have bumped : bump lexer.line c = line + (done ++ gap ++ opened ++ [c]).count '\n' := by
    have := bump_add_count lexer.line c []
    have := holds.line_eq
    rw [List.count_append]
    simp only [List.count_nil] at *
    omega
  obtain ⟨phase, operand, here, start⟩ := lexer
  simp only [Lexer.step]
  cases extension : phase.extend operand c with
  | belongs move =>
    have isOpen : phase ≠ .between := by
      rintro rfl
      cases extension
    rw [List.append_assoc (done ++ gap)] at bumped ⊢
    exact .take holds.tiling holds.skips (holds.held.extend extension) bumped
      fun _ => holds.start_eq isOpen
  | after kinds =>
    by_cases lineComment : phase = .lineComment
    · -- The comment and the line break behind it are part of the gap.
      subst lineComment
      obtain ⟨text, rfl, flat⟩ := holds.held
      have lineBreak : c = '\n' := by
        simp only [Phase.extend] at extension
        split at extension <;> first | assumption | cases extension
      subst lineBreak
      cases extension
      have blank : Phase.opening '\n' = .stay .between := by decide
      have skipped : (Phase.opening '\n').Covers ('/' :: '/' :: text ++ ['\n']) := by
        rw [blank]
        exact Filler.lineComment flat .nil
      rw [List.append_assoc (done ++ gap)] at bumped ⊢
      exact .take holds.tiling holds.skips skipped bumped fun opens => absurd blank opens
    · have noBlock (star : Bool) : phase ≠ .blockComment star := by
        rintro rfl
        cases extension
      obtain ⟨tiled, left, same, skips, tiling⟩ := holds.ended lineComment noBlock
      obtain rfl := Phase.eq_pending_of_extend extension
      have begins := holds.line_eq
      rw [same] at begins bumped ⊢
      rw [← List.append_assoc]
      exact .take tiling skips (Phase.opening_covers c) bumped fun _ => begins

theorem Tiled.run (tiled : Tiled line text found lexer) (more : List Char) :
    Tiled line (text ++ more) (found ++ lexer.complete more) (lexer.after more) := by
  induction more generalizing text found lexer with
  | nil => simpa [complete, after, Lexer.run] using tiled
  | cons c more ih =>
    have later := ih (tiled.step c)
    rw [(run_cons c more).1, (run_cons c more).2]
    simpa using later

theorem Tiled.finish (tiled : Tiled line text found lexer) :
    ∃ done last, text = done ++ last ∧ Tiling line done (found ++ lexer.pending) ∧ LastGap last := by
  obtain ⟨done, gap, opened, rfl, holds⟩ := tiled
  by_cases lineComment : lexer.phase = .lineComment
  · have held := holds.held
    rw [lineComment] at held
    obtain ⟨text, rfl, flat⟩ := held
    refine ⟨done, _, List.append_assoc _ _ _, ?_, .lineComment holds.skips flat⟩
    simpa [pending, lineComment, Phase.pending] using holds.tiling
  by_cases blockComment : ∃ star, lexer.phase = .blockComment star
  · obtain ⟨star, blockComment⟩ := blockComment
    have held := holds.held
    rw [blockComment] at held
    obtain ⟨text, rfl, unclosed, -⟩ := held
    refine ⟨done, _, List.append_assoc _ _ _, ?_, .blockComment holds.skips unclosed⟩
    simpa [pending, blockComment, Phase.pending] using holds.tiling
  · obtain ⟨tiled, left, same, skips, tiling⟩ :=
      holds.ended lineComment fun star here => blockComment ⟨star, here⟩
    exact ⟨tiled, left, same, tiling, .filler skips⟩

theorem tokens_tiling (line : Nat) (text : List Char) : ∃ done last, text = done ++ last ∧
    Tiling line done ((Lexer.initial line).tokens text) ∧ LastGap last := by
  have tiled := (Tiled.initial line).run text
  rw [List.nil_append, List.nil_append] at tiled
  rw [tokens_eq]
  exact tiled.finish

end Tiled

end Lexer

/-- The tokens of a text cover it but for blanks and comments, in order and on their own lines. -/
theorem ofText_tiling (text : String) (line : Nat) :
    (∃ done last, text.toList = done ++ last ∧ Tiling line done (ofText text line) ∧
      LastGap last) ∧
    ((ofText text line).map (·.line)).Pairwise (· ≤ ·) ∧
    (∀ k, ofText text (line + k) = (ofText text line).map (relabel (· + k))) ∧
    (ofText text line).length ≤ text.length := by
  obtain ⟨done, last, whole, tiling, gap⟩ := Lexer.tokens_tiling line text.toList
  refine ⟨⟨done, last, whole, tiling, gap⟩, tiling.ascending, fun k => ?_, ?_⟩
  · exact Lexer.tokens_later (.initial line) k text.toList
  · have short : done.length ≤ text.toList.length := by simp [whole]
    rw [String.length_toList] at short
    exact Nat.le_trans tiling.length_le short

/-- Marks inside comments, strings and regexes, two dots, a division, and a comment that is never
closed. -/
def cluttered : String :=
  " a /* \x7b */: \x7b // ,\n'\\'b',/\x7d/g..x \x60\n\x60...(e)/ 2 /* f"

def clutteredTokens : List Token := [
  ⟨.word "a", 1⟩, ⟨.colon, 1⟩, ⟨.leftBrace, 1⟩, ⟨.quoted "'b", 2⟩, ⟨.comma, 2⟩, ⟨.regex, 2⟩,
  ⟨.other '.', 2⟩, ⟨.other '.', 2⟩, ⟨.word "x", 2⟩, ⟨.template, 2⟩, ⟨.spread, 3⟩, ⟨.leftParen, 3⟩,
  ⟨.word "e", 3⟩, ⟨.rightParen, 3⟩, ⟨.other '/', 3⟩, ⟨.word "2", 3⟩]

theorem ofText_tiling_cluttered :
    (∃ done, cluttered.toList = done ++ " /* f".toList ∧ Tiling 1 done clutteredTokens ∧
      LastGap " /* f".toList) ∧
    ofText cluttered 1 = clutteredTokens ∧
    ofText cluttered 5 = clutteredTokens.map (relabel (· + 4)) := by
  have tokens : ofText cluttered 1 = clutteredTokens := by decide +kernel
  have space : Filler [' '] := .blank (by decide) .nil
  have braced : Filler " /* \x7b */".toList :=
    .blank (by decide) (@Filler.blockComment " \x7b ".toList _ (by decide) .nil)
  have remark : Filler " // ,\n".toList :=
    .blank (by decide) (@Filler.lineComment " ,".toList _ (by decide) .nil)
  have dot : (Kind.other '.').Spelled ['.'] := .other (by decide)
  have division : (Kind.other '/').Spelled ['/'] := .other (by decide)
  have string : (Kind.quoted "'b").Spelled "'\\'b'".toList := .quoted (by decide)
  have regex : Kind.regex.Spelled "/\x7d/g".toList := .regex
  have template : Kind.template.Spelled "\x60\n\x60".toList := .template
  have a : (Kind.word "a").Spelled "a".toList := .word (by decide) (List.all_eq_true.mp rfl)
  have x : (Kind.word "x").Spelled "x".toList := .word (by decide) (List.all_eq_true.mp rfl)
  have e : (Kind.word "e").Spelled "e".toList := .word (by decide) (List.all_eq_true.mp rfl)
  have two : (Kind.word "2").Spelled "2".toList := .word (by decide) (List.all_eq_true.mp rfl)
  have start : Tiling 1 [] [] := .nil
  have first := start.token space a |>.token braced .colon |>.token space .leftBrace
    |>.token remark string
  have second := first.token .nil .comma |>.token .nil regex |>.token .nil dot |>.token .nil dot
    |>.token .nil x
  have third := second.token space template |>.token .nil .spread |>.token .nil .leftParen
    |>.token .nil e |>.token .nil .rightParen |>.token .nil division |>.token space two
  refine ⟨⟨_, ?_, third, ?_⟩, tokens, ?_⟩
  · decide +kernel
  · exact @LastGap.blockComment _ " f".toList space (by decide)
  · rw [← tokens]
    exact (ofText_tiling cluttered 1).2.2.1 4

end StyleAudit.Token
