import StyleAudit.Proofs.Token.Filler

/-! Template literals. Inside an interpolation only braces are counted, wherever they stand. So
the text between two backticks is read as one template exactly if its interpolations are balanced
when the braces in strings, comments and inner templates count as well. -/
namespace StyleAudit.Token

/-- What stands between the backticks, given what may stand between the braces of an
interpolation. -/
inductive TemplateBody (code : List Char → Prop) : List Char → Prop where
  | nil : TemplateBody code []
  | plain : c ∉ ['\x60', '\\'] → (c = '$' → rest.head? ≠ some '\x7b') → TemplateBody code rest →
      TemplateBody code (c :: rest)
  | escape : TemplateBody code rest → TemplateBody code ('\\' :: c :: rest)
  | interpolation : code inside → TemplateBody code rest →
      TemplateBody code ('$' :: '\x7b' :: (inside ++ '\x7d' :: rest))

/-- Text with as many braces closed as opened. What follows a backslash does not count. -/
inductive Balanced : List Char → Prop where
  | nil : Balanced []
  | plain : c ∉ ['\\', '\x7b', '\x7d'] → Balanced rest → Balanced (c :: rest)
  | escape : Balanced rest → Balanced ('\\' :: c :: rest)
  | braces : Balanced inside → Balanced rest →
      Balanced ('\x7b' :: (inside ++ '\x7d' :: rest))

inductive StringBody (quote : Char) : List Char → Prop where
  | nil : StringBody quote []
  | plain : c ∉ [quote, '\\', '\n'] → StringBody quote rest → StringBody quote (c :: rest)
  | escape : StringBody quote rest → StringBody quote ('\\' :: c :: rest)

/-- An expression as it may be written in an interpolation: braces are balanced apart from those
in strings, comments and templates. -/
inductive Expression : List Char → Prop where
  | nil : Expression []
  | plain : c ∉ ['\'', '"', '\x60', '\\', '\x7b', '\x7d'] →
      (c = '/' → rest.head? ∉ [some '/', some '*']) → Expression rest → Expression (c :: rest)
  | braces : Expression inside → Expression rest →
      Expression ('\x7b' :: (inside ++ '\x7d' :: rest))
  | string : quote ∈ ['\'', '"'] → StringBody quote content → Expression rest →
      Expression (quote :: (content ++ quote :: rest))
  | filler : Filler skipped → Expression rest → Expression (skipped ++ rest)
  | template : TemplateBody Expression body → Expression rest →
      Expression ('\x60' :: (body ++ '\x60' :: rest))

theorem templateMove_inside {depth : Nat} {c : Char} (plain : c ∉ ['\\', '\x7b', '\x7d']) :
    templateMove .plain (depth + 1) c = .stay (.template .plain (depth + 1)) := by
  simp only [List.mem_cons, List.not_mem_nil, or_false, not_or] at plain
  obtain ⟨backslash, left, right⟩ := plain
  unfold templateMove
  split <;> simp_all

def TemplateMark.ofChar (c : Char) : TemplateMark := if c = '$' then .dollar else .plain

/-- The mark is not a backslash, and what it says of a brace does not apply to this text. -/
def TemplateMark.Passes (mark : TemplateMark) (text : List Char) : Prop :=
  mark ≠ .backslash ∧ (mark = .dollar → text.head? ≠ some '\x7b')

theorem templateMove_outside {mark : TemplateMark} {c : Char} {text : List Char}
    (passes : mark.Passes (c :: text)) (plain : c ∉ ['\x60', '\\']) :
    templateMove mark 0 c = .stay (.template (.ofChar c) 0) := by
  simp only [List.mem_cons, List.not_mem_nil, or_false, not_or] at plain
  obtain ⟨tick, backslash⟩ := plain
  obtain ⟨unescaped, brace⟩ := passes
  unfold templateMove TemplateMark.ofChar
  split <;> simp_all

section Unescaped

variable {mark : TemplateMark} (unescaped : mark ≠ .backslash)
include unescaped

theorem templateMove_backslash : templateMove mark 0 '\\' = .stay (.template .backslash 0) := by
  cases mark <;> first | rfl | exact absurd rfl unescaped

theorem templateMove_dollar : templateMove mark 0 '$' = .stay (.template .dollar 0) := by
  cases mark <;> first | rfl | exact absurd rfl unescaped

theorem templateMove_tick : templateMove mark 0 '\x60' = .close .template := by
  cases mark <;> first | rfl | exact absurd rfl unescaped

end Unescaped

theorem TemplateMark.ofChar_passes {c : Char} {text : List Char}
    (apart : c = '$' → text.head? ≠ some '\x7b') : (ofChar c).Passes text := by
  unfold ofChar Passes
  split <;> simp_all

/-- Of all characters that belong to an element only the slash of a comment can leave none open
without a token. -/
theorem Phase.slash_of_extend {operand : Bool} {c : Char} {phase : Phase}
    (extension : phase.extend operand c = .belongs (.stay .between)) : c = '/' := by
  cases continues_of_extend extension with
  | closed slash => exact slash

namespace Lexer

variable {found : Array Token} {lexer next : Lexer} {operand : Bool} {line start : Nat}
  {mark : TemplateMark} {text rest : List Char}

theorem run_step {c : Char} {tokens : List Token} (step : lexer.step c = (tokens, next))
    (text : List Char) : lexer.run found (c :: text) = next.run (found ++ tokens) text := by
  simp only [run, List.foldl_cons, step]

theorem run_template_stay {depth depth' : Nat} {mark' : TemplateMark} {c : Char}
    (move : templateMove mark depth c = .stay (.template mark' depth')) (text : List Char) :
    run found ⟨.template mark depth, operand, line, start⟩ (c :: text) =
      run found ⟨.template mark' depth', operand, bump line c, start⟩ text := by
  have step : step ⟨.template mark depth, operand, line, start⟩ c =
      ([], ⟨.template mark' depth', operand, bump line c, start⟩) := by
    simp only [step, Phase.extend, move, take]
  rw [run_step step, Array.appendList_nil]

theorem run_balanced (balanced : Balanced text) (depth : Nat) (rest : List Char) :
    run found ⟨.template .plain (depth + 1), operand, line, start⟩ (text ++ rest) =
      run found ⟨.template .plain (depth + 1), operand, line + text.count '\n', start⟩ rest := by
  induction balanced generalizing depth line rest with
  | nil => rfl
  | @plain c others plain _ ih =>
    rw [List.cons_append, run_template_stay (templateMove_inside plain), ih, bump_add_count]
  | @escape others c _ ih =>
    rw [List.cons_append, List.cons_append, run_template_stay rfl, run_template_stay rfl, ih,
      bump_add_count, bump_add_count]
  | @braces inside others _ _ ihInside ih =>
    rw [List.cons_append, run_template_stay rfl, List.append_assoc, ihInside, List.cons_append,
      run_template_stay rfl, ih]
    simp [bump, Nat.add_assoc]

theorem run_template (body : TemplateBody Balanced text) (passes : mark.Passes text)
    (rest : List Char) :
    run found ⟨.template mark 0, operand, line, start⟩ (text ++ '\x60' :: rest) =
      run (found.push ⟨.template, start⟩)
        ⟨.between, false, line + text.count '\n', start⟩ rest := by
  induction body generalizing mark line with
  | nil =>
    have step : step ⟨.template mark 0, operand, line, start⟩ '\x60' =
        ([⟨.template, start⟩], ⟨.between, false, line, start⟩) := by
      simp only [step, Phase.extend, templateMove_tick passes.1]
      rfl
    rw [List.nil_append, run_step step, Array.appendList_cons, Array.appendList_nil]
    rfl
  | @plain c others plain apart _ ih =>
    rw [List.cons_append, run_template_stay (templateMove_outside passes plain),
      ih (TemplateMark.ofChar_passes apart), bump_add_count]
  | @escape others c _ ih =>
    rw [List.cons_append, List.cons_append,
      run_template_stay (templateMove_backslash passes.1), run_template_stay rfl, ih ⟨by simp, by simp⟩, bump_add_count, bump_add_count]
  | @interpolation inside others balanced _ ih =>
    rw [List.cons_append, List.cons_append,
      run_template_stay (templateMove_dollar passes.1), run_template_stay rfl,
      List.append_assoc, run_balanced balanced, List.cons_append, run_template_stay rfl,
      ih ⟨by simp, by simp⟩]
    simp [bump, Nat.add_assoc]

/-- After this text of a template, which has no tokens, a backtick does not close it. -/
def LeavesOpen (mark : TemplateMark) (depth : Nat) (text : List Char) : Prop :=
  ∀ found operand line start, ∃ mark' depth' later,
    run found ⟨.template mark depth, operand, line, start⟩ text =
      (found, ⟨.template mark' depth', operand, later, start⟩) ∧
    (mark' = .backslash ∨ 0 < depth')

theorem leavesOpen_nil {depth : Nat} (inside : mark = .backslash ∨ 0 < depth) :
    LeavesOpen mark depth [] :=
  fun _ _ line _ => ⟨mark, depth, line, rfl, inside⟩

theorem LeavesOpen.cons {depth depth' : Nat} {mark' : TemplateMark} {c : Char}
    (opened : LeavesOpen mark' depth' text)
    (move : templateMove mark depth c = .stay (.template mark' depth')) :
    LeavesOpen mark depth (c :: text) := by
  intro found operand line start
  rw [run_template_stay move]
  exact opened found operand _ start

theorem LeavesOpen.balanced {depth : Nat} (opened : LeavesOpen .plain (depth + 1) rest)
    (inside : Balanced text) : LeavesOpen .plain (depth + 1) (text ++ rest) := by
  intro found operand line start
  rw [run_balanced inside]
  exact opened found operand _ start

theorem exists_balanced (text : List Char) :
    (∃ inside rest, text = inside ++ '\x7d' :: rest ∧ Balanced inside) ∨
      ∀ depth, LeavesOpen .plain (depth + 1) text := by
  cases text with
  | nil => exact .inr fun depth => leavesOpen_nil (.inr depth.succ_pos)
  | cons c text =>
    by_cases plain : c ∉ ['\\', '\x7b', '\x7d']
    · rcases exists_balanced text with ⟨inside, rest, rfl, balanced⟩ | opened
      · exact .inl ⟨c :: inside, rest, rfl, .plain plain balanced⟩
      · exact .inr fun depth => (opened depth).cons (templateMove_inside plain)
    simp only [List.mem_cons, List.not_mem_nil, or_false, Decidable.not_not] at plain
    rcases plain with rfl | rfl | rfl
    · cases text with
      | nil => exact .inr fun depth => (leavesOpen_nil (.inl rfl)).cons rfl
      | cons c text =>
        rcases exists_balanced text with ⟨inside, rest, rfl, balanced⟩ | opened
        · exact .inl ⟨'\\' :: c :: inside, rest, rfl, .escape balanced⟩
        · exact .inr fun depth => ((opened depth).cons rfl).cons rfl
    · -- The first search finds the brace that closes this one, the second the one looked for.
      rcases exists_balanced text with ⟨inside, others, rfl, first⟩ | opened
      · rcases exists_balanced others with ⟨more, rest, rfl, second⟩ | opened
        · exact .inl ⟨'\x7b' :: (inside ++ '\x7d' :: more), rest, by simp, .braces first second⟩
        · refine .inr fun depth => ?_
          have closed : LeavesOpen .plain (depth + 2) ('\x7d' :: others) := (opened depth).cons rfl
          exact (closed.balanced first).cons rfl
      · exact .inr fun depth => (opened (depth + 1)).cons rfl
    · exact .inl ⟨[], text, rfl, .nil⟩
termination_by text.length

/-- The text is a body with balanced interpolations, or a backtick behind such a body closes the
template, or the template stays open. -/
def Settles (mark : TemplateMark) (text : List Char) : Prop :=
  TemplateBody Balanced text ∨
    (∃ body rest, text = body ++ '\x60' :: rest ∧ TemplateBody Balanced body) ∨
      LeavesOpen mark 0 text

theorem Settles.extend {mark' : TemplateMark} (settles : Settles mark' text) (front : List Char)
    (grows : ∀ body, body <+: text → TemplateBody Balanced body →
      TemplateBody Balanced (front ++ body))
    (stays : LeavesOpen mark' 0 text → LeavesOpen mark 0 (front ++ text)) :
    Settles mark (front ++ text) := by
  rcases settles with body | ⟨body, rest, rfl, closed⟩ | opened
  · exact .inl (grows text List.prefix_rfl body)
  · refine .inr (.inl ⟨front ++ body, rest, by simp, grows body ⟨_, rfl⟩ closed⟩)
  · exact .inr (.inr (stays opened))

theorem settles_of_passes (mark : TemplateMark) (text : List Char) (passes : mark.Passes text) :
    Settles mark text := by
  cases text with
  | nil => exact .inl .nil
  | cons c text =>
    by_cases special : c ∈ ['\x60', '\\']
    · simp only [List.mem_cons, List.not_mem_nil, or_false] at special
      rcases special with rfl | rfl
      · exact .inr (.inl ⟨[], text, rfl, .nil⟩)
      · have escaping := templateMove_backslash passes.1
        cases text with
        | nil => exact .inr (.inr ((leavesOpen_nil (.inl rfl)).cons escaping))
        | cons c text =>
          exact (settles_of_passes .plain text ⟨by simp, by simp⟩).extend ['\\', c]
            (fun _ _ => .escape) fun opened => (opened.cons rfl).cons escaping
    by_cases apart : c = '$' → text.head? ≠ some '\x7b'
    · refine (settles_of_passes (.ofChar c) text (TemplateMark.ofChar_passes apart)).extend [c]
        (fun body inside => .plain special fun dollar brace => apart dollar ?_)
        fun opened => opened.cons (templateMove_outside passes special)
      obtain ⟨rest, rfl⟩ := inside
      obtain ⟨body, rfl⟩ := List.head?_eq_some_iff.mp brace
      rfl
    · obtain ⟨rfl, brace⟩ := Classical.not_imp.mp apart
      obtain ⟨text, rfl⟩ := List.head?_eq_some_iff.mp (Classical.not_not.mp brace)
      have dollar := templateMove_dollar passes.1
      rcases exists_balanced text with ⟨inside, rest, rfl, balanced⟩ | opened
      · have rejoin (others : List Char) : '$' :: '\x7b' :: (inside ++ '\x7d' :: others) =
            ('$' :: '\x7b' :: (inside ++ ['\x7d'])) ++ others := by simp
        rw [rejoin]
        refine (settles_of_passes .plain rest ⟨by simp, by simp⟩).extend _ (fun body _ closed => ?_)
          fun opened => ?_
        · rw [← rejoin]
          exact .interpolation balanced closed
        · rw [← rejoin]
          have closing : LeavesOpen .plain 1 ('\x7d' :: rest) := opened.cons rfl
          exact ((closing.balanced balanced).cons rfl).cons dollar
      · exact .inr (.inr (((opened 0).cons rfl).cons dollar))
termination_by text.length

theorem step_tick (closed : (lexer.step '\x60').2.phase = .between) :
    (lexer.step '\x60').1 ≠ [] := by
  obtain ⟨phase, operand, line, start⟩ := lexer
  simp only [step] at closed ⊢
  cases extension : phase.extend operand '\x60' with
  | after kinds =>
    have opening : Phase.opening '\x60' = .stay (.template .plain 0) := by decide
    simp [extension, opening, take] at closed
  | belongs move =>
    cases move with
    | close kind => simp [take]
    | stay next =>
      simp only [extension, take] at closed
      subst closed
      cases Phase.slash_of_extend extension

theorem complete_tick (text : List Char)
    (closed : (lexer.after (text ++ ['\x60'])).phase = .between) :
    lexer.complete (text ++ ['\x60']) ≠ [] := by
  induction text generalizing lexer with
  | nil =>
    rw [List.nil_append, (run_cons _ _).2] at closed
    rw [List.nil_append, (run_cons _ _).1]
    exact List.append_ne_nil_of_left_ne_nil (step_tick closed) _
  | cons c text ih =>
    rw [List.cons_append, (run_cons _ _).2] at closed
    rw [List.cons_append, (run_cons _ _).1]
    exact List.append_ne_nil_of_right_ne_nil _ (ih closed)

end Lexer

/-- Between backticks, wherever no element is open, the text is one template, whatever follows. -/
def ReadsTemplate (body : List Char) : Prop :=
  ∀ lexer : Lexer, lexer.phase = .between → ∀ rest,
    lexer.run #[] ('\x60' :: (body ++ '\x60' :: rest)) =
      Lexer.run #[⟨.template, lexer.line⟩]
        ⟨.between, false, lexer.line + body.count '\n', lexer.line⟩ rest

theorem readsTemplate_of_body {body : List Char} (balanced : TemplateBody Balanced body) :
    ReadsTemplate body := by
  rintro ⟨_, operand, line, start⟩ rfl rest
  have opened : Lexer.step ⟨.between, operand, line, start⟩ '\x60' =
      ([], ⟨.template .plain 0, operand, line, line⟩) := rfl
  rw [Lexer.run_step opened, Lexer.run_template balanced ⟨by simp, by simp⟩]
  rfl

theorem readsTemplate_iff (body : List Char) :
    ReadsTemplate body ↔ TemplateBody Balanced body := by
  refine ⟨fun reads => ?_, readsTemplate_of_body⟩
  have opened : Lexer.step (.initial 1) '\x60' = ([], ⟨.template .plain 0, true, 1, 1⟩) := rfl
  have whole := reads (.initial 1) rfl []
  rw [Lexer.run_step opened, Array.appendList_nil] at whole
  rcases Lexer.settles_of_passes .plain body ⟨by simp, by simp⟩ with
    balanced | ⟨first, rest, rfl, balanced⟩ | unclosed
  · exact balanced
  · -- The template ends early, and the last backtick makes a second token or leaves an element.
    rw [List.append_assoc, List.cons_append, Lexer.run_template balanced ⟨by simp, by simp⟩,
      Lexer.run_eq] at whole
    obtain ⟨tokens, lexer⟩ := Prod.mk.inj whole
    have none : (Lexer.run #[] ⟨.between, false, 1 + first.count '\n', 1⟩
        (rest ++ ['\x60'])).1 = #[] := by simpa using congrArg Array.size tokens
    exact absurd (congrArg Array.toList none)
      (Lexer.complete_tick rest (congrArg Lexer.phase lexer))
  · obtain ⟨mark, depth, later, same, inside⟩ := unclosed #[] true 1 1
    have stays : templateMove mark depth '\x60' = .stay (.template .plain depth) := by
      cases mark <;> cases depth <;> first | rfl | simp at inside
    rw [Lexer.run_append, same, Lexer.run_template_stay stays] at whole
    cases congrArg Lexer.phase (Prod.mk.inj whole).2

/-- The brace in a string is taken for one of the expression, and what follows the last backtick
for part of the template. -/
theorem readsTemplate_bracedString :
    TemplateBody Expression "$\x7b'\x7b'\x7d".toList ∧ ¬ ReadsTemplate "$\x7b'\x7b'\x7d".toList ∧
      ofText "\x60$\x7b'\x7b'\x7d\x60 a" 1 = [⟨.template, 1⟩] := by
  have code : Expression ['\'', '\x7b', '\''] :=
    .string (by decide) (.plain (by decide) .nil) .nil
  have unclosed : ((Lexer.initial 1).after "\x60$\x7b'\x7b'\x7d\x60".toList).phase ≠ .between := by
    decide
  exact ⟨.interpolation code .nil,
    fun reads => unclosed (congrArg (·.2.phase) (reads (.initial 1) rfl [])), by decide⟩

end StyleAudit.Token
