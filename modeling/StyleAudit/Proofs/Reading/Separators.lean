import StyleAudit.Proofs.Reading.Balance
import StyleAudit.Proofs.Reading.Links

/-! Separators between entries. Where an entry is due, commas may be put in or left out, and the
tokens before and after them are read as they would be otherwise. -/
namespace StyleAudit.Reading

/-- After these tokens behind the brace of a container, an entry of the innermost object is due: at
the beginning, behind a separator, or behind an object value, with or without a separator. -/
def EntryDue (line : Nat) (before : List Token) : Prop :=
  ((Reader.initial line).run before).expectsEntry = true

/-- The token closes an object that is the value of an entry. -/
def ClosesValue (line : Nat) (before : List Token) (token : Token) : Prop :=
  token.kind = .rightBrace ∧ ∃ frame outer,
    ((Reader.initial line).run before).frames = frame :: outer ∧ outer ≠ [] ∧
      frame.expecting.brackets = 0

namespace Reader

variable {reader : Reader} {token : Token}

theorem expectsEntry_iff : reader.expectsEntry = true ↔
    ∃ frame outer, reader.frames = frame :: outer ∧ frame.expecting = .entry := by
  obtain ⟨nodes, frames, plain⟩ := reader
  rcases frames with _ | ⟨⟨object, depth, expecting⟩, outer⟩
  · simp [expectsEntry]
  · cases expecting <;> simp [expectsEntry]

theorem step_separator (due : reader.expectsEntry = true) (isComma : token.kind = .comma)
    (named : Bool) : reader.step token named = reader := by
  obtain ⟨frame, outer, innermost, entry⟩ := expectsEntry_iff.mp due
  simp only [step, innermost, entry, isComma]

theorem run_separators {commas : List Token} (due : reader.expectsEntry = true)
    (areCommas : ∀ comma ∈ commas, comma.kind = .comma) : reader.run commas = reader := by
  induction commas with
  | nil => rfl
  | cons comma commas ih =>
    obtain ⟨isComma, areCommas⟩ := List.forall_mem_cons.mp areCommas
    have apart : ∀ next ∈ commas.head?, next.kind ≠ .colon := fun next head colon => by
      simp [areCommas next (List.mem_of_mem_head? head)] at colon
    rw [run_cons (.inr apart), step_separator due isComma, ih areCommas]

theorem run_append_separators {before commas after : List Token}
    (due : (reader.run before).expectsEntry = true)
    (areCommas : ∀ comma ∈ commas, comma.kind = .comma)
    (apart : ∀ next ∈ after.head?, next.kind ≠ .colon) :
    reader.run (before ++ commas ++ after) = reader.run (before ++ after) := by
  -- The look-ahead of the token before them sees a comma in place of what follows the commas.
  have first : ∀ next ∈ commas.head?, next.kind ≠ .colon := fun next head colon => by
    simp [areCommas next (List.mem_of_mem_head? head)] at colon
  calc reader.run (before ++ commas ++ after)
      = (reader.run (before ++ commas)).run after := run_append apart
    _ = ((reader.run before).run commas).run after := by rw [run_append first]
    _ = (reader.run before).run after := by rw [run_separators due areCommas]
    _ = reader.run (before ++ after) := (run_append apart).symm

end Reader

theorem EntryDue.of_closesValue {line : Nat} {before : List Token} {token : Token}
    (closes : ClosesValue line before token) : EntryDue line (before ++ [token]) := by
  obtain ⟨isBrace, frame, outer, innermost, inside, flat⟩ := closes
  obtain ⟨next, others, rfl⟩ := List.exists_cons_of_ne_nil inside
  have sound := Sound.run line before
  rw [innermost] at sound
  have left : (((Reader.initial line).run before).run [token]).frames = next :: others :=
    Reader.step_close innermost isBrace flat false
  rw [EntryDue, Reader.run_append (by simp [isBrace]), Reader.expectsEntry_iff]
  exact ⟨next, others, left, sound.waiting next List.mem_cons_self⟩

/-- Commas where an entry is due make no difference to what is read, however many they are and
whatever their lines. Behind the value of an entry they can therefore be left out, and repeated
elsewhere. -/
theorem ofTokens_separators :
    (∀ line before commas after, EntryDue line before →
      (∀ comma ∈ commas, comma.kind = .comma) → (∀ next ∈ after.head?, next.kind ≠ .colon) →
      ofTokens (⟨.leftBrace, line⟩ :: (before ++ commas ++ after)) =
        ofTokens (⟨.leftBrace, line⟩ :: (before ++ after))) ∧
    ∀ line before token, ClosesValue line before token → EntryDue line (before ++ [token]) := by
  refine ⟨fun line before commas after due areCommas apart => ?_,
    fun line before token closes => .of_closesValue closes⟩
  have same : (Reader.initial line).run (before ++ commas ++ after) =
      (Reader.initial line).run (before ++ after) :=
    Reader.run_append_separators due areCommas apart
  simp only [ofTokens, same]

def unseparated : List Token := Token.ofText "a: \x7b p: f(1, 2), p: 3," 1

theorem ofTokens_separators_unseparated :
    ClosesValue 1 unseparated ⟨.rightBrace, 2⟩ ∧
    ofTokens (⟨.leftBrace, 1⟩ :: (unseparated ++ [⟨.rightBrace, 2⟩] ++ [⟨.comma, 3⟩, ⟨.comma, 4⟩] ++
        Token.ofText "a: \x7b\x7d \x7d" 5)) =
      ofTokens (⟨.leftBrace, 1⟩ :: (unseparated ++ [⟨.rightBrace, 2⟩] ++
        Token.ofText "a: \x7b\x7d \x7d" 5)) ∧
    (ofTokens (⟨.leftBrace, 1⟩ :: (unseparated ++ [⟨.rightBrace, 2⟩] ++
        Token.ofText "a: \x7b\x7d \x7d" 5))).outline.map (·.groups) =
      some (.ok [⟨"a", 1, 2⟩, ⟨"a", 5, 6⟩]) := by
  have closes : ClosesValue 1 unseparated ⟨.rightBrace, 2⟩ :=
    ⟨rfl, ⟨2, 1, .entry⟩, [⟨0, 0, .entry⟩], by decide, by decide, rfl⟩
  have due := ofTokens_separators.2 1 unseparated _ closes
  exact ⟨closes, ofTokens_separators.1 1 _ [⟨.comma, 3⟩, ⟨.comma, 4⟩] _ due (by decide) (by decide),
    by decide⟩

end StyleAudit.Reading
