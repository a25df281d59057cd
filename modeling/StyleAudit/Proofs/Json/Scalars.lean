import StyleAudit.Proofs.Json.Reader
import StyleAudit.Proofs.Json.Spelling

/-! Reading the strings and numbers that documents hold. A string ends at its own quote. A number
goes on as long as it can, so that what follows it must not belong to one. -/
namespace StyleAudit.Json

theorem readPieces_char {c : Char} (quote : c ≠ '"') (backslash : c ≠ '\\')
    (printable : ¬c.toNat < 0x20) (rest : List Char) : readPieces (c :: rest) =
      (readPieces rest).map fun (pieces, rest) => (.char c :: pieces, rest) := by
  rw [readPieces, if_neg (not_or.mpr ⟨backslash, printable⟩)]
  · cases readPieces rest <;> rfl
  · exact quote
  · rintro _ _ _ _ _ rfl
    exact absurd rfl backslash
  · rintro _ _ rfl
    exact absurd rfl backslash

theorem readUnit_hexDigit : ∀ n < 32,
    readUnit ['0', '0', hexDigit (n / 16), hexDigit (n % 16)] = some n := by decide

/-- A character is written as one piece, which stands for it whatever comes after. -/
theorem exists_piece (c : Char) : ∃ piece,
    (∀ rest, readPieces ((escape c).toList ++ rest) =
      (readPieces rest).map fun (pieces, rest) => (piece :: pieces, rest)) ∧
    ∀ pieces, joinPieces none (piece :: pieces) = (joinPieces none pieces).map (c :: ·) := by
  have plain (c : Char) (pieces : List Piece) :
      joinPieces none (.char c :: pieces) = (joinPieces none pieces).map (c :: ·) := by
    simp [joinPieces]
  unfold escape
  split
  case h_8 quote backslash _ _ _ _ _ =>
    split
    next control =>
      refine ⟨.unit c.toNat, fun rest => ?_, fun pieces => ?_⟩
      · have characters : (("\\u00".push (hexDigit (c.toNat / 16))).push
            (hexDigit (c.toNat % 16))).toList ++ rest = '\\' :: 'u' :: '0' :: '0' ::
              hexDigit (c.toNat / 16) :: hexDigit (c.toNat % 16) :: rest := by
          simp [String.toList_push]
        rw [characters, readPieces, readUnit_hexDigit c.toNat control]
        cases readPieces rest <;> rfl
      · have whole : ¬(0xd800 ≤ c.toNat ∧ c.toNat < 0xdc00) ∧
            ¬(0xdc00 ≤ c.toNat ∧ c.toNat < 0xe000) := by omega
        simp [joinPieces, whole]
    next printable =>
      refine ⟨.char c, fun rest => ?_, plain c⟩
      rw [String.toList_singleton, List.singleton_append]
      exact readPieces_char quote backslash printable rest
  all_goals
    refine ⟨.char _, fun rest => ?_, plain _⟩
    cases read : readPieces rest <;> simp [readPieces, read, unescape?]

theorem readString_escaped (text : String) (rest : List Char) :
    readString (text.toList.flatMap (fun c => (escape c).toList) ++ '"' :: rest) =
      some (text, rest) := by
  have pieces (characters : List Char) : ∃ pieces,
      readPieces (characters.flatMap (fun c => (escape c).toList) ++ '"' :: rest) =
        some (pieces, rest) ∧ joinPieces none pieces = some characters := by
    induction characters with
    | nil => exact ⟨[], rfl, rfl⟩
    | cons c characters ih =>
      obtain ⟨piece, read, join⟩ := exists_piece c
      obtain ⟨pieces, readMore, joinMore⟩ := ih
      refine ⟨piece :: pieces, ?_, ?_⟩
      · rw [List.flatMap_cons, List.append_assoc, read, readMore]
        rfl
      · rw [join, joinMore]
        rfl
  obtain ⟨pieces, read, join⟩ := pieces text.toList
  simp [readString, read, join]

/-- What may follow a value, so that it is read no further. -/
def Ends (rest : List Char) : Prop := ∀ c ∈ rest.head?, c = ',' ∨ c = '\n'

theorem Ends.stop {rest : List Char} (ends : Ends rest) : readFraction rest = some ([], rest) ∧
    readExponent rest = some (0, rest) ∧ rest.takeWhile Char.isDigit = [] ∧
      rest.dropWhile Char.isDigit = rest := by
  cases rest with
  | nil => exact ⟨rfl, rfl, rfl, rfl⟩
  | cons c rest =>
    rcases ends c rfl with rfl | rfl <;> simp [readFraction, readExponent]

theorem readDigits_append {digits rest : List Char} (nonempty : digits ≠ [])
    (all : ∀ c ∈ digits, c.isDigit = true) (ends : Ends rest) :
    readDigits (digits ++ rest) = some (digits, rest) := by
  obtain ⟨_, _, none, same⟩ := ends.stop
  rw [readDigits, List.takeWhile_append_of_pos all, List.dropWhile_append_of_pos all, none, same,
    List.append_nil]
  cases digits with
  | nil => exact absurd rfl nonempty
  | cons => rfl

theorem head?_toDigits {n : Nat} (positive : 0 < n) : (Nat.toDigits 10 n).head? ≠ some '0' := by
  induction n using Nat.strongRecOn with
  | ind n ih =>
    by_cases small : n < 10
    · have digit : ∀ n < 10, 0 < n → n.digitChar ≠ '0' := by decide
      rw [Nat.toDigits_of_lt_base small]
      simpa using digit n small positive
    · have head := ih (n / 10) (by omega) (by omega)
      obtain ⟨first, more, digits⟩ : ∃ first more, Nat.toDigits 10 (n / 10) = first :: more :=
        List.exists_cons_of_ne_nil Nat.toDigits_ne_nil
      rw [digits] at head
      rw [Nat.toDigits_of_base_le (by decide) (by omega), digits]
      exact head

theorem readWhole_toDigits (n : Nat) {rest : List Char} (ends : Ends rest) :
    readWhole (Nat.toDigits 10 n ++ rest) = some (Nat.toDigits 10 n, rest) := by
  have read : readDigits (Nat.toDigits 10 n ++ rest) = some (Nat.toDigits 10 n, rest) :=
    readDigits_append Nat.toDigits_ne_nil
      (fun _ member => Nat.isDigit_of_mem_toDigits (by decide) (by decide) member) ends
  rw [readWhole, read]
  by_cases zero : n = 0
  · subst zero
    rfl
  · have head := head?_toDigits (Nat.pos_of_ne_zero zero)
    split
    next same =>
      obtain ⟨same, _⟩ := Prod.mk.inj (Option.some.inj same)
      simp [same] at head
    next => rfl

theorem exists_toDigits (n : Nat) :
    ∃ digit more, Nat.toDigits 10 n = digit :: more ∧ digit.isDigit = true := by
  obtain ⟨digit, more, digits⟩ := List.exists_cons_of_ne_nil (@Nat.toDigits_ne_nil n 10)
  exact ⟨digit, more, digits,
    Nat.isDigit_of_mem_toDigits (by decide) (by decide) (digits ▸ List.mem_cons_self)⟩

theorem readNumber_toDigits (n : Nat) {rest : List Char} (ends : Ends rest) :
    readNumber (Nat.toDigits 10 n ++ rest) = some ((n : Rat), rest) := by
  obtain ⟨fraction, exponent, _, _⟩ := ends.stop
  have magnitude : readMagnitude (Nat.toDigits 10 n ++ rest) = some ((n : Rat), rest) := by
    simp [readMagnitude, readWhole_toDigits n ends, fraction, exponent, valueOf]
  obtain ⟨digit, more, digits, isDigit⟩ := exists_toDigits n
  rw [readNumber]
  · exact magnitude
  · rintro text same
    rw [digits] at same
    obtain ⟨rfl, _⟩ := List.cons.inj same
    cases isDigit

theorem readValue_toDigits (fuel n : Nat) {rest : List Char} (ends : Ends rest) :
    readValue (fuel + 1) (Nat.toDigits 10 n ++ rest) = some (.number n, rest) := by
  obtain ⟨digit, more, digits, isDigit⟩ := exists_toDigits n
  rw [readValue, readNumber_toDigits n ends]
  · rfl
  -- No other value begins with a digit.
  all_goals
    rintro _ same
    rw [digits] at same
    obtain ⟨rfl, _⟩ := List.cons.inj same
    cases isDigit

end StyleAudit.Json
