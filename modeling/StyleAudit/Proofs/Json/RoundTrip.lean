import Mathlib.Data.List.Forall2
import StyleAudit.Proofs.Json.Scalars

/-! Documents can be read back. The reader sees through the indentation, and it reads no value
further than it was written because a comma or a line break follows each. -/
namespace StyleAudit.Json

/-- Neither blanks nor the end of a list or an object stand first. -/
def Starts (element : List Char) : Prop :=
  ∃ c more, element = c :: more ∧ isBlank c = false ∧ c ≠ ']' ∧ c ≠ '\x7d'

/-- The reader takes just the element, whatever may follow it. -/
structure Spells (readOne : List Char → Option (α × List Char)) (element : List Char) (a : α) :
    Prop where
  starts : Starts element
  reads : ∀ rest, Ends rest → readOne (element ++ rest) = some (a, rest)

theorem skipBlanks_cons {c : Char} (solid : isBlank c = false) (rest : List Char) :
    skipBlanks (c :: rest) = c :: rest := by
  simp [skipBlanks, solid]

theorem skipBlanks_lineStart (level : Nat) {c : Char} (solid : isBlank c = false)
    (rest : List Char) : skipBlanks (lineStart level ++ c :: rest) = c :: rest := by
  have blank : ∀ c ∈ lineStart level, isBlank c = true := by
    intro c member
    rcases List.mem_cons.mp member with rfl | member
    · rfl
    · rw [(List.mem_replicate.mp member).2]
      rfl
  rw [skipBlanks, List.dropWhile_append_of_pos blank]
  exact skipBlanks_cons solid rest

theorem Spells.skipBlanks {readOne : List Char → Option (α × List Char)} {element : List Char}
    {a : α} (spells : Spells readOne element a) (level : Nat) (rest : List Char) :
    skipBlanks (lineStart level ++ (element ++ rest)) = element ++ rest := by
  obtain ⟨c, more, rfl, solid, _⟩ := spells.starts
  exact skipBlanks_lineStart level solid _

theorem ends_lineStart (level : Nat) (rest : List Char) : Ends (lineStart level ++ rest) := by
  rintro c ⟨⟩
  exact .inr rfl

theorem ends_further (level inner : Nat) (elements : List (List Char)) (rest : List Char) :
    Ends (further inner elements ++ (lineStart level ++ rest)) := by
  cases elements with
  | nil => exact ends_lineStart level rest
  | cons element elements =>
    rintro c ⟨⟩
    exact .inl rfl

variable {readOne : List Char → Option (α × List Char)} {closing : Char}

theorem readElements_further (bracket : closing = ']' ∨ closing = '\x7d') (level inner : Nat)
    {element : List Char} {item : α} (first : Spells readOne element item)
    {elements : List (List Char)} {items : List α}
    (more : List.Forall₂ (Spells readOne) elements items) {fuel : Nat}
    (enough : elements.length < fuel) (rest : List Char) :
    readElements readOne closing fuel (lineStart inner ++ (element ++ (further inner elements ++
      (lineStart level ++ closing :: rest)))) = some (item :: items, rest) := by
  have solid : isBlank closing = false := by
    rcases bracket with rfl | rfl <;> rfl
  induction more generalizing element item fuel with
  | nil =>
    obtain ⟨fuel, rfl⟩ : ∃ less, fuel = less + 1 := Nat.exists_eq_add_one.mpr (by omega)
    rw [readElements, first.skipBlanks, first.reads _ (ends_further level inner [] _)]
    rcases bracket with rfl | rfl <;> simp [skipBlanks_lineStart level solid]
  | cons second others ih =>
    obtain ⟨fuel, rfl⟩ : ∃ less, fuel = less + 1 := Nat.exists_eq_add_one.mpr (by omega)
    rw [readElements, first.skipBlanks, first.reads _ (ends_further level inner _ _)]
    have comma : isBlank ',' = false := rfl
    have enough := Nat.lt_of_succ_lt_succ enough
    simp [skipBlanks_cons comma, ih second enough]

theorem readEnclosed_enclosed (bracket : closing = ']' ∨ closing = '\x7d') (opening : Char)
    (level : Nat) {elements : List (List Char)} {items : List α}
    (spells : List.Forall₂ (Spells readOne) elements items) {fuel : Nat}
    (enough : elements.length ≤ fuel) (rest : List Char) :
    ∃ more, enclosed opening closing level elements ++ rest = opening :: more ∧
      readEnclosed readOne closing fuel more = some (items, rest) := by
  have solid : isBlank closing = false := by
    rcases bracket with rfl | rfl <;> rfl
  cases spells with
  | nil =>
    refine ⟨closing :: rest, rfl, ?_⟩
    simp [readEnclosed, skipBlanks_cons solid]
  | @cons element item elements items first more =>
    refine ⟨lineStart (level + 1) ++ (element ++ (further (level + 1) elements ++
      (lineStart level ++ closing :: rest))), by simp [enclosed], ?_⟩
    have read := readElements_further bracket level (level + 1) first more enough rest
    obtain ⟨c, tail, rfl, _, square, curly⟩ := first.starts
    have other : c ≠ closing := by
      rcases bracket with rfl | rfl
      · exact square
      · exact curly
    rw [readEnclosed, first.skipBlanks, read, List.cons_append]
    exact if_neg other

mutual

/-- What the document of a value says. -/
def Value.datum : Value → Datum
  | .string text => .string text
  | .number n => .number n
  | .list items => .array (itemData items)
  | .object fields => .object (fieldData fields)

def itemData : List Value → List Datum
  | [] => []
  | item :: items => item.datum :: itemData items

def fieldData : List (String × Value) → List (String × Datum)
  | [] => []
  | (name, value) :: fields => (name, value.datum) :: fieldData fields

end

theorem length_further (level : Nat) (elements : List (List Char)) :
    elements.length ≤ (further level elements).length ∧
      ∀ element ∈ elements, element.length ≤ (further level elements).length := by
  induction elements with
  | nil => simp
  | cons element elements ih =>
    simp only [further_cons, List.length_cons, List.length_append, List.mem_cons, forall_eq_or_imp]
    refine ⟨by omega, by omega, fun other member => ?_⟩
    have := ih.2 other member
    omega

theorem length_enclosed {opening closing : Char} {level fuel : Nat} {elements : List (List Char)}
    (enough : (enclosed opening closing level elements).length ≤ fuel + 1) :
    elements.length ≤ fuel ∧ ∀ element ∈ elements, element.length ≤ fuel := by
  cases elements with
  | nil => simp
  | cons first more =>
    have further := length_further (level + 1) more
    simp only [enclosed, List.length_cons, List.length_append] at enough
    simp only [List.length_cons, List.mem_cons, forall_eq_or_imp]
    have start : 0 < (lineStart level).length := by simp [lineStart]
    refine ⟨by omega, by omega, fun other member => ?_⟩
    have := further.2 other member
    omega

theorem Value.starts (level : Nat) (value : Value) : Starts (value.spelling level) := by
  cases value with
  | string text => exact ⟨'"', _, by rw [spelling]; rfl, by decide⟩
  | number n =>
    obtain ⟨digit, more, digits, isDigit⟩ := exists_toDigits n
    refine ⟨digit, more, by rw [spelling, digits], ?_, ?_, ?_⟩
    · cases blank : isBlank digit with
      | false => rfl
      | true =>
        simp only [isBlank, Bool.or_eq_true, beq_iff_eq] at blank
        rcases blank with ((rfl | rfl) | rfl) | rfl <;> cases isDigit
    · rintro rfl
      cases isDigit
    · rintro rfl
      cases isDigit
  | list items =>
    cases items with
    | nil => exact ⟨'[', _, by rw [spelling, itemSpellings]; rfl, by decide⟩
    | cons => exact ⟨'[', _, by rw [spelling, itemSpellings]; rfl, by decide⟩
  | object fields =>
    cases fields with
    | nil => exact ⟨'\x7b', _, by rw [spelling, fieldSpellings]; rfl, by decide⟩
    | cons => exact ⟨'\x7b', _, by rw [spelling, fieldSpellings]; rfl, by decide⟩

theorem Spells.field {readValue : List Char → Option (Datum × List Char)} {element : List Char}
    {datum : Datum} (spells : Spells readValue element datum) (name : String) :
    Spells (readField readValue) (quoted name ++ ':' :: ' ' :: element) (name, datum) := by
  refine ⟨⟨'"', _, rfl, by decide⟩, fun rest ends => ?_⟩
  have characters : quoted name ++ ':' :: ' ' :: element ++ rest =
      '"' :: (name.toList.flatMap (fun c => (escape c).toList) ++
        '"' :: ':' :: ' ' :: (element ++ rest)) := by
    simp [quoted]
  have colon : isBlank ':' = false := rfl
  have space : Json.skipBlanks (' ' :: (element ++ rest)) = element ++ rest := by
    obtain ⟨c, more, rfl, solid, _⟩ := spells.starts
    exact skipBlanks_cons solid _
  simp [characters, readField, readString_escaped, skipBlanks_cons colon, space,
    spells.reads rest ends]

mutual

theorem Value.spells (level : Nat) : ∀ (value : Value) {fuel : Nat},
    (value.spelling level).length ≤ fuel →
      Spells (readValue fuel) (value.spelling level) value.datum
  | value, 0, enough => by
    obtain ⟨c, more, begins, _⟩ := value.starts level
    simp [begins] at enough
  | .string text, fuel + 1, _ => by
    refine ⟨Value.starts level _, fun rest _ => ?_⟩
    rw [Value.spelling, Value.datum, quoted, List.cons_append, List.append_assoc, readValue,
      List.singleton_append, readString_escaped]
    rfl
  | .number n, fuel + 1, _ => by
    refine ⟨Value.starts level _, fun rest ends => ?_⟩
    rw [Value.spelling, Value.datum]
    exact readValue_toDigits fuel n ends
  | .list items, fuel + 1, enough => by
    refine ⟨Value.starts level _, fun rest _ => ?_⟩
    rw [Value.spelling] at enough ⊢
    obtain ⟨few, short⟩ := length_enclosed enough
    obtain ⟨more, begins, read⟩ := readEnclosed_enclosed (.inl rfl) '[' level
      (spells_items (level + 1) items short) few rest
    rw [begins, readValue, read, Value.datum]
    rfl
  | .object fields, fuel + 1, enough => by
    refine ⟨Value.starts level _, fun rest _ => ?_⟩
    rw [Value.spelling] at enough ⊢
    obtain ⟨few, short⟩ := length_enclosed enough
    obtain ⟨more, begins, read⟩ := readEnclosed_enclosed (.inr rfl) '\x7b' level
      (spells_fields (level + 1) fields short) few rest
    rw [begins, readValue, read, Value.datum]
    rfl

theorem spells_items (level : Nat) : ∀ (items : List Value) {fuel : Nat},
    (∀ element ∈ itemSpellings level items, element.length ≤ fuel) →
      List.Forall₂ (Spells (readValue fuel)) (itemSpellings level items) (itemData items)
  | [], _, _ => by
    rw [itemSpellings, itemData]
    exact .nil
  | item :: items, fuel, short => by
    rw [itemSpellings] at short ⊢
    rw [List.forall_mem_cons] at short
    rw [itemData]
    exact .cons (Value.spells level item short.1) (spells_items level items short.2)

theorem spells_fields (level : Nat) : ∀ (fields : List (String × Value)) {fuel : Nat},
    (∀ element ∈ fieldSpellings level fields, element.length ≤ fuel) →
      List.Forall₂ (Spells (readField (readValue fuel))) (fieldSpellings level fields)
        (fieldData fields)
  | [], _, _ => by
    rw [fieldSpellings, fieldData]
    exact .nil
  | (name, value) :: fields, fuel, short => by
    rw [fieldSpellings] at short ⊢
    rw [List.forall_mem_cons] at short
    rw [fieldData]
    have enough : (value.spelling level).length ≤ fuel := by
      have := short.1
      simp only [List.length_append, List.length_cons] at this
      omega
    have spells := Value.spells level value enough
    exact .cons (spells.field name) (spells_fields level fields short.2)

end

/-- A document is read to its end, and the line break that ends its text is left. -/
theorem readDocument_document (value : Value) :
    readDocument value.document = some (value.datum, "\n") := by
  have characters : value.document.toList = value.spelling 0 ++ ['\n'] := by
    rw [Value.document, String.toList_push, Value.toList_write]
    rfl
  have start : skipBlanks (value.spelling 0 ++ ['\n']) = value.spelling 0 ++ ['\n'] := by
    obtain ⟨c, more, begins, solid, _⟩ := value.starts 0
    rw [begins]
    exact skipBlanks_cons solid _
  have enough : (value.spelling 0).length ≤ value.document.length := by
    rw [← String.length_toList, characters, List.length_append]
    omega
  have read := (value.spells 0 enough).reads ['\n'] (ends_lineStart 0 [])
  rw [readDocument, characters, start, read]
  rfl

theorem read?_document (value : Value) : read? value.document = some value.datum := by
  rw [read?, readDocument_document]
  rfl

end StyleAudit.Json
