import StyleAudit.Json

/-! What the writer of documents appends, as a list of characters. Between the elements of a list
or an object stand commas, and each element has a line of its own. -/
namespace StyleAudit.Json

def quoted (text : String) : List Char :=
  '"' :: (text.toList.flatMap (fun c => (escape c).toList) ++ ['"'])

def lineStart (level : Nat) : List Char := '\n' :: List.replicate (2 * level) ' '

/-- Elements that others stand before. -/
def further (level : Nat) (elements : List (List Char)) : List Char :=
  elements.flatMap fun element => ',' :: (lineStart level ++ element)

@[simp] theorem further_nil (level : Nat) : further level [] = [] := rfl

@[simp] theorem further_cons (level : Nat) (element : List Char) (elements : List (List Char)) :
    further level (element :: elements) =
      ',' :: (lineStart level ++ (element ++ further level elements)) := by
  simp [further]

/-- Elements between brackets. -/
def enclosed (opening closing : Char) (level : Nat) : List (List Char) → List Char
  | [] => [opening, closing]
  | first :: more => opening :: (lineStart (level + 1) ++ (first ++ (further (level + 1) more ++
      (lineStart level ++ [closing]))))

mutual

def Value.spelling (level : Nat) : Value → List Char
  | .string text => quoted text
  | .number n => Nat.toDigits 10 n
  | .list items => enclosed '[' ']' level (itemSpellings (level + 1) items)
  | .object fields => enclosed '\x7b' '\x7d' level (fieldSpellings (level + 1) fields)

def itemSpellings (level : Nat) : List Value → List (List Char)
  | [] => []
  | item :: items => item.spelling level :: itemSpellings level items

def fieldSpellings (level : Nat) : List (String × Value) → List (List Char)
  | [] => []
  | (name, value) :: fields =>
    (quoted name ++ ':' :: ' ' :: value.spelling level) :: fieldSpellings level fields

end

theorem toList_writeString (out text : String) :
    (writeString out text).toList = out.toList ++ quoted text := by
  have append (characters : List Char) (out : String) :
      (characters.foldl (fun out c => out ++ escape c) out).toList =
        out.toList ++ characters.flatMap fun c => (escape c).toList := by
    induction characters generalizing out with
    | nil => simp
    | cons c characters ih => simp [ih]
  simp [writeString, append, quoted]

theorem toList_newLine (out : String) (level : Nat) :
    (newLine out level).toList = out.toList ++ lineStart level := by
  have blanks (out : String) : (level.fold (fun _ _ out => out ++ "  ") out).toList =
      out.toList ++ List.replicate (2 * level) ' ' := by
    induction level with
    | zero => simp
    | succ level ih =>
      have two : "  ".toList = List.replicate 2 ' ' := rfl
      rw [Nat.fold_succ, String.toList_append, ih, List.append_assoc, two,
        List.replicate_append_replicate, Nat.mul_succ]
  simp [newLine, blanks, lineStart]

mutual

theorem Value.toList_write (level : Nat) (out : String) : ∀ value : Value,
    (value.write level out).toList = out.toList ++ value.spelling level
  | .string text => by
    rw [Value.write, Value.spelling, toList_writeString]
  | .number n => by
    rw [Value.write, Value.spelling, String.toList_append, Nat.repr, String.toList_ofList]
  | .list [] => by
    rw [Value.write, Value.spelling, itemSpellings, enclosed, String.toList_append]
    rfl
  | .list (item :: items) => by
    rw [Value.write, Value.spelling, itemSpellings, enclosed]
    simp only [String.toList_push, toList_newLine, toList_writeItems, Value.toList_write,
      List.append_assoc, List.cons_append, List.nil_append]
  | .object [] => by
    rw [Value.write, Value.spelling, fieldSpellings, enclosed, String.toList_append]
    rfl
  | .object ((name, value) :: fields) => by
    have colon : ": ".toList = [':', ' '] := rfl
    rw [Value.write, Value.spelling, fieldSpellings, enclosed]
    simp only [String.toList_push, toList_newLine, toList_writeFields, Value.toList_write,
      String.toList_append, toList_writeString, colon, List.append_assoc, List.cons_append,
      List.nil_append]

theorem toList_writeItems (level : Nat) (out : String) : ∀ items : List Value,
    (writeItems level out items).toList =
      out.toList ++ further level (itemSpellings level items)
  | [] => by simp [writeItems, itemSpellings]
  | item :: items => by
    rw [writeItems, itemSpellings, toList_writeItems, Value.toList_write, toList_newLine]
    simp

theorem toList_writeFields (level : Nat) (out : String) : ∀ fields : List (String × Value),
    (writeFields level out fields).toList =
      out.toList ++ further level (fieldSpellings level fields)
  | [] => by simp [writeFields, fieldSpellings]
  | (name, value) :: fields => by
    rw [writeFields, fieldSpellings, toList_writeFields, Value.toList_write, String.toList_append,
      toList_writeString, toList_newLine]
    simp

end

end StyleAudit.Json
