import StyleAudit.Repeats

/-! Repeats under changes of the list. Keys that were seen before matter only where an item of
the list has one of them, hence parts with different keys can be searched apart. -/
namespace StyleAudit

variable [BEq κ] {key : α → κ}

theorem repeatsAfter_map (label : β → α) (before : List κ) (items : List β) :
    repeatsAfter key before (items.map label) =
      (repeatsAfter (fun item => key (label item)) before items).map label := by
  induction items generalizing before with
  | nil => rfl
  | cons item rest ih =>
    simp only [List.map_cons, repeatsAfter]
    split <;> simp [ih]

theorem repeatsAfter_sublist (before : List κ) (items : List α) :
    (repeatsAfter key before items).Sublist items := by
  induction items generalizing before with
  | nil => exact .slnil
  | cons item rest ih =>
    rw [repeatsAfter]
    split
    · exact (ih before).cons_cons item
    · exact (ih _).cons item

variable [LawfulBEq κ] [BEq ι] [LawfulBEq ι] {items : List α}

theorem repeatsAfter_congr {before other : List κ}
    (same : ∀ item ∈ items, key item ∈ before ↔ key item ∈ other) :
    repeatsAfter key before items = repeatsAfter key other items := by
  induction items generalizing before other with
  | nil => rfl
  | cons item rest ih =>
    have head : key item ∈ before ↔ key item ∈ other := same item List.mem_cons_self
    have tail : ∀ item ∈ rest, key item ∈ before ↔ key item ∈ other := fun item member =>
      same item (List.mem_cons_of_mem _ member)
    simp only [repeatsAfter, List.contains_iff_mem, head]
    split
    · rw [ih tail]
    · exact ih fun item member => by simp [tail item member]

theorem repeatsAfter_nil_of_apart {before : List κ}
    (apart : ∀ item ∈ items, key item ∉ before) :
    repeatsAfter key before items = repeatsAfter key [] items :=
  repeatsAfter_congr fun item member => by simp [apart item member]

theorem repeatsAfter_append (before : List κ) (items others : List α) :
    repeatsAfter key before (items ++ others) =
      repeatsAfter key before items ++ repeatsAfter key (items.map key ++ before) others := by
  induction items generalizing before with
  | nil => rfl
  | cons item rest ih =>
    simp only [List.cons_append, repeatsAfter, List.map_cons, List.contains_iff_mem]
    split
    next seen =>
      rw [ih, List.cons_append]
      congr 2
      -- The key of the item is among those seen before already.
      exact repeatsAfter_congr fun other _ => by
        by_cases again : key other = key item <;> simp [again, seen]
    next =>
      rw [ih]
      congr 1
      exact repeatsAfter_congr fun other _ => by simp [or_left_comm]

/-- Nothing is a repeat where all keys differ, also from those before. -/
theorem repeatsAfter_eq_nil_iff {before : List κ} : repeatsAfter key before items = [] ↔
    (items.map key).Nodup ∧ ∀ item ∈ items, key item ∉ before := by
  induction items generalizing before with
  | nil => simp [repeatsAfter]
  | cons item rest ih =>
    rw [repeatsAfter]
    by_cases seen : key item ∈ before
    · simp [seen]
    · rw [if_neg (by simpa using seen), ih, List.map_cons, List.nodup_cons]
      simp only [List.mem_cons, not_or, forall_and, forall_eq_or_imp, List.mem_map, not_exists,
        not_and]
      constructor
      · rintro ⟨distinct, other, unseen⟩
        exact ⟨⟨other, distinct⟩, seen, unseen⟩
      · rintro ⟨⟨other, distinct⟩, _, unseen⟩
        exact ⟨distinct, other, unseen⟩

/-- Only which keys are equal matters. -/
theorem repeatsAfter_rekey {other : α → ι} {seen : List α}
    (same : ∀ x ∈ seen ++ items, ∀ y ∈ items, key x = key y ↔ other x = other y) :
    repeatsAfter key (seen.map key) items = repeatsAfter other (seen.map other) items := by
  induction items generalizing seen with
  | nil => rfl
  | cons item rest ih =>
    have head : (seen.map key).contains (key item) = (seen.map other).contains (other item) := by
      rw [Bool.eq_iff_iff]
      simp only [List.contains_iff_mem, List.mem_map]
      exact exists_congr fun x => and_congr_right fun member =>
        same x (by simp [member]) item List.mem_cons_self
    have tail : ∀ x ∈ seen ++ rest, ∀ y ∈ rest, key x = key y ↔ other x = other y := by
      intro x member y later
      refine same x ?_ y (List.mem_cons_of_mem _ later)
      rcases List.mem_append.mp member with member | member <;> simp [member]
    simp only [repeatsAfter, head]
    split
    · rw [ih tail]
    · have later : ∀ x ∈ (item :: seen) ++ rest, ∀ y ∈ rest, key x = key y ↔ other x = other y := by
        intro x member y later
        refine same x ?_ y (List.mem_cons_of_mem _ later)
        simpa [or_left_comm] using member
      exact ih later

end StyleAudit
