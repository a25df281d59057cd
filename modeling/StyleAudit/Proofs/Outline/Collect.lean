import StyleAudit.Outline

/-! Collecting over a list, part by part. `Yields` says that the choice fails for no item and
keeps exactly the results. -/
namespace StyleAudit

/-- What a choice keeps of an item, if it does not fail. -/
def kept (choose : α → Except ε (Option β)) (item : α) : Option β := (choose item).toOption.join

theorem kept_eq_some {choose : α → Except ε (Option β)} {item : α} {result : β} :
    kept choose item = some result ↔ choose item = .ok (some result) := by
  cases chosen : choose item <;> simp [kept, chosen, Except.toOption]

theorem mapM_eq_ok {produce : α → Except ε β} {result : α → β} {items : List α}
    (produces : ∀ item ∈ items, produce item = .ok (result item)) :
    items.mapM produce = .ok (items.map result) := by
  induction items with
  | nil => rfl
  | cons item items ih =>
    have rest := ih fun other member => produces other (List.mem_cons_of_mem _ member)
    rw [List.mapM_cons, produces item List.mem_cons_self, rest]
    rfl

inductive Yields (choose : α → Except ε (Option β)) : List α → List β → Prop where
  | nil : Yields choose [] []
  | skip : choose item = .ok none → Yields choose items results →
      Yields choose (item :: items) results
  | keep : choose item = .ok (some result) → Yields choose items results →
      Yields choose (item :: items) (result :: results)

namespace Yields

variable {choose : α → Except ε (Option β)} {items others : List α} {results more : List β}

theorem append (first : Yields choose items results) (second : Yields choose others more) :
    Yields choose (items ++ others) (results ++ more) := by
  induction first with
  | nil => exact second
  | skip chosen _ ih => exact skip chosen ih
  | keep chosen _ ih => exact keep chosen ih

theorem none (nothing : ∀ item ∈ items, choose item = .ok none) : Yields choose items [] := by
  induction items with
  | nil => exact nil
  | cons item items ih =>
    exact skip (nothing item List.mem_cons_self) (ih fun other member =>
      nothing other (List.mem_cons_of_mem _ member))

/-- A choice that keeps something of every item. -/
theorem map {result : α → β} (keeps : ∀ item ∈ items, choose item = .ok (some (result item))) :
    Yields choose items (items.map result) := by
  induction items with
  | nil => exact nil
  | cons item items ih =>
    obtain ⟨here, later⟩ := List.forall_mem_cons.mp keeps
    exact keep here (ih later)

/-- A choice that fails for no item filters them. -/
theorem filterMap (settled : ∀ item ∈ items, ∃ result, choose item = .ok result) :
    Yields choose items (items.filterMap (kept choose)) := by
  induction items with
  | nil => exact nil
  | cons item items ih =>
    have rest := ih fun other member => settled other (List.mem_cons_of_mem _ member)
    obtain ⟨result, chosen⟩ := settled item List.mem_cons_self
    cases result with
    | none =>
      have dropped : kept choose item = Option.none := by simp [kept, chosen, Except.toOption]
      rw [List.filterMap_cons_none dropped]
      exact skip chosen rest
    | some result =>
      rw [List.filterMap_cons_some (kept_eq_some.mpr chosen)]
      exact keep chosen rest

theorem collect (yields : Yields choose items results) (found : Array β) :
    StyleAudit.collect choose found items = .ok (found.toList ++ results) := by
  induction yields generalizing found with
  | nil => simp [StyleAudit.collect]
  | skip chosen _ ih =>
    simp only [StyleAudit.collect, chosen]
    exact ih found
  | keep chosen _ ih =>
    simp only [StyleAudit.collect, chosen]
    rw [ih, Array.toList_push, List.append_assoc]
    rfl

/-- Collecting that succeeds has chosen for every item. -/
theorem of_collect {found : Array β} (collected : StyleAudit.collect choose found items = .ok results) :
    ∃ later, results = found.toList ++ later ∧ Yields choose items later := by
  induction items generalizing found with
  | nil => exact ⟨[], by simpa [StyleAudit.collect] using collected.symm, nil⟩
  | cons item items ih =>
    rw [StyleAudit.collect] at collected
    split at collected
    next => cases collected
    next chosen =>
      obtain ⟨later, same, yields⟩ := ih collected
      exact ⟨later, same, skip chosen yields⟩
    next result chosen =>
      obtain ⟨later, same, yields⟩ := ih collected
      exact ⟨result :: later, by simpa using same, keep chosen yields⟩

theorem exists_item (yields : Yields choose items results) :
    ∀ result ∈ results, ∃ item ∈ items, choose item = .ok (some result) := by
  induction yields with
  | nil => simp
  | skip _ _ ih =>
    intro result member
    obtain ⟨item, among, chosen⟩ := ih result member
    exact ⟨item, List.mem_cons_of_mem _ among, chosen⟩
  | keep first _ ih =>
    intro result member
    rcases List.mem_cons.mp member with rfl | member
    · exact ⟨_, List.mem_cons_self, first⟩
    · obtain ⟨item, among, chosen⟩ := ih result member
      exact ⟨item, List.mem_cons_of_mem _ among, chosen⟩

theorem collect_filterMap (settled : ∀ item ∈ items, ∃ result, choose item = .ok result) :
    StyleAudit.collect choose #[] items = .ok (items.filterMap (kept choose)) :=
  (filterMap settled).collect #[]

end Yields

end StyleAudit
