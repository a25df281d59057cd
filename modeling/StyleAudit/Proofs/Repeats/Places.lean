import Mathlib.Data.List.Basic
import Mathlib.Data.List.Induction
import StyleAudit.Proofs.Repeats

/-! Which items a search for repeats finds: those at places where a key comes again. One item more
at the end is a repeat or not by the keys before it, and changes nothing else. -/
namespace StyleAudit

variable {key : α → κ} {items : List α}

/-- An item whose key some item before it has. -/
def RepeatsAt (key : α → κ) (items : List α) (place : Nat) : Prop :=
  ∃ before < place, ∃ earlier item, items[before]? = some earlier ∧ items[place]? = some item ∧
    key earlier = key item

/-- The items at all places where a key comes again, in order. -/
def IsRepeats (key : α → κ) (items repeated : List α) : Prop :=
  ∃ places : List Nat, places.Pairwise (· < ·) ∧
    (∀ place, place ∈ places ↔ RepeatsAt key items place) ∧
    repeated = places.filterMap (items[·]?)

theorem RepeatsAt.lt_length {place : Nat} (again : RepeatsAt key items place) :
    place < items.length := by
  obtain ⟨_, _, _, item, _, here, _⟩ := again
  exact (List.getElem?_eq_some_iff.mp here).1

theorem repeatsAt_concat {item : α} {place : Nat} : RepeatsAt key (items ++ [item]) place ↔
    RepeatsAt key items place ∨ place = items.length ∧ key item ∈ items.map key := by
  constructor
  · rintro ⟨before, less, earlier, here, atBefore, atPlace, same⟩
    have inside := (List.getElem?_eq_some_iff.mp atPlace).1
    rw [List.length_append, List.length_singleton] at inside
    rw [List.getElem?_append_left (by omega)] at atBefore
    by_cases last : place = items.length
    · subst last
      obtain rfl : item = here := by simpa using atPlace
      exact .inr ⟨rfl, List.mem_map.mpr ⟨earlier, List.mem_of_getElem? atBefore, same⟩⟩
    · rw [List.getElem?_append_left (by omega)] at atPlace
      exact .inl ⟨before, less, earlier, here, atBefore, atPlace, same⟩
  · rintro (again | ⟨rfl, member⟩)
    · have inside := again.lt_length
      obtain ⟨before, less, earlier, here, atBefore, atPlace, same⟩ := again
      refine ⟨before, less, earlier, here, ?_, ?_, same⟩
      · rwa [List.getElem?_append_left (by omega)]
      · rwa [List.getElem?_append_left inside]
    · obtain ⟨earlier, among, same⟩ := List.mem_map.mp member
      obtain ⟨before, atBefore⟩ := List.mem_iff_getElem?.mp among
      have less := (List.getElem?_eq_some_iff.mp atBefore).1
      refine ⟨before, less, earlier, item, ?_, by simp, same⟩
      rwa [List.getElem?_append_left less]

section Search

variable [BEq κ] [LawfulBEq κ]

theorem repeatsAfter_concat (items : List α) (item : α) : repeatsAfter key [] (items ++ [item]) =
    repeatsAfter key [] items ++ if key item ∈ items.map key then [item] else [] := by
  rw [repeatsAfter_append]
  simp only [List.append_nil, repeatsAfter, List.contains_iff_mem]

theorem isRepeats_repeatsAfter (key : α → κ) (items : List α) :
    IsRepeats key items (repeatsAfter key [] items) := by
  induction items using List.reverseRecOn with
  | nil => exact ⟨[], .nil, fun place => by simp [RepeatsAt], rfl⟩
  | append_singleton items item ih =>
    obtain ⟨places, ascending, exact, same⟩ := ih
    have inside : ∀ place ∈ places, place < items.length := fun place member =>
      ((exact place).mp member).lt_length
    have unchanged : places.filterMap ((items ++ [item])[·]?) = places.filterMap (items[·]?) :=
      List.filterMap_congr fun place member => List.getElem?_append_left (inside place member)
    rw [repeatsAfter_concat, same]
    by_cases again : key item ∈ items.map key
    · refine ⟨places ++ [items.length], ?_, fun place => ?_, ?_⟩
      · rw [List.pairwise_append]
        refine ⟨ascending, List.pairwise_singleton _ _, fun place member last here => ?_⟩
        rw [List.mem_singleton.mp here]
        exact inside place member
      · rw [List.mem_append, List.mem_singleton, repeatsAt_concat, exact]
        simp [again]
      · simp [again, unchanged]
    · refine ⟨places, ascending, fun place => ?_, by simp [again, unchanged]⟩
      rw [repeatsAt_concat, exact]
      simp [again]

/-- Of the items with one key all but the first are repeats. -/
theorem count_repeatsAfter (items : List α) (k : κ) :
    ((repeatsAfter key [] items).map key).count k = (items.map key).count k - 1 := by
  induction items using List.reverseRecOn with
  | nil => rfl
  | append_singleton items item ih =>
    rw [repeatsAfter_concat, List.map_append, List.count_append, ih, List.map_append, List.count_append]
    by_cases same : key item = k
    · subst same
      by_cases again : key item ∈ items.map key
      · have := List.count_pos_iff.mpr again
        simp only [again, if_true, List.map_singleton, List.count_singleton_self]
        omega
      · simp [again, List.count_eq_zero.mpr again]
    · have none : [key item].count k = 0 := List.count_eq_zero.mpr (by simpa using Ne.symm same)
      split <;> simp [none]

theorem filter_repeatsAfter {kind : α → Bool} (told : ∀ x y, key x = key y → kind x = kind y)
    (items : List α) :
    (repeatsAfter key [] items).filter kind = repeatsAfter key [] (items.filter kind) := by
  induction items using List.reverseRecOn with
  | nil => rfl
  | append_singleton items item ih =>
    rw [repeatsAfter_concat, List.filter_append, ih, List.filter_append]
    cases isKind : kind item with
    | false =>
      split <;> simp [isKind]
    | true =>
      have member : key item ∈ items.map key ↔ key item ∈ (items.filter kind).map key := by
        simp only [List.mem_map, List.mem_filter]
        refine exists_congr fun earlier => ?_
        constructor
        · rintro ⟨among, same⟩
          exact ⟨⟨among, (told earlier item same).trans isKind⟩, same⟩
        · rintro ⟨⟨among, -⟩, same⟩
          exact ⟨among, same⟩
      have single : [item].filter kind = [item] := by simp [isKind]
      rw [single, repeatsAfter_concat]
      simp only [member]
      split <;> simp [isKind]

end Search

end StyleAudit
