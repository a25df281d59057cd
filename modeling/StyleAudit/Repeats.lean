import Std.Data.HashMap.Lemmas
import Std.Data.HashSet.Lemmas

/-! The repeats in a list: the items whose key an earlier item has. They are found in one
pass with a hash set, or with one for each part that the items belong to, which agrees with
looking the key up among all earlier ones. -/
namespace StyleAudit

/-- The items whose key an earlier item has, or one of the keys `before`. -/
def repeatsAfter [BEq κ] (key : α → κ) (before : List κ) : List α → List α
  | [] => []
  | item :: rest =>
    if before.contains (key item) then item :: repeatsAfter key before rest
    else repeatsAfter key (key item :: before) rest

def collectRepeats [BEq κ] [Hashable κ] (key : α → κ) (seen : Std.HashSet κ) (found : Array α) :
    List α → List α
  | [] => found.toList
  | item :: rest =>
    if seen.contains (key item) then collectRepeats key seen (found.push item) rest
    else collectRepeats key (seen.insert (key item)) found rest

def repeats [BEq κ] [Hashable κ] (key : α → κ) (items : List α) : List α :=
  collectRepeats key ∅ #[] items

theorem collectRepeats_eq [BEq κ] [Hashable κ] [LawfulBEq κ] [LawfulHashable κ] (key : α → κ)
    (items : List α) : ∀ (seen : Std.HashSet κ) (found : Array α) (before : List κ),
      (∀ k, seen.contains k = before.contains k) →
      collectRepeats key seen found items = found.toList ++ repeatsAfter key before items := by
  induction items with
  | nil => intro _ _ _ _; simp [collectRepeats, repeatsAfter]
  | cons item rest ih =>
    intro seen found before same
    simp only [collectRepeats, repeatsAfter, same (key item)]
    split
    · rw [ih _ _ before same]
      simp
    · refine ih _ _ (key item :: before) fun k => ?_
      rw [Std.HashSet.contains_insert, same k, List.contains_cons, Bool.beq_comm]

theorem repeats_eq_repeatsAfter [BEq κ] [Hashable κ] [LawfulBEq κ] [LawfulHashable κ]
    (key : α → κ) (items : List α) : repeats key items = repeatsAfter key [] items := by
  simpa [repeats] using collectRepeats_eq key items ∅ #[] [] (by simp)

/-- Names are compared within one part only, with a set of names for each part. -/
def collectRepeatsWithin [BEq ι] [Hashable ι] [BEq κ] [Hashable κ] (part : α → ι) (name : α → κ)
    (seen : Std.HashMap ι (Std.HashSet κ)) (found : Array α) : List α → List α
  | [] => found.toList
  | item :: rest =>
    if (seen.getD (part item) ∅).contains (name item) then
      collectRepeatsWithin part name seen (found.push item) rest
    else
      let seen := seen.alter (part item) fun names => some ((names.getD ∅).insert (name item))
      collectRepeatsWithin part name seen found rest

def repeatsWithin [BEq ι] [Hashable ι] [BEq κ] [Hashable κ] (part : α → ι) (name : α → κ)
    (items : List α) : List α :=
  collectRepeatsWithin part name ∅ #[] items

section Within

variable [BEq ι] [Hashable ι] [LawfulBEq ι] [LawfulHashable ι]
  [BEq κ] [Hashable κ] [LawfulBEq κ] [LawfulHashable κ]

/-- The set of each part holds the names that were seen with this part. -/
theorem collectRepeatsWithin_eq (part : α → ι) (name : α → κ) (items : List α) :
    ∀ (seen : Std.HashMap ι (Std.HashSet κ)) (found : Array α) (before : List (ι × κ)),
      (∀ i k, (seen.getD i ∅).contains k = before.contains (i, k)) →
      collectRepeatsWithin part name seen found items =
        found.toList ++ repeatsAfter (fun item => (part item, name item)) before items := by
  induction items with
  | nil => intro _ _ _ _; simp [collectRepeatsWithin, repeatsAfter]
  | cons item rest ih =>
    intro seen found before same
    simp only [collectRepeatsWithin, repeatsAfter, same (part item) (name item)]
    split
    · rw [ih _ _ before same]
      simp
    · refine ih _ _ ((part item, name item) :: before) fun i k => ?_
      rw [Std.HashMap.getD_alter, List.contains_cons]
      by_cases here : part item = i
      · subst here
        have own : seen[part item]?.getD ∅ = seen.getD (part item) ∅ :=
          Std.HashMap.getD_eq_getD_getElem?.symm
        have pair : ((part item, k) == (part item, name item)) = (name item == k) := by
          rw [Bool.eq_iff_iff, beq_iff_eq, beq_iff_eq, Prod.mk.injEq]
          simp [eq_comm]
        simp only [BEq.rfl, if_true, Option.getD_some, own, pair]
        rw [Std.HashSet.contains_insert, same]
      · simp [here, Ne.symm here, same]

theorem repeatsWithin_eq_repeatsAfter (part : α → ι) (name : α → κ) (items : List α) :
    repeatsWithin part name items =
      repeatsAfter (fun item => (part item, name item)) [] items := by
  simpa [repeatsWithin] using collectRepeatsWithin_eq part name items ∅ #[] [] (by simp)

end Within

end StyleAudit
