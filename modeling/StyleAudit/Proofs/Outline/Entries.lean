import Mathlib.Data.List.Basic
import StyleAudit.Proofs.Outline.Queries

/-! The entries of a container, told apart by their values. Where the links of an outline agree,
each key of the container is either a group or has no object value. -/
namespace StyleAudit

namespace Outline

def plainName? (outline : Outline) (key : Nat) : Except OutOfRange (Option String) := do
  match ← outline.value? key with
  | some _ => return none
  | none => outline.name? key

/-- The keys of the container, the groups among them, and the names of all others. -/
structure Entries (outline : Outline) (keys : List Nat) (groups : List Group)
    (plain : List String) : Prop where
  hasKeys : outline.keysOf root = .ok keys
  hasGroups : outline.groups = .ok groups
  hasPlain : collect outline.plainName? #[] keys = .ok plain
  complement : plain.length + groups.length = keys.length

end Outline

/-- The name of a key that stands in the container and has nothing below it. -/
def bareName? (nodes : Array Node) (index : Nat) : Option String :=
  nodes[index]?.bind fun node =>
    if node.parent = some Outline.root ∧ node.children = #[] then node.name? else none

def bareNames (nodes : Array Node) (count : Nat) : List String :=
  (List.range count).filterMap (bareName? nodes)

theorem bareNames_succ (nodes : Array Node) (count : Nat) :
    bareNames nodes (count + 1) = bareNames nodes count ++ (bareName? nodes count).toList := by
  rw [bareNames, List.range_succ, List.filterMap_append]
  cases named : bareName? nodes count <;> simp [bareNames, named]

theorem bareName?_eq_none {nodes : Array Node} {index : Nat}
    (elsewhere : parent? nodes index ≠ some Outline.root) : bareName? nodes index = none := by
  rw [parent?] at elsewhere
  cases found : nodes[index]? with
  | none => simp [bareName?, found]
  | some node =>
    rw [found, Option.bind_some] at elsewhere
    simp [bareName?, found, elsewhere]

/-- Two choices of which exactly one keeps something of each item. -/
theorem length_filterMap_add {first : α → Option β} {second : α → Option γ} {items : List α}
    (either : ∀ item ∈ items, (first item).isSome = !(second item).isSome) :
    (items.filterMap first).length + (items.filterMap second).length = items.length := by
  induction items with
  | nil => rfl
  | cons item items ih =>
    obtain ⟨here, later⟩ := List.forall_mem_cons.mp either
    have rest := ih later
    cases kept : second item with
    | none =>
      obtain ⟨result, same⟩ := Option.isSome_iff_exists.mp (by simpa [kept] using here)
      simp only [List.filterMap_cons, same, kept, List.length_cons]
      omega
    | some result =>
      have same : first item = none := by simpa [kept] using here
      simp only [List.filterMap_cons, same, kept, List.length_cons]
      omega

namespace Linked

open Outline

variable {outline : Outline}

theorem value?_eq_none_iff (linked : Linked outline.nodes) {key : Nat} {entry : Node}
    {name : String} (found : outline.nodes[key]? = some entry) (isKey : entry.kind = .key name) :
    outline.value? key = .ok none ↔ entry.children = #[] := by
  obtain ⟨value, read, iff⟩ := linked.value?_eq found isKey
  rw [read]
  constructor
  · rintro ⟨⟩
    refine Array.toList_eq_nil_iff.mp (List.eq_nil_iff_forall_not_mem.mpr fun child member => ?_)
    cases (iff child).mpr (linked.hasValue_of_child found isKey member)
  · intro bare
    cases value with
    | none => rfl
    | some body => simpa [bare] using linked.children_of_key found isKey ((iff body).mp rfl)

theorem isKey_of_parent (linked : Linked outline.nodes) {index : Nat} {node : Node}
    (found : outline.nodes[index]? = some node) (parent : node.parent = some Outline.root) :
    ∃ name, node.kind = .key name := by
  cases kind : node.kind with
  | key name => exact ⟨name, rfl⟩
  | object =>
    have later : index ≠ Outline.root :=
      Nat.ne_of_gt (linked.parent_lt (parent?_eq_some.mpr ⟨node, found, parent⟩))
    obtain ⟨p, above, name, up, atParent, isKey, _⟩ := linked.value_fits later found kind
    obtain ⟨first, atRoot, isObject, _⟩ := linked.root
    cases Option.some.inj (parent.symm.trans up)
    cases Option.some.inj (atParent.symm.trans atRoot)
    simp [isObject] at isKey

theorem entry_eq (linked : Linked outline.nodes) {index : Nat} {node : Node}
    (found : outline.nodes[index]? = some node) (parent : node.parent = some Outline.root) :
    ∃ name group, outline.name? index = .ok (some name) ∧ outline.group? index = .ok group ∧
      outline.plainName? index = .ok (bareName? outline.nodes index) ∧
      group.isSome = !(bareName? outline.nodes index).isSome := by
  obtain ⟨name, isKey⟩ := linked.isKey_of_parent found parent
  obtain ⟨value, read, _⟩ := linked.value?_eq found isKey
  have bare : value = none ↔ node.children = #[] := by
    rw [← linked.value?_eq_none_iff found isKey, read, Except.ok.injEq]
  have named : node.name? = some name := Node.name?_eq_some.mpr isKey
  refine ⟨name, value.map fun body => ⟨name, node.line, body⟩, ?_, ?_, ?_⟩
  · rw [name?_eq found, named]
  · simp [group?, node_eq_ok.mpr found, isKey, read, bind, Except.bind, pure, Except.pure]
  · simp only [plainName?, read, bareName?, found, Option.bind_some, parent, named, bind,
      Except.bind]
    cases value with
    | none => simp [bare.mp rfl, name?_eq found, named]
    | some body =>
      have full : node.children ≠ #[] := fun empty => by cases bare.mpr empty
      simp [full, pure, Except.pure]

theorem bareNames_eq (linked : Linked outline.nodes) {first : Node}
    (atRoot : outline.nodes[Outline.root]? = some first) :
    bareNames outline.nodes outline.nodes.size =
      first.children.toList.filterMap (bareName? outline.nodes) := by
  rw [bareNames, linked.children _ first atRoot, List.filterMap_filter]
  refine List.filterMap_congr fun index _ => ?_
  split
  next => rfl
  next elsewhere => exact bareName?_eq_none (by simpa using elsewhere)

theorem entries_eq (linked : Linked outline.nodes) :
    ∃ keys groups, outline.Entries keys groups (bareNames outline.nodes outline.nodes.size) := by
  obtain ⟨first, atRoot, _⟩ := linked.root
  have entry : ∀ index ∈ first.children.toList, ∃ name group,
      outline.name? index = .ok (some name) ∧ outline.group? index = .ok group ∧
        outline.plainName? index = .ok (bareName? outline.nodes index) ∧
        group.isSome = !(bareName? outline.nodes index).isSome := by
    intro index member
    obtain ⟨node, found, parent⟩ := linked.child_inside atRoot member
    exact linked.entry_eq found parent
  have plain : first.children.toList.filterMap (kept outline.plainName?) =
      bareNames outline.nodes outline.nodes.size := by
    rw [linked.bareNames_eq atRoot]
    refine List.filterMap_congr fun index member => ?_
    obtain ⟨_, _, _, _, named, _⟩ := entry index member
    simp [kept, named, Except.toOption]
  refine ⟨first.children.toList, first.children.toList.filterMap (kept outline.group?), ?_⟩
  constructor
  case hasKeys =>
    rw [Outline.keysOf, node_eq_ok.mpr atRoot]
    refine ((Yields.map fun index member => ?_).collect #[]).trans
      (congrArg Except.ok (List.map_id first.children.toList))
    obtain ⟨_, _, isKey, _⟩ := entry index member
    rw [isKey]
    rfl
  case hasGroups =>
    rw [Outline.groups, node_eq_ok.mpr atRoot]
    refine Yields.collect_filterMap fun index member => ?_
    obtain ⟨_, group, _, grouped, _⟩ := entry index member
    exact ⟨group, grouped⟩
  case hasPlain =>
    rw [← plain]
    refine Yields.collect_filterMap fun index member => ?_
    obtain ⟨_, _, _, _, named, _⟩ := entry index member
    exact ⟨_, named⟩
  case complement =>
    rw [linked.bareNames_eq atRoot, Nat.add_comm]
    refine length_filterMap_add fun index member => ?_
    obtain ⟨_, _, _, grouped, _, either⟩ := entry index member
    simpa [kept, grouped, Except.toOption] using either

end Linked

end StyleAudit
