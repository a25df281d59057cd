import Mathlib.Logic.Relation
import Mathlib.Data.Nat.Find
import StyleAudit.Outline.Reading

/-! The links of a node array that grows one node at a time. A new node goes below the last
one or below something that encloses it, hence the nodes stay in the order of a walk that
visits a node before what is below it. -/
namespace StyleAudit

open Reading (maxDepth isPlainName)
open Reading.Reader (addNode)

/-- The link up from a node, if it exists and has one. -/
def parent? (nodes : Array Node) (index : Nat) : Option Nat := nodes[index]?.bind Node.parent

/-- Links up from `lower` lead to `upper`, possibly because both are the same node. -/
abbrev Within (nodes : Array Node) : Nat → Nat → Prop :=
  Relation.ReflTransGen fun upper lower => parent? nodes lower = some upper

/-- A key stands in an object, one level deeper. An object is the value of a key. -/
def Node.Fits (node above : Node) : Prop :=
  match node.kind with
  | .key name =>
    above.kind = .object ∧ node.depth = min (above.depth + 1) maxDepth ∧ isPlainName name = true
  | .object => (∃ name, above.kind = .key name) ∧ node.depth = above.depth

/-- The parent of each node but the first encloses the node before it. Children are those
nodes that name the parent, in order. -/
structure Linked (nodes : Array Node) : Prop where
  root : ∃ node, nodes[Outline.root]? = some node ∧ node.kind = .object ∧ node.depth = 0 ∧
    node.parent = none
  parent : ∀ i node, nodes[i + 1]? = some node → ∃ p above, node.parent = some p ∧ p ≤ i ∧
    nodes[p]? = some above ∧ node.Fits above ∧ Within nodes p i
  children : ∀ p node, nodes[p]? = some node → node.children.toList =
    (List.range nodes.size).filter fun i => decide (parent? nodes i = some p)
  single : ∀ (p : Nat) (node : Node) (name : String), nodes[p]? = some node →
    node.kind = .key name → node.children.size ≤ 1

theorem parent?_eq_some {nodes : Array Node} {index p : Nat} :
    parent? nodes index = some p ↔ ∃ node, nodes[index]? = some node ∧ node.parent = some p := by
  simp [parent?, Option.bind_eq_some_iff]

theorem lt_size_of_parent? {nodes : Array Node} {index p : Nat}
    (link : parent? nodes index = some p) : index < nodes.size := by
  obtain ⟨node, found, _⟩ := parent?_eq_some.mp link
  exact (Array.getElem?_eq_some_iff.mp found).1

section AddNode

variable {nodes : Array Node} {kind : Node.Kind} {p depth line : Nat}

@[simp] theorem size_addNode : (addNode nodes kind p depth line).size = nodes.size + 1 := by
  simp [addNode]

theorem addNode_last (inside : p < nodes.size) :
    (addNode nodes kind p depth line)[nodes.size]? = some ⟨kind, some p, #[], depth, line⟩ := by
  simp only [addNode, Array.getElem?_modify, Array.getElem?_push_size, Nat.ne_of_lt inside]
  rfl

theorem addNode_parent {above : Node} (found : nodes[p]? = some above) :
    (addNode nodes kind p depth line)[p]? =
      some { above with children := above.children.push nodes.size } := by
  have inside := (Array.getElem?_eq_some_iff.mp found).1
  simp [addNode, Array.getElem?_modify, Array.getElem?_push, Nat.ne_of_lt inside, found]

theorem addNode_other {i : Nat} (old : i < nodes.size) (apart : i ≠ p) :
    (addNode nodes kind p depth line)[i]? = nodes[i]? := by
  simp [addNode, Array.getElem?_modify, Array.getElem?_push, Ne.symm apart, Nat.ne_of_lt old]

/-- Whatever a node said before, apart from its children, it says after. -/
theorem addNode_old (kind : Node.Kind) (p depth line : Nat) {i : Nat} {node : Node}
    (found : nodes[i]? = some node) :
    ∃ children, (addNode nodes kind p depth line)[i]? = some { node with children } ∧
      (i ≠ p → children = node.children) := by
  by_cases same : i = p
  · subst same
    exact ⟨_, addNode_parent found, fun apart => absurd rfl apart⟩
  · rw [addNode_other (Array.getElem?_eq_some_iff.mp found).1 same, found]
    exact ⟨_, rfl, fun _ => rfl⟩

/-- A node after the addition is the new one or says what it said before. -/
theorem addNode_cases (inside : p < nodes.size) {i : Nat} {node : Node}
    (found : (addNode nodes kind p depth line)[i]? = some node) :
    (i = nodes.size ∧ node = ⟨kind, some p, #[], depth, line⟩) ∨
    (∃ old children, nodes[i]? = some old ∧ node = { old with children } ∧
      (i ≠ p → children = old.children)) := by
  by_cases last : i = nodes.size
  · subst last
    rw [addNode_last inside] at found
    exact .inl ⟨rfl, (Option.some.inj found).symm⟩
  · have bound := (Array.getElem?_eq_some_iff.mp found).1
    rw [size_addNode] at bound
    have old : nodes[i]? = some nodes[i] := Array.getElem?_eq_getElem (by omega)
    obtain ⟨children, kept, apart⟩ := addNode_old kind p depth line old
    rw [kept] at found
    exact .inr ⟨_, children, old, (Option.some.inj found).symm, apart⟩

theorem parent?_addNode (inside : p < nodes.size) (i : Nat) :
    parent? (addNode nodes kind p depth line) i =
      if i = nodes.size then some p else parent? nodes i := by
  split
  next last =>
    rw [parent?, last, addNode_last inside]
    rfl
  next notLast =>
    cases found : nodes[i]? with
    | none =>
      have outside := Array.getElem?_eq_none_iff.mp found
      rw [parent?, parent?, found, Array.getElem?_eq_none (by simp; omega)]
    | some node =>
      obtain ⟨children, kept, _⟩ := addNode_old kind p depth line found
      simp [parent?, kept, found]

theorem Within.addNode (inside : p < nodes.size) {upper lower : Nat}
    (within : Within nodes upper lower) :
    Within (addNode nodes kind p depth line) upper lower := by
  refine Relation.ReflTransGen.mono (fun up low link => ?_) _ _ within
  rw [parent?_addNode inside, if_neg (Nat.ne_of_lt (lt_size_of_parent? link)), link]

theorem Within.below_addNode (inside : p < nodes.size) {upper : Nat}
    (within : Within nodes upper p) :
    Within (Reading.Reader.addNode nodes kind p depth line) upper nodes.size :=
  (within.addNode inside).tail (by rw [parent?_addNode inside, if_pos rfl])

end AddNode

namespace Linked

variable {nodes : Array Node}

theorem parent_lt (linked : Linked nodes) {i p : Nat} (link : parent? nodes i = some p) : p < i := by
  obtain ⟨node, found, parent⟩ := parent?_eq_some.mp link
  cases i with
  | zero =>
    obtain ⟨first, atRoot, _, _, orphan⟩ := linked.root
    cases Option.some.inj (found.symm.trans atRoot)
    simp [orphan] at parent
  | succ i =>
    obtain ⟨q, _, named, bound, _⟩ := linked.parent i node found
    cases Option.some.inj (parent.symm.trans named)
    omega

theorem le_of_within (linked : Linked nodes) {upper lower : Nat}
    (within : Within nodes upper lower) : upper ≤ lower := by
  induction within with
  | refl => exact Nat.le_refl upper
  | tail _ link ih => exact Nat.le_trans ih (Nat.le_of_lt (linked.parent_lt link))

theorem single_root (line : Nat) : Linked #[⟨.object, none, #[], 0, line⟩] where
  root := ⟨_, rfl, rfl, rfl, rfl⟩
  parent i node found := by simp at found
  children p node found := by
    rw [Array.getElem?_singleton] at found
    split at found <;> cases found
    simp [parent?]
  single p node name found kind := by
    rw [Array.getElem?_singleton] at found
    split at found <;> cases found
    cases kind

/-- The parent of a new node has to enclose the last node. Anything else would leave the
nodes below some earlier node with a gap. -/
theorem addNode (linked : Linked nodes) {kind : Node.Kind} {p depth line : Nat} {above : Node}
    (found : nodes[p]? = some above) (tip : Within nodes p (nodes.size - 1))
    (fits : (⟨kind, some p, #[], depth, line⟩ : Node).Fits above)
    (bare : ∀ name, above.kind = .key name → above.children = #[]) :
    Linked (Reading.Reader.addNode nodes kind p depth line) := by
  have inside := (Array.getElem?_eq_some_iff.mp found).1
  constructor
  case root =>
    obtain ⟨first, atRoot, shape⟩ := linked.root
    obtain ⟨children, kept, _⟩ := addNode_old kind p depth line atRoot
    exact ⟨_, kept, shape⟩
  case parent =>
    intro i node atNext
    rcases addNode_cases inside atNext with ⟨last, rfl⟩ | ⟨old, children, atOld, rfl, _⟩
    · rw [← last, Nat.add_sub_cancel] at tip
      exact ⟨p, _, rfl, by omega, addNode_parent found, fits, tip.addNode inside⟩
    · obtain ⟨q, parent, named, bound, atParent, fit, within⟩ := linked.parent i old atOld
      obtain ⟨siblings, kept, _⟩ := addNode_old kind p depth line atParent
      exact ⟨q, _, named, bound, kept, fit, within.addNode inside⟩
  case children =>
    intro q node atQ
    have links : (List.range nodes.size).filter
          (fun i => decide (parent? (Reading.Reader.addNode nodes kind p depth line) i = some q)) =
        (List.range nodes.size).filter fun i => decide (parent? nodes i = some q) := by
      refine List.filter_congr fun i member => ?_
      rw [parent?_addNode inside, if_neg (Nat.ne_of_lt (List.mem_range.mp member))]
    rw [size_addNode, List.range_succ, List.filter_append, links, List.filter_cons,
      List.filter_nil, parent?_addNode inside, if_pos rfl]
    by_cases same : q = p
    · subst same
      rw [addNode_parent found] at atQ
      obtain rfl := Option.some.inj atQ
      simp [linked.children q above found]
    · rcases addNode_cases inside atQ with ⟨rfl, rfl⟩ | ⟨old, children, atOld, rfl, apart⟩
      · have childless : ∀ i, parent? nodes i ≠ some nodes.size := fun i link =>
          absurd (linked.parent_lt link) (Nat.not_lt.mpr (Nat.le_of_lt (lt_size_of_parent? link)))
        simp [childless, Nat.ne_of_lt inside]
      · simp [apart same, linked.children q old atOld, Ne.symm same]
  case single =>
    intro q node name atQ isKey
    by_cases same : q = p
    · subst same
      rw [addNode_parent found] at atQ
      obtain rfl := Option.some.inj atQ
      simp [bare name isKey]
    · rcases addNode_cases inside atQ with ⟨rfl, rfl⟩ | ⟨old, children, atOld, rfl, apart⟩
      · simp
      · rw [apart same]
        exact linked.single q old name atOld isKey

/-- What lies within a node is a stretch that begins with the node itself. -/
theorem within_iff (linked : Linked nodes) {i : Nat} (inside : i < nodes.size) :
    ∃ stop, i < stop ∧ ∀ j, Within nodes i j ↔ i ≤ j ∧ j < stop := by
  classical
  have ends : ∃ j, i ≤ j ∧ ¬ Within nodes i j := by
    refine ⟨nodes.size, Nat.le_of_lt inside, fun within => ?_⟩
    rcases within.cases_tail with same | ⟨p, _, link⟩
    · omega
    · exact Nat.lt_irrefl _ (lt_size_of_parent? link)
  have least := Nat.find_spec ends
  have before (j : Nat) (low : i ≤ j) (high : j < Nat.find ends) : Within nodes i j := by
    by_contra apart
    exact Nat.find_min ends high ⟨low, apart⟩
  -- Once a node is outside, so is the next one: its parent would enclose the node outside.
  have after (j : Nat) (high : Nat.find ends ≤ j) : ¬ Within nodes i j := by
    induction j, high using Nat.le_induction with
    | base => exact least.2
    | succ j high ih =>
      intro within
      rcases within.cases_tail with same | ⟨p, above, link⟩
      · have := least.1
        omega
      · obtain ⟨node, found, parent⟩ := parent?_eq_some.mp link
        obtain ⟨q, _, named, _, _, _, inner⟩ := linked.parent j node found
        cases Option.some.inj (parent.symm.trans named)
        exact ih (above.trans inner)
  refine ⟨Nat.find ends, ?_, fun j => ⟨fun within => ?_, fun ⟨low, high⟩ => before j low high⟩⟩
  · refine lt_of_le_of_ne least.1 fun same => least.2 ?_
    rw [← same]
  · refine ⟨linked.le_of_within within, ?_⟩
    by_contra high
    exact after j (Nat.not_lt.mp high) within

end Linked

end StyleAudit
