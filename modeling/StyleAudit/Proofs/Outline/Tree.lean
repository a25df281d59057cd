import StyleAudit.Proofs.Outline.Links

/-! Outlines that are trees in document order. The links of such an outline agree in both
directions, keys and objects alternate at the depths their nesting gives them, and what is
below a node follows it without a gap. -/
namespace StyleAudit

namespace Outline

open Reading (maxDepth)

def HasChild (outline : Outline) (upper lower : Nat) : Prop :=
  ∃ node, outline.nodes[upper]? = some node ∧ lower ∈ node.children

/-- One or more links down lead from `upper` to `lower`. -/
def Below (outline : Outline) (upper lower : Nat) : Prop :=
  Relation.TransGen outline.HasChild upper lower

structure IsTree (outline : Outline) : Prop where
  root : ∃ node, outline.nodes[root]? = some node ∧ node.kind = .object ∧ node.depth = 0 ∧
    node.parent = none
  parent : ∀ (i : Nat) (node : Node), i ≠ Outline.root → outline.nodes[i]? = some node →
    ∃ p above, node.parent = some p ∧ p < i ∧ outline.nodes[p]? = some above ∧
    above.children.toList.count i = 1
  onlyParent : ∀ p i, outline.HasChild p i →
    ∃ node, outline.nodes[i]? = some node ∧ node.parent = some p
  ascending : ∀ (i : Nat) (node : Node), outline.nodes[i]? = some node →
    node.children.toList.Pairwise (· < ·)
  key : ∀ (i : Nat) (node : Node) name, outline.nodes[i]? = some node → node.kind = .key name →
    ∃ p above, node.parent = some p ∧ outline.nodes[p]? = some above ∧ above.kind = .object ∧
    node.depth = min (above.depth + 1) maxDepth
  value : ∀ (i : Nat) (node : Node), i ≠ Outline.root → outline.nodes[i]? = some node →
    node.kind = .object → ∃ p above name, node.parent = some p ∧ outline.nodes[p]? = some above ∧
    above.kind = .key name ∧ node.depth = above.depth
  single : ∀ (i : Nat) (node : Node) name, outline.nodes[i]? = some node →
    node.kind = .key name → node.children.size ≤ 1
  name : ∀ (i : Nat) (node : Node) name, outline.nodes[i]? = some node → node.kind = .key name →
    name ≠ "" ∧ ∀ c ∈ name.toList, c.isAlphanum = true ∨ c = '_'
  contiguous : ∀ i < outline.nodes.size, ∃ stop, ∀ j, outline.Below i j ↔ i + 1 ≤ j ∧ j < stop

end Outline

namespace Linked

variable {nodes : Array Node}

theorem mem_children (linked : Linked nodes) {p i : Nat} {node : Node}
    (found : nodes[p]? = some node) : i ∈ node.children ↔ parent? nodes i = some p := by
  rw [← Array.mem_toList_iff, linked.children p node found, List.mem_filter, List.mem_range,
    decide_eq_true_eq]
  exact ⟨And.right, fun link => ⟨lt_size_of_parent? link, link⟩⟩

theorem ascending (linked : Linked nodes) {p : Nat} {node : Node}
    (found : nodes[p]? = some node) : node.children.toList.Pairwise (· < ·) := by
  rw [linked.children p node found]
  exact List.Pairwise.filter _ List.pairwise_lt_range

theorem count_children (linked : Linked nodes) {p i : Nat} {node : Node}
    (found : nodes[p]? = some node) (link : parent? nodes i = some p) :
    node.children.toList.count i = 1 := by
  have distinct : node.children.toList.Nodup :=
    (linked.ascending found).imp fun less => Nat.ne_of_lt less
  rw [distinct.count, if_pos (Array.mem_toList_iff.mpr ((linked.mem_children found).mpr link))]

/-- Every node but the first has a parent that it fits. -/
theorem exists_parent (linked : Linked nodes) {i : Nat} {node : Node} (later : i ≠ Outline.root)
    (found : nodes[i]? = some node) :
    ∃ p above, node.parent = some p ∧ p < i ∧ nodes[p]? = some above ∧ node.Fits above := by
  obtain ⟨j, rfl⟩ := Nat.exists_eq_succ_of_ne_zero later
  obtain ⟨p, above, parent, bound, atParent, fits, _⟩ := linked.parent j node found
  exact ⟨p, above, parent, Nat.lt_succ_of_le bound, atParent, fits⟩

theorem key_ne_root (linked : Linked nodes) {i : Nat} {node : Node} {name : String}
    (found : nodes[i]? = some node) (isKey : node.kind = .key name) : i ≠ Outline.root := by
  rintro rfl
  obtain ⟨first, atRoot, isObject, _⟩ := linked.root
  cases Option.some.inj (found.symm.trans atRoot)
  simp [isObject] at isKey

theorem key_fits (linked : Linked nodes) {i : Nat} {node : Node} {name : String}
    (found : nodes[i]? = some node) (isKey : node.kind = .key name) :
    ∃ p above, node.parent = some p ∧ nodes[p]? = some above ∧ above.kind = .object ∧
      node.depth = min (above.depth + 1) Reading.maxDepth ∧
      Reading.isPlainName name = true := by
  obtain ⟨p, above, parent, _, atParent, fits⟩ :=
    linked.exists_parent (linked.key_ne_root found isKey) found
  simp only [Node.Fits, isKey] at fits
  exact ⟨p, above, parent, atParent, fits⟩

theorem value_fits (linked : Linked nodes) {i : Nat} {node : Node} (later : i ≠ Outline.root)
    (found : nodes[i]? = some node) (isObject : node.kind = .object) :
    ∃ p above name, node.parent = some p ∧ nodes[p]? = some above ∧ above.kind = .key name ∧
      node.depth = above.depth := by
  obtain ⟨p, above, parent, _, atParent, fits⟩ := linked.exists_parent later found
  simp only [Node.Fits, isObject] at fits
  obtain ⟨⟨name, isKey⟩, depth⟩ := fits
  exact ⟨p, above, name, parent, atParent, isKey, depth⟩

theorem hasChild_iff {outline : Outline} (linked : Linked outline.nodes) {upper lower : Nat} :
    outline.HasChild upper lower ↔ parent? outline.nodes lower = some upper := by
  constructor
  · rintro ⟨node, found, member⟩
    exact (linked.mem_children found).mp member
  · intro link
    obtain ⟨node, found, parent⟩ := parent?_eq_some.mp link
    have later : lower ≠ Outline.root :=
      Nat.ne_of_gt (Nat.lt_of_le_of_lt (Nat.zero_le upper) (linked.parent_lt link))
    obtain ⟨p, above, named, _, atParent, _⟩ := linked.exists_parent later found
    cases Option.some.inj (parent.symm.trans named)
    exact ⟨above, atParent, (linked.mem_children atParent).mpr link⟩

theorem below_iff {outline : Outline} (linked : Linked outline.nodes) {upper lower : Nat} :
    outline.Below upper lower ↔ Within outline.nodes upper lower ∧ upper < lower := by
  have links : outline.HasChild = fun up low => parent? outline.nodes low = some up := by
    funext up low
    exact propext linked.hasChild_iff
  rw [Outline.Below, links]
  constructor
  · intro below
    obtain ⟨p, within, link⟩ := Relation.TransGen.tail'_iff.mp below
    exact ⟨within.tail link,
      Nat.lt_of_le_of_lt (linked.le_of_within within) (linked.parent_lt link)⟩
  · rintro ⟨within, less⟩
    rcases Relation.reflTransGen_iff_eq_or_transGen.mp within with same | below
    · omega
    · exact below

theorem contiguous {outline : Outline} (linked : Linked outline.nodes) {i : Nat}
    (inside : i < outline.nodes.size) :
    ∃ stop, ∀ j, outline.Below i j ↔ i + 1 ≤ j ∧ j < stop := by
  obtain ⟨stop, _, stretch⟩ := linked.within_iff inside
  refine ⟨stop, fun j => ?_⟩
  rw [linked.below_iff, stretch j]
  omega

end Linked

theorem Reading.isPlainName_iff {name : String} :
    Reading.isPlainName name = true ↔
      name ≠ "" ∧ ∀ c ∈ name.toList, c.isAlphanum = true ∨ c = '_' := by
  simp [Reading.isPlainName]

theorem Linked.isTree {outline : Outline} (linked : Linked outline.nodes) : outline.IsTree where
  root := linked.root
  parent i node later found := by
    obtain ⟨p, above, parent, less, atParent, _⟩ := linked.exists_parent later found
    have link := parent?_eq_some.mpr ⟨node, found, parent⟩
    exact ⟨p, above, parent, less, atParent, linked.count_children atParent link⟩
  onlyParent p i child := parent?_eq_some.mp (linked.hasChild_iff.mp child)
  ascending p node found := linked.ascending found
  key i node name found isKey := by
    obtain ⟨p, above, parent, atParent, isObject, depth, _⟩ := linked.key_fits found isKey
    exact ⟨p, above, parent, atParent, isObject, depth⟩
  value i node later found isObject := linked.value_fits later found isObject
  single i node name found isKey := linked.single i node name found isKey
  name i node name found isKey := by
    obtain ⟨_, _, _, _, _, _, plain⟩ := linked.key_fits found isKey
    exact Reading.isPlainName_iff.mp plain
  contiguous i inside := linked.contiguous inside

end StyleAudit
