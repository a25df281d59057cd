import StyleAudit.Proofs.Outline.Collect
import StyleAudit.Proofs.Outline.Tree

/-! Queries on an outline whose links agree. None of them leaves the outline, and what they
find is stated by parent links alone. -/
namespace StyleAudit

theorem parent?_eq {nodes : Array Node} {index : Nat} {node : Node}
    (found : nodes[index]? = some node) : parent? nodes index = node.parent := by
  rw [parent?, found, Option.bind_some]

namespace Outline

variable {outline : Outline}

theorem node_eq_ok {index : Nat} {node : Node} :
    outline.node index = .ok node ↔ outline.nodes[index]? = some node := by
  unfold Outline.node
  cases outline.nodes[index]? <;> simp

/-- A key directly in an object. -/
def HasKey (outline : Outline) (object key : Nat) (name : String) (line : Nat) : Prop :=
  ∃ node, outline.nodes[key]? = some node ∧ node.kind = .key name ∧ node.line = line ∧
    node.parent = some object

/-- An object that is the value of a key. -/
def HasValue (outline : Outline) (key body : Nat) : Prop :=
  ∃ node, outline.nodes[body]? = some node ∧ node.kind = .object ∧ node.parent = some key

/-- An entry of the container that is a group. -/
def HasGroup (outline : Outline) (key : Nat) (group : Group) : Prop :=
  outline.HasKey root key group.name group.line ∧ outline.HasValue key group.body

theorem HasKey.parent? {object key line : Nat} {name : String}
    (entry : outline.HasKey object key name line) :
    StyleAudit.parent? outline.nodes key = some object := by
  obtain ⟨node, found, _, _, parent⟩ := entry
  exact parent?_eq_some.mpr ⟨node, found, parent⟩

theorem HasValue.parent? {key body : Nat} (value : outline.HasValue key body) :
    StyleAudit.parent? outline.nodes body = some key := by
  obtain ⟨node, found, _, parent⟩ := value
  exact parent?_eq_some.mpr ⟨node, found, parent⟩

theorem firstObject?_settles {children : List Nat}
    (inside : ∀ child ∈ children, ∃ node, outline.nodes[child]? = some node) :
    ∃ found, outline.firstObject? children = .ok found := by
  induction children with
  | nil => exact ⟨none, rfl⟩
  | cons child rest ih =>
    obtain ⟨node, here⟩ := inside child List.mem_cons_self
    obtain ⟨found, later⟩ := ih fun other member => inside other (List.mem_cons_of_mem _ member)
    simp only [firstObject?, node_eq_ok.mpr here]
    split
    · exact ⟨some child, rfl⟩
    · exact ⟨found, later⟩

theorem name?_eq {index : Nat} {node : Node} (found : outline.nodes[index]? = some node) :
    outline.name? index = .ok node.name? := by
  rw [name?, node_eq_ok.mpr found]
  rfl

end Outline

theorem Node.name?_eq_some {node : Node} {name : String} :
    node.name? = some name ↔ node.kind = .key name := by
  unfold Node.name?
  split <;> simp_all

namespace Linked

open Outline

variable {outline : Outline}

theorem child_inside (linked : Linked outline.nodes) {p : Nat} {above : Node}
    (found : outline.nodes[p]? = some above) {child : Nat}
    (member : child ∈ above.children.toList) :
    ∃ node, outline.nodes[child]? = some node ∧ node.parent = some p :=
  parent?_eq_some.mp ((linked.mem_children found).mp (Array.mem_toList_iff.mp member))

theorem keysOf_eq (linked : Linked outline.nodes) {object : Nat} {above : Node}
    (found : outline.nodes[object]? = some above) :
    ∃ keys, outline.keysOf object = .ok keys ∧ keys.Pairwise (· < ·) ∧
      ∀ key, key ∈ keys ↔ ∃ name line, outline.HasKey object key name line := by
  let choose := fun index => do return (← outline.name? index).map fun _ => index
  have chosen {index : Nat} {node : Node} (inside : outline.nodes[index]? = some node) :
      choose index = .ok (node.name?.map fun _ => index) := by
    simp only [choose, name?_eq inside]
    rfl
  have settled : ∀ index ∈ above.children.toList, ∃ result, choose index = .ok result := by
    intro index member
    obtain ⟨node, inside, _⟩ := linked.child_inside found member
    exact ⟨_, chosen inside⟩
  have same {index key : Nat} (keeps : kept choose index = some key) : index = key := by
    have chosen := kept_eq_some.mp keeps
    simp only [choose] at chosen
    cases name : outline.name? index with
    | error failure => simp [name, bind, Except.bind] at chosen
    | ok name? => cases name? <;> simp_all [bind, Except.bind, pure, Except.pure]
  refine ⟨above.children.toList.filterMap (kept choose), ?_, ?_, fun key => ?_⟩
  · rw [keysOf, node_eq_ok.mpr found]
    exact Yields.collect_filterMap settled
  · refine List.pairwise_filterMap.mpr ((linked.ascending found).imp fun less a keepsA b keepsB => ?_)
    rwa [← same keepsA, ← same keepsB]
  · rw [List.mem_filterMap]
    constructor
    · rintro ⟨index, member, keeps⟩
      obtain rfl := same keeps
      obtain ⟨node, inside, parent⟩ := linked.child_inside found member
      have named := (chosen inside).symm.trans (kept_eq_some.mp keeps)
      obtain ⟨name, isKey, _⟩ := Option.map_eq_some_iff.mp (Except.ok.inj named)
      exact ⟨name, node.line, node, inside, Node.name?_eq_some.mp isKey, rfl, parent⟩
    · rintro ⟨name, line, node, inside, isKey, _, parent⟩
      have link := parent?_eq_some.mpr ⟨node, inside, parent⟩
      have member := Array.mem_toList_iff.mpr ((linked.mem_children found).mpr link)
      have named : choose key = .ok (some key) := by
        rw [chosen inside, Node.name?_eq_some.mpr isKey]
        rfl
      exact ⟨key, member, kept_eq_some.mpr named⟩

/-- The children of a key are its value alone. -/
theorem children_of_key (linked : Linked outline.nodes) {key : Nat} {entry : Node} {name : String}
    (found : outline.nodes[key]? = some entry) (isKey : entry.kind = .key name) {body : Nat}
    (value : outline.HasValue key body) : entry.children.toList = [body] := by
  have member : body ∈ entry.children.toList :=
    Array.mem_toList_iff.mpr ((linked.mem_children found).mpr value.parent?)
  have single := linked.single key entry name found isKey
  rw [← Array.length_toList] at single
  match children : entry.children.toList, single with
  | [], _ => simp [children] at member
  | [only], _ =>
    rw [children, List.mem_singleton] at member
    rw [member]

/-- What stands in a key is its value. A key stands in an object. -/
theorem hasValue_of_child (linked : Linked outline.nodes) {key : Nat} {entry : Node} {name : String}
    (found : outline.nodes[key]? = some entry) (isKey : entry.kind = .key name) {child : Nat}
    (member : child ∈ entry.children.toList) : outline.HasValue key child := by
  obtain ⟨node, inside, parent⟩ := linked.child_inside found member
  cases kind : node.kind with
  | object => exact ⟨node, inside, kind, parent⟩
  | key other =>
    obtain ⟨p, above, up, atParent, isObject, _⟩ := linked.key_fits inside kind
    cases Option.some.inj (parent.symm.trans up)
    cases Option.some.inj (found.symm.trans atParent)
    simp [isKey] at isObject

theorem value?_eq (linked : Linked outline.nodes) {key : Nat} {entry : Node} {name : String}
    (found : outline.nodes[key]? = some entry) (isKey : entry.kind = .key name) :
    ∃ value, outline.value? key = .ok value ∧
      ∀ body, value = some body ↔ outline.HasValue key body := by
  have read : outline.value? key = outline.firstObject? entry.children.toList := by
    rw [value?, node_eq_ok.mpr found]
    rfl
  match children : entry.children.toList with
  | [] =>
    refine ⟨none, by rw [read, children]; rfl, fun body => ⟨fun impossible => ?_, fun value => ?_⟩⟩
    · cases impossible
    · simp [linked.children_of_key found isKey value] at children
  | body :: rest =>
    have value := linked.hasValue_of_child found isKey (children ▸ List.mem_cons_self)
    refine ⟨some body, ?_, fun other => ⟨?_, fun another => ?_⟩⟩
    · obtain ⟨node, inside, isObject, _⟩ := value
      rw [read, children]
      simp [firstObject?, node_eq_ok.mpr inside, isObject]
    · rintro same
      cases same
      exact value
    · have same := (linked.children_of_key found isKey value).symm.trans
        (linked.children_of_key found isKey another)
      simpa using same

theorem group?_eq (linked : Linked outline.nodes) {index : Nat} {node : Node}
    (found : outline.nodes[index]? = some node) (parent : node.parent = some Outline.root) :
    ∃ result, outline.group? index = .ok result ∧
      ∀ group, result = some group ↔ outline.HasGroup index group := by
  cases kind : node.kind with
  | object =>
    refine ⟨none, ?_, fun group => ⟨fun impossible => ?_, ?_⟩⟩
    · simp [group?, node_eq_ok.mpr found, kind, bind, Except.bind, pure, Except.pure]
    · cases impossible
    · rintro ⟨⟨other, again, isKey, _⟩, _⟩
      cases Option.some.inj (found.symm.trans again)
      simp [kind] at isKey
  | key name =>
    obtain ⟨value, read, iff⟩ := linked.value?_eq found kind
    refine ⟨value.map fun body => ⟨name, node.line, body⟩, ?_, fun group => ?_⟩
    · simp [group?, node_eq_ok.mpr found, kind, read, bind, Except.bind, pure, Except.pure]
    · rw [Option.map_eq_some_iff]
      constructor
      · rintro ⟨body, value, rfl⟩
        exact ⟨⟨node, found, kind, rfl, parent⟩, (iff body).mp value⟩
      · rintro ⟨⟨other, again, isKey, line, _⟩, body⟩
        cases Option.some.inj (found.symm.trans again)
        cases Node.Kind.key.inj (kind.symm.trans isKey)
        exact ⟨group.body, (iff group.body).mpr body, by rw [line]⟩

/-- What lies within one of two siblings comes before what lies within the later one. -/
theorem lt_of_siblings (linked : Linked outline.nodes) {p a b x y : Nat} (less : a < b)
    (left : parent? outline.nodes a = some p) (right : parent? outline.nodes b = some p)
    (inLeft : Within outline.nodes a x) (inRight : Within outline.nodes b y) : x < y := by
  obtain ⟨stop, _, stretch⟩ := linked.within_iff (lt_size_of_parent? left)
  have apart : ¬ Within outline.nodes a b := by
    intro within
    rcases within.cases_tail with same | ⟨q, above, link⟩
    · omega
    · cases Option.some.inj (right.symm.trans link)
      have up := linked.le_of_within above
      have down := linked.parent_lt left
      omega
  have inside := (stretch x).mp inLeft
  have beyond : stop ≤ b := by
    by_contra short
    exact apart ((stretch b).mpr ⟨Nat.le_of_lt less, Nat.not_le.mp short⟩)
  have after := linked.le_of_within inRight
  omega

/-- The groups come in order, and so does what lies within their bodies. -/
theorem groups_eq (linked : Linked outline.nodes) :
    ∃ groups, outline.groups = .ok groups ∧
      groups.Pairwise (fun a b => ∀ x y, Within outline.nodes a.body x →
        Within outline.nodes b.body y → x < y) ∧
      ∀ group, group ∈ groups ↔ ∃ key, outline.HasGroup key group := by
  obtain ⟨first, found, _⟩ := linked.root
  have settled : ∀ index ∈ first.children.toList, ∃ result, outline.group? index = .ok result := by
    intro index member
    obtain ⟨node, inside, parent⟩ := linked.child_inside found member
    obtain ⟨result, chosen, _⟩ := linked.group?_eq inside parent
    exact ⟨result, chosen⟩
  have isGroup {index : Nat} (member : index ∈ first.children.toList) (group : Group) :
      kept outline.group? index = some group ↔ outline.HasGroup index group := by
    obtain ⟨node, inside, parent⟩ := linked.child_inside found member
    obtain ⟨result, chosen, iff⟩ := linked.group?_eq inside parent
    rw [kept_eq_some, chosen, Except.ok.injEq, iff]
  refine ⟨first.children.toList.filterMap (kept outline.group?), ?_, ?_, fun group => ?_⟩
  · rw [groups, node_eq_ok.mpr found]
    exact Yields.collect_filterMap settled
  · refine List.pairwise_filterMap.mpr ((linked.ascending found).imp_of_mem ?_)
    intro a b memberA memberB less left keepsA right keepsB x y inLeft inRight
    obtain ⟨keyA, bodyA⟩ := (isGroup memberA left).mp keepsA
    obtain ⟨keyB, bodyB⟩ := (isGroup memberB right).mp keepsB
    exact linked.lt_of_siblings less keyA.parent? keyB.parent?
      (.head bodyA.parent? inLeft) (.head bodyB.parent? inRight)
  · rw [List.mem_filterMap]
    constructor
    · rintro ⟨index, member, keeps⟩
      exact ⟨index, (isGroup member group).mp keeps⟩
    · rintro ⟨key, entry, value⟩
      have member := Array.mem_toList_iff.mpr ((linked.mem_children found).mpr entry.parent?)
      exact ⟨key, member, (isGroup member group).mpr ⟨entry, value⟩⟩

end Linked

end StyleAudit
