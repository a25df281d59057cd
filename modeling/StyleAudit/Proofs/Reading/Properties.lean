import Mathlib.Data.List.Sort
import StyleAudit.Proofs.Outline.Queries
import StyleAudit.Proofs.Reading.Links
import StyleAudit.Report

/-! Properties found twice: by the depth of their nodes and their links up, in the order of all
nodes, and by the links down from the container. In an outline that was read from tokens both
ways lead to the same properties, at every depth of the literal. -/
namespace StyleAudit

/-- Every group with each key in its body, found by the links down. -/
def Outline.keysByGroup (outline : Outline) : Except OutOfRange (List (Group × Nat)) := do
  let bodies ← (← outline.groups).mapM fun group =>
    return (← outline.keysOf group.body).map (group, ·)
  return bodies.flatten

namespace Linked

open Outline

variable {outline : Outline}

theorem eq_root_of_depth (linked : Linked outline.nodes) {index : Nat} {node : Node}
    (found : outline.nodes[index]? = some node) (isObject : node.kind = .object)
    (depth : node.depth = 0) : index = Outline.root := by
  by_contra later
  obtain ⟨owner, entry, name, _, atOwner, isKey, same⟩ := linked.value_fits later found isObject
  obtain ⟨_, _, _, _, _, deeper, _⟩ := linked.key_fits atOwner isKey
  simp only [Reading.maxDepth] at deeper
  omega

theorem depth_eq_one_iff (linked : Linked outline.nodes) {owner : Nat} {entry : Node}
    {name : String} (found : outline.nodes[owner]? = some entry) (isKey : entry.kind = .key name) :
    entry.depth = 1 ↔ entry.parent = some Outline.root := by
  obtain ⟨object, above, parent, atObject, isObject, depth, _⟩ := linked.key_fits found isKey
  simp only [Reading.maxDepth] at depth
  constructor
  · intro one
    obtain rfl := linked.eq_root_of_depth atObject isObject (by omega)
    exact parent
  · intro top
    obtain rfl := Option.some.inj (parent.symm.trans top)
    obtain ⟨first, atRoot, _, zero, _⟩ := linked.root
    obtain rfl := Option.some.inj (atObject.symm.trans atRoot)
    omega

theorem entry_of_parent? (linked : Linked outline.nodes) {owner body : Nat} {object : Node}
    (found : outline.nodes[body]? = some object) (isObject : object.kind = .object)
    (link : parent? outline.nodes body = some owner) : ∃ entry name,
      outline.nodes[owner]? = some entry ∧ entry.kind = .key name ∧ object.depth = entry.depth := by
  have inner : body ≠ Outline.root := Nat.ne_of_gt (Nat.zero_lt_of_lt (linked.parent_lt link))
  obtain ⟨other, entry, name, up, atOwner, isKey, depth⟩ := linked.value_fits inner found isObject
  rw [parent?_eq found] at link
  obtain rfl := Option.some.inj (link.symm.trans up)
  exact ⟨entry, name, atOwner, isKey, depth⟩

/-- The capped depth tells the keys in group bodies from all others. -/
theorem depth_eq_iff (linked : Linked outline.nodes) {key : Nat} {node : Node} {name : String}
    (found : outline.nodes[key]? = some node) (isKey : node.kind = .key name) :
    node.depth = propertyDepth ↔ ∃ owner group, outline.HasGroup owner group ∧
      node.parent = some group.body := by
  obtain ⟨body, object, parent, atBody, isObject, depth, _⟩ := linked.key_fits found isKey
  simp only [Reading.maxDepth] at depth
  rw [propertyDepth]
  constructor
  · intro two
    have inner : body ≠ Outline.root := by
      rintro rfl
      obtain ⟨first, atRoot, _, zero, _⟩ := linked.root
      obtain rfl := Option.some.inj (atBody.symm.trans atRoot)
      omega
    obtain ⟨owner, entry, group, up, atOwner, isEntry, same⟩ :=
      linked.value_fits inner atBody isObject
    have top := (linked.depth_eq_one_iff atOwner isEntry).mp (by omega)
    exact ⟨owner, ⟨group, entry.line, body⟩,
      ⟨⟨entry, atOwner, isEntry, rfl, top⟩, object, atBody, isObject, up⟩, parent⟩
  · rintro ⟨owner, group, ⟨⟨entry, atOwner, isEntry, _, top⟩, value⟩, inBody⟩
    obtain rfl : body = group.body := Option.some.inj (parent.symm.trans inBody)
    obtain ⟨_, _, again, _, same⟩ := linked.entry_of_parent? atBody isObject value.parent?
    obtain rfl := Option.some.inj (atOwner.symm.trans again)
    have one := (linked.depth_eq_one_iff atOwner isEntry).mpr top
    omega

end Linked

namespace Outline

variable {outline : Outline}

def HasProperty (outline : Outline) (property : Property) : Prop :=
  (∃ owner, outline.HasGroup owner property.group) ∧
    outline.HasKey property.group.body property.key property.name property.line

theorem HasGroup.eq_of_body {owner other : Nat} {group another : Group}
    (first : outline.HasGroup owner group) (second : outline.HasGroup other another)
    (body : group.body = another.body) : group = another := by
  obtain ⟨⟨entry, found, isKey, line, _⟩, value⟩ := first
  obtain ⟨⟨twin, again, sameKey, sameLine, _⟩, sameValue⟩ := second
  have link := sameValue.parent?
  rw [← body, value.parent?] at link
  obtain rfl := Option.some.inj link
  obtain rfl := Option.some.inj (found.symm.trans again)
  have name : group.name = another.name := Node.Kind.key.inj (isKey.symm.trans sameKey)
  cases group
  cases another
  simp_all

end Outline

namespace Linked

open Outline

variable {outline : Outline}

theorem property?_eq (linked : Linked outline.nodes) {index : Nat} {node : Node}
    (found : outline.nodes[index]? = some node) :
    ∃ result, outline.property? node index = .ok result ∧
      ∀ property, result = some property ↔ property.key = index ∧ outline.HasProperty property := by
  have isKey {property : Property} (here : property.key = index)
      (has : outline.HasProperty property) : node.kind = .key property.name ∧
        node.line = property.line ∧ node.parent = some property.group.body := by
    obtain ⟨_, other, again, shape⟩ := has
    rw [here] at again
    cases Option.some.inj (found.symm.trans again)
    exact shape
  cases kind : node.kind with
  | object =>
    refine ⟨none, by simp [property?, kind], fun property => ⟨fun impossible => ?_, ?_⟩⟩
    · cases impossible
    · rintro ⟨here, has⟩
      simp [kind] at isKey
      exact absurd has (isKey here)
  | key name =>
    by_cases depth : node.depth = propertyDepth
    · obtain ⟨owner, group, ⟨entry, value⟩, parent⟩ := (linked.depth_eq_iff found kind).mp depth
      refine ⟨some ⟨group, index, name, node.line⟩, ?_, fun property => ?_⟩
      · obtain ⟨ownerNode, atOwner, ownerKey, line, _⟩ := entry
        obtain ⟨object, atBody, _, up⟩ := value
        simp [property?, kind, parent, depth, node_eq_ok.mpr atBody, up, node_eq_ok.mpr atOwner,
          Node.name?_eq_some.mpr ownerKey, line, bind, Except.bind, pure, Except.pure]
      · constructor
        · rintro same
          cases same
          exact ⟨rfl, ⟨owner, entry, value⟩, node, found, kind, rfl, parent⟩
        · rintro ⟨here, has⟩
          obtain ⟨named, line, inBody⟩ := isKey here has
          obtain ⟨⟨other, another⟩, _⟩ := has
          have body : group.body = property.group.body :=
            Option.some.inj (parent.symm.trans inBody)
          have same := HasGroup.eq_of_body ⟨entry, value⟩ another body
          cases Node.Kind.key.inj (kind.symm.trans named)
          rw [same, ← here, line]
    · refine ⟨none, ?_, fun property => ⟨fun impossible => ?_, ?_⟩⟩
      · obtain ⟨body, _, parent, _⟩ := linked.key_fits found kind
        simp [property?, kind, parent, depth]
      · cases impossible
      · rintro ⟨here, has⟩
        obtain ⟨_, _, inBody⟩ := isKey here has
        obtain ⟨⟨owner, group⟩, _⟩ := has
        exact absurd ((linked.depth_eq_iff found kind).mpr ⟨owner, _, group, inBody⟩) depth

theorem properties_eq (linked : Linked outline.nodes) :
    ∃ properties, outline.properties = .ok properties ∧
      properties.Pairwise (fun a b => a.key < b.key) ∧
      ∀ property, property ∈ properties ↔ outline.HasProperty property := by
  let choose := fun (place : Node × Nat) => outline.property? place.1 place.2
  have settled : ∀ place ∈ outline.nodes.toList.zipIdx, ∃ result, choose place = .ok result := by
    intro place member
    rw [List.mem_zipIdx_iff_getElem?, Array.getElem?_toList] at member
    obtain ⟨result, chosen, _⟩ := linked.property?_eq member
    exact ⟨result, chosen⟩
  have isProperty {node : Node} {index : Nat} (found : outline.nodes[index]? = some node)
      (property : Property) : kept choose (node, index) = some property ↔
        property.key = index ∧ outline.HasProperty property := by
    obtain ⟨result, chosen, iff⟩ := linked.property?_eq found
    have chosen : choose (node, index) = .ok result := chosen
    rw [kept_eq_some, chosen, Except.ok.injEq, iff]
  have places : outline.nodes.toList.zipIdx.Pairwise fun a b => a.2 < b.2 := by
    refine List.pairwise_map.mp ?_
    rw [List.zipIdx_map_snd]
    exact List.pairwise_lt_range'
  refine ⟨outline.nodes.toList.zipIdx.filterMap (kept choose), ?_, ?_, fun property => ?_⟩
  · exact Yields.collect_filterMap settled
  · refine List.pairwise_filterMap.mpr (places.imp_of_mem ?_)
    intro a b memberA memberB less left keepsA right keepsB
    rw [List.mem_zipIdx_iff_getElem?, Array.getElem?_toList] at memberA memberB
    rw [((isProperty memberA left).mp keepsA).1, ((isProperty memberB right).mp keepsB).1]
    exact less
  · rw [List.mem_filterMap]
    constructor
    · rintro ⟨place, member, keeps⟩
      rw [List.mem_zipIdx_iff_getElem?, Array.getElem?_toList] at member
      exact ((isProperty member property).mp keeps).2
    · intro has
      obtain ⟨node, found, _⟩ := has.2
      refine ⟨(node, property.key), ?_, (isProperty found property).mpr ⟨rfl, has⟩⟩
      rw [List.mem_zipIdx_iff_getElem?, Array.getElem?_toList]
      exact found

theorem keysByGroup_eq (linked : Linked outline.nodes) :
    ∃ pairs, outline.keysByGroup = .ok pairs ∧ pairs.Pairwise (fun a b => a.2 < b.2) ∧
      ∀ group key, (group, key) ∈ pairs ↔ (∃ owner, outline.HasGroup owner group) ∧
        ∃ name line, outline.HasKey group.body key name line := by
  obtain ⟨groups, found, apart, isGroup⟩ := linked.groups_eq
  have settled : ∀ group ∈ groups, ∃ keys, outline.keysOf group.body = .ok keys ∧
      keys.Pairwise (· < ·) ∧
      ∀ key, key ∈ keys ↔ ∃ name line, outline.HasKey group.body key name line := by
    intro group member
    obtain ⟨owner, _, object, atBody, _⟩ := (isGroup group).mp member
    exact linked.keysOf_eq atBody
  choose! keys read ascending isKey using settled
  refine ⟨groups.flatMap fun group => (keys group).map (group, ·), ?_, ?_, fun group key => ?_⟩
  · have bodies : (groups.mapM fun group => do
          return (← outline.keysOf group.body).map (group, ·)) =
        .ok (groups.map fun group => (keys group).map (group, ·)) :=
      mapM_eq_ok fun group member => by rw [read group member]; rfl
    rw [Outline.keysByGroup, found]
    simp only [bind, Except.bind] at bodies ⊢
    rw [bodies, List.flatMap_def]
    rfl
  · rw [List.pairwise_flatMap]
    refine ⟨fun group member => List.pairwise_map.mpr (ascending group member), ?_⟩
    refine apart.imp_of_mem ?_
    intro left right inLeft inRight less a memberA b memberB
    obtain ⟨x, keyX, rfl⟩ := List.mem_map.mp memberA
    obtain ⟨y, keyY, rfl⟩ := List.mem_map.mp memberB
    obtain ⟨_, _, linkX⟩ := (isKey left inLeft x).mp keyX
    obtain ⟨_, _, linkY⟩ := (isKey right inRight y).mp keyY
    exact less x y (.single linkX.parent?) (.single linkY.parent?)
  · rw [List.mem_flatMap]
    constructor
    · rintro ⟨other, member, paired⟩
      obtain ⟨_, inside, same⟩ := List.mem_map.mp paired
      cases same
      exact ⟨(isGroup group).mp member, (isKey group member key).mp inside⟩
    · rintro ⟨owned, named⟩
      have member := (isGroup group).mpr owned
      exact ⟨group, member, List.mem_map_of_mem ((isKey group member key).mpr named)⟩

theorem exists_report (linked : Linked outline.nodes) :
    ∃ report, outline.report = .ok report := by
  obtain ⟨groups, foundGroups, _⟩ := linked.groups_eq
  obtain ⟨properties, foundProperties, _⟩ := linked.properties_eq
  simp only [report, foundGroups, foundProperties]
  exact ⟨_, rfl⟩

theorem exists_group_iff (linked : Linked outline.nodes) {key : Nat} :
    (∃ owner group, outline.HasGroup owner group ∧
        ∃ name line, outline.HasKey group.body key name line) ↔
      (∃ node name, outline.nodes[key]? = some node ∧ node.kind = .key name) ∧
        ∃ owner body, outline.HasChild Outline.root owner ∧ outline.HasChild owner body ∧
          outline.HasChild body key := by
  simp only [linked.hasChild_iff]
  constructor
  · rintro ⟨owner, group, ⟨entry, value⟩, name, line, property⟩
    have link := property.parent?
    obtain ⟨node, found, isKey, _⟩ := property
    exact ⟨⟨node, name, found, isKey⟩, owner, group.body, entry.parent?, value.parent?, link⟩
  · rintro ⟨⟨node, name, found, isKey⟩, owner, body, top, middle, link⟩
    obtain ⟨_, object, parent, atBody, isObject, _⟩ := linked.key_fits found isKey
    rw [parent?_eq found] at link
    obtain rfl := Option.some.inj (link.symm.trans parent)
    obtain ⟨entry, group, atOwner, isEntry, _⟩ := linked.entry_of_parent? atBody isObject middle
    rw [parent?_eq atOwner] at top
    rw [parent?_eq atBody] at middle
    exact ⟨owner, ⟨group, entry.line, body⟩,
      ⟨⟨entry, atOwner, isEntry, rfl, top⟩, object, atBody, isObject, middle⟩,
      name, node.line, node, found, isKey, rfl, parent⟩

end Linked

/-- Groups and properties on which the links up and the links down agree. -/
structure Outline.Extracts (outline : Outline) (groups : List Group) (properties : List Property) :
    Prop where
  hasGroups : outline.groups = .ok groups
  hasProperties : outline.properties = .ok properties
  byGroup : outline.keysByGroup =
    .ok (properties.map fun property => (property.group, property.key))
  key : ∀ property ∈ properties,
    outline.HasKey property.group.body property.key property.name property.line
  /-- Three links lead from the container to a property, whatever depth is stored in a node. -/
  levels : ∀ key, (∃ property ∈ properties, property.key = key) ↔
    (∃ node name, outline.nodes[key]? = some node ∧ node.kind = .key name) ∧
      ∃ owner body, outline.HasChild root owner ∧ outline.HasChild owner body ∧
        outline.HasChild body key
  /-- Groups of one name have bodies of their own. -/
  bodies : (groups.map (·.body)).Nodup

/-- No condition on the tokens here either. -/
theorem Reading.exists_extracts {tokens : List Token} {outline : Outline}
    (read : (ofTokens tokens).outline = some outline) :
    ∃ groups properties, outline.Extracts groups properties := by
  have linked := linked_of_outline read
  obtain ⟨groups, foundGroups, apart, _⟩ := linked.groups_eq
  obtain ⟨properties, foundProperties, ascending, isProperty⟩ := linked.properties_eq
  obtain ⟨pairs, foundPairs, pairsAscend, isPair⟩ := linked.keysByGroup_eq
  -- Both lists ascend by key, and they have the same members.
  have same : pairs = properties.map fun property => (property.group, property.key) := by
    let below (a b : Group × Nat) : Prop := a.2 < b.2
    have : Std.Irrefl below := ⟨fun a => Nat.lt_irrefl a.2⟩
    have : Std.Antisymm below := ⟨fun a b less more => absurd more (Nat.lt_asymm less)⟩
    have ascends : (properties.map fun property => (property.group, property.key)).Pairwise below :=
      List.pairwise_map.mpr ascending
    refine List.Pairwise.eq_of_mem_iff pairsAscend ascends fun (group, key) => ?_
    rw [isPair, List.mem_map]
    constructor
    · rintro ⟨owned, name, line, has⟩
      exact ⟨⟨group, key, name, line⟩, (isProperty _).mpr ⟨owned, has⟩, rfl⟩
    · rintro ⟨property, member, same⟩
      obtain ⟨rfl, rfl⟩ := Prod.mk.inj same
      obtain ⟨owned, has⟩ := (isProperty property).mp member
      exact ⟨owned, property.name, property.line, has⟩
  refine ⟨groups, properties, ?_⟩
  constructor
  case hasGroups => exact foundGroups
  case hasProperties => exact foundProperties
  case byGroup => rw [foundPairs, same]
  case key => exact fun property member => ((isProperty property).mp member).2
  case levels =>
    intro key
    rw [← linked.exists_group_iff]
    constructor
    · rintro ⟨property, member, rfl⟩
      obtain ⟨⟨owner, group⟩, has⟩ := (isProperty property).mp member
      exact ⟨owner, property.group, group, property.name, property.line, has⟩
    · rintro ⟨owner, group, owned, name, line, has⟩
      exact ⟨⟨group, key, name, line⟩, (isProperty _).mpr ⟨⟨owner, owned⟩, has⟩, rfl⟩
  case bodies =>
    refine List.pairwise_map.mpr (apart.imp fun less => ?_)
    exact Nat.ne_of_lt (less _ _ .refl .refl)

/-- Two groups of one name. The first has an object value with a key of its own. -/
def Reading.twins : List Token :=
  [⟨.leftBrace, 1⟩, ⟨.word "a", 2⟩, ⟨.colon, 2⟩, ⟨.leftBrace, 2⟩, ⟨.word "p", 3⟩, ⟨.colon, 3⟩,
    ⟨.leftBrace, 3⟩, ⟨.word "q", 4⟩, ⟨.colon, 4⟩, ⟨.word "1", 4⟩, ⟨.rightBrace, 4⟩, ⟨.word "p", 5⟩,
    ⟨.colon, 5⟩, ⟨.word "2", 5⟩, ⟨.rightBrace, 5⟩, ⟨.comma, 5⟩, ⟨.word "a", 6⟩, ⟨.colon, 6⟩,
    ⟨.leftBrace, 6⟩, ⟨.quoted "p", 7⟩, ⟨.colon, 7⟩, ⟨.word "3", 7⟩, ⟨.rightBrace, 8⟩, ⟨.rightBrace, 8⟩]

theorem Reading.twins_extracts : ∃ outline, (ofTokens twins).outline = some outline ∧
    outline.Extracts [⟨"a", 2, 2⟩, ⟨"a", 6, 8⟩] [⟨⟨"a", 2, 2⟩, 3, "p", 3⟩,
      ⟨⟨"a", 2, 2⟩, 6, "p", 5⟩, ⟨⟨"a", 6, 8⟩, 9, "p", 7⟩] := by
  let outline : Outline := ⟨#[⟨.object, none, #[1, 7], 0, 1⟩, ⟨.key "a", some 0, #[2], 1, 2⟩,
    ⟨.object, some 1, #[3, 6], 1, 2⟩, ⟨.key "p", some 2, #[4], 2, 3⟩,
    ⟨.object, some 3, #[5], 2, 3⟩, ⟨.key "q", some 4, #[], 3, 4⟩, ⟨.key "p", some 2, #[], 2, 5⟩,
    ⟨.key "a", some 0, #[8], 1, 6⟩, ⟨.object, some 7, #[9], 1, 6⟩, ⟨.key "p", some 8, #[], 2, 7⟩]⟩
  have read : (ofTokens twins).outline = some outline := by decide
  obtain ⟨groups, properties, extracts⟩ := exists_extracts read
  have groupsAre : outline.groups = .ok [⟨"a", 2, 2⟩, ⟨"a", 6, 8⟩] := by decide
  have propertiesAre : outline.properties = .ok [⟨⟨"a", 2, 2⟩, 3, "p", 3⟩,
      ⟨⟨"a", 2, 2⟩, 6, "p", 5⟩, ⟨⟨"a", 6, 8⟩, 9, "p", 7⟩] := by decide
  obtain rfl := Except.ok.inj (extracts.hasGroups.symm.trans groupsAre)
  obtain rfl := Except.ok.inj (extracts.hasProperties.symm.trans propertiesAre)
  exact ⟨outline, read, extracts⟩

end StyleAudit
