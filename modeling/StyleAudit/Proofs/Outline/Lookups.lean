import StyleAudit.Proofs.Outline.Report

/-! Which links a report follows. Links of an outline may lead anywhere. A report fails by one that
leads out of the outline exactly if that link is followed and no earlier one does so, hence other
links do not matter. -/
namespace StyleAudit.Outline

/-- The result is found by looking up these positions in order. It is the first one without a node
that makes it fail, and nothing else does. -/
def Follows (outline : Outline) (indices : List Nat) (result : Except OutOfRange α) : Prop :=
  match indices.find? fun index => decide (outline.nodes.size ≤ index) with
  | some index => result = .error ⟨outline.nodes.size, index⟩
  | none => ∃ found, result = .ok found

def isObject (outline : Outline) (index : Nat) : Bool :=
  outline.nodes[index]?.any fun node => decide (node.kind = .object)

/-- The positions up to the first object, with that one. -/
def upToObject (outline : Outline) (indices : List Nat) : List Nat :=
  indices.take (indices.findIdx outline.isObject + 1)

/-- An entry of the container is looked up and, if it is a key, so are its children, up to its
object value. -/
def entryLookups (outline : Outline) (index : Nat) : List Nat :=
  index :: match outline.nodes[index]? with
    | none => []
    | some node =>
      match node.kind with
      | .object => []
      | .key _ => outline.upToObject node.children.toList

def groupLookups (outline : Outline) : List Nat :=
  root :: match outline.nodes[root]? with
    | none => []
    | some node => node.children.toList.flatMap outline.entryLookups

/-- From a key that has the depth of a property, two links lead up to its group. -/
def propertyLookups (outline : Outline) (node : Node) : List Nat :=
  match node.kind, node.parent with
  | .key _, some body =>
    if node.depth = propertyDepth then body :: (parent? outline.nodes body).toList else []
  | _, _ => []

/-- All positions that a report looks up, as long as each has a node. -/
def lookups (outline : Outline) : List Nat :=
  outline.groupLookups ++ outline.nodes.toList.flatMap outline.propertyLookups

namespace Follows

variable {outline : Outline} {indices more : List Nat} {result : Except OutOfRange α}

theorem done (found : α) : outline.Follows [] (.ok found) := ⟨found, rfl⟩

theorem node (index : Nat) : outline.Follows [index] (outline.node index) := by
  unfold Follows Outline.node size
  by_cases inside : index < outline.nodes.size
  · simp [inside]
  · simp [Nat.not_lt.mp inside]

/-- What is looked up later matters only if nothing failed before. -/
theorem bind {next : α → Except OutOfRange β} (first : outline.Follows indices result)
    (later : ∀ found, result = .ok found → outline.Follows more (next found)) :
    outline.Follows (indices ++ more) (result >>= next) := by
  unfold Follows at first ⊢
  rw [List.find?_append]
  cases missing : indices.find? fun index => decide (outline.nodes.size ≤ index) with
  | some index =>
    simp only [missing] at first
    simp [first, Bind.bind, Except.bind]
  | none =>
    simp only [missing] at first
    obtain ⟨found, rfl⟩ := first
    exact later found rfl

theorem map {next : α → β} (first : outline.Follows indices result) :
    outline.Follows indices (do return next (← result)) := by
  have last := first.bind fun found _ => done (next found)
  rwa [List.append_nil] at last

theorem collect {choose : α → Except OutOfRange (Option β)} {lookups : α → List Nat}
    {items : List α} (follows : ∀ item ∈ items, outline.Follows (lookups item) (choose item))
    (found : Array β) :
    outline.Follows (items.flatMap lookups) (StyleAudit.collect choose found items) := by
  induction items generalizing found with
  | nil => exact done found.toList
  | cons item items ih =>
    obtain ⟨here, later⟩ := List.forall_mem_cons.mp follows
    have split : StyleAudit.collect choose found (item :: items) = (choose item >>= fun
        | none => StyleAudit.collect choose found items
        | some result => StyleAudit.collect choose (found.push result) items) := by
      rw [StyleAudit.collect]
      cases choose item with
      | error failure => rfl
      | ok result => cases result <;> rfl
    rw [split, List.flatMap_cons]
    refine here.bind fun result _ => ?_
    cases result with
    | none => exact ih later found
    | some result => exact ih later (found.push result)

theorem firstObject? (children : List Nat) :
    outline.Follows (outline.upToObject children) (outline.firstObject? children) := by
  induction children with
  | nil => exact done none
  | cons child rest ih =>
    have split : outline.firstObject? (child :: rest) = (outline.node child >>= fun node =>
        if node.kind = .object then .ok (some child) else outline.firstObject? rest) := by
      rw [Outline.firstObject?]
      cases outline.node child <;> rfl
    have looked : outline.upToObject (child :: rest) =
        [child] ++ if outline.isObject child then [] else outline.upToObject rest := by
      rw [upToObject, List.findIdx_cons]
      cases outline.isObject child <;> rfl
    -- Nothing behind the first object is looked up.
    rw [split, looked]
    refine (node child).bind fun node found => ?_
    have same : outline.isObject child = decide (node.kind = .object) := by
      rw [isObject, node_eq_ok.mp found, Option.any_some]
    by_cases object : node.kind = .object
    · simpa [same, object] using done (some child)
    · simpa [same, object] using ih

theorem group? (index : Nat) :
    outline.Follows (outline.entryLookups index) (outline.group? index) := by
  refine (node index).bind fun node found => ?_
  rw [node_eq_ok.mp found]
  dsimp only
  cases node.kind with
  | object => exact done none
  | key name =>
    have value : outline.value? index = outline.firstObject? node.children.toList := by
      rw [value?, found]
      rfl
    rw [value]
    exact (firstObject? node.children.toList).map

theorem groups (outline : Outline) : outline.Follows outline.groupLookups outline.groups := by
  refine (node root).bind fun node found => ?_
  rw [node_eq_ok.mp found]
  exact collect (fun index _ => group? index) #[]

theorem property? (node : Node) (index : Nat) :
    outline.Follows (outline.propertyLookups node) (outline.property? node index) := by
  obtain ⟨kind, parent, children, depth, line⟩ := node
  unfold propertyLookups Outline.property?
  cases kind with
  | object => exact done none
  | key name =>
    cases parent with
    | none => exact done none
    | some body =>
      by_cases deep : depth = propertyDepth
      · simp only [deep, if_true]
        refine (Follows.node body).bind fun object found => ?_
        rw [parent?_eq (node_eq_ok.mp found)]
        cases object.parent with
        | none => exact done none
        | some owner => exact (Follows.node owner).map
      · simp only [deep, if_false]
        exact done none

theorem properties (outline : Outline) :
    outline.Follows (outline.nodes.toList.flatMap outline.propertyLookups) outline.properties := by
  have each : ∀ place ∈ outline.nodes.toList.zipIdx,
      outline.Follows (outline.propertyLookups place.1) (outline.property? place.1 place.2) :=
    fun place _ => property? place.1 place.2
  have nodes : outline.nodes.toList.flatMap outline.propertyLookups =
      outline.nodes.toList.zipIdx.flatMap fun place => outline.propertyLookups place.1 := by
    rw [← List.flatMap_map Prod.fst, List.zipIdx_map_fst]
  rw [nodes]
  exact collect each #[]

theorem report (outline : Outline) : outline.Follows outline.lookups outline.report :=
  (groups outline).bind fun _ _ => (properties outline).map

theorem eq_error_iff (follows : outline.Follows indices result) {failure : OutOfRange} :
    result = .error failure ↔ ∃ before index after, indices = before ++ index :: after ∧
      (∀ earlier ∈ before, earlier < outline.nodes.size) ∧ outline.nodes.size ≤ index ∧
        failure = ⟨outline.nodes.size, index⟩ := by
  unfold Follows at follows
  constructor
  · rintro rfl
    split at follows
    next index missing =>
      obtain ⟨outside, before, after, same, inside⟩ := List.find?_eq_some_iff_append.mp missing
      refine ⟨before, index, after, same, fun earlier member => ?_, ?_, Except.error.inj follows⟩
      · simpa using inside earlier member
      · simpa using outside
    next =>
      obtain ⟨_, impossible⟩ := follows
      cases impossible
  · rintro ⟨before, index, after, same, inside, outside, rfl⟩
    have missing : indices.find? (fun index => decide (outline.nodes.size ≤ index)) = some index :=
      List.find?_eq_some_iff_append.mpr
        ⟨by simpa using outside, before, after, same, by simpa using inside⟩
    rwa [missing] at follows

theorem exists_ok (follows : outline.Follows indices result)
    (inside : ∀ index ∈ indices, index < outline.nodes.size) : ∃ found, result = .ok found := by
  unfold Follows at follows
  have missing : indices.find? (fun index => decide (outline.nodes.size ≤ index)) = none :=
    List.find?_eq_none.mpr fun index member => by simpa using inside index member
  rwa [missing] at follows

end Follows

/-- A report fails exactly by the first position that it looks up and no node has. Otherwise there
are groups, properties and a report. -/
theorem report_eq_error_iff (outline : Outline) :
    (∀ failure, outline.report = .error failure ↔ ∃ before index after,
      outline.lookups = before ++ index :: after ∧
        (∀ earlier ∈ before, earlier < outline.nodes.size) ∧ outline.nodes.size ≤ index ∧
          failure = ⟨outline.nodes.size, index⟩) ∧
    ((∀ index ∈ outline.lookups, index < outline.nodes.size) →
      (∃ groups, outline.groups = .ok groups) ∧
      (∃ properties, outline.properties = .ok properties) ∧
      ∃ report, outline.report = .ok report) := by
  have follows := Follows.report outline
  refine ⟨fun failure => follows.eq_error_iff, fun inside => ?_⟩
  obtain ⟨report, reported⟩ := follows.exists_ok inside
  obtain ⟨groups, properties, foundGroups, foundProperties⟩ := found_of_report reported
  exact ⟨⟨groups, foundGroups⟩, ⟨properties, foundProperties⟩, report, reported⟩

/-- Links that lead nowhere: behind the value of a key, down from the body of a group, and up from
keys that are no properties. The link up from the body leads to `owner`. -/
def stray (owner : Nat) : Outline :=
  ⟨#[⟨.object, some 8, #[1, 2], 0, 1⟩, ⟨.key "a", some 9, #[4, 2, 9], 1, 2⟩,
    ⟨.object, some owner, #[9], 1, 2⟩, ⟨.key "x", some 2, #[9], 2, 3⟩, ⟨.key "y", some 9, #[], 3, 4⟩,
    ⟨.object, some 9, #[], 2, 5⟩]⟩

theorem report_eq_error_iff_stray :
    (∀ index ∈ (stray 1).lookups, index < (stray 1).nodes.size) ∧
    (∃ report, (stray 1).report = .ok report) ∧
    (stray 6).lookups = [0, 1, 4, 2, 2, 2] ++ [6] ∧
    (stray 6).report = .error ⟨6, 6⟩ := by
  have inside : ∀ index ∈ (stray 1).lookups, index < (stray 1).nodes.size := by decide
  have looked : (stray 6).lookups = [0, 1, 4, 2, 2, 2] ++ [6] := by decide
  exact ⟨inside, ((report_eq_error_iff (stray 1)).2 inside).2.2, looked,
    ((report_eq_error_iff (stray 6)).1 _).mpr
      ⟨_, 6, [], looked, by decide, by decide, rfl⟩⟩

end StyleAudit.Outline
