import StyleAudit.Proofs.Literal.Syntax

/-! The outline of an object literal, from its entries alone. Nodes stand in the order in which
their names and braces are written, so positions follow from counting the entries before. -/
namespace StyleAudit

namespace Literal.Entries

open Reading (maxDepth)

def size : Entries → Nat
  | nil => 0
  | plain _ _ rest => rest.size + 1
  | object _ _ _ inner rest => inner.size + rest.size + 2

def keys (start : Nat) : Entries → List Nat
  | nil => []
  | plain _ _ rest => start :: rest.keys (start + 1)
  | object _ _ _ inner rest => start :: rest.keys (start + 2 + inner.size)

/-- The nodes of the entries of the object at `owner`, which `level` objects enclose. -/
def nodes (owner level start : Nat) : Entries → List Node
  | nil => []
  | plain name line rest =>
    ⟨.key name, some owner, #[], min (level + 1) maxDepth, line⟩ ::
      rest.nodes owner level (start + 1)
  | object name line brace inner rest =>
    ⟨.key name, some owner, #[start + 1], min (level + 1) maxDepth, line⟩ ::
    ⟨.object, some start, (inner.keys (start + 2)).toArray, min (level + 1) maxDepth, brace⟩ ::
      (inner.nodes (start + 1) (level + 1) (start + 2) ++
        rest.nodes owner level (start + 2 + inner.size))

theorem length_nodes (entries : Entries) (owner level start : Nat) :
    (entries.nodes owner level start).length = entries.size := by
  induction entries generalizing owner level start with
  | nil => rfl
  | plain name line rest ih => simp [nodes, size, ih]
  | object name line brace inner rest ihInner ihRest =>
    simp [nodes, size, ihInner, ihRest]

/-- The outline of a container that opens on the line `brace`. -/
def outline (entries : Entries) (brace : Nat) : Outline :=
  ⟨(⟨.object, none, (entries.keys 1).toArray, 0, brace⟩ ::
    entries.nodes Outline.root 0 1).toArray⟩

def adopt (nodes : Array Node) (owner : Nat) (keys : List Nat) : Array Node :=
  nodes.modify owner fun node => { node with children := node.children ++ keys.toArray }

/-- The nodes with those of the entries after them, and the entries below their owner. -/
def record (entries : Entries) (nodes : Array Node) (owner level : Nat) : Array Node :=
  adopt nodes owner (entries.keys nodes.size) ++
    (entries.nodes owner level nodes.size).toArray

section Adopt

variable {nodes more : Array Node} {owner : Nat} {keys : List Nat}

@[simp] theorem size_adopt : (adopt nodes owner keys).size = nodes.size := by simp [adopt]

theorem adopt_nil : adopt nodes owner [] = nodes := by
  apply Array.ext_getElem?
  intro i
  simp only [adopt, Array.getElem?_modify, Array.append_empty]
  split
  next => simp
  next => rfl

theorem adopt_adopt (others : List Nat) :
    adopt (adopt nodes owner keys) owner others = adopt nodes owner (keys ++ others) := by
  apply Array.ext_getElem?
  intro i
  simp only [adopt, Array.getElem?_modify]
  split
  next => simp [Function.comp_def]
  next => rfl

theorem adopt_append (inside : owner < nodes.size) :
    adopt (nodes ++ more) owner keys = adopt nodes owner keys ++ more := by
  apply Array.ext_getElem?
  intro i
  simp only [adopt, Array.getElem?_modify, Array.getElem?_append, Array.size_modify]
  grind

theorem adopt_push (node : Node) (last : owner = nodes.size) :
    adopt (nodes.push node) owner keys =
      nodes.push { node with children := node.children ++ keys.toArray } := by
  subst last
  apply Array.ext_getElem?
  intro i
  simp only [adopt, Array.getElem?_modify, Array.getElem?_push]
  grind

theorem addNode_eq (inside : owner < nodes.size) (kind : Node.Kind) (depth line : Nat) :
    Reading.Reader.addNode nodes kind owner depth line =
      (adopt nodes owner [nodes.size]).push ⟨kind, some owner, #[], depth, line⟩ := by
  have grown : Reading.Reader.addNode nodes kind owner depth line =
      adopt (nodes.push ⟨kind, some owner, #[], depth, line⟩) owner [nodes.size] := by
    simp [Reading.Reader.addNode, adopt]
  rw [grown, Array.push_eq_append, adopt_append inside, Array.push_eq_append]

/-- Recording entry by entry, as a reader does it, comes to the same nodes. -/
theorem record_plain (inside : owner < nodes.size) (name : String) (line level : Nat)
    (rest : Entries) :
    (plain name line rest).record nodes owner level =
      rest.record (Reading.Reader.addNode nodes (.key name) owner (min (level + 1) maxDepth) line)
        owner level := by
  rw [addNode_eq inside]
  simp only [record, keys, Entries.nodes, Array.size_push, size_adopt]
  rw [Array.push_eq_append, adopt_append (by simpa using inside), adopt_adopt]
  simp

theorem record_object (inside : owner < nodes.size) (name : String) (line brace level : Nat)
    (inner rest : Entries) :
    (object name line brace inner rest).record nodes owner level =
      rest.record
        (inner.record
          (Reading.Reader.addNode
            (Reading.Reader.addNode nodes (.key name) owner (min (level + 1) maxDepth) line)
            .object nodes.size (min (level + 1) maxDepth) brace)
          (nodes.size + 1) (level + 1))
        owner level := by
  have entry : Reading.Reader.addNode
        (Reading.Reader.addNode nodes (.key name) owner (min (level + 1) maxDepth) line)
        .object nodes.size (min (level + 1) maxDepth) brace =
      ((adopt nodes owner [nodes.size]).push
          ⟨.key name, some owner, #[nodes.size + 1], min (level + 1) maxDepth, line⟩).push
        ⟨.object, some nodes.size, #[], min (level + 1) maxDepth, brace⟩ := by
    rw [addNode_eq inside, addNode_eq (by simp), adopt_push _ size_adopt.symm]
    simp
  have body : inner.record
        (((adopt nodes owner [nodes.size]).push
            ⟨.key name, some owner, #[nodes.size + 1], min (level + 1) maxDepth, line⟩).push
          ⟨.object, some nodes.size, #[], min (level + 1) maxDepth, brace⟩)
        (nodes.size + 1) (level + 1) =
      (((adopt nodes owner [nodes.size]).push
            ⟨.key name, some owner, #[nodes.size + 1], min (level + 1) maxDepth, line⟩).push
          ⟨.object, some nodes.size, (inner.keys (nodes.size + 2)).toArray,
            min (level + 1) maxDepth, brace⟩) ++
        (inner.nodes (nodes.size + 1) (level + 1) (nodes.size + 2)).toArray := by
    rw [record, adopt_push _ (by simp)]
    simp
  rw [entry, body, record, record]
  simp only [Array.push_eq_append, Array.append_assoc]
  rw [adopt_append (by simpa using inside), adopt_adopt]
  have after : nodes.size + (inner.size + 1 + 1) = nodes.size + 2 + inner.size := by omega
  simp [keys, Entries.nodes, length_nodes, after]

end Adopt

end Literal.Entries

def Literal.outline (literal : Literal) : Outline := literal.body.entries.outline literal.brace

end StyleAudit
