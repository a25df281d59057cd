/-! The outline of a container: its objects and named entries, in the order of the source,
linked by position. An outline that comes from elsewhere may hold any links, so following
one can fail, and nothing here assumes that links agree with each other. -/
namespace StyleAudit

inductive Node.Kind where
  | object
  | key (name : String)
  deriving DecidableEq, Repr

/-- An object, or an entry whose only child, if any, is its object value. -/
structure Node where
  kind : Node.Kind
  parent : Option Nat
  children : Array Nat
  /-- How many objects enclose the node. An object counts as its entry does. -/
  depth : Nat
  line : Nat
  deriving DecidableEq, Repr

def Node.name? (node : Node) : Option String :=
  match node.kind with
  | .object => none
  | .key name => some name

structure Outline where
  nodes : Array Node
  deriving DecidableEq, Repr

/-- A link to a position that no node has. -/
structure OutOfRange where
  size : Nat
  index : Nat
  deriving DecidableEq, Repr

def OutOfRange.message (failure : OutOfRange) : String :=
  s!"index out of bounds: the len is {failure.size} but the index is {failure.index}"

/-- An entry of the container whose value is an object. -/
structure Group where
  name : String
  line : Nat
  body : Nat
  deriving DecidableEq, Repr

/-- A named entry of a group body. -/
structure Property where
  group : Group
  key : Nat
  name : String
  line : Nat
  deriving DecidableEq, Repr

/-- The items that a fallible choice keeps, in order, or its first failure. -/
def collect (choose : α → Except ε (Option β)) (found : Array β) : List α → Except ε (List β)
  | [] => .ok found.toList
  | item :: rest =>
    match choose item with
    | .error failure => .error failure
    | .ok none => collect choose found rest
    | .ok (some result) => collect choose (found.push result) rest

namespace Outline

def root : Nat := 0

def propertyDepth : Nat := 2

def size (outline : Outline) : Nat := outline.nodes.size

def node (outline : Outline) (index : Nat) : Except OutOfRange Node :=
  match outline.nodes[index]? with
  | some node => .ok node
  | none => .error ⟨outline.size, index⟩

def name? (outline : Outline) (index : Nat) : Except OutOfRange (Option String) :=
  (outline.node index).map Node.name?

/-- Looks no further than the first object. -/
def firstObject? (outline : Outline) : List Nat → Except OutOfRange (Option Nat)
  | [] => .ok none
  | index :: rest =>
    match outline.node index with
    | .error failure => .error failure
    | .ok node => if node.kind = .object then .ok (some index) else firstObject? outline rest

def value? (outline : Outline) (key : Nat) : Except OutOfRange (Option Nat) := do
  outline.firstObject? (← outline.node key).children.toList

def keysOf (outline : Outline) (object : Nat) : Except OutOfRange (List Nat) := do
  collect (fun index => do return (← outline.name? index).map fun _ => index) #[]
    (← outline.node object).children.toList

def group? (outline : Outline) (index : Nat) : Except OutOfRange (Option Group) := do
  let node ← outline.node index
  match node.kind with
  | .object => return none
  | .key name => return (← outline.value? index).map fun body => ⟨name, node.line, body⟩

def groups (outline : Outline) : Except OutOfRange (List Group) := do
  collect outline.group? #[] (← outline.node root).children.toList

/-- A property is recognised by its depth, and its group found through the parent links. -/
def property? (outline : Outline) (node : Node) (index : Nat) :
    Except OutOfRange (Option Property) :=
  match node.kind, node.parent with
  | .key name, some body =>
    if node.depth = propertyDepth then do
      match (← outline.node body).parent with
      | none => return none
      | some owner =>
        let entry ← outline.node owner
        return entry.name?.map fun group => ⟨⟨group, entry.line, body⟩, index, name, node.line⟩
    else .ok none
  | _, _ => .ok none

def properties (outline : Outline) : Except OutOfRange (List Property) :=
  collect (fun (node, index) => outline.property? node index) #[] outline.nodes.toList.zipIdx

end Outline

end StyleAudit
