import CodeFacts.Tree.Node

/-!
# Positions in a syntax tree

Analyses ask for parents and siblings, which a bare `Node` does not know. A `Cursor` is a node
together with the way up to the root: each ancestor, nearest first, with the index of the child
that was taken. Two cursors of one tree stand on the same node exactly when their addresses, the
lists of these indices, are equal, so identity of nodes never depends on what they contain.
-/

namespace CodeFacts

/-- A node and the way from it up to the root of its tree. -/
structure Cursor where
  node : Node
  /-- Each ancestor, nearest first, with the index of the child on the way down. -/
  ancestors : List (Node × Nat)
deriving Inhabited

namespace Cursor

/-- The cursor on the root of a tree. -/
def ofRoot (root : Node) : Cursor :=
  ⟨root, []⟩

/-- The kind of the node under the cursor. -/
def kind (cursor : Cursor) : String :=
  cursor.node.kind

/-- The source text of the node under the cursor. -/
def text (cursor : Cursor) : String :=
  cursor.node.text

/-- The span of the node under the cursor. -/
def span (cursor : Cursor) : Span :=
  cursor.node.span

/-- The 1-based line on which the node under the cursor starts. -/
def line (cursor : Cursor) : Nat :=
  cursor.node.span.startLine

/-- The indices of the children on the way from the node up to the root. -/
def address (cursor : Cursor) : List Nat :=
  cursor.ancestors.map Prod.snd

/-- The children of the node under the cursor, in source order. -/
def children (cursor : Cursor) : List Cursor :=
  cursor.node.children.zipIdx.map fun entry => ⟨entry.1, (cursor.node, entry.2) :: cursor.ancestors⟩

/-- The cursor one step up, unless the cursor stands on the root. -/
def parent? (cursor : Cursor) : Option Cursor :=
  match cursor.ancestors with
  | [] => none
  | (above, _) :: rest => some ⟨above, rest⟩

/-- The cursor on the root of the tree. -/
def root (cursor : Cursor) : Cursor :=
  match cursor.ancestors.getLast? with
  | none => cursor
  | some (top, _) => ofRoot top

/-- The children that the grammar names. -/
def namedChildren (cursor : Cursor) : List Cursor :=
  cursor.children.filter fun child => child.node.named

/-- The children of a given kind. -/
def childrenOfKind (cursor : Cursor) (kind : String) : List Cursor :=
  cursor.children.filter fun child => child.kind == kind

/-- The children held under a given field. -/
def childrenByField (cursor : Cursor) (field : String) : List Cursor :=
  cursor.children.filter fun child => child.node.field == some field

/-- The first child held under a given field. -/
def childByField? (cursor : Cursor) (field : String) : Option Cursor :=
  cursor.children.find? fun child => child.node.field == some field

/-- Whether the node is the first child that its parent, a node of kind `parentKind`, holds
under `field`. -/
def isFieldOfParent (cursor : Cursor) (parentKind field : String) : Bool :=
  match cursor.parent? with
  | none => false
  | some above =>
    above.kind == parentKind &&
      match above.childByField? field with
      | none => false
      | some child => child.address == cursor.address

/-- The named siblings that stand before the node, nearest first. -/
def precedingNamedSiblings (cursor : Cursor) : List Cursor :=
  match cursor.ancestors with
  | [] => []
  | (above, index) :: rest =>
    (((⟨above, rest⟩ : Cursor).children.take index).filter fun child => child.node.named).reverse

/-- The node reached by following child indices downwards. -/
def descend? (cursor : Cursor) : List Nat → Option Cursor
  | [] => some cursor
  | index :: rest =>
    match cursor.children[index]? with
    | none => none
    | some child => child.descend? rest

/-- The cursors on one node agree on their address. -/
def isSame (first second : Cursor) : Bool :=
  first.address == second.address

theorem node_mem_of_mem_children {child cursor : Cursor} (mem : child ∈ cursor.children) :
    child.node ∈ cursor.node.children := by
  simp only [children, List.mem_map] at mem
  obtain ⟨entry, entry_mem, rfl⟩ := mem
  exact List.fst_mem_of_mem_zipIdx entry_mem

/-- A child's tree is smaller than its parent's. -/
theorem size_lt_of_mem_children {child cursor : Cursor} (mem : child ∈ cursor.children) :
    child.node.size < cursor.node.size :=
  Node.size_lt_of_mem_children (node_mem_of_mem_children mem)

theorem map_node_children (cursor : Cursor) :
    cursor.children.map Cursor.node = cursor.node.children := by
  simp only [children, List.map_map]
  exact List.zipIdx_map_fst 0 cursor.node.children

end Cursor

end CodeFacts
