import CodeFacts.Tree.Cursor

/-!
# Walking a tree

Deep sources make deep trees, so walks keep an explicit list of pending nodes: take the first,
put its children in front of the rest. `Cursor.walk` visits nodes in document order and asks
after each one whether to go below it; the other walks are built on it.
-/

namespace CodeFacts

namespace Cursor

/-- The total size of a list of pending subtrees. -/
def pendingSize (pending : List Cursor) : Nat :=
  Node.sizeAll (pending.map Cursor.node)

theorem pendingSize_children_append (cursor : Cursor) (rest : List Cursor) :
    pendingSize (cursor.children ++ rest) < pendingSize (cursor :: rest) := by
  simp only [pendingSize, List.map_append, map_node_children, Node.sizeAll_append, List.map_cons,
    Node.sizeAll_cons, Node.size_eq]
  omega

theorem pendingSize_tail (cursor : Cursor) (rest : List Cursor) :
    pendingSize rest < pendingSize (cursor :: rest) := by
  have := cursor.node.size_pos
  simp only [pendingSize, List.map_cons, Node.sizeAll_cons]
  omega

/-- Visits the pending nodes and all that lies below them in document order. The children of a
node are visited only where `descend` allows it. -/
def walkPending (descend : Cursor → Bool) : List Cursor → List Cursor
  | [] => []
  | cursor :: rest =>
    if descend cursor then
      cursor :: walkPending descend (cursor.children ++ rest)
    else
      cursor :: walkPending descend rest
termination_by pending => pendingSize pending
decreasing_by
  · exact pendingSize_children_append cursor rest
  · exact pendingSize_tail cursor rest

/-- The nodes visited from `start` in document order, going below a node only where `descend`
allows it. -/
def walk (start : Cursor) (descend : Cursor → Bool) : List Cursor :=
  walkPending descend [start]

/-- The node and everything below it, in document order. -/
def descendants (start : Cursor) : List Cursor :=
  start.walk fun _ => true

/-- The node and everything below it whose kind is listed, in document order. -/
def descendantsOfKinds (start : Cursor) (kinds : List String) : List Cursor :=
  start.descendants.filter fun cursor => kinds.contains cursor.kind

/-- The node and everything below it of one kind, in document order. -/
def descendantsOfKind (start : Cursor) (kind : String) : List Cursor :=
  start.descendantsOfKinds [kind]

end Cursor

end CodeFacts
