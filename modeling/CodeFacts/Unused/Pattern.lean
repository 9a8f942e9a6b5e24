import CodeFacts.Tree.Walk

/-!
# Destructuring patterns

A binding position may hold a whole pattern (`[a, {b: c}]`). Which parts of a pattern bind names
depends only on the kind of each node, so a language describes its patterns by a table from kinds
to `PatternPart`, and `patternBindings` collects the identifiers that the table leads to.
-/

namespace CodeFacts.Unused

/-- What a node contributes to the pattern in which it stands. -/
inductive PatternPart where
  /-- The node is a name that the pattern binds. -/
  | binding
  /-- Every named child is a pattern. -/
  | namedChildren
  /-- The child under one field is a pattern. -/
  | field (name : String)
  /-- Nothing below the node is bound. -/
  | nothing
deriving DecidableEq, Repr, Inhabited

/-- The children of a node that are patterns in turn. -/
def PatternPart.parts (part : PatternPart) (cursor : Cursor) : List Cursor :=
  match part with
  | .binding => []
  | .namedChildren => cursor.namedChildren
  | .field name => (cursor.childByField? name).toList
  | .nothing => []

theorem PatternPart.parts_sublist (part : PatternPart) (cursor : Cursor) :
    (part.parts cursor).Sublist cursor.children := by
  cases part with
  | binding => simp [parts]
  | namedChildren => exact List.filter_sublist
  | field name =>
    simp only [parts, Cursor.childByField?]
    cases found : cursor.children.find? fun child => child.node.field == some name with
    | none => simp
    | some child => simpa using List.mem_of_find?_eq_some found
  | nothing => simp [parts]

theorem sizeAll_le_of_sublist {first second : List Node} (sublist : first.Sublist second) :
    Node.sizeAll first ≤ Node.sizeAll second := by
  induction sublist with
  | slnil => simp
  | cons node _ ih => simp; omega
  | cons_cons node _ ih => simp; omega

theorem pendingSize_parts (part : PatternPart) (cursor : Cursor) (rest : List Cursor) :
    Cursor.pendingSize (part.parts cursor ++ rest) < Cursor.pendingSize (cursor :: rest) := by
  have smaller := Cursor.pendingSize_children_append cursor rest
  have fewer := sizeAll_le_of_sublist ((part.parts_sublist cursor).map Cursor.node)
  simp only [Cursor.pendingSize, List.map_append, Node.sizeAll_append] at smaller ⊢
  omega

/-- The names bound by a list of pending patterns, in document order. -/
def patternBindingsPending (table : String → PatternPart) : List Cursor → List Cursor
  | [] => []
  | cursor :: rest =>
    match table cursor.kind with
    | .binding => cursor :: patternBindingsPending table rest
    | part => patternBindingsPending table (part.parts cursor ++ rest)
termination_by pending => Cursor.pendingSize pending
decreasing_by
  · exact Cursor.pendingSize_tail cursor rest
  · exact pendingSize_parts _ cursor rest

/-- The identifiers that a pattern binds, in document order. -/
def patternBindings (table : String → PatternPart) (pattern : Cursor) : List Cursor :=
  patternBindingsPending table [pattern]

end CodeFacts.Unused
