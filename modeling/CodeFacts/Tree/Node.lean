/-!
# Syntax trees

A parser outside this library turns a source file into a concrete syntax tree. `Node` is that
tree: every node carries its kind, whether the grammar names it (punctuation and keywords are
not named), the field under which its parent holds it, its span and the text it covers. Nothing
below looks at source bytes again, so every analysis is a function of the tree alone.

A keyword token and a grammar node may share one kind (`class`, `lambda`, `this`); comparisons of
kinds do not tell them apart.
-/

namespace CodeFacts

/-- A stretch of source text: byte offsets, the end excluded, with 1-based lines and 1-based
byte columns of both ends. -/
structure Span where
  startByte : Nat
  endByte : Nat
  startLine : Nat
  startColumn : Nat
  endLine : Nat
  endColumn : Nat
deriving DecidableEq, Repr, Inhabited

namespace Span

/-- Whether a line lies between the first and the last line of the span, both included. -/
def containsLine (span : Span) (line : Nat) : Bool :=
  decide (span.startLine ≤ line) && decide (line ≤ span.endLine)

/-- The start of the span written as `line:column`. -/
def label (span : Span) : String :=
  s!"{span.startLine}:{span.startColumn}"

end Span

/-- A node of a concrete syntax tree with its children in source order. -/
structure Node where
  kind : String
  named : Bool
  field : Option String
  span : Span
  text : String
  children : List Node
deriving Inhabited

namespace Node

mutual

/-- The number of nodes of a tree. -/
def size : Node → Nat
  | ⟨_, _, _, _, _, children⟩ => sizeAll children + 1

/-- The number of nodes of a list of trees. -/
def sizeAll : List Node → Nat
  | [] => 0
  | node :: rest => size node + sizeAll rest

end

/-- The tree of an empty source: a root that covers nothing. -/
def empty : Node where
  kind := ""
  named := true
  field := none
  span := ⟨0, 0, 1, 1, 1, 1⟩
  text := ""
  children := []

theorem size_eq (node : Node) : node.size = sizeAll node.children + 1 := by
  cases node
  simp [size]

theorem size_pos (node : Node) : 0 < node.size := by
  simp [size_eq]

@[simp]
theorem sizeAll_nil : sizeAll [] = 0 := by
  simp [sizeAll]

@[simp]
theorem sizeAll_cons (node : Node) (rest : List Node) :
    sizeAll (node :: rest) = node.size + sizeAll rest := by
  simp [sizeAll]

theorem sizeAll_append (first second : List Node) :
    sizeAll (first ++ second) = sizeAll first + sizeAll second := by
  induction first with
  | nil => simp
  | cons node rest ih => simp [ih, Nat.add_assoc]

theorem size_le_sizeAll {node : Node} {nodes : List Node} (mem : node ∈ nodes) :
    node.size ≤ sizeAll nodes := by
  induction nodes with
  | nil => simp at mem
  | cons head rest ih =>
    rcases List.mem_cons.mp mem with rfl | inRest
    · simp
    · have := ih inRest
      simp
      omega

theorem size_lt_of_mem_children {child node : Node} (mem : child ∈ node.children) :
    child.size < node.size := by
  have := size_le_sizeAll mem
  rw [size_eq node]
  omega

end Node

end CodeFacts
