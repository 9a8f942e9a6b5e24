import CodeFacts.Proofs.Tree.DocumentOrder
import Mathlib.Data.List.Lex

/-!
# Walks and recursion on trees

A walk keeps its pending nodes in a list, so that deep trees cost no deep recursion. Here it is
compared with the recursion that it replaces, which follows the constructors of a tree and knows
nothing of pending nodes, and with a description that knows neither: the visited nodes are those
that no refusal above them hides, in the order of the ways that lead to them from the root.
-/

namespace CodeFacts

namespace Node

mutual

/-- The nodes of a tree that hangs below the given ancestors: its root, and where `descend` allows
it, the nodes of its subtrees from left to right. -/
def visits (descend : Cursor → Bool) : Node → List (Node × Nat) → List Cursor
  | node@⟨_, _, _, _, _, children⟩, ancestors =>
    ⟨node, ancestors⟩ ::
      if descend ⟨node, ancestors⟩ then visitsAll descend children node ancestors 0 else []

/-- The nodes of the subtrees of a parent from the one with the given index on. -/
def visitsAll (descend : Cursor → Bool) :
    List Node → Node → List (Node × Nat) → Nat → List Cursor
  | [], _, _, _ => []
  | child :: rest, parent, ancestors, index =>
    child.visits descend ((parent, index) :: ancestors) ++
      visitsAll descend rest parent ancestors (index + 1)

end

mutual

theorem visits_eq_preorder (descend : Cursor → Bool) :
    ∀ (node : Node) (ancestors : List (Node × Nat)),
      node.visits descend ancestors = (⟨node, ancestors⟩ : Cursor).preorder descend
  | ⟨_, _, _, _, _, children⟩, ancestors => by
      rw [visits, Cursor.preorder_eq, visitsAll_eq_flatMap descend children]
      rfl

theorem visitsAll_eq_flatMap (descend : Cursor → Bool) :
    ∀ (nodes : List Node) (parent : Node) (ancestors : List (Node × Nat)) (index : Nat),
      visitsAll descend nodes parent ancestors index =
        ((nodes.zipIdx index).map fun entry =>
          (⟨entry.1, (parent, entry.2) :: ancestors⟩ : Cursor)).flatMap (Cursor.preorder descend)
  | [], _, _, _ => by simp [visitsAll]
  | child :: rest, parent, ancestors, index => by
      rw [visitsAll, visits_eq_preorder descend child, visitsAll_eq_flatMap descend rest,
        List.zipIdx_cons, List.map_cons, List.flatMap_cons]

end

end Node

namespace Cursor

/-- The indices of the children on the way from the root down to the node. -/
def path (cursor : Cursor) : List Nat :=
  cursor.address.reverse

theorem Contains.path_prefix {outer inner : Cursor} (contains : outer.Contains inner) :
    outer.path <+: inner.path :=
  List.reverse_prefix.mpr contains.address_suffix

theorem path_of_mem_children {child cursor : Cursor} (child_mem : child ∈ cursor.children) :
    ∃ index, child.path = cursor.path ++ [index] := by
  rcases address_of_mem_children child_mem with ⟨index, address⟩
  exact ⟨index, by simp [path, address]⟩

/-- The ways to the children of a node part at indices that grow from left to right. -/
theorem pairwise_path_children (cursor : Cursor) :
    cursor.children.Pairwise fun first second => ∃ index place, index < place ∧
      first.path = cursor.path ++ [index] ∧ second.path = cursor.path ++ [place] := by
  have increasing : (cursor.node.children.zipIdx.map Prod.snd).Pairwise (· < ·) := by
    rw [List.zipIdx_map_snd]
    exact List.pairwise_lt_range'
  rw [children, List.pairwise_map]
  refine (List.pairwise_map.mp increasing).imp ?_
  intro first second before
  exact ⟨first.2, second.2, before, by simp [path, address], by simp [path, address]⟩

/-- A preorder is in the order of the ways from the root: parents come before their children, and
what lies further to the left comes first. -/
theorem pairwise_path_preorder (descend : Cursor → Bool) (start : Cursor) :
    (start.preorder descend).Pairwise fun first second => first.path < second.path := by
  apply pairwise_preorder
  · intro cursor child inner _ child_mem contains
    rcases path_of_mem_children child_mem with ⟨index, path⟩
    rcases contains.path_prefix with ⟨rest, whole⟩
    have longer : cursor.path ++ [] < cursor.path ++ index :: rest :=
      List.append_left_lt (List.nil_lt_cons index rest)
    simpa [← whole, path] using longer
  · intro cursor _
    refine (pairwise_path_children cursor).imp ?_
    rintro first second ⟨index, place, before, firstPath, secondPath⟩ one other contains contains'
    rcases contains.path_prefix with ⟨rest, whole⟩
    rcases contains'.path_prefix with ⟨rest', whole'⟩
    rw [← whole, ← whole', firstPath, secondPath, List.append_assoc, List.append_assoc]
    exact List.append_left_lt (List.cons_lt_cons_iff.mpr (Or.inl before))

/-- A node at or below the start such that no node on the way to it, the start included, was
refused; whether it is refused itself does not matter. -/
def Reaches (descend : Cursor → Bool) (start cursor : Cursor) : Prop :=
  start.Contains cursor ∧ ∀ above, start.Contains above → above.Contains cursor →
    above ≠ cursor → descend above = true

theorem reaches_self (descend : Cursor → Bool) (start : Cursor) : Reaches descend start start :=
  ⟨contains_self start, fun _ below above different => absurd (above.antisymm below) different⟩

/-- What lies below a child is reached from the node if the node is not refused and it is reached
from the child. -/
theorem reaches_iff_of_child {descend : Cursor → Bool} {start child cursor : Cursor}
    (child_mem : child ∈ start.children) (contains : child.Contains cursor) :
    Reaches descend start cursor ↔ descend start = true ∧ Reaches descend child cursor := by
  constructor
  · rintro ⟨inside, allowed⟩
    refine ⟨allowed start (contains_self start) inside ?_, contains, ?_⟩
    · rintro rfl
      exact not_contains_of_mem_children child_mem contains
    · intro above below
      exact allowed above (below.of_child child_mem)
  · rintro ⟨allowed, -, allowedBelow⟩
    refine ⟨contains.of_child child_mem, ?_⟩
    intro above below contains' different
    rcases below.cases with rfl | ⟨other, other_mem, below'⟩
    · exact allowed
    · obtain rfl := eq_of_contains_of_mem_children child_mem other_mem contains
        (below'.trans contains')
      exact allowedBelow above below' contains' different

theorem mem_preorder_iff {descend : Cursor → Bool} {start cursor : Cursor} :
    cursor ∈ start.preorder descend ↔ Reaches descend start cursor := by
  induction start using preorder.induct with
  | case1 start ih =>
      rw [preorder_eq]
      constructor
      · intro visited
        rcases List.mem_cons.mp visited with rfl | below
        · exact reaches_self descend cursor
        · split at below
          · next allowed =>
              rcases List.mem_flatMap.mp below with ⟨child, child_mem, inside⟩
              have reached := (ih ⟨child, child_mem⟩).mp inside
              exact (reaches_iff_of_child child_mem reached.1).mpr ⟨allowed, reached⟩
          · simp at below
      · intro reached
        rcases reached.1.cases with rfl | ⟨child, child_mem, contains⟩
        · exact List.mem_cons_self
        · rcases (reaches_iff_of_child child_mem contains).mp reached with ⟨allowed, below⟩
          rw [if_pos allowed]
          exact List.mem_cons_of_mem _
            (List.mem_flatMap.mpr ⟨child, child_mem, (ih ⟨child, child_mem⟩).mpr below⟩)

/-- A list holds the nodes with a property, each once and in document order: the ways to them from
the root grow strictly. -/
structure Enumerates (listed : List Cursor) (property : Cursor → Prop) : Prop where
  mem_iff : ∀ cursor, cursor ∈ listed ↔ property cursor
  inOrder : listed.Pairwise fun first second => first.path < second.path

/-- Walking over a list of pending nodes gives what recursion on the tree gives. The search for
kinds finds the nodes of these kinds at or below the start, and a walk visits the nodes at or below
the start to which no refusal bars the way; each of them once, and in document order. -/
theorem walks_agree_with_recursion (start : Cursor) (kinds : List String)
    (descend : Cursor → Bool) :
    start.descendantsOfKinds kinds =
        (start.node.visits (fun _ => true) start.ancestors).filter
          (fun cursor => cursor.kind ∈ kinds) ∧
      Enumerates (start.descendantsOfKinds kinds)
        (fun cursor => start.Contains cursor ∧ cursor.kind ∈ kinds) ∧
      start.walk descend = start.node.visits descend start.ancestors ∧
      Enumerates (start.walk descend) (Reaches descend start) := by
  have walked (descend : Cursor → Bool) :
      start.walk descend = start.node.visits descend start.ancestors := by
    rw [walk_eq_preorder, Node.visits_eq_preorder]
  refine ⟨?_, ⟨fun _ => mem_descendantsOfKinds_iff, ?_⟩, walked descend, ?_, ?_⟩
  · rw [descendantsOfKinds, descendants, walked]
    exact List.filter_congr fun cursor _ => by simp
  · rw [descendantsOfKinds, descendants, walk_eq_preorder]
    exact (pairwise_path_preorder _ start).filter _
  · intro cursor
    rw [walk_eq_preorder, mem_preorder_iff]
  · rw [walk_eq_preorder]
    exact pairwise_path_preorder descend start

end Cursor

end CodeFacts
