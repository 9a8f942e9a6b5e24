import CodeFacts.Tree.Walk
import Mathlib.Data.List.Basic
import Mathlib.Logic.Relation

/-!
# Walks in preorder

A walk keeps a list of pending nodes. What it visits is the same as in the recursive preorder of
each of them, one after the other. A walk that is never refused visits exactly the nodes that the
start contains, and these lie at addresses that extend the address of the start.
-/

namespace CodeFacts.Cursor

/-- A node, and where `descend` allows it, what is visited from each of its children. -/
def preorder (descend : Cursor → Bool) (start : Cursor) : List Cursor :=
  start ::
    if descend start then start.children.attach.flatMap fun child => preorder descend child.1
    else []
termination_by start.node.size
decreasing_by exact size_lt_of_mem_children child.2

theorem preorder_eq (descend : Cursor → Bool) (start : Cursor) :
    start.preorder descend =
      start :: if descend start then start.children.flatMap (preorder descend) else [] := by
  rw [preorder, List.flatMap_subtype fun _ _ => rfl, List.unattach_attach]

theorem mem_preorder_self (descend : Cursor → Bool) (start : Cursor) :
    start ∈ start.preorder descend := by
  rw [preorder_eq]
  exact List.mem_cons_self

/-- The pending nodes are visited one after the other. -/
theorem walkPending_eq_flatMap (descend : Cursor → Bool) (pending : List Cursor) :
    walkPending descend pending = pending.flatMap (preorder descend) := by
  fun_induction walkPending descend pending with
  | case1 => rfl
  | case2 cursor rest descends ih => simp [ih, preorder_eq descend cursor, descends]
  | case3 cursor rest refused ih => simp [ih, preorder_eq descend cursor, refused]

theorem walk_eq_preorder (start : Cursor) (descend : Cursor → Bool) :
    start.walk descend = start.preorder descend := by
  simp [walk, walkPending_eq_flatMap]

/-- Going down from child to child leads from a node to another. -/
def Contains (start cursor : Cursor) : Prop :=
  Relation.ReflTransGen (fun above child => child ∈ above.children) start cursor

theorem contains_self (start : Cursor) : start.Contains start :=
  Relation.ReflTransGen.refl

theorem Contains.of_child {start child cursor : Cursor} (child_mem : child ∈ start.children)
    (contains : child.Contains cursor) : start.Contains cursor :=
  Relation.ReflTransGen.head child_mem contains

theorem contains_child {cursor child : Cursor} (child_mem : child ∈ cursor.children) :
    cursor.Contains child :=
  (contains_self child).of_child child_mem

theorem Contains.trans {start middle last : Cursor} (first : start.Contains middle)
    (second : middle.Contains last) : start.Contains last :=
  Relation.ReflTransGen.trans first second

theorem Contains.cases {start cursor : Cursor} (contains : start.Contains cursor) :
    cursor = start ∨ ∃ child ∈ start.children, child.Contains cursor :=
  (Relation.ReflTransGen.cases_head contains).imp_left Eq.symm

theorem contains_of_mem_namedChildren {cursor child : Cursor}
    (child_mem : child ∈ cursor.namedChildren) : cursor.Contains child :=
  contains_child (List.mem_of_mem_filter child_mem)

theorem contains_of_mem_childrenOfKind {cursor child : Cursor} {kind : String}
    (child_mem : child ∈ cursor.childrenOfKind kind) : cursor.Contains child :=
  contains_child (List.mem_of_mem_filter child_mem)

theorem contains_of_mem_childrenByField {cursor child : Cursor} {field : String}
    (child_mem : child ∈ cursor.childrenByField field) : cursor.Contains child :=
  contains_child (List.mem_of_mem_filter child_mem)

theorem contains_of_childByField? {cursor child : Cursor} {field : String}
    (found : cursor.childByField? field = some child) : cursor.Contains child :=
  contains_child (List.mem_of_find?_eq_some found)

theorem contains_of_descend? {start cursor : Cursor} {path : List Nat}
    (found : start.descend? path = some cursor) : start.Contains cursor := by
  fun_induction descend? start path with
  | case1 start =>
      rw [Option.some.inj found]
      exact contains_self cursor
  | case2 start index rest missing => simp at found
  | case3 start index rest child present ih =>
      exact (ih found).of_child (List.mem_of_getElem? present)

theorem contains_of_mem_preorder {descend : Cursor → Bool} {start cursor : Cursor}
    (visited : cursor ∈ start.preorder descend) : start.Contains cursor := by
  induction start using preorder.induct with
  | case1 start ih =>
      rw [preorder_eq] at visited
      rcases List.mem_cons.mp visited with rfl | below
      · exact contains_self cursor
      · split at below
        · rcases List.mem_flatMap.mp below with ⟨child, child_mem, inside⟩
          exact (ih ⟨child, child_mem⟩ inside).of_child child_mem
        · simp at below

/-- Without a refusal, the nodes that are visited are those that the start contains. -/
theorem mem_descendants_iff (start cursor : Cursor) :
    cursor ∈ start.descendants ↔ start.Contains cursor := by
  rw [descendants, walk_eq_preorder]
  constructor
  · exact contains_of_mem_preorder
  · intro contains
    induction contains using Relation.ReflTransGen.head_induction_on with
    | refl => exact mem_preorder_self _ cursor
    | head child_mem _ ih =>
        rw [preorder_eq]
        simpa using Or.inr ⟨_, child_mem, ih⟩

theorem mem_descendantsOfKinds_iff {start cursor : Cursor} {kinds : List String} :
    cursor ∈ start.descendantsOfKinds kinds ↔ start.Contains cursor ∧ cursor.kind ∈ kinds := by
  simp [descendantsOfKinds, mem_descendants_iff]

theorem mem_descendantsOfKind_iff {start cursor : Cursor} {kind : String} :
    cursor ∈ start.descendantsOfKind kind ↔ start.Contains cursor ∧ cursor.kind = kind := by
  simp [descendantsOfKind, mem_descendantsOfKinds_iff]

/-- What is visited depends on what is allowed below the start only. -/
theorem preorder_congr {first second : Cursor → Bool} {start : Cursor}
    (agree : ∀ cursor, start.Contains cursor → first cursor = second cursor) :
    start.preorder first = start.preorder second := by
  induction start using preorder.induct with
  | case1 start ih =>
      have below : ∀ child ∈ start.children, child.preorder first = child.preorder second := by
        intro child child_mem
        exact ih ⟨child, child_mem⟩ fun cursor inside => agree cursor (inside.of_child child_mem)
      rw [preorder_eq, preorder_eq, agree start (contains_self start),
        List.flatMap_congr below]

theorem address_of_mem_children {child cursor : Cursor} (child_mem : child ∈ cursor.children) :
    ∃ index, child.address = index :: cursor.address := by
  simp only [children, List.mem_map] at child_mem
  rcases child_mem with ⟨entry, -, rfl⟩
  exact ⟨entry.2, rfl⟩

theorem Contains.address_suffix {start cursor : Cursor} (contains : start.Contains cursor) :
    start.address <:+ cursor.address := by
  induction contains with
  | refl => exact List.suffix_refl _
  | tail _ child_mem ih =>
      rcases address_of_mem_children child_mem with ⟨index, address⟩
      rw [address]
      exact ih.trans (List.suffix_cons index _)

/-- Nothing below a node stands at its address. -/
theorem isSame_eq_false_of_child {start child cursor : Cursor} (child_mem : child ∈ start.children)
    (contains : child.Contains cursor) : cursor.isSame start = false := by
  rcases address_of_mem_children child_mem with ⟨index, address⟩
  have longer := contains.address_suffix.length_le
  rw [address, List.length_cons] at longer
  rw [isSame, beq_eq_false_iff_ne]
  intro same
  rw [same] at longer
  omega

theorem eq_of_address_of_mem_children {cursor first second : Cursor}
    (first_mem : first ∈ cursor.children) (second_mem : second ∈ cursor.children)
    (same : first.address = second.address) : first = second := by
  simp only [children, List.mem_map, Prod.exists, List.mem_zipIdx_iff_getElem?] at *
  rcases first_mem with ⟨node, index, found, rfl⟩
  rcases second_mem with ⟨other, place, placed, rfl⟩
  obtain rfl : index = place := (List.cons.inj same).1
  rw [found] at placed
  rw [Option.some.inj placed]

/-- A node of a tree is found at one address only, so cursors that agree on it are equal. -/
theorem Contains.eq_of_address {start first second : Cursor} (contains : start.Contains first)
    (contains' : start.Contains second) (same : first.address = second.address) :
    first = second := by
  induction contains using Relation.ReflTransGen.head_induction_on with
  | refl =>
      rcases contains'.cases with rfl | ⟨child, child_mem, below⟩
      · rfl
      · have elsewhere := isSame_eq_false_of_child child_mem below
        simp [isSame, same] at elsewhere
  | @head start child child_mem contains ih =>
      rcases contains'.cases with rfl | ⟨other, other_mem, below⟩
      · have elsewhere := isSame_eq_false_of_child child_mem contains
        simp [isSame, same] at elsewhere
      · -- Both ways down start with the child whose address ends the common address.
        have suffix : child.address <:+ second.address := same ▸ Contains.address_suffix contains
        rcases address_of_mem_children child_mem with ⟨index, address⟩
        rcases address_of_mem_children other_mem with ⟨place, address'⟩
        have sameChild : child.address = other.address := by
          apply (List.suffix_of_suffix_length_le suffix below.address_suffix ?_).eq_of_length
          · simp [address, address']
          · simp [address, address']
        obtain rfl := eq_of_address_of_mem_children child_mem other_mem sameChild
        exact ih below

theorem Contains.antisymm {first second : Cursor} (contains : first.Contains second)
    (contains' : second.Contains first) : first = second := by
  apply contains_self first |>.eq_of_address contains
  apply List.IsSuffix.eq_of_length_le contains.address_suffix
  exact contains'.address_suffix.length_le

theorem eq_of_mem_children {first second child : Cursor} (child_mem : child ∈ first.children)
    (child_mem' : child ∈ second.children) : first = second := by
  simp only [children, List.mem_map] at child_mem child_mem'
  rcases child_mem with ⟨entry, -, rfl⟩
  rcases child_mem' with ⟨entry', -, same⟩
  rcases List.cons.inj (Cursor.mk.inj same).2 with ⟨parent_eq, above_eq⟩
  exact congrArg₂ Cursor.mk (Prod.mk.inj parent_eq).1.symm above_eq.symm

/-- Of two nodes around a third one, one contains the other. -/
theorem Contains.total {first second cursor : Cursor} (contains : first.Contains cursor)
    (contains' : second.Contains cursor) : first.Contains second ∨ second.Contains first := by
  have unique : Relator.RightUnique
      (Function.swap fun above child : Cursor => child ∈ above.children) := by
    intro child above above' child_mem child_mem'
    exact eq_of_mem_children child_mem child_mem'
  rcases Relation.ReflTransGen.total_of_right_unique unique
    (Relation.reflTransGen_swap.mpr contains)
    (Relation.reflTransGen_swap.mpr contains') with up | up
  · exact Or.inr (Relation.reflTransGen_swap.mp up)
  · exact Or.inl (Relation.reflTransGen_swap.mp up)

theorem Contains.eq_or_parent {start above child : Cursor} (contains : start.Contains child)
    (child_mem : child ∈ above.children) : start = child ∨ start.Contains above := by
  rcases Relation.ReflTransGen.cases_tail contains with same | ⟨parent, below, child_mem'⟩
  · exact Or.inl same.symm
  · rw [eq_of_mem_children child_mem child_mem']
    exact Or.inr below

/-- On a way down through nodes with a property, whatever contains the end and not the start has
the property. -/
theorem eq_or_or_contains_of_way {property : Cursor → Prop} {start last cursor : Cursor}
    (way : Relation.ReflTransGen
      (fun above child => child ∈ above.children ∧ property above) start last)
    (contains : cursor.Contains last) :
    cursor = last ∨ property cursor ∨ cursor.Contains start := by
  induction way with
  | refl => exact Or.inr (Or.inr contains)
  | tail _ step ih =>
      rcases contains.eq_or_parent step.1 with same | below
      · exact Or.inl same
      · rcases ih below with rfl | found
        · exact Or.inr (Or.inl step.2)
        · exact Or.inr found

/-- If also the start has the property, nothing without it lies between the start and the end. -/
theorem not_contains_of_way {property : Cursor → Prop} {start last cursor : Cursor}
    (way : Relation.ReflTransGen
      (fun above child => child ∈ above.children ∧ property above) start last)
    (has : property start) (lacks : ¬property cursor) (different : cursor ≠ last)
    (inside : start.Contains cursor) : ¬cursor.Contains last := by
  intro contains
  rcases eq_or_or_contains_of_way way contains with same | passed | above
  · exact different same
  · exact lacks passed
  · rw [inside.antisymm above] at has
    exact lacks has

theorem root_of_mem_children {child cursor : Cursor} (child_mem : child ∈ cursor.children) :
    child.root = cursor.root := by
  simp only [children, List.mem_map] at child_mem
  rcases child_mem with ⟨entry, -, rfl⟩
  rcases cursor with ⟨node, ancestors⟩
  rcases List.eq_nil_or_concat ancestors with rfl | ⟨below, top, rfl⟩
  · rfl
  · simp [root, List.getLast?_cons]

theorem root_eq_of_contains {root : Node} {cursor : Cursor}
    (contains : (ofRoot root).Contains cursor) : cursor.root = ofRoot root := by
  induction contains with
  | refl => rfl
  | tail _ child_mem ih => rw [root_of_mem_children child_mem, ih]

end CodeFacts.Cursor
