import CodeFacts.Proofs.Tree.Preorder
import Mathlib.Data.List.Forall2
import Mathlib.Data.Option.Defs

/-!
# Comments put into a tree

A tree is commented by putting comment leaves among the children of any of its nodes. All that
stands before the comments in a file keeps its place and all that stands behind them moves, so the
offsets of literals in the two trees are related by an increasing map. A node that a comment was
put into covers that comment as well, and may start with it; the texts of literals and identifiers
stay what they are.

The children of a node are woven into those of the commented node, and so are the nodes of the
whole tree. A lookup that comments cannot answer, by a field or by a kind of their own, therefore
finds related nodes in both trees. A lookup by place, such as for the first named child, need not.
-/

namespace CodeFacts

section Woven

variable {α β γ δ : Type*} {related : α → β → Prop} {extra : β → Prop}

/-- The second list holds a relative of each element of the first in the same order, and between
them elements of its own that are `extra`. -/
inductive Woven (related : α → β → Prop) (extra : β → Prop) : List α → List β → Prop
  | nil : Woven related extra [] []
  | keep {first : α} {second : β} {firsts : List α} {seconds : List β} :
      related first second → Woven related extra firsts seconds →
        Woven related extra (first :: firsts) (second :: seconds)
  | insert {second : β} {firsts : List α} {seconds : List β} :
      extra second → Woven related extra firsts seconds →
        Woven related extra firsts (second :: seconds)

namespace Woven

theorem append {firsts firsts' : List α} {seconds seconds' : List β}
    (woven : Woven related extra firsts seconds) (woven' : Woven related extra firsts' seconds') :
    Woven related extra (firsts ++ firsts') (seconds ++ seconds') := by
  induction woven with
  | nil => exact woven'
  | keep relatives _ ih => exact ih.keep relatives
  | insert put _ ih => exact ih.insert put

/-- Lists woven for each pair of relatives, and put in for each extra element, are woven one after
the other. -/
theorem flatMap {related' : γ → δ → Prop} {extra' : δ → Prop} {below : α → List γ}
    {below' : β → List δ} {firsts : List α} {seconds : List β}
    (woven : Woven related extra firsts seconds)
    (keep : ∀ first ∈ firsts, ∀ second, related first second →
      Woven related' extra' (below first) (below' second))
    (insert : ∀ second, extra second → Woven related' extra' [] (below' second)) :
    Woven related' extra' (firsts.flatMap below) (seconds.flatMap below') := by
  induction woven with
  | nil => exact .nil
  | keep relatives _ ih =>
      simp only [List.flatMap_cons]
      apply append (keep _ List.mem_cons_self _ relatives)
      exact ih fun first first_mem => keep first (List.mem_cons_of_mem _ first_mem)
  | insert put _ ih =>
      rw [List.flatMap_cons]
      exact append (insert _ put) (ih keep)

theorem forall₂_flatMap {related' : γ → δ → Prop} {below : α → List γ} {below' : β → List δ}
    {firsts : List α} {seconds : List β} (woven : Woven related extra firsts seconds)
    (keep : ∀ first second, related first second →
      List.Forall₂ related' (below first) (below' second))
    (insert : ∀ second, extra second → below' second = []) :
    List.Forall₂ related' (firsts.flatMap below) (seconds.flatMap below') := by
  induction woven with
  | nil => exact .nil
  | keep relatives _ ih =>
      simp only [List.flatMap_cons]
      exact List.rel_append (keep _ _ relatives) ih
  | insert put _ ih =>
      rw [List.flatMap_cons, insert _ put]
      exact ih

theorem of_map {place : γ → α} {place' : δ → β} {firsts : List γ} {seconds : List δ}
    (woven : Woven related extra (firsts.map place) (seconds.map place')) :
    Woven (fun first second => related (place first) (place' second))
      (fun second => extra (place' second)) firsts seconds := by
  generalize eq : firsts.map place = images at woven
  generalize eq' : seconds.map place' = images' at woven
  induction woven generalizing firsts seconds with
  | nil =>
      rw [List.map_eq_nil_iff.mp eq, List.map_eq_nil_iff.mp eq']
      exact .nil
  | keep relatives _ ih =>
      obtain ⟨first, firsts, rfl, rfl, rest⟩ := List.map_eq_cons_iff.mp eq
      obtain ⟨second, seconds, rfl, rfl, rest'⟩ := List.map_eq_cons_iff.mp eq'
      exact (ih rest rest').keep relatives
  | insert put _ ih =>
      obtain ⟨second, seconds, rfl, rfl, rest'⟩ := List.map_eq_cons_iff.mp eq'
      exact (ih eq rest').insert put

theorem filter {keeps : α → Bool} {keeps' : β → Bool} {firsts : List α} {seconds : List β}
    (woven : Woven related extra firsts seconds)
    (agree : ∀ first second, related first second → keeps first = keeps' second) :
    Woven related extra (firsts.filter keeps) (seconds.filter keeps') := by
  induction woven with
  | nil => exact .nil
  | @keep first second _ _ relatives _ ih =>
      simp only [List.filter_cons, agree first second relatives]
      split
      · exact ih.keep relatives
      · exact ih
  | insert put _ ih =>
      rw [List.filter_cons]
      split
      · exact ih.insert put
      · exact ih

theorem forall₂ {firsts : List α} {seconds : List β} (woven : Woven related extra firsts seconds)
    (none_extra : ∀ second ∈ seconds, ¬extra second) : List.Forall₂ related firsts seconds := by
  induction woven with
  | nil => exact .nil
  | keep relatives _ ih =>
      apply List.Forall₂.cons relatives
      exact ih fun second second_mem => none_extra second (List.mem_cons_of_mem _ second_mem)
  | insert put => exact absurd put (none_extra _ List.mem_cons_self)

/-- A filter that no extra element passes leaves relatives only. -/
theorem forall₂_filter {keeps : α → Bool} {keeps' : β → Bool} {firsts : List α}
    {seconds : List β} (woven : Woven related extra firsts seconds)
    (agree : ∀ first second, related first second → keeps first = keeps' second)
    (refuse : ∀ second, extra second → keeps' second = false) :
    List.Forall₂ related (firsts.filter keeps) (seconds.filter keeps') := by
  apply (woven.filter agree).forall₂
  intro second kept put
  simp [refuse second put] at kept

/-- The second list starts with an extra element or like the first one. -/
theorem head? {firsts : List α} {seconds : List β}
    (woven : Woven related extra firsts seconds) :
    (∃ second, seconds.head? = some second ∧ extra second) ∨
      Option.Rel related firsts.head? seconds.head? := by
  cases woven with
  | nil => exact .inr .none
  | keep relatives => exact .inr (.some relatives)
  | insert put => exact .inl ⟨_, rfl, put⟩

end Woven

theorem rel_head?_of_forall₂ {firsts : List α} {seconds : List β}
    (relatives : List.Forall₂ related firsts seconds) :
    Option.Rel related firsts.head? seconds.head? := by
  cases relatives with
  | nil => exact .none
  | cons first => exact .some first

end Woven

namespace Node

/-- A leaf that the grammar names a comment and that no field holds. -/
structure IsComment (node : Node) : Prop where
  kind : node.kind = "comment"
  named : node.named = true
  field : node.field = none
  children : node.children = []

/-- What a node keeps when comments are put into it and around it, which moves literals by `move`.
Its text stays the same if nothing was put into it, and in literals and identifiers always. -/
structure Keeps (move : Nat → Nat) (bare commented : Node) : Prop where
  kind : commented.kind = bare.kind
  named : commented.named = bare.named
  field : commented.field = bare.field
  start : bare.kind = "string" → commented.span.startByte = move bare.span.startByte
  text : commented.size = bare.size ∨ bare.kind = "string" ∨ bare.kind = "identifier" →
    commented.text = bare.text

/-- The second tree is the first one with comments put among the children of any of its nodes. -/
inductive Commented (move : Nat → Nat) : Node → Node → Prop
  | intro {bare commented : Node} : bare.Keeps move commented →
      Woven (Commented move) IsComment bare.children commented.children →
        Commented move bare commented

end Node

namespace Cursor

variable {move : Nat → Nat} {bare commented : Cursor}

/-- The cursors stand on a node of a tree and on the same node with comments put into it. -/
def Commented (move : Nat → Nat) (bare commented : Cursor) : Prop :=
  bare.node.Commented move commented.node

namespace Commented

theorem keeps (inserted : bare.Commented move commented) :
    bare.node.Keeps move commented.node := by
  cases inserted with
  | intro keeps _ => exact keeps

theorem kind (inserted : bare.Commented move commented) : commented.kind = bare.kind :=
  inserted.keeps.kind

/-- The children are those of the bare node, with comments between them. -/
theorem children (inserted : bare.Commented move commented) :
    Woven (Commented move) (fun child => child.node.IsComment) bare.children
      commented.children := by
  cases inserted with
  | intro _ below =>
      rw [← map_node_children, ← map_node_children] at below
      exact below.of_map

theorem namedChildren (inserted : bare.Commented move commented) :
    Woven (Commented move) (fun child => child.node.IsComment) bare.namedChildren
      commented.namedChildren := by
  apply inserted.children.filter
  intro child child' relatives
  exact relatives.keeps.named.symm

theorem childrenOfKind (inserted : bare.Commented move commented) {kind : String}
    (other : kind ≠ "comment") :
    List.Forall₂ (Commented move) (bare.childrenOfKind kind) (commented.childrenOfKind kind) := by
  apply inserted.children.forall₂_filter
  · intro child child' relatives
    simp only [relatives.kind]
  · intro child comment
    simpa [Cursor.kind, comment.kind] using other.symm

theorem childrenByField (inserted : bare.Commented move commented) (field : String) :
    List.Forall₂ (Commented move) (bare.childrenByField field)
      (commented.childrenByField field) := by
  apply inserted.children.forall₂_filter
  · intro child child' relatives
    simp only [relatives.keeps.field]
  · intro child comment
    simp [comment.field]

theorem childByField? (inserted : bare.Commented move commented) (field : String) :
    Option.Rel (Commented move) (bare.childByField? field) (commented.childByField? field) := by
  rw [Cursor.childByField?, Cursor.childByField?, ← List.head?_filter, ← List.head?_filter]
  exact rel_head?_of_forall₂ (inserted.childrenByField field)

end Commented

theorem descendants_eq (start : Cursor) :
    start.descendants = start :: start.children.flatMap descendants := by
  have below : ∀ child : Cursor, child.descendants = child.preorder fun _ => true := by
    intro child
    rw [descendants, walk_eq_preorder]
  rw [below, preorder_eq, if_pos rfl, List.flatMap_congr fun child _ => (below child).symm]

theorem descendants_of_isComment {cursor : Cursor} (comment : cursor.node.IsComment) :
    cursor.descendants = [cursor] := by
  rw [descendants_eq]
  simp [Cursor.children, comment.children]

namespace Commented

/-- The nodes of the commented tree are those of the bare tree, with comments between them. -/
theorem descendants (inserted : bare.Commented move commented) :
    Woven (Commented move) (fun cursor => cursor.node.IsComment) bare.descendants
      commented.descendants := by
  induction bare using preorder.induct generalizing commented with
  | case1 bare ih =>
      rw [descendants_eq, descendants_eq]
      apply Woven.keep inserted
      apply inserted.children.flatMap
      · intro child child_mem child' relatives
        exact ih ⟨child, child_mem⟩ relatives
      · intro comment isComment
        rw [descendants_of_isComment isComment]
        exact .insert isComment .nil

theorem descendantsOfKind (inserted : bare.Commented move commented) {kind : String}
    (other : kind ≠ "comment") :
    List.Forall₂ (Commented move) (bare.descendantsOfKind kind)
      (commented.descendantsOfKind kind) := by
  apply inserted.descendants.forall₂_filter
  · intro cursor cursor' relatives
    simp only [relatives.kind]
  · intro cursor comment
    simpa [Cursor.kind, comment.kind] using other.symm

end Commented

end Cursor

end CodeFacts
