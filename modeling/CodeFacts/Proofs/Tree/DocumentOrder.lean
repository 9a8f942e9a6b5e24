import CodeFacts.Proofs.Tree.Preorder
import Mathlib.Data.List.Nodup
import Mathlib.Data.Prod.Lex

/-!
# Document order

In a preorder a node comes before all that lies below it, and what lies below a child comes before
what lies below the next one. So a later node never contains an earlier one. Where spans are laid
out as parsers lay them out, an earlier node contains a later one or ends before it starts.
-/

namespace CodeFacts

namespace Cursor

theorem not_contains_of_mem_children {cursor child : Cursor} (child_mem : child ∈ cursor.children) :
    ¬child.Contains cursor := by
  intro contains
  have elsewhere := isSame_eq_false_of_child child_mem contains
  simp [isSame] at elsewhere

theorem pairwise_address_children (cursor : Cursor) :
    cursor.children.Pairwise fun first second => first.address ≠ second.address := by
  have distinct : (cursor.node.children.zipIdx.map Prod.snd).Nodup := by
    rw [List.zipIdx_map_snd]
    exact List.nodup_range'
  rw [children, List.pairwise_map]
  refine (List.pairwise_map.mp distinct).imp ?_
  intro first second different same
  exact different (List.cons.inj same).1

/-- No node lies below two children of a node. -/
theorem eq_of_contains_of_mem_children {cursor first second below : Cursor}
    (first_mem : first ∈ cursor.children) (second_mem : second ∈ cursor.children)
    (contains : first.Contains below) (contains' : second.Contains below) : first = second := by
  rcases address_of_mem_children first_mem with ⟨index, address⟩
  rcases address_of_mem_children second_mem with ⟨place, address'⟩
  have length : first.address.length = second.address.length := by simp [address, address']
  have suffix := List.suffix_of_suffix_length_le contains.address_suffix contains'.address_suffix
    length.le
  exact eq_of_address_of_mem_children first_mem second_mem (suffix.eq_of_length length)

/-- A relation holds along a preorder if it holds from a node to what lies below it, and from what
lies below a child to what lies below a later one. -/
theorem pairwise_preorder {relation : Cursor → Cursor → Prop} (descend : Cursor → Bool)
    {start : Cursor}
    (below : ∀ cursor child inner, start.Contains cursor → child ∈ cursor.children →
      child.Contains inner → relation cursor inner)
    (beside : ∀ cursor, start.Contains cursor → cursor.children.Pairwise fun first second =>
      ∀ one other, first.Contains one → second.Contains other → relation one other) :
    (start.preorder descend).Pairwise relation := by
  induction start using preorder.induct with
  | case1 start ih =>
      rw [preorder_eq]
      split
      · refine List.pairwise_cons.mpr ⟨?_, List.pairwise_flatMap.mpr ⟨?_, ?_⟩⟩
        · intro inner inner_mem
          rcases List.mem_flatMap.mp inner_mem with ⟨child, child_mem, visited⟩
          exact below start child inner (contains_self start) child_mem
            (contains_of_mem_preorder visited)
        · intro child child_mem
          refine ih ⟨child, child_mem⟩ ?_ ?_
          · intro cursor next inner inside
            exact below cursor next inner (inside.of_child child_mem)
          · intro cursor inside
            exact beside cursor (inside.of_child child_mem)
        · refine (beside start (contains_self start)).imp ?_
          intro first second related one one_mem other other_mem
          exact related one other (contains_of_mem_preorder one_mem)
            (contains_of_mem_preorder other_mem)
      · exact List.pairwise_singleton _ _

theorem not_contains_of_later (descend : Cursor → Bool) (start : Cursor) :
    (start.preorder descend).Pairwise fun first second => ¬second.Contains first := by
  apply pairwise_preorder
  · intro cursor child inner _ child_mem contains around
    exact not_contains_of_mem_children child_mem (contains.trans around)
  · intro cursor _
    refine (pairwise_address_children cursor).imp_of_mem ?_
    intro first second first_mem second_mem different one other contains contains' around
    exact different (congrArg address
      (eq_of_contains_of_mem_children first_mem second_mem contains (contains'.trans around)))

/-- A node comes before the others that it contains. -/
theorem sublist_of_contains {descend : Cursor → Bool} {start outer inner : Cursor}
    (outer_mem : outer ∈ start.preorder descend) (inner_mem : inner ∈ start.preorder descend)
    (contains : outer.Contains inner) (different : outer ≠ inner) :
    [outer, inner].Sublist (start.preorder descend) := by
  have ordered := not_contains_of_later descend start
  rcases List.append_of_mem outer_mem with ⟨before, after, split⟩
  rw [split] at inner_mem ordered ⊢
  rcases List.mem_append.mp inner_mem with earlier | later
  · exact absurd contains
      ((List.pairwise_append.mp ordered).2.2 inner earlier outer List.mem_cons_self)
  · have after_mem := (List.mem_cons.mp later).resolve_left different.symm
    refine List.Sublist.trans ?_ (List.sublist_append_right before _)
    exact (List.singleton_sublist.mpr after_mem).cons_cons outer

theorem forall_descendants_iff {start : Cursor} {property : Cursor → Prop} :
    (∀ cursor ∈ start.descendants, property cursor) ↔
      ∀ cursor, start.Contains cursor → property cursor := by
  simp only [mem_descendants_iff]

/-- In one tree a node contains those whose addresses extend its own. -/
theorem contains_iff_address_suffix {start outer inner : Cursor} (outside : start.Contains outer)
    (inside : start.Contains inner) : outer.Contains inner ↔ outer.address <:+ inner.address := by
  refine ⟨Contains.address_suffix, fun suffix => ?_⟩
  induction inside with
  | refl =>
      have longer := outside.address_suffix.length_le
      rw [(contains_self start).eq_of_address outside (suffix.eq_of_length_le longer).symm]
      exact contains_self outer
  | @tail parent inner above child_mem ih =>
      rcases address_of_mem_children child_mem with ⟨index, address⟩
      rcases List.suffix_cons_iff.mp (address ▸ suffix) with same | shorter
      · rw [outside.eq_of_address (above.tail child_mem) (same.trans address.symm)]
        exact contains_self inner
      · exact (ih shorter).trans (contains_child child_mem)

end Cursor

namespace Span

/-- Where a span starts. -/
def first (span : Span) : ℕ ×ₗ ℕ :=
  toLex (span.startLine, span.startColumn)

/-- Where a span ends. -/
def last (span : Span) : ℕ ×ₗ ℕ :=
  toLex (span.endLine, span.endColumn)

theorem startLine_le_of_first_le {outer inner : Span} (within : outer.first ≤ inner.first) :
    outer.startLine ≤ inner.startLine := by
  rcases Prod.Lex.toLex_le_toLex.mp within with before | same
  · exact before.le
  · exact same.1.le

end Span

namespace Node

/-- Every node lies within its parent. -/
def SpansNested (tree : Node) : Prop :=
  ∀ cursor, (Cursor.ofRoot tree).Contains cursor → ∀ child ∈ cursor.children,
    cursor.span.first ≤ child.span.first ∧ child.span.last ≤ cursor.span.last

instance (tree : Node) : Decidable tree.SpansNested :=
  decidable_of_iff (∀ cursor ∈ (Cursor.ofRoot tree).descendants, ∀ child ∈ cursor.children,
    cursor.span.first ≤ child.span.first ∧ child.span.last ≤ cursor.span.last)
    Cursor.forall_descendants_iff

theorem SpansNested.of_contains {tree : Node} (nested : tree.SpansNested) {outer inner : Cursor}
    (inside : (Cursor.ofRoot tree).Contains outer) (contains : outer.Contains inner) :
    outer.span.first ≤ inner.span.first ∧ inner.span.last ≤ outer.span.last := by
  induction contains with
  | refl => exact ⟨le_refl _, le_refl _⟩
  | tail contains child_mem ih =>
      rcases nested _ (inside.trans contains) _ child_mem with ⟨starts, ends⟩
      exact ⟨ih.1.trans starts, ends.trans ih.2⟩

/-- The spans of a tree are laid out as in a text: children lie within their parents and one after
the other, and what stands on one line has no more characters than columns. -/
structure LaidOut (tree : Node) : Prop where
  nested : tree.SpansNested
  forward : ∀ cursor, (Cursor.ofRoot tree).Contains cursor → cursor.span.first ≤ cursor.span.last
  inOrder : ∀ cursor, (Cursor.ofRoot tree).Contains cursor →
    cursor.children.Pairwise fun first second => first.span.last ≤ second.span.first
  fits : ∀ cursor, (Cursor.ofRoot tree).Contains cursor →
    cursor.span.startLine = cursor.span.endLine →
      cursor.span.startColumn + cursor.text.length ≤ cursor.span.endColumn

theorem laidOut_iff (tree : Node) :
    tree.LaidOut ↔ tree.SpansNested ∧ ∀ cursor ∈ (Cursor.ofRoot tree).descendants,
      cursor.span.first ≤ cursor.span.last ∧
        (cursor.children.Pairwise fun first second => first.span.last ≤ second.span.first) ∧
        (cursor.span.startLine = cursor.span.endLine →
          cursor.span.startColumn + cursor.text.length ≤ cursor.span.endColumn) := by
  rw [Cursor.forall_descendants_iff]
  constructor
  · intro laid
    exact ⟨laid.nested, fun cursor inside =>
      ⟨laid.forward cursor inside, laid.inOrder cursor inside, laid.fits cursor inside⟩⟩
  · rintro ⟨nested, laid⟩
    exact ⟨nested, fun cursor inside => (laid cursor inside).1,
      fun cursor inside => (laid cursor inside).2.1, fun cursor inside => (laid cursor inside).2.2⟩

instance (tree : Node) : Decidable tree.LaidOut :=
  decidable_of_iff _ (laidOut_iff tree).symm

theorem LaidOut.contains_or_before {tree : Node} (laid : tree.LaidOut) (descend : Cursor → Bool) :
    ((Cursor.ofRoot tree).preorder descend).Pairwise fun first second =>
      first.Contains second ∨ first.span.last ≤ second.span.first := by
  apply Cursor.pairwise_preorder
  · intro cursor child inner _ child_mem contains
    exact Or.inl (contains.of_child child_mem)
  · intro cursor inside
    refine (laid.inOrder cursor inside).imp_of_mem ?_
    intro first second first_mem second_mem before one other contains contains'
    have one_within := laid.nested.of_contains
      (inside.trans (Cursor.contains_child first_mem)) contains
    have other_within := laid.nested.of_contains
      (inside.trans (Cursor.contains_child second_mem)) contains'
    exact Or.inr ((one_within.2.trans before).trans other_within.1)

end Node

end CodeFacts
