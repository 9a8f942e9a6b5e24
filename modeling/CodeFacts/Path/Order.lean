import CodeFacts.OrderedList
import CodeFacts.Path.Basic

/-!
# The order of paths

Paths are ordered by their components, and two of them compare as equal exactly when they have the
same components. The order is a linear preorder, so sets of paths can be kept as ordered lists.
-/

namespace CodeFacts

namespace Component

instance : Std.LawfulEqCmp Component.compare where
  compare_self := by
    intro component
    cases component <;> simp [compare, rank]
  eq_of_compare := by
    intro first second equal
    cases first <;> cases second <;> simp_all [compare, rank]

/-- Components are ordered by their rank first, and among names by the text. -/
theorem compare_eq_compareLex :
    Component.compare = compareLex (compareOn rank) (compareOn text) := by
  funext first second
  cases first <;> cases second <;> rfl

instance : Std.TransCmp Component.compare := by
  rw [compare_eq_compareLex]
  infer_instance

end Component

namespace Path

/-- The order of component lists is the lexicographic one. -/
theorem compareComponents_eq (first second : List Component) :
    compareComponents first second = List.compareLex Component.compare first second := by
  induction first generalizing second with
  | nil => cases second <;> rfl
  | cons head rest ih =>
      cases second with
      | nil => rfl
      | cons other others =>
          rw [compareComponents, List.compareLex_cons_cons, ih]
          cases head.compare other <;> rfl

theorem compare_eq (first second : Path) :
    first.compare second =
      List.compareLex Component.compare first.components second.components :=
  compareComponents_eq first.components second.components

/-- Paths compare as equal if they have the same components. -/
theorem isKey_components : OrderedList.IsKey Path.compare Path.components := by
  intro first second
  rw [compare_eq]
  exact Std.LawfulEqCmp.compare_eq_iff_eq

instance : Std.TransCmp Path.compare where
  eq_swap := by
    intro first second
    rw [compare_eq, compare_eq]
    exact Std.OrientedCmp.eq_swap
  isLE_trans := by
    intro first second third before after
    rw [compare_eq] at *
    exact Std.TransCmp.isLE_trans before after

theorem le_iff_isLE (first second : Path) :
    first.le second = true ↔ (first.compare second).isLE = true := by
  unfold le
  cases first.compare second <;> decide

/-- Paths that are sorted and have different components are in strict order. -/
theorem increasing_mergeSort {paths : List Path} (distinct : (paths.map components).Nodup) :
    OrderedList.Increasing Path.compare (paths.mergeSort le) := by
  have sorted : (paths.mergeSort le).Pairwise fun first second => first.le second = true := by
    apply List.pairwise_mergeSort
    · intro first second third before after
      rw [le_iff_isLE] at *
      exact Std.TransCmp.isLE_trans before after
    · intro first second
      have swap : second.compare first = (first.compare second).swap := Std.OrientedCmp.eq_swap
      rw [Bool.or_eq_true, le_iff_isLE, le_iff_isLE, swap]
      cases first.compare second <;> decide
  have different : (paths.mergeSort le).Pairwise fun first second =>
      first.components ≠ second.components := by
    rw [← ((List.mergeSort_perm paths le).map components).nodup_iff] at distinct
    exact List.pairwise_map.mp distinct
  refine (sorted.and different).imp ?_
  rintro first second ⟨before, differ⟩
  rw [le_iff_isLE] at before
  cases order : first.compare second with
  | lt => rfl
  | eq => exact absurd ((isKey_components first second).mp order) differ
  | gt => simp [order] at before

end Path

end CodeFacts
