/-!
# Ordered lists

Sets and maps are kept as lists in strictly increasing order. An element that is already there is
kept by `insertNew` and exchanged by `insertOver`, and both keep the order.
-/

namespace CodeFacts.OrderedList

/-- Inserts an element unless an equal one is there. -/
def insertNew {α : Type} (compare : α → α → Ordering) (element : α) : List α → List α
  | [] => [element]
  | head :: rest =>
    match compare element head with
    | .lt => element :: head :: rest
    | .eq => head :: rest
    | .gt => head :: insertNew compare element rest

/-- Inserts an element in place of an equal one that is there. -/
def insertOver {α : Type} (compare : α → α → Ordering) (element : α) : List α → List α
  | [] => [element]
  | head :: rest =>
    match compare element head with
    | .lt => element :: head :: rest
    | .eq => element :: rest
    | .gt => head :: insertOver compare element rest

/-- The elements of a list in order, the last of equal ones kept. -/
def ofList {α : Type} (compare : α → α → Ordering) (elements : List α) : List α :=
  elements.foldl (fun ordered element => insertOver compare element ordered) []

variable {α Key : Type} {compare : α → α → Ordering}

/-- A list in strictly increasing order. -/
def Increasing (compare : α → α → Ordering) (list : List α) : Prop :=
  list.Pairwise fun first second => compare first second = .lt

instance (compare : α → α → Ordering) (list : List α) : Decidable (Increasing compare list) :=
  inferInstanceAs (Decidable (list.Pairwise fun first second => compare first second = .lt))

/-- A key tells apart what the order tells apart. -/
def IsKey (compare : α → α → Ordering) (key : α → Key) : Prop :=
  ∀ first second, compare first second = .eq ↔ key first = key second

theorem increasing_nil : Increasing compare [] :=
  List.Pairwise.nil

/-- Nothing but the inserted element is new. -/
theorem mem_of_mem_insertNew {element found : α} {list : List α}
    (found_mem : found ∈ insertNew compare element list) : found = element ∨ found ∈ list := by
  induction list with
  | nil => simpa [insertNew] using found_mem
  | cons head rest ih =>
      unfold insertNew at found_mem
      cases order : compare element head with
      | lt => simpa [order] using found_mem
      | eq => exact Or.inr (by simpa [order] using found_mem)
      | gt =>
          simp only [order, List.mem_cons] at found_mem
          rcases found_mem with rfl | later
          · exact Or.inr List.mem_cons_self
          · exact (ih later).imp id (List.mem_cons_of_mem head)

theorem mem_of_mem_insertOver {element found : α} {list : List α}
    (found_mem : found ∈ insertOver compare element list) : found = element ∨ found ∈ list := by
  induction list with
  | nil => simpa [insertOver] using found_mem
  | cons head rest ih =>
      unfold insertOver at found_mem
      cases order : compare element head with
      | lt => simpa [order] using found_mem
      | eq =>
          simp only [order, List.mem_cons] at found_mem
          exact found_mem.imp id (List.mem_cons_of_mem head)
      | gt =>
          simp only [order, List.mem_cons] at found_mem
          rcases found_mem with rfl | later
          · exact Or.inr List.mem_cons_self
          · exact (ih later).imp id (List.mem_cons_of_mem head)

section Order

variable [Std.TransCmp compare]

/-- An element below the head of an increasing list is below all of it. -/
theorem Increasing.lt_of_lt_head {element head : α} {rest : List α}
    (increasing : Increasing compare (head :: rest)) (below : compare element head = .lt)
    {found : α} (found_mem : found ∈ head :: rest) : compare element found = .lt := by
  rcases List.mem_cons.mp found_mem with rfl | later
  · exact below
  · exact Std.TransCmp.lt_trans below (List.rel_of_pairwise_cons increasing later)

theorem Increasing.insertNew {list : List α} (increasing : Increasing compare list)
    (element : α) : Increasing compare (insertNew compare element list) := by
  induction list with
  | nil => exact List.pairwise_singleton _ _
  | cons head rest ih =>
      unfold OrderedList.insertNew
      cases order : compare element head with
      | lt =>
          exact List.pairwise_cons.mpr
            ⟨fun found found_mem => increasing.lt_of_lt_head order found_mem, increasing⟩
      | eq => exact increasing
      | gt =>
          refine List.pairwise_cons.mpr ⟨?_, ih (List.pairwise_cons.mp increasing).2⟩
          intro found found_mem
          rcases mem_of_mem_insertNew found_mem with rfl | later
          · exact Std.OrientedCmp.lt_of_gt order
          · exact List.rel_of_pairwise_cons increasing later

theorem Increasing.insertOver {list : List α} (increasing : Increasing compare list)
    (element : α) : Increasing compare (insertOver compare element list) := by
  induction list with
  | nil => exact List.pairwise_singleton _ _
  | cons head rest ih =>
      rcases List.pairwise_cons.mp increasing with ⟨below, rest_increasing⟩
      unfold OrderedList.insertOver
      cases order : compare element head with
      | lt =>
          exact List.pairwise_cons.mpr
            ⟨fun found found_mem => increasing.lt_of_lt_head order found_mem, increasing⟩
      | eq =>
          refine List.pairwise_cons.mpr ⟨?_, rest_increasing⟩
          intro found found_mem
          exact Std.TransCmp.lt_of_eq_of_lt order (below found found_mem)
      | gt =>
          refine List.pairwise_cons.mpr ⟨?_, ih rest_increasing⟩
          intro found found_mem
          rcases mem_of_mem_insertOver found_mem with rfl | later
          · exact Std.OrientedCmp.lt_of_gt order
          · exact below found later

theorem increasing_ofList (elements : List α) : Increasing compare (ofList compare elements) :=
  List.foldlRecOn (motive := Increasing compare) elements _ increasing_nil
    fun _ increasing element _ => increasing.insertOver element

end Order

end CodeFacts.OrderedList
