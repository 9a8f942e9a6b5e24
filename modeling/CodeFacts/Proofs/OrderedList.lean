import CodeFacts.OrderedList
import Mathlib.Data.List.Sort

/-!
# Insertion into ordered lists

What the two insertions do to the elements of a list and to its order. Elements that compare as
equal may still differ, as paths do that are written differently, so membership is stated of keys:
a function with the same value at two elements exactly when they compare as equal.
-/

namespace CodeFacts.OrderedList

variable {α Key : Type} {compare : α → α → Ordering} {key : α → Key}

/-- Of a strictly increasing list every key is that of one element only. -/
theorem Increasing.nodup_keys {list : List α} (increasing : Increasing compare list)
    (isKey : IsKey compare key) : (list.map key).Nodup := by
  rw [List.Nodup, List.pairwise_map]
  refine increasing.imp ?_
  intro first second less same
  rw [(isKey first second).mpr same] at less
  exact Ordering.noConfusion less

theorem mem_keys_insertNew (isKey : IsKey compare key) (element : α) (list : List α)
    (wanted : Key) :
    wanted ∈ (insertNew compare element list).map key ↔
      wanted = key element ∨ wanted ∈ list.map key := by
  induction list with
  | nil => simp [insertNew]
  | cons head rest ih =>
      unfold insertNew
      cases order : compare element head with
      | lt => simp
      | eq => simp [(isKey element head).mp order]
      | gt =>
          simp only [List.map_cons, List.mem_cons, ih]
          exact or_left_comm

theorem mem_keys_insertOver (isKey : IsKey compare key) (element : α) (list : List α)
    (wanted : Key) :
    wanted ∈ (insertOver compare element list).map key ↔
      wanted = key element ∨ wanted ∈ list.map key := by
  induction list with
  | nil => simp [insertOver]
  | cons head rest ih =>
      unfold insertOver
      cases order : compare element head with
      | lt => simp
      | eq => simp [(isKey element head).mp order]
      | gt =>
          simp only [List.map_cons, List.mem_cons, ih]
          exact or_left_comm

theorem mem_keys_ofList (isKey : IsKey compare key) (elements : List α) (wanted : Key) :
    wanted ∈ (ofList compare elements).map key ↔ wanted ∈ elements.map key := by
  have grown (list : List α) :
      wanted ∈ (elements.foldl (fun ordered element => insertOver compare element ordered)
        list).map key ↔ wanted ∈ elements.map key ∨ wanted ∈ list.map key := by
    induction elements generalizing list with
    | nil => simp
    | cons element rest ih =>
        rw [List.foldl_cons, ih, mem_keys_insertOver isKey, List.map_cons, List.mem_cons, or_assoc,
          or_left_comm]
  simpa [ofList] using grown []

theorem mem_of_mem_ofList {elements : List α} :
    ∀ found ∈ ofList compare elements, found ∈ elements := by
  refine List.foldlRecOn (motive := fun ordered => ∀ found ∈ ordered, found ∈ elements) elements _
    (by simp) ?_
  intro ordered known element element_mem found found_mem
  rcases mem_of_mem_insertOver found_mem with rfl | old
  · exact element_mem
  · exact known found old

/-- A map that keeps the order of an element to the others can be applied before or after. -/
theorem insertNew_map {β : Type} {compareImages : β → β → Ordering} {image : α → β} {element : α}
    {list : List α}
    (keeps : ∀ other ∈ list, compareImages (image element) (image other) = compare element other) :
    insertNew compareImages (image element) (list.map image) =
      (insertNew compare element list).map image := by
  induction list with
  | nil => rfl
  | cons head rest ih =>
      rw [List.forall_mem_cons] at keeps
      rw [List.map_cons, insertNew, insertNew, keeps.1]
      cases compare element head with
      | lt => rfl
      | eq => rfl
      | gt => rw [List.map_cons, ih keeps.2]

theorem insertOver_map {β : Type} {compareImages : β → β → Ordering} {image : α → β} {element : α}
    {list : List α}
    (keeps : ∀ other ∈ list, compareImages (image element) (image other) = compare element other) :
    insertOver compareImages (image element) (list.map image) =
      (insertOver compare element list).map image := by
  induction list with
  | nil => rfl
  | cons head rest ih =>
      rw [List.forall_mem_cons] at keeps
      rw [List.map_cons, insertOver, insertOver, keeps.1]
      cases compare element head with
      | lt => rfl
      | eq => rfl
      | gt => rw [List.map_cons, ih keeps.2]

/-- The inserted element is found by its key, and nothing else changes. -/
theorem find?_insertOver [BEq Key] [LawfulBEq Key] (isKey : IsKey compare key) (element : α)
    (list : List α) (wanted : Key) :
    (insertOver compare element list).find? (fun found => key found == wanted) =
      if key element == wanted then some element
      else list.find? fun found => key found == wanted := by
  induction list with
  | nil => cases same : key element == wanted <;> simp [insertOver, same]
  | cons head rest ih =>
      unfold insertOver
      cases order : compare element head with
      | lt => cases same : key element == wanted <;> simp [same]
      | eq =>
          have key_eq := (isKey element head).mp order
          cases same : key element == wanted <;> simp [same, ← key_eq]
      | gt =>
          cases first : key head == wanted with
          | true =>
              have other : key element ≠ wanted := by
                intro same
                have equal := (isKey element head).mpr (same.trans (eq_of_beq first).symm)
                rw [order] at equal
                contradiction
              simp [first, other]
          | false => simp [first, ih]

/-- A map that keeps the order of the elements of a list keeps the list in order. -/
theorem Increasing.map {β : Type} {compareImages : β → β → Ordering} {image : α → β}
    {list : List α} (increasing : Increasing compare list)
    (keeps : ∀ first ∈ list, ∀ second ∈ list,
      compareImages (image first) (image second) = compare first second) :
    Increasing compareImages (list.map image) := by
  rw [Increasing, List.pairwise_map]
  refine increasing.imp_of_mem ?_
  intro first second first_mem second_mem less
  rw [keeps first first_mem second second_mem, less]

/-- An element whose key is new is put between the others. -/
theorem insertOver_perm (isKey : IsKey compare key) {element : α} {list : List α}
    (fresh : key element ∉ list.map key) :
    (insertOver compare element list).Perm (element :: list) := by
  induction list with
  | nil => exact List.Perm.refl _
  | cons head rest ih =>
      simp only [List.map_cons, List.mem_cons, not_or] at fresh
      unfold insertOver
      cases order : compare element head with
      | lt => exact List.Perm.refl _
      | eq => exact absurd ((isKey element head).mp order) fresh.1
      | gt => exact ((ih fresh.2).cons head).trans (List.Perm.swap element head rest)

/-- Elements with different new keys are all put in. -/
theorem foldl_insertOver_perm (isKey : IsKey compare key) {elements list : List α}
    (distinct : (elements.map key ++ list.map key).Nodup) :
    (elements.foldl (fun ordered element => insertOver compare element ordered) list).Perm
      (elements ++ list) := by
  induction elements generalizing list with
  | nil => exact List.Perm.refl _
  | cons element rest ih =>
      simp only [List.map_cons, List.cons_append, List.nodup_cons, List.mem_append, not_or]
        at distinct
      have inserted := insertOver_perm isKey distinct.1.2
      have moved : (rest.map key ++ (insertOver compare element list).map key).Perm
          (key element :: (rest.map key ++ list.map key)) :=
        ((inserted.map key).append_left _).trans List.perm_middle
      rw [List.foldl_cons]
      refine (ih (moved.nodup_iff.mpr ?_)).trans ?_
      · exact List.nodup_cons.mpr ⟨by simpa using distinct.1, distinct.2⟩
      · exact (inserted.append_left rest).trans List.perm_middle

section Order

variable [Std.TransCmp compare]

/-- An element whose key is there already is not put in. -/
theorem Increasing.insertNew_eq_self {list : List α} (increasing : Increasing compare list)
    (isKey : IsKey compare key) {element : α} (known : key element ∈ list.map key) :
    OrderedList.insertNew compare element list = list := by
  induction list with
  | nil => simp at known
  | cons head rest ih =>
      rcases List.mem_map.mp known with ⟨found, found_mem, same⟩
      have equal : compare element found = .eq := (isKey element found).mpr same.symm
      unfold OrderedList.insertNew
      cases order : compare element head with
      | lt =>
          rw [increasing.lt_of_lt_head order found_mem] at equal
          exact Ordering.noConfusion equal
      | eq => rfl
      | gt =>
          rcases List.mem_cons.mp found_mem with rfl | later
          · rw [order] at equal
            exact Ordering.noConfusion equal
          · rw [ih (List.pairwise_cons.mp increasing).2 (List.mem_map.mpr ⟨found, later, same⟩)]

/-- An element above all others is put at the end. -/
theorem insertOver_eq_concat {element : α} {list : List α}
    (above : ∀ other ∈ list, compare other element = .lt) :
    OrderedList.insertOver compare element list = list ++ [element] := by
  induction list with
  | nil => rfl
  | cons head rest ih =>
      rw [List.forall_mem_cons] at above
      rw [OrderedList.insertOver, Std.OrientedCmp.gt_of_lt above.1, ih above.2, List.cons_append]

/-- A list that is in order is not changed by being put in order. -/
theorem Increasing.ofList_eq_self {list : List α} (increasing : Increasing compare list) :
    ofList compare list = list := by
  have grown (front rest : List α) (increasing : Increasing compare (front ++ rest)) :
      rest.foldl (fun ordered element => OrderedList.insertOver compare element ordered) front =
        front ++ rest := by
    induction rest generalizing front with
    | nil => simp
    | cons element rest ih =>
        have above : ∀ other ∈ front, compare other element = .lt := fun other other_mem =>
          (List.pairwise_append.mp increasing).2.2 other other_mem element List.mem_cons_self
        rw [List.append_cons] at increasing ⊢
        rw [List.foldl_cons, insertOver_eq_concat above]
        exact ih (front ++ [element]) increasing
  exact grown [] list increasing

/-- A list in order is determined by its elements. -/
theorem Increasing.eq_of_mem_iff {first second : List α}
    (first_increasing : Increasing compare first)
    (second_increasing : Increasing compare second)
    (same : ∀ element, element ∈ first ↔ element ∈ second) : first = second := by
  have irreflexive : Std.Irrefl fun one other => compare one other = .lt :=
    ⟨fun element less => by simp [Std.ReflCmp.compare_self] at less⟩
  have antisymmetric : Std.Antisymm fun one other => compare one other = .lt :=
    ⟨fun one other less greater => by simp [Std.OrientedCmp.gt_of_lt less] at greater⟩
  exact List.Pairwise.eq_of_mem_iff first_increasing second_increasing same

end Order

end CodeFacts.OrderedList
