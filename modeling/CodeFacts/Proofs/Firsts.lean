import Mathlib.Data.List.Basic

/-!
# First elements of keys

Of the elements of a list with the same key, often only the first one is kept. Which ones are kept
is told here by their place in the list: no element before them has their key. In a list that is
ordered by something else, such as by offsets, the first element of a key is the least one.
-/

namespace CodeFacts

section Firsts

variable {α β : Type} [BEq β] (key : α → β)

/-- The elements of a list, each key once, with the first element that has it. -/
def firstsBy : List α → List α
  | [] => []
  | head :: rest => head :: (firstsBy rest).filter fun other => key other != key head

theorem firstsBy_sublist (elements : List α) : (firstsBy key elements).Sublist elements := by
  induction elements with
  | nil => simp [firstsBy]
  | cons head rest ih => exact (List.filter_sublist.trans ih).cons_cons head

theorem mem_of_mem_firstsBy {elements : List α} {element : α}
    (element_mem : element ∈ firstsBy key elements) : element ∈ elements :=
  (firstsBy_sublist key elements).subset element_mem

theorem firstsBy_map {γ : Type} (view : γ → α) (elements : List γ) :
    firstsBy key (elements.map view) = (firstsBy (key ∘ view) elements).map view := by
  induction elements with
  | nil => simp [firstsBy]
  | cons head rest ih => simp [firstsBy, ih, List.filter_map, Function.comp_def]

/-- Leaving out all elements of some keys does not change which ones come first. -/
theorem firstsBy_filter (test : β → Bool) [LawfulBEq β] (elements : List α) :
    firstsBy key (elements.filter fun element => test (key element)) =
      (firstsBy key elements).filter fun element => test (key element) := by
  induction elements with
  | nil => simp [firstsBy]
  | cons head rest ih =>
      cases kept : test (key head) with
      | true => simp [firstsBy, kept, ih, List.filter_filter, Bool.and_comm]
      | false =>
          simp only [firstsBy, List.filter_cons, kept, Bool.false_eq_true, if_false, ih,
            List.filter_filter]
          apply List.filter_congr
          intro other _
          by_cases same : key other = key head <;> simp [same, kept]

variable [LawfulBEq β]

/-- The first element of a key is one before which the key does not occur. -/
theorem mem_firstsBy_iff (elements : List α) (element : α) :
    element ∈ firstsBy key elements ↔
      ∃ before after, elements = before ++ element :: after ∧
        ∀ other ∈ before, key other ≠ key element := by
  induction elements with
  | nil => simp [firstsBy]
  | cons head rest ih =>
      simp only [firstsBy, List.mem_cons, List.mem_filter, bne_iff_ne, ne_eq, ih]
      constructor
      · rintro (rfl | ⟨⟨before, after, rfl, others⟩, different⟩)
        · exact ⟨[], rest, rfl, by simp⟩
        · refine ⟨head :: before, after, rfl, ?_⟩
          intro other other_mem
          rcases List.mem_cons.mp other_mem with rfl | later
          · exact fun same => different same.symm
          · exact others other later
      · rintro ⟨before, after, split, others⟩
        cases before with
        | nil => exact Or.inl (List.cons.inj split).1.symm
        | cons first before =>
            rcases List.cons.inj split with ⟨rfl, rfl⟩
            refine Or.inr ⟨⟨before, after, rfl, ?_⟩, ?_⟩
            · exact fun other other_mem => others other (List.mem_cons_of_mem _ other_mem)
            · exact fun same => others _ List.mem_cons_self same.symm

theorem pairwise_firstsBy (elements : List α) :
    (firstsBy key elements).Pairwise fun first second => key first ≠ key second := by
  induction elements with
  | nil => simp [firstsBy]
  | cons head rest ih =>
      rw [firstsBy, List.pairwise_cons]
      refine ⟨?_, ih.filter _⟩
      intro other other_mem
      exact Ne.symm (bne_iff_ne.mp (List.mem_filter.mp other_mem).2)

/-- Every key has a first element. -/
theorem exists_mem_firstsBy {elements : List α} {element : α} (element_mem : element ∈ elements) :
    ∃ first ∈ firstsBy key elements, key first = key element := by
  induction elements with
  | nil => simp at element_mem
  | cons head rest ih =>
      by_cases same : key head = key element
      · exact ⟨head, List.mem_cons_self, same⟩
      · rcases List.mem_cons.mp element_mem with rfl | later
        · exact absurd rfl same
        · rcases ih later with ⟨first, first_mem, first_key⟩
          refine ⟨first, List.mem_cons_of_mem _ (List.mem_filter.mpr ⟨first_mem, ?_⟩), first_key⟩
          simpa [first_key] using Ne.symm same

/-- In an ordered list, the first element of a key comes before all others that have it. -/
theorem eq_or_rel_of_mem_firstsBy {relation : α → α → Prop} {elements : List α}
    (ordered : elements.Pairwise relation) {first other : α}
    (first_mem : first ∈ firstsBy key elements) (other_mem : other ∈ elements)
    (same : key other = key first) : other = first ∨ relation first other := by
  rcases (mem_firstsBy_iff key elements first).mp first_mem with ⟨before, after, rfl, others⟩
  rcases List.mem_append.mp other_mem with earlier | later
  · exact absurd same (others other earlier)
  · apply (List.mem_cons.mp later).imp_right
    intro after_mem
    exact List.rel_of_pairwise_cons (List.pairwise_append.mp ordered).2.1 after_mem

end Firsts

section Duplicates

variable {α : Type} [BEq α] [LawfulBEq α]

/-- To erase duplicates is to keep the first of equal elements. -/
theorem eraseDups_eq_firstsBy (elements : List α) : elements.eraseDups = firstsBy id elements := by
  match elements with
  | [] => simp [firstsBy]
  | head :: rest =>
      rw [List.eraseDups_cons, eraseDups_eq_firstsBy (rest.filter fun other => !other == head)]
      exact congrArg (head :: ·) (firstsBy_filter id (fun other => !other == head) rest)
termination_by elements.length
decreasing_by exact Nat.lt_succ_of_le (List.length_filter_le _ rest)

theorem nodup_eraseDups (elements : List α) : elements.eraseDups.Nodup := by
  rw [eraseDups_eq_firstsBy]
  exact pairwise_firstsBy id elements

end Duplicates

end CodeFacts
