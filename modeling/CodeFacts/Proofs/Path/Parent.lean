import CodeFacts.Proofs.Path.Climb

/-!
# The parents of a path

The parent of a path is the path without its last component, however the path is written. Going up
from parent to parent ends at the root, and on the way there it is what a `..` does when a path is
normalized.
-/

namespace CodeFacts.Path

/-- The segments in front of a path mean what they mean in the path. -/
theorem components_ofParts_front {path : Path} {front : List (List Char)}
    (isPrefix : front <+: path.parts.body) :
    (ofParts ⟨path.parts.lead, front⟩).components =
      path.parts.lead.toList ++ front.filterMap segmentComponent? := by
  have noSlash : ∀ segment ∈ front, '/' ∉ segment := fun segment segment_mem =>
    noSlash_of_mem_body (isPrefix.subset segment_mem)
  by_cases empty : front = []
  · subst empty
    rcases path.lead_cases with lead | lead | lead <;> rw [lead] <;> decide
  · rcases path.parts_cases with ⟨rest, -, -, parts⟩ | ⟨rest, -, parts⟩ |
      ⟨first, rest, notSlash, notDot, -, parts⟩
    · rw [parts, components, parts_of_slash empty (segments_ofParts_root empty noSlash)]
      rfl
    · rw [parts, components, parts_of_dot (segments_ofParts_current empty noSlash)]
      rfl
    · rw [parts] at isPrefix ⊢
      have split := segments_ofParts_none empty noSlash
      cases front with
      | nil => exact absurd rfl empty
      | cons head others =>
          rcases List.cons_prefix_cons.mp isPrefix with ⟨rfl, others_prefix⟩
          have alone : head = [] → others = [] := by
            intro idle
            simpa [notSlash idle] using others_prefix
          rw [components, parts_of_other alone notDot split]
          rfl

theorem trimEnd_isPrefix (segments : List (List Char)) : trimEnd segments <+: segments := by
  have shorter := List.dropWhile_suffix isIdle (l := segments.reverse)
  rw [← List.reverse_prefix, List.reverse_reverse] at shorter
  exact shorter

theorem filterMap_trimEnd (segments : List (List Char)) :
    (trimEnd segments).filterMap segmentComponent? = segments.filterMap segmentComponent? := by
  induction segments using List.reverseRecOn with
  | nil => rfl
  | append_singleton segments last ih =>
      by_cases idle : isIdle last = true
      · have trimmed : trimEnd (segments ++ [last]) = trimEnd segments := by
          simp [trimEnd, idle]
        have means : segmentComponent? last = none := by simp [segmentComponent?, idle]
        simp [trimmed, ih, means]
      · simp [trimEnd, idle]

theorem isIdle_of_trimEnd {segments front : List (List Char)} {last : List Char}
    (trimmed : trimEnd segments = front ++ [last]) : isIdle last = false := by
  have first := List.head?_dropWhile_not isIdle segments.reverse
  have backwards : segments.reverse.dropWhile isIdle = last :: front.reverse := by
    rw [← List.reverse_inj, List.reverse_cons, List.reverse_reverse]
    exact trimmed
  rw [backwards] at first
  exact first

/-- The root and the empty path have no parent, and any other path is its parent and one more
component. -/
theorem parent?_cases (path : Path) :
    path.parent? = none ∧ (path.components = [] ∨ path.components = [.root]) ∨
      ∃ directory last, path.parent? = some directory ∧ last ≠ .root ∧
        path.components = directory.components ++ [last] := by
  have written : path.components =
      path.parts.lead.toList ++ (trimEnd path.parts.body).filterMap segmentComponent? := by
    rw [filterMap_trimEnd]
    rfl
  rcases List.eq_nil_or_concat (trimEnd path.parts.body) with nothing | ⟨front, last, concat⟩
  · rw [nothing, List.filterMap_nil, List.append_nil] at written
    rcases path.lead_cases with lead | lead | lead
    · exact Or.inl (by simp [parent?, nothing, written, lead])
    · exact Or.inl (by simp [parent?, nothing, written, lead])
    · refine Or.inr ⟨⟨""⟩, .current, by simp [parent?, nothing, lead], by simp, ?_⟩
      rw [written, lead]
      decide
  · rw [List.concat_eq_append] at concat
    have parent : path.parent? = some (ofParts ⟨path.parts.lead, trimEnd front⟩) := by
      simp only [parent?, concat]
      split
      · rename_i nothing
        simp at nothing
      · rw [List.dropLast_concat]
    have inside : front ++ [last] <+: path.parts.body := concat ▸ trimEnd_isPrefix _
    rcases isSome_segmentComponent? (isIdle_of_trimEnd concat) with ⟨component, means⟩
    refine Or.inr ⟨_, component, parent, ?_, ?_⟩
    · rintro rfl
      have noSlash := noSlash_of_mem_body (inside.subset (by simp : last ∈ front ++ [last]))
      exact isStep_of_segmentComponent? noSlash means
    · have above : trimEnd front <+: path.parts.body :=
        (trimEnd_isPrefix front).trans ((List.prefix_append _ _).trans inside)
      rw [components_ofParts_front above, filterMap_trimEnd, written, concat,
        List.filterMap_append, List.filterMap_cons_some means, List.filterMap_nil,
        List.append_assoc]

theorem exists_parent? {path : Path} {front : List Component} {name : String}
    (means : path.components = front ++ [.name name]) :
    ∃ directory, path.parent? = some directory ∧ directory.components = front := by
  rcases path.parent?_cases with ⟨-, empty | root⟩ | ⟨directory, last, parent, -, written⟩
  · simp [means] at empty
  · rw [means] at root
    have last := congrArg List.getLast? root
    simp at last
  · rw [means] at written
    exact ⟨directory, parent, (List.append_inj_left' written rfl).symm⟩

/-- The path without a number of components at the end; the root cannot be left out. -/
def ancestor? : Nat → Path → Option Path
  | 0, path => some path
  | height + 1, path => path.parent?.bind (ancestor? height)

/-- The path leads from the root by names. -/
def IsRooted (path : Path) (names : List String) : Prop :=
  path.components = .root :: names.map .name

theorem IsRooted.of_parent? {path directory : Path} {names : List String}
    (rooted : path.IsRooted names) (parent : path.parent? = some directory) :
    ∃ front last, names = front ++ [last] ∧ directory.IsRooted front := by
  unfold IsRooted at rooted ⊢
  rcases path.parent?_cases with ⟨orphan, -⟩ | ⟨directory', last, parent', notRoot, written⟩
  · rw [orphan] at parent
    contradiction
  · obtain rfl := Option.some.inj (parent.symm.trans parent')
    rw [rooted] at written
    rcases List.eq_nil_or_concat names with rfl | ⟨front, name, rfl⟩
    · simp only [List.map_nil, List.singleton_eq_append_iff, List.cons.injEq] at written
      simp_all
    · rw [List.concat_eq_append, List.map_append, ← List.cons_append] at written
      exact ⟨front, name, List.concat_eq_append, (List.append_inj_left' written rfl).symm⟩

/-- Going up from a directory is the same for its path and for what normalization keeps of it. -/
theorem IsRooted.ancestor? {path above : Path} {names : List String} (rooted : path.IsRooted names)
    {height : Nat} (isAbove : path.ancestor? height = some above) :
    (List.replicate height .parent).foldl normalizeStep path.components = above.components ∧
      ∃ front, above.IsRooted front := by
  induction height generalizing path names with
  | zero =>
      obtain rfl := Option.some.inj isAbove
      exact ⟨rfl, names, rooted⟩
  | succ height ih =>
      rcases Option.bind_eq_some_iff.mp isAbove with ⟨directory, parent, isAbove⟩
      rcases rooted.of_parent? parent with ⟨front, last, rfl, directory_rooted⟩
      rcases ih directory_rooted isAbove with ⟨climbed, above_rooted⟩
      have up : normalizeStep path.components .parent = directory.components := by
        have written : path.components = .root :: front.map .name ++ [.name last] := by
          simpa [IsRooted] using rooted
        rw [written, normalizeStep_parent_of_name, directory_rooted]
      refine ⟨?_, above_rooted⟩
      rw [List.replicate_succ, List.foldl_cons, up, climbed]

end CodeFacts.Path
