import CodeFacts.Proofs.Path.Tidy

/-!
# Extending tidy paths

A tidy path stays tidy when a name is written below it, and then it means the same with that name
at the end. It also stays tidy when its extension is exchanged, although what is left without the
extension need not be.
-/

namespace CodeFacts.Path

theorem isTidy_of_segments {path : Path} {first : List Char} {rest : List (List Char)}
    (split : path.segments = first :: rest) (some : rest ≠ [])
    (busy : ∀ segment ∈ rest, isIdle segment = false) : path.IsTidy := by
  refine Or.inr ⟨?_, ?_⟩
  · rw [split]
    exact fun empty => some (List.cons.inj empty).2
  · rw [split]
    exact busy

theorem IsName.not_isAbsolute {name : String} (isName : IsName name) :
    ¬(Path.mk name).isAbsolute = true := by
  intro absolute
  rcases List.head?_eq_some_iff.mp (eq_of_beq absolute) with ⟨rest, chars⟩
  exact isName.2.2.2 (chars ▸ List.mem_cons_self)

/-- Of the tidy paths only the root ends in a slash. -/
theorem IsTidy.eq_root {path : Path} (tidy : path.IsTidy)
    (ends : path.text.toList.getLast? = some '/') : path.text = "/" := by
  rcases tidy with root | ⟨-, busy⟩
  · exact root
  rcases List.getLast?_eq_some_iff.mp ends with ⟨front, chars⟩
  have split : path.segments = splitSlashes front ++ [[]] := by
    rw [segments, chars, splitSlashes_append_slash]
    rfl
  have idle := busy [] (by
    rw [split, List.tail_append_of_ne_nil (splitSlashes_ne_nil front)]
    exact List.mem_append_right _ List.mem_cons_self)
  exact Bool.noConfusion idle

theorem IsTidy.text_ne_empty {path : Path} (tidy : path.IsTidy) : path.text ≠ "" := by
  intro empty
  rcases tidy with root | ⟨notEmpty, -⟩
  · rw [empty] at root
    exact absurd root (by decide)
  · rw [segments, empty] at notEmpty
    exact notEmpty rfl

/-- A relative path below a tidy one is written after a slash. -/
theorem IsTidy.segments_join_relative {directory path : Path} (tidy : directory.IsTidy)
    (relative : path.isAbsolute = false) :
    directory.text = "/" ∧ (directory.join path).segments = [] :: path.segments ∨
      directory.text ≠ "/" ∧
        (directory.join path).segments = directory.segments ++ path.segments := by
  rw [Path.join, if_neg (by simp [relative])]
  by_cases root : directory.text = "/"
  · refine Or.inl ⟨root, ?_⟩
    rw [root, if_pos (by decide), segments, String.toList_append]
    exact splitSlashes_slash _
  · refine Or.inr ⟨root, ?_⟩
    rw [if_neg]
    · rw [segments, String.toList_append, String.toList_append, List.append_assoc]
      exact splitSlashes_append_slash _ _
    · simp only [String.isEmpty_iff, Bool.or_eq_true, beq_iff_eq, not_or]
      exact ⟨tidy.text_ne_empty, fun ends => root (tidy.eq_root ends)⟩

theorem IsTidy.components_join_relative {directory path : Path} (tidy : directory.IsTidy)
    (relative : path.isAbsolute = false) :
    (directory.join path).components = directory.components ++ path.steps := by
  have some : path.segments ≠ [] := splitSlashes_ne_nil _
  rw [← filterMap_segments]
  rcases tidy.segments_join_relative relative with ⟨root, joined⟩ | ⟨notRoot, joined⟩
  · cases directory
    subst root
    rw [components, Parts.components, parts_of_slash some joined]
    rfl
  rw [components, components, Parts.components, Parts.components]
  rcases tidy.parts_cases with root | ⟨body, busy, ⟨-, split, parts⟩ | ⟨split, parts⟩ |
    ⟨body_some, split, parts⟩⟩
  · exact absurd root notRoot
  · rw [split, List.cons_append] at joined
    rw [parts, parts_of_slash (by simp [some]) joined, List.filterMap_append, List.append_assoc]
  · rw [split, List.cons_append] at joined
    rw [parts, parts_of_dot joined, List.filterMap_append, List.append_assoc]
  · rw [split] at joined
    have body_parts : (directory.join path).parts = ⟨none, body ++ path.segments⟩ := by
      cases body with
      | nil => exact absurd rfl body_some
      | cons first rest =>
          have first_busy := busy first List.mem_cons_self
          simp only [isIdle, Bool.or_eq_false_iff, beq_eq_false_iff_ne] at first_busy
          exact parts_of_other (fun empty => absurd empty first_busy.1) first_busy.2 joined
    rw [parts, body_parts, List.filterMap_append, List.append_assoc]

theorem IsName.steps_eq {name : String} (isName : IsName name) :
    (Path.mk name).steps = [.name name] := by
  rw [← filterMap_segments, segments, splitSlashes_of_notMem isName.2.2.2,
    List.filterMap_cons_some isName.segmentComponent?_eq, List.filterMap_nil]

/-- A name below a tidy path is written as one more segment. -/
theorem IsTidy.segments_join {path : Path} (tidy : path.IsTidy) {name : String}
    (isName : IsName name) :
    path.text = "/" ∧ (path.join ⟨name⟩).segments = [[], name.toList] ∨
      path.text ≠ "/" ∧ (path.join ⟨name⟩).segments = path.segments ++ [name.toList] := by
  have single : (Path.mk name).segments = [name.toList] := splitSlashes_of_notMem isName.2.2.2
  have joined := tidy.segments_join_relative (by simpa using isName.not_isAbsolute)
  rwa [single] at joined

theorem IsTidy.join {path : Path} (tidy : path.IsTidy) {name : String} (isName : IsName name) :
    (path.join ⟨name⟩).IsTidy := by
  rcases tidy.segments_join isName with ⟨-, split⟩ | ⟨notRoot, split⟩
  · exact isTidy_of_segments split (by simp) (by simpa using isName.isIdle_eq_false)
  · rcases tidy with root | ⟨-, busy⟩
    · exact absurd root notRoot
    cases front : path.segments with
    | nil => exact absurd front (splitSlashes_ne_nil _)
    | cons first rest =>
        rw [front] at split busy
        refine isTidy_of_segments split (by simp) (List.forall_mem_append.mpr ⟨busy, ?_⟩)
        simpa using isName.isIdle_eq_false

theorem IsTidy.components_join {path : Path} (tidy : path.IsTidy) {name : String}
    (isName : IsName name) : (path.join ⟨name⟩).components = path.components ++ [.name name] := by
  rw [tidy.components_join_relative (by simpa using isName.not_isAbsolute), isName.steps_eq]

/-- Inside a tidy path, that is between its first and its last segment, no segment is idle. -/
theorem IsTidy.busy_inside {path : Path} (tidy : path.IsTidy) :
    ∀ segment ∈ path.segments.dropLast.tail, isIdle segment = false := by
  rcases tidy with root | ⟨-, busy⟩
  · cases path
    subst root
    decide
  · intro segment segment_mem
    rw [List.tail_dropLast] at segment_mem
    exact busy segment (List.dropLast_subset _ segment_mem)

/-- What is long enough to mean something ends a tidy path, whatever it is written after. -/
theorem isTidy_append {path : Path}
    (inside : ∀ segment ∈ path.segments.dropLast.tail, isIdle segment = false) {suffix : String}
    (noSlash : '/' ∉ suffix.toList) (long : 2 ≤ suffix.toList.length) :
    (path.append suffix).IsTidy := by
  rcases splitSlashes_append noSlash path.text.toList with ⟨init, last, before, after⟩
  have front : path.segments.dropLast = init := by
    rw [segments, before, List.dropLast_concat]
  have split : (path.append suffix).segments = init ++ [last ++ suffix.toList] := by
    rw [segments, append, String.toList_append, after]
  have busy : isIdle (last ++ suffix.toList) = false := by
    have length : 2 ≤ (last ++ suffix.toList).length := by
      rw [List.length_append]
      omega
    generalize last ++ suffix.toList = written at length
    simp only [isIdle, Bool.or_eq_false_iff, beq_eq_false_iff_ne]
    refine ⟨?_, ?_⟩
    · rintro rfl
      simp at length
    · rintro rfl
      simp at length
  rw [front] at inside
  cases init with
  | nil =>
      refine Or.inr ⟨?_, ?_⟩
      · rw [split]
        intro empty
        rw [(List.cons.inj empty).1] at busy
        exact Bool.noConfusion busy
      · rw [split]
        exact fun segment segment_mem => absurd segment_mem List.not_mem_nil
  | cons first rest =>
      refine isTidy_of_segments split (by simp) (List.forall_mem_append.mpr ⟨inside, ?_⟩)
      simpa using busy

theorem trimEnd_of_busy {segments : List (List Char)}
    (busy : ∀ segment ∈ segments, isIdle segment = false) : trimEnd segments = segments := by
  rw [trimEnd]
  cases backwards : segments.reverse with
  | nil => rw [List.reverse_eq_nil_iff.mp backwards]; rfl
  | cons last rest =>
      have last_busy := busy last (by rw [← List.mem_reverse, backwards]; exact List.mem_cons_self)
      rw [List.dropWhile_cons_of_neg (by simp [last_busy]), ← backwards, List.reverse_reverse]

theorem mem_of_mem_stem {name stem extension : List Char}
    (split : splitExtension? name = some (stem, extension)) {char : Char} (char_mem : char ∈ stem) :
    char ∈ name := by
  unfold splitExtension? at split
  dsimp only at split
  split at split
  · rw [← (Prod.mk.inj (Option.some.inj split)).1, List.mem_reverse] at char_mem
    have kept := (List.dropWhile_sublist _).subset (List.drop_subset _ _ char_mem)
    rwa [List.mem_reverse] at kept
  · simp at split

/-- A tidy path that ends in a name has something after its lead, and nothing idle. -/
theorem IsTidy.busy_body {path : Path} (tidy : path.IsTidy) {name : String}
    (named : path.fileName? = some name) :
    path.parts.body ≠ [] ∧ ∀ segment ∈ path.parts.body, isIdle segment = false := by
  rcases tidy.parts_cases with root | ⟨body, busy, ⟨some, -, parts⟩ | ⟨-, parts⟩ | ⟨some, -, parts⟩⟩
  · cases path
    subst root
    have unnamed : fileName? ⟨"/"⟩ = none := by decide
    rw [unnamed] at named
    simp at named
  · rw [parts]
    exact ⟨some, busy⟩
  · rw [parts]
    refine ⟨?_, busy⟩
    rintro rfl
    rw [fileName?, components, parts] at named
    simp [Parts.components] at named
  · rw [parts]
    exact ⟨some, busy⟩

/-- Cutting off an extension changes the last segment only. -/
theorem IsTidy.dropLast_withoutExtension {path : Path} (tidy : path.IsTidy) :
    path.withoutExtension.segments.dropLast = path.segments.dropLast := by
  unfold withoutExtension
  split
  · rfl
  rename_i name named
  split
  · rfl
  rename_i stem extension divided
  rcases tidy.busy_body named with ⟨some, busy⟩
  have stem_noSlash : '/' ∉ stem := fun slash =>
    (isName_of_fileName? named).2.2.2 (mem_of_mem_stem divided slash)
  have noSlash : ∀ segment ∈ path.parts.body.dropLast ++ [stem], '/' ∉ segment := by
    refine List.forall_mem_append.mpr ⟨?_, by simpa using stem_noSlash⟩
    exact fun segment segment_mem => noSlash_of_mem_body (List.dropLast_subset _ segment_mem)
  dsimp only
  rw [trimEnd_of_busy busy]
  rcases path.parts_cases with ⟨rest, -, split, parts⟩ | ⟨rest, split, parts⟩ |
    ⟨first, rest, -, -, split, parts⟩
  · rw [parts] at some noSlash ⊢
    rw [segments_ofParts_root (by simp) noSlash, split, List.dropLast_cons_of_ne_nil some,
      ← List.cons_append, List.dropLast_concat]
  · rw [parts] at some noSlash ⊢
    rw [segments_ofParts_current (by simp) noSlash, split, List.dropLast_cons_of_ne_nil some,
      ← List.cons_append, List.dropLast_concat]
  · rw [parts] at some noSlash ⊢
    rw [segments_ofParts_none (by simp) noSlash, split, List.dropLast_concat]

end CodeFacts.Path
