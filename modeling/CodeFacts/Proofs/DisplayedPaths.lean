import CodeFacts.Proofs.Imports.Limits
import CodeFacts.Proofs.Path.Lexical
import CodeFacts.Proofs.Path.Parent

/-!
# Displayed paths

A path below a root is displayed by what is left of its text when the components of the root are
taken away, and a path elsewhere in full. Either way what is displayed, put below the root again,
means the path from which it comes, however the two are written.

On display every backslash becomes a slash, which cuts a name apart. So what is displayed means the
path exactly if none of the names in it has a backslash, and paths of that kind, such as the files
of a cycle, can be told from each other by what is displayed.
-/

namespace CodeFacts.Path

theorem components_eq_lead_append_steps (path : Path) :
    path.components = path.parts.lead.toList ++ path.steps :=
  rfl

section Join

variable {directory path : Path}

/-- A relative path below a directory is written after the first segment of the directory. -/
theorem exists_segments_join (some : directory.text ≠ "") (relative : path.isAbsolute = false) :
    ∃ first front rest, directory.segments = first :: front ∧
      (directory.join path).segments = first :: rest ∧ rest ≠ [] := by
  rw [join, if_neg (by simp [relative])]
  split
  · rename_i ends
    rw [Bool.or_eq_true, String.isEmpty_iff, beq_iff_eq] at ends
    rcases List.getLast?_eq_some_iff.mp (ends.resolve_left some) with ⟨chars, written⟩
    rw [segments, segments, String.toList_append, written, List.append_assoc,
      List.singleton_append, splitSlashes_append_slash, splitSlashes_append_slash]
    rcases List.exists_cons_of_ne_nil (splitSlashes_ne_nil chars) with ⟨first, others, split⟩
    rw [split]
    exact ⟨first, _, _, rfl, rfl, List.append_ne_nil_of_right_ne_nil _ (splitSlashes_ne_nil _)⟩
  · have joined := splitSlashes_append_slash directory.text.toList path.text.toList
    rcases List.exists_cons_of_ne_nil (splitSlashes_ne_nil directory.text.toList) with
      ⟨first, others, split⟩
    rw [split] at joined
    rw [segments, segments, String.toList_append, String.toList_append, List.append_assoc, split]
    exact ⟨first, _, _, rfl, joined, List.append_ne_nil_of_right_ne_nil _ (splitSlashes_ne_nil _)⟩

theorem lead_join (some : directory.text ≠ "") (relative : path.isAbsolute = false) :
    (directory.join path).parts.lead = directory.parts.lead := by
  rcases exists_segments_join some relative with ⟨first, front, rest, split, joined, more⟩
  by_cases empty : first = []
  · subst empty
    have longer : front ≠ [] := by
      rintro rfl
      have written := directory.text_eq_joinSlashes
      rw [split] at written
      exact some (congrArg text written)
    rw [parts_of_slash more joined, parts_of_slash longer split]
  · by_cases dot : first = ['.']
    · subst dot
      rw [parts_of_dot joined, parts_of_dot split]
    · rw [parts_of_other (fun none => absurd none empty) dot joined,
        parts_of_other (fun none => absurd none empty) dot split]

/-- A relative path below a directory takes its steps after all that the directory means. -/
theorem components_join (some : directory.text ≠ "") (relative : path.isAbsolute = false) :
    (directory.join path).components = directory.components ++ path.steps := by
  rw [components_eq_lead_append_steps, lead_join some relative, steps_join relative,
    ← List.append_assoc, ← components_eq_lead_append_steps]

theorem join_of_empty (empty : directory.text = "") (path : Path) :
    directory.join path = path := by
  simp [join, empty]

end Join

/-- Only the empty text means nothing. -/
theorem text_eq_empty_of_components {path : Path} (nothing : path.components = []) :
    path.text = "" := by
  rcases path.parts_cases with ⟨rest, -, -, parts⟩ | ⟨rest, -, parts⟩ |
    ⟨first, rest, alone, notDot, split, parts⟩
  · simp [components, Parts.components, parts] at nothing
  · simp [components, Parts.components, parts] at nothing
  · have idle : isIdle first = true := by
      by_contra busy
      rcases isSome_segmentComponent? (Bool.eq_false_iff.mpr busy) with ⟨component, means⟩
      simp [components, Parts.components, parts, List.filterMap_cons_some means] at nothing
    have empty : first = [] := by simpa [isIdle, notDot] using idle
    rw [path.text_eq_joinSlashes, split, empty, alone empty]
    rfl

section Strip

theorem filterMap_dropWhile_isIdle (segments : List (List Char)) :
    (segments.dropWhile isIdle).filterMap segmentComponent? =
      segments.filterMap segmentComponent? := by
  induction segments with
  | nil => rfl
  | cons segment rest ih =>
      cases idle : isIdle segment with
      | true =>
          have means : segmentComponent? segment = none := by simp [segmentComponent?, idle]
          rw [List.dropWhile_cons_of_pos idle, List.filterMap_cons_none means, ih]
      | false => rw [List.dropWhile_cons_of_neg (by simp [idle])]

theorem filterMap_dropComponents (count : Nat) (segments : List (List Char)) :
    (dropComponents count segments).filterMap segmentComponent? =
      (segments.filterMap segmentComponent?).drop count := by
  fun_induction dropComponents count segments with
  | case1 segments => rw [filterMap_dropWhile_isIdle, List.drop_zero]
  | case2 count => rfl
  | case3 count segment rest idle ih =>
      have means : segmentComponent? segment = none := by simp [segmentComponent?, idle]
      rw [ih, List.filterMap_cons_none means]
  | case4 count segment rest busy ih =>
      rcases isSome_segmentComponent? (Bool.eq_false_iff.mpr busy) with ⟨component, means⟩
      rw [ih, List.filterMap_cons_some means, List.drop_succ_cons]

theorem dropComponents_suffix (count : Nat) (segments : List (List Char)) :
    dropComponents count segments <:+ segments := by
  fun_induction dropComponents count segments with
  | case1 segments => exact List.dropWhile_suffix isIdle
  | case2 count => exact List.suffix_rfl
  | case3 count segment rest idle ih => exact ih.trans (List.suffix_cons segment rest)
  | case4 count segment rest busy ih => exact ih.trans (List.suffix_cons segment rest)

theorem isIdle_head_dropComponents (count : Nat) (segments : List (List Char)) :
    ∀ first ∈ (dropComponents count segments).head?, isIdle first = false := by
  fun_induction dropComponents count segments with
  | case1 segments =>
      intro first first_mem
      have stops := List.head?_dropWhile_not isIdle segments
      rw [Option.mem_def.mp first_mem] at stops
      exact stops
  | case2 count => simp
  | case3 count segment rest idle ih => exact ih
  | case4 count segment rest busy ih => exact ih

variable {body : List (List Char)}

/-- Segments that start with a busy one are a path without a lead. -/
theorem parts_ofParts_none (noSlash : ∀ segment ∈ body, '/' ∉ segment)
    (busy : ∀ first ∈ body.head?, isIdle first = false) :
    (ofParts ⟨none, body⟩).parts.lead = none ∧
      (ofParts ⟨none, body⟩).steps = body.filterMap segmentComponent? := by
  cases body with
  | nil => decide
  | cons first rest =>
      have first_busy : isIdle first = false := busy first rfl
      simp only [isIdle, Bool.or_eq_false_iff, beq_eq_false_iff_ne] at first_busy
      have split := segments_ofParts_none (List.cons_ne_nil first rest) noSlash
      rw [steps, parts_of_other (fun empty => absurd empty first_busy.1) first_busy.2 split]
      exact ⟨rfl, rfl⟩

theorem isAbsolute_of_lead {path : Path} (none : path.parts.lead = none) :
    path.isAbsolute = false := by
  cases absolute : path.isAbsolute with
  | false => rfl
  | true =>
      have rooted := components_of_absolute absolute
      rw [components_eq_lead_append_steps, none] at rooted
      simp at rooted

variable {root path : Path}

/-- What is left of a path below a root that means something: the segments after a number of
components. -/
theorem exists_stripDirectory?_eq (start : root.components ≠ [])
    (below : root.components <+: path.components) :
    ∃ count, path.stripDirectory? root =
        some (ofParts ⟨none, trimEnd (dropComponents count path.parts.body)⟩) ∧
      path.steps.drop count = path.components.drop root.components.length := by
  unfold stripDirectory?
  dsimp only
  rw [if_pos (List.isPrefixOf_iff_prefix.mpr below)]
  cases means : root.components with
  | nil => exact absurd means start
  | cons first others =>
      cases lead : path.parts.lead with
      | none =>
          refine ⟨_, rfl, ?_⟩
          rw [components_eq_lead_append_steps path, lead]
          rfl
      | some component =>
          refine ⟨_, rfl, ?_⟩
          rw [components_eq_lead_append_steps path, lead]
          rfl

/-- What is left of a path below a root means the components after the root, and leads from the
root to the path. -/
theorem exists_stripDirectory? (below : root.components <+: path.components) :
    ∃ rest, path.stripDirectory? root = some rest ∧
      rest.components = path.components.drop root.components.length ∧
      (root.join rest).components = path.components := by
  by_cases start : root.components = []
  · have stripped : path.stripDirectory? root =
        some (ofParts ⟨path.parts.lead, trimEnd path.parts.body⟩) := by
      simp [stripDirectory?, start]
    have means : (ofParts ⟨path.parts.lead, trimEnd path.parts.body⟩).components =
        path.components := by
      rw [components_ofParts_front (trimEnd_isPrefix _), filterMap_trimEnd]
      rfl
    refine ⟨_, stripped, ?_, ?_⟩
    · rw [means, start, List.length_nil, List.drop_zero]
    · rw [join_of_empty (text_eq_empty_of_components start), means]
  · rcases exists_stripDirectory?_eq start below with ⟨count, stripped, counted⟩
    have front := trimEnd_isPrefix (dropComponents count path.parts.body)
    have noSlash : ∀ segment ∈ trimEnd (dropComponents count path.parts.body), '/' ∉ segment :=
      fun segment segment_mem =>
        noSlash_of_mem_body ((dropComponents_suffix _ _).subset (front.subset segment_mem))
    have busy : ∀ first ∈ (trimEnd (dropComponents count path.parts.body)).head?,
        isIdle first = false := by
      intro first first_mem
      refine isIdle_head_dropComponents count path.parts.body first ?_
      rcases front with ⟨idle, written⟩
      rw [← written, List.head?_append, Option.mem_def.mp first_mem]
      rfl
    rcases parts_ofParts_none noSlash busy with ⟨lead, steps⟩
    rw [filterMap_trimEnd, filterMap_dropComponents] at steps
    have means := steps.trans counted
    have some : root.text ≠ "" := by
      intro empty
      refine start ?_
      rw [show root = ⟨""⟩ from congrArg mk empty]
      decide
    refine ⟨_, stripped, ?_, ?_⟩
    · rw [components_eq_lead_append_steps, lead, means]
      rfl
    · rw [components_join some (isAbsolute_of_lead lead), means]
      exact List.prefix_iff_eq_append.mp below

end Strip

section Shown

/-- The components that are displayed of a path: those after the root, or all if the path is not
below the root. -/
def shownComponents (root path : Path) : List Component :=
  if root.components <+: path.components then path.components.drop root.components.length
  else path.components

/-- None of the names that are displayed has a backslash. -/
def IsShownPlainly (root path : Path) : Prop :=
  ∀ component ∈ root.shownComponents path, '\\' ∉ component.text.toList

instance (root path : Path) : Decidable (root.IsShownPlainly path) :=
  inferInstanceAs (Decidable (∀ component ∈ _, _))

/-- The path can be reached from the root: it is below the root, or it does not depend on it. -/
def Places (root path : Path) : Prop :=
  root.components <+: path.components ∨ path.isAbsolute = true

instance (root path : Path) : Decidable (root.Places path) :=
  inferInstanceAs (Decidable (_ ∨ _))

/-- The directory is above the path, and not the path itself. -/
def IsAbove (directory path : Path) : Prop :=
  directory.components <+: path.components ∧ directory.components ≠ path.components

instance (directory path : Path) : Decidable (directory.IsAbove path) :=
  inferInstanceAs (Decidable (_ ∧ _))

variable {root path : Path}

/-- What is displayed, but for the slashes, means the displayed components and leads from the root
to the path. -/
theorem exists_shown (places : root.Places path) :
    ∃ rest, display root path = withSlashes rest.text ∧
      rest.components = root.shownComponents path ∧
      (root.join rest).components = path.components := by
  unfold display shownComponents
  by_cases below : root.components <+: path.components
  · rcases exists_stripDirectory? below with ⟨rest, stripped, means, joined⟩
    refine ⟨rest, ?_, ?_, joined⟩
    · rw [stripped, Option.getD_some]
    · rw [means, if_pos below]
  · have outside : path.stripDirectory? root = none := by
      simp [stripDirectory?, below]
    refine ⟨path, ?_, ?_, ?_⟩
    · rw [outside, Option.getD_none]
    · rw [if_neg below]
    · rw [join_of_isAbsolute (places.resolve_left below)]

/-- Of a path that is put below a root, nothing is displayed but what it means by itself. -/
theorem shownComponents_join_subset (root path : Path) :
    root.shownComponents (root.join path) ⊆ path.components := by
  have part : root.shownComponents path ⊆ path.components := by
    unfold shownComponents
    split
    · exact List.drop_subset _ _
    · exact List.Subset.refl _
  by_cases empty : root.text = ""
  · rwa [join_of_empty empty]
  cases absolute : path.isAbsolute with
  | true => rwa [join_of_isAbsolute absolute]
  | false =>
      rw [shownComponents, components_join empty absolute, if_pos (List.prefix_append _ _),
        List.drop_left]
      exact List.subset_append_right _ _

theorem mem_joinSlashes_iff {char : Char} (other : char ≠ '/') (segments : List (List Char)) :
    char ∈ joinSlashes segments ↔ ∃ segment ∈ segments, char ∈ segment := by
  induction segments with
  | nil => simp [joinSlashes]
  | cons segment rest ih =>
      by_cases last : rest = []
      · simp [last, joinSlashes]
      · rw [joinSlashes_cons segment last, List.mem_append, List.mem_cons, ih]
        simp [other]

/-- A backslash of a text is in a name, since all that lies between the names is dots and
slashes. -/
theorem backslash_mem_text_iff (path : Path) :
    '\\' ∈ path.text.toList ↔ ∃ component ∈ path.components, '\\' ∈ component.text.toList := by
  rw [← joinSlashes_splitSlashes path.text.toList, mem_joinSlashes_iff (by decide)]
  change (∃ segment ∈ path.segments, '\\' ∈ segment) ↔ _
  constructor
  · rintro ⟨segment, segment_mem, backslash_mem⟩
    have busy : isIdle segment = false := by
      by_contra idle
      simp only [isIdle, Bool.not_eq_false, Bool.or_eq_true, beq_iff_eq] at idle
      rcases idle with rfl | rfl <;> simp at backslash_mem
    rcases isSome_segmentComponent? busy with ⟨component, means⟩
    refine ⟨component, ?_, ?_⟩
    · rw [components_eq_lead_append_steps, ← filterMap_segments]
      exact List.mem_append_right _ (List.mem_filterMap.mpr ⟨segment, segment_mem, means⟩)
    · rwa [text_of_segmentComponent? means]
  · rintro ⟨component, component_mem, backslash_mem⟩
    rw [components_eq_lead_append_steps] at component_mem
    rcases List.mem_append.mp component_mem with lead_mem | step_mem
    · have marks : component = .root ∨ component = .current := by
        rcases path.lead_cases with lead | lead | lead <;> simp_all
      rcases marks with rfl | rfl <;> simp [Component.text] at backslash_mem
    · rw [← filterMap_segments] at step_mem
      rcases List.mem_filterMap.mp step_mem with ⟨segment, segment_mem, means⟩
      rw [text_of_segmentComponent? means] at backslash_mem
      exact ⟨segment, segment_mem, backslash_mem⟩

theorem withSlashes_of_notMem {text : String} (none : '\\' ∉ text.toList) :
    withSlashes text = text := by
  have kept : text.toList.map (fun char => if char = '\\' then '/' else char) = text.toList := by
    refine (List.map_congr_left ?_).trans (List.map_id _)
    intro char char_mem
    refine if_neg ?_
    rintro rfl
    exact none char_mem
  rw [withSlashes, kept, String.ofList_toList]

theorem backslash_notMem_withSlashes (text : String) : '\\' ∉ (withSlashes text).toList := by
  rw [withSlashes, String.toList_ofList, List.mem_map]
  rintro ⟨char, -, turned⟩
  split at turned
  · simp at turned
  · contradiction

/-- What is displayed leads from the root to the path exactly if it has no name with a
backslash. -/
theorem same_join_display_iff (places : root.Places path) :
    (root.join ⟨display root path⟩).same path = true ↔ root.IsShownPlainly path := by
  rcases exists_shown places with ⟨rest, displayed, means, joined⟩
  rw [displayed, same, beq_iff_eq]
  constructor
  · intro found component component_mem backslash_mem
    rw [shownComponents, ← found] at component_mem
    have shown_mem := shownComponents_join_subset root ⟨withSlashes rest.text⟩ component_mem
    refine backslash_notMem_withSlashes rest.text ?_
    exact (backslash_mem_text_iff ⟨withSlashes rest.text⟩).mpr
      ⟨component, shown_mem, backslash_mem⟩
  · intro plain
    have none : '\\' ∉ rest.text.toList := by
      rw [backslash_mem_text_iff, means]
      rintro ⟨component, component_mem, backslash_mem⟩
      exact plain component component_mem backslash_mem
    rw [withSlashes_of_notMem none]
    exact joined

/-- Paths that are displayed plainly and alike are the same. -/
theorem components_eq_of_display {first second : Path} (first_places : root.Places first)
    (second_places : root.Places second) (first_plain : root.IsShownPlainly first)
    (second_plain : root.IsShownPlainly second)
    (alike : display root first = display root second) :
    first.components = second.components := by
  have first_found := (same_join_display_iff first_places).mpr first_plain
  have second_found := (same_join_display_iff second_places).mpr second_plain
  rw [same, beq_iff_eq] at first_found second_found
  rw [← first_found, alike, second_found]

theorem displayIn_eq_display {base file : Path} (some : base.text ≠ "")
    (above : base.IsAbove file) : displayIn base file = display base file := by
  have other : file.same base = false := by
    rw [same, beq_eq_false_iff_ne]
    exact Ne.symm above.2
  rcases exists_stripDirectory? above.1 with ⟨rest, stripped, -, -⟩
  rw [displayIn, if_neg (by simpa using some), other, display, stripped]
  rfl

end Shown

end CodeFacts.Path

namespace CodeFacts.Imports

/-- The different files of a cycle are displayed differently. -/
theorem Graph.IsImportCycle.nodup_display {graph : Graph} {cycle : Cycle}
    (isCycle : graph.IsImportCycle cycle)
    (places : ∀ entry ∈ cycle, graph.root.Places entry)
    (plain : ∀ entry ∈ cycle, graph.root.IsShownPlainly entry) :
    (cycle.dropLast.map graph.display).Nodup := by
  have distinct := isCycle.distinct
  rw [List.Nodup, List.pairwise_map] at distinct ⊢
  refine distinct.imp_of_mem ?_
  intro first second first_mem second_mem different alike
  have first_in := List.mem_of_mem_dropLast first_mem
  have second_in := List.mem_of_mem_dropLast second_mem
  exact different (Path.components_eq_of_display (places first first_in) (places second second_in)
    (plain first first_in) (plain second second_in) alike)

/-- What is displayed of a path, put below the root or the base again, means the path exactly if
none of the displayed names has a backslash. So files without such names are never displayed alike,
neither among all files of a graph or a report nor within an issue. -/
theorem display_identifies_files_iff_plain :
    (∀ (graph : Graph) (path : Path), graph.root.Places path →
      ((graph.root.join ⟨graph.display path⟩).same path = true ↔
        graph.root.IsShownPlainly path)) ∧
    (∀ base file : Path, base.text ≠ "" → base.IsAbove file →
      ((base.join ⟨base.displayIn file⟩).same file = true ↔ base.IsShownPlainly file)) ∧
    (∀ (graph : Graph) (first second : Path),
      (∀ path ∈ [first, second], graph.root.Places path ∧ graph.root.IsShownPlainly path) →
      graph.display first = graph.display second → first.same second = true) ∧
    (∀ base first second : Path, base.text ≠ "" →
      (∀ path ∈ [first, second], base.IsAbove path ∧ base.IsShownPlainly path) →
      base.displayIn first = base.displayIn second → first.same second = true) ∧
    (∀ (graph : Graph) (limits : CycleLimits) (report : CycleReport),
      (∀ node ∈ graph.nodes, ∀ path ∈ node.path :: node.importsFrom,
        graph.root.Places path ∧ graph.root.IsShownPlainly path) →
      CycleReport.ofGraph graph limits = .ok report →
      ∀ issue ∈ report.issues, issue.files.dropLast.Nodup) := by
  refine ⟨?_, ?_, ?_, ?_, ?_⟩
  · intro graph path places
    exact Path.same_join_display_iff places
  · intro base file some above
    rw [Path.displayIn_eq_display some above]
    exact Path.same_join_display_iff (Or.inl above.1)
  · intro graph first second proper alike
    rw [List.forall_mem_cons, List.forall_mem_singleton] at proper
    rcases proper with ⟨⟨first_places, first_plain⟩, second_places, second_plain⟩
    exact beq_iff_eq.mpr (Path.components_eq_of_display first_places second_places first_plain
      second_plain alike)
  · intro base first second some proper alike
    rw [List.forall_mem_cons, List.forall_mem_singleton] at proper
    rcases proper with ⟨⟨first_above, first_plain⟩, second_above, second_plain⟩
    rw [Path.displayIn_eq_display some first_above, Path.displayIn_eq_display some second_above]
      at alike
    exact beq_iff_eq.mpr (Path.components_eq_of_display (Or.inl first_above.1)
      (Or.inl second_above.1) first_plain second_plain alike)
  · intro graph limits report proper reported issue issue_mem
    rcases (CycleReport.ofGraph_eq_ok_iff graph limits report).mp reported with ⟨-, rfl⟩
    rcases List.mem_map.mp issue_mem with ⟨cycle, cycle_mem, rfl⟩
    have sound := graph.sound_searchCycles limits
    have proper_entry : ∀ entry ∈ cycle,
        graph.root.Places entry ∧ graph.root.IsShownPlainly entry := by
      intro entry entry_mem
      rcases sound.writes cycle cycle_mem entry entry_mem with ⟨node, node_mem, written⟩
      exact proper node node_mem entry written
    change (cycle.map graph.display).dropLast.Nodup
    rw [← List.map_dropLast]
    exact (sound.isCycle cycle cycle_mem).nodup_display
      (fun entry entry_mem => (proper_entry entry entry_mem).1)
      (fun entry entry_mem => (proper_entry entry entry_mem).2)

/-- Two files that import each other. -/
def mutualImports (root first second : Path) : Graph :=
  ((Graph.empty root).insert (.ofImports first [second])).insert (.ofImports second [first])

theorem display_identifies_files_of_untidy_root :
    let graph := mutualImports ⟨"/p/./"⟩ ⟨"/p//a/b.js"⟩ ⟨"/p/a-b.js"⟩
    (∃ report, CycleReport.ofGraph graph ⟨10, 50⟩ = .ok report ∧
      report.issues.map CycleIssue.files = [["a/b.js", "a-b.js", "a/b.js"]] ∧
      ∀ issue ∈ report.issues, issue.files.dropLast.Nodup) ∧
      Path.IsAbove ⟨"/p/./"⟩ ⟨"/p//a/b.js"⟩ ∧
      (Path.join ⟨"/p/./"⟩ ⟨Path.displayIn ⟨"/p/./"⟩ ⟨"/p//a/b.js"⟩⟩).same ⟨"/p//a/b.js"⟩ := by
  intro graph
  have reported : CycleReport.ofGraph graph ⟨10, 50⟩ =
      .ok (CycleReport.ofSearch graph ⟨10, 50⟩ (graph.searchCycles ⟨10, 50⟩)) := by
    decide +kernel
  refine ⟨⟨_, reported, by decide +kernel, ?_⟩, by decide, ?_⟩
  · exact display_identifies_files_iff_plain.2.2.2.2 _ _ _ (by decide +kernel) reported
  · exact (display_identifies_files_iff_plain.2.1 _ _ (by decide) (by decide)).mpr (by decide)

/-- A file whose name has a backslash is displayed like a file in a directory. -/
theorem display_confuses_backslash_with_slash :
    let graph := mutualImports ⟨"/p"⟩ ⟨"/p/a/b.js"⟩ ⟨"/p/a\\b.js"⟩
    graph.root.IsAbove ⟨"/p/a\\b.js"⟩ ∧
      (graph.root.join ⟨graph.display ⟨"/p/a\\b.js"⟩⟩).same ⟨"/p/a\\b.js"⟩ = false ∧
      ∃ report, CycleReport.ofGraph graph ⟨10, 50⟩ = .ok report ∧
        report.issues.map CycleIssue.files = [["a/b.js", "a/b.js", "a/b.js"]] := by
  intro graph
  refine ⟨by decide, by decide, ?_⟩
  exact ⟨CycleReport.ofSearch graph ⟨10, 50⟩ (graph.searchCycles ⟨10, 50⟩), by decide +kernel⟩

end CodeFacts.Imports
