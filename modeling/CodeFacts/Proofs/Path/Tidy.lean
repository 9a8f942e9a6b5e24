import CodeFacts.Path.Normal
import CodeFacts.Proofs.Path.Segments

/-!
# Tidy paths

The text of a tidy path has no segment that means nothing, so it can be recovered from the
components: two tidy paths that mean the same are the same text. Normalized paths are tidy.
-/

namespace CodeFacts.Path

/-- No segment is idle except in the root, which is a slash alone, and in front: there an empty
segment stands before a slash, and a `.` is a component. -/
def IsTidy (path : Path) : Prop :=
  path.text = "/" ∨
    path.segments ≠ [[]] ∧ ∀ segment ∈ path.segments.tail, isIdle segment = false

instance (path : Path) : Decidable path.IsTidy :=
  inferInstanceAs (Decidable (_ ∨ _))

/-- The segments that are written for components. -/
def texts (components : List Component) : List (List Char) :=
  components.map fun component => component.text.toList

theorem texts_cons_ne_nil (first : Component) (rest : List Component) :
    texts (first :: rest) ≠ [] :=
  List.cons_ne_nil _ _

theorem ofComponents_root (steps : List Component) :
    ofComponents (.root :: steps) = ofParts ⟨some .root, texts steps⟩ :=
  rfl

theorem ofComponents_cons {first : Component} (step : IsStep first) (rest : List Component) :
    ofComponents (first :: rest) = ofParts ⟨none, texts (first :: rest)⟩ := by
  cases first with
  | root => exact step.elim
  | current => exact step.elim
  | parent => rfl
  | name text => rfl

theorem noSlash_of_mem_texts {steps : List Component}
    (isStep : ∀ component ∈ steps, IsStep component) : ∀ segment ∈ texts steps, '/' ∉ segment :=
  List.forall_mem_map.mpr fun component component_mem => (isStep component component_mem).noSlash

theorem busy_of_mem_texts {steps : List Component}
    (isStep : ∀ component ∈ steps, IsStep component) :
    ∀ segment ∈ texts steps, isIdle segment = false :=
  List.forall_mem_map.mpr fun component component_mem =>
    (isStep component component_mem).isIdle_eq_false

theorem map_ofList_texts (components : List Component) :
    (texts components).map String.ofList = components.map Component.text := by
  simp [texts]

theorem map_text_names (names : List String) :
    (names.map Component.name).map Component.text = names := by
  simp [Function.comp_def, Component.text]

theorem segmentTexts_relative {first : Component} {rest : List Component}
    (isStep : ∀ component ∈ first :: rest, IsStep component) :
    (ofComponents (first :: rest)).segmentTexts = (first :: rest).map Component.text := by
  rw [segmentTexts, ofComponents_cons (isStep first List.mem_cons_self),
    segments_ofParts_none (texts_cons_ne_nil first rest) (noSlash_of_mem_texts isStep),
    map_ofList_texts]

theorem segmentTexts_rooted {first : Component} {rest : List Component}
    (isStep : ∀ component ∈ first :: rest, IsStep component) :
    (ofComponents (.root :: first :: rest)).segmentTexts =
      "" :: (first :: rest).map Component.text := by
  rw [segmentTexts, ofComponents_root,
    segments_ofParts_root (texts_cons_ne_nil first rest) (noSlash_of_mem_texts isStep),
    List.map_cons, map_ofList_texts]

theorem texts_filterMap {segments : List (List Char)}
    (busy : ∀ segment ∈ segments, isIdle segment = false) :
    texts (segments.filterMap segmentComponent?) = segments := by
  induction segments with
  | nil => rfl
  | cons segment rest ih =>
      rcases isSome_segmentComponent? (busy segment List.mem_cons_self) with ⟨component, means⟩
      have rest_busy := fun other other_mem => busy other (List.mem_cons_of_mem segment other_mem)
      rw [List.filterMap_cons_some means, texts, List.map_cons, text_of_segmentComponent? means]
      exact congrArg (segment :: ·) (ih rest_busy)

/-- A tidy path is the root, or it is taken apart into a lead and segments that all mean
something. -/
theorem IsTidy.parts_cases {path : Path} (tidy : path.IsTidy) :
    path.text = "/" ∨ ∃ body, (∀ segment ∈ body, isIdle segment = false) ∧
      (body ≠ [] ∧ path.segments = [] :: body ∧ path.parts = ⟨some .root, body⟩ ∨
        path.segments = ['.'] :: body ∧ path.parts = ⟨some .current, body⟩ ∨
        body ≠ [] ∧ path.segments = body ∧ path.parts = ⟨none, body⟩) := by
  rcases tidy with root | ⟨notEmpty, busy⟩
  · exact Or.inl root
  rcases path.parts_cases with ⟨rest, some, split, parts⟩ | ⟨rest, split, parts⟩ |
    ⟨first, rest, notSlash, notDot, split, parts⟩
  · rw [split] at busy
    exact Or.inr ⟨rest, busy, Or.inl ⟨some, split, parts⟩⟩
  · rw [split] at busy
    exact Or.inr ⟨rest, busy, Or.inr (Or.inl ⟨split, parts⟩)⟩
  · rw [split] at busy notEmpty
    have notNil : first ≠ [] := by
      rintro rfl
      exact notEmpty (by rw [notSlash rfl])
    have first_busy : isIdle first = false := by simp [isIdle, notNil, notDot]
    exact Or.inr ⟨first :: rest, List.forall_mem_cons.mpr ⟨first_busy, busy⟩,
      Or.inr (Or.inr ⟨List.cons_ne_nil _ _, split, parts⟩)⟩

/-- A tidy path is written from its components. -/
theorem IsTidy.ofComponents_components {path : Path} (tidy : path.IsTidy) :
    ofComponents path.components = path := by
  rcases tidy.parts_cases with root | ⟨body, busy, ⟨some, split, parts⟩ | ⟨split, parts⟩ |
    ⟨some, split, parts⟩⟩
  · cases path
    subst root
    decide
  · rw [components, Parts.components, parts]
    change ofParts ⟨Option.some .root, texts (body.filterMap segmentComponent?)⟩ = path
    rw [texts_filterMap busy, path.text_eq_joinSlashes, split, joinSlashes_cons [] some]
    rfl
  · rw [components, Parts.components, parts]
    change ofParts ⟨none, ['.'] :: texts (body.filterMap segmentComponent?)⟩ = path
    rw [texts_filterMap busy, path.text_eq_joinSlashes, split]
    rfl
  · have steps := path.isStep_of_mem_body
    have written := texts_filterMap busy
    rw [components, Parts.components, parts]
    rw [parts] at steps
    change ofComponents (body.filterMap segmentComponent?) = path
    cases means : body.filterMap segmentComponent? with
    | nil =>
        rw [means] at written
        exact absurd written.symm some
    | cons first rest =>
        rw [means] at written steps
        rw [ofComponents_cons (steps first List.mem_cons_self), written, path.text_eq_joinSlashes,
          split]
        rfl

/-- Tidy paths that mean the same are written the same. -/
theorem IsTidy.eq_of_components {first second : Path} (first_tidy : first.IsTidy)
    (second_tidy : second.IsTidy) (same : first.components = second.components) :
    first = second := by
  rw [← first_tidy.ofComponents_components, same, second_tidy.ofComponents_components]

/-- Steps, or the root and steps below it. -/
inductive IsPlain : List Component → Prop where
  | relative {steps : List Component} (isStep : ∀ component ∈ steps, IsStep component) :
      IsPlain steps
  | rooted {steps : List Component} (isStep : ∀ component ∈ steps, IsStep component) :
      IsPlain (.root :: steps)

theorem IsPlain.append {components : List Component} (plain : IsPlain components)
    {component : Component} (step : IsStep component) : IsPlain (components ++ [component]) := by
  cases plain with
  | relative isStep =>
      exact .relative (List.forall_mem_append.mpr ⟨isStep, by simpa using step⟩)
  | rooted isStep =>
      exact .rooted (List.forall_mem_append.mpr ⟨isStep, by simpa using step⟩)

theorem IsPlain.dropLast {components : List Component} (plain : IsPlain components) :
    IsPlain components.dropLast := by
  cases plain with
  | relative isStep =>
      exact .relative fun component mem => isStep component (List.dropLast_subset _ mem)
  | rooted isStep =>
      rename_i steps
      cases steps with
      | nil => exact .relative (by simp)
      | cons first rest =>
          exact .rooted fun component mem => isStep component (List.dropLast_subset _ mem)

theorem IsPlain.normalizeStep {kept : List Component} (plain : IsPlain kept)
    {component : Component} (step : IsStep component) :
    IsPlain (normalizeStep kept component) := by
  cases component with
  | root => exact step.elim
  | current => exact step.elim
  | name text => exact plain.append step
  | parent =>
      simp only [Path.normalizeStep]
      split
      · exact plain.append step
      · exact plain.dropLast

theorem isPlain_foldl_normalizeStep {components kept : List Component} (plain : IsPlain kept)
    (isStep : ∀ component ∈ components, IsStep component) :
    IsPlain (components.foldl Path.normalizeStep kept) :=
  List.foldlRecOn components Path.normalizeStep plain fun _ plain component component_mem =>
    plain.normalizeStep (isStep component component_mem)

/-- Normalization keeps at most the root and steps. -/
theorem isPlain_normalizeComponents (path : Path) :
    IsPlain (normalizeComponents path.components) := by
  rw [components, Parts.components, normalizeComponents, List.foldl_append]
  refine isPlain_foldl_normalizeStep ?_ path.isStep_of_mem_body
  rcases path.lead_cases with lead | lead | lead
  · rw [lead]
    exact .relative (by simp)
  · rw [lead]
    change IsPlain (.root :: [])
    exact .rooted (by simp)
  · rw [lead]
    exact .relative (by simp [Path.normalizeStep])

/-- A path that is written from the root and steps is tidy. -/
theorem IsPlain.isTidy_ofComponents {components : List Component} (plain : IsPlain components) :
    (ofComponents components).IsTidy := by
  cases plain with
  | relative isStep =>
      cases components with
      | nil => decide
      | cons first rest =>
          have busy := busy_of_mem_texts isStep
          have split := segments_ofParts_none (texts_cons_ne_nil first rest)
            (noSlash_of_mem_texts isStep)
          rw [ofComponents_cons (isStep first List.mem_cons_self)]
          refine Or.inr ⟨?_, ?_⟩
          · rw [split]
            intro empty
            have idle := busy [] (by rw [empty]; exact List.mem_cons_self)
            exact Bool.noConfusion idle
          · rw [split]
            exact fun segment segment_mem => busy segment (List.mem_of_mem_tail segment_mem)
  | @rooted steps isStep =>
      cases steps with
      | nil => decide
      | cons first rest =>
          have split := segments_ofParts_root (texts_cons_ne_nil first rest)
            (noSlash_of_mem_texts isStep)
          rw [ofComponents_root]
          refine Or.inr ⟨?_, ?_⟩
          · rw [split]
            exact fun empty => texts_cons_ne_nil first rest (List.cons.inj empty).2
          · rw [split]
            exact busy_of_mem_texts isStep

theorem isTidy_normalize (path : Path) : path.normalize.IsTidy :=
  (isPlain_normalizeComponents path).isTidy_ofComponents

end CodeFacts.Path
