import CodeFacts.Proofs.Path.Tidy
import Mathlib.Data.List.Induction

/-!
# Normalizing twice

Normalization takes the components of a path one by one and never looks back further than the last
component that it kept. What it has kept at any time is therefore left alone by another
normalization, and since a path is recovered from the components that are kept, a normalized path
is its own normal form. The root is never removed: what is normalized below an absolute directory
is absolute.
-/

namespace CodeFacts.Path

theorem normalizeComponents_concat (components : List Component) (component : Component) :
    normalizeComponents (components ++ [component]) =
      normalizeStep (normalizeComponents components) component := by
  simp [normalizeComponents]

theorem length_normalizeStep_le (kept : List Component) (component : Component) :
    (normalizeStep kept component).length ≤ kept.length + 1 := by
  cases component with
  | root => simp [normalizeStep]
  | current => simp [normalizeStep]
  | name text => simp [normalizeStep]
  | parent =>
      simp only [normalizeStep]
      split
      · simp
      · simp only [List.length_dropLast]
        omega

theorem length_normalizeComponents_le (components : List Component) :
    (normalizeComponents components).length ≤ components.length := by
  induction components using List.reverseRecOn with
  | nil => simp [normalizeComponents]
  | append_singleton components component ih =>
      have step := length_normalizeStep_le (normalizeComponents components) component
      simp only [normalizeComponents_concat, List.length_append, List.length_singleton]
      omega

/-- Of what normalization leaves alone, it leaves alone every front part. -/
theorem normalizeComponents_dropLast {kept : List Component}
    (fixed : normalizeComponents kept = kept) :
    normalizeComponents kept.dropLast = kept.dropLast := by
  rcases List.eq_nil_or_concat kept with rfl | ⟨front, last, rfl⟩
  · simpa using fixed
  have shorter := length_normalizeComponents_le front
  rw [List.concat_eq_append] at fixed ⊢
  rw [normalizeComponents_concat] at fixed
  rw [List.dropLast_concat]
  cases last with
  | root => exact List.append_cancel_right fixed
  | name text => exact List.append_cancel_right fixed
  | current =>
      have lengths := congrArg List.length fixed
      simp [normalizeStep] at lengths
      omega
  | parent =>
      simp only [normalizeStep] at fixed
      split at fixed
      · exact List.append_cancel_right fixed
      · have lengths := congrArg List.length fixed
        simp at lengths
        omega

theorem normalizeComponents_normalizeStep {kept : List Component}
    (fixed : normalizeComponents kept = kept) (component : Component) :
    normalizeComponents (normalizeStep kept component) = normalizeStep kept component := by
  -- Unless something is removed, the step is the last one of normalizing what it gives.
  have last := normalizeComponents_concat kept component
  rw [fixed] at last
  cases component with
  | root => exact last
  | name text => exact last
  | current => exact fixed
  | parent =>
      by_cases top : kept = [] ∨ kept = [.root]
      · simpa [normalizeStep, top] using last
      · simpa [normalizeStep, top] using normalizeComponents_dropLast fixed

theorem normalizeComponents_normalizeComponents (components : List Component) :
    normalizeComponents (normalizeComponents components) = normalizeComponents components := by
  induction components using List.reverseRecOn with
  | nil => rfl
  | append_singleton components component ih =>
      rw [normalizeComponents_concat]
      exact normalizeComponents_normalizeStep ih component

theorem IsStep.segmentComponent?_eq {component : Component} (step : IsStep component) :
    segmentComponent? component.text.toList = some component := by
  cases component with
  | root => exact step.elim
  | current => exact step.elim
  | parent => rfl
  | name text => exact IsName.segmentComponent?_eq step

theorem filterMap_texts {steps : List Component}
    (isStep : ∀ component ∈ steps, IsStep component) :
    (texts steps).filterMap segmentComponent? = steps := by
  induction steps with
  | nil => rfl
  | cons component rest ih =>
      have first := (isStep component List.mem_cons_self).segmentComponent?_eq
      have others := ih fun other other_mem =>
        isStep other (List.mem_cons_of_mem component other_mem)
      simp only [texts, List.map_cons, List.filterMap_cons_some first] at others ⊢
      rw [others]

/-- A path that is written from the root and steps means them. -/
theorem IsPlain.components_ofComponents {components : List Component} (plain : IsPlain components)
    (some : components ≠ []) : (ofComponents components).components = components := by
  cases plain with
  | relative isStep =>
      cases components with
      | nil => exact absurd rfl some
      | cons first rest =>
          have split := segments_ofParts_none (texts_cons_ne_nil first rest)
            (noSlash_of_mem_texts isStep)
          have parts := parts_of_busy (texts_cons_ne_nil first rest)
            (busy_of_mem_texts isStep) split
          rw [ofComponents_cons (isStep first List.mem_cons_self), Path.components, parts]
          exact filterMap_texts isStep
  | @rooted steps isStep =>
      cases steps with
      | nil => decide
      | cons first rest =>
          have split := segments_ofParts_root (texts_cons_ne_nil first rest)
            (noSlash_of_mem_texts isStep)
          have parts := parts_of_slash (texts_cons_ne_nil first rest) split
          rw [ofComponents_root, Path.components, parts]
          exact congrArg (Component.root :: ·) (filterMap_texts isStep)

/-- A normalized path is its own normal form. -/
theorem normalize_normalize (path : Path) : path.normalize.normalize = path.normalize := by
  by_cases some : normalizeComponents path.components = []
  · have dot : path.normalize = ⟨"."⟩ := by rw [normalize, some]; rfl
    rw [dot]
    decide
  · have meaning := (isPlain_normalizeComponents path).components_ofComponents some
    rw [normalize, normalize, meaning, normalizeComponents_normalizeComponents]

theorem components_of_isAbsolute {path : Path} (absolute : path.isAbsolute = true) :
    ∃ steps, path.components = .root :: steps := by
  rcases List.head?_eq_some_iff.mp (eq_of_beq absolute) with ⟨chars, text⟩
  have split : path.segments = [] :: splitSlashes chars := by
    rw [segments, text, splitSlashes_slash]
  refine ⟨(splitSlashes chars).filterMap segmentComponent?, ?_⟩
  rw [components, parts_of_slash (splitSlashes_ne_nil chars) split]
  rfl

/-- A path that is written from steps is relative. -/
theorem isAbsolute_of_isStep {first : Component} {rest : List Component}
    (isStep : ∀ component ∈ first :: rest, IsStep component) :
    (ofComponents (first :: rest)).isAbsolute = false := by
  rw [Bool.eq_false_iff]
  intro absolute
  rcases components_of_isAbsolute absolute with ⟨steps, rooted⟩
  rw [(IsPlain.relative isStep).components_ofComponents (List.cons_ne_nil _ _)] at rooted
  have step := isStep first List.mem_cons_self
  rw [(List.cons.inj rooted).1] at step
  exact step.elim

theorem normalizeComponents_root (steps : List Component) :
    ∃ kept, normalizeComponents (.root :: steps) = .root :: kept := by
  induction steps using List.reverseRecOn with
  | nil => exact ⟨[], rfl⟩
  | append_singleton steps component ih =>
      rcases ih with ⟨kept, fold⟩
      rw [← List.cons_append, normalizeComponents_concat, fold]
      cases component with
      | root => exact ⟨kept ++ [.root], rfl⟩
      | current => exact ⟨kept, rfl⟩
      | name text => exact ⟨kept ++ [.name text], rfl⟩
      | parent =>
          cases kept with
          | nil => exact ⟨[.parent], rfl⟩
          | cons first rest => exact ⟨(first :: rest).dropLast, by simp [normalizeStep]⟩

theorem isAbsolute_normalize {path : Path} (absolute : path.isAbsolute = true) :
    path.normalize.isAbsolute = true := by
  rcases components_of_isAbsolute absolute with ⟨steps, rooted⟩
  rcases normalizeComponents_root steps with ⟨kept, fold⟩
  rw [normalize, rooted, fold, ofComponents_root]
  simp [isAbsolute, ofParts]

theorem isAbsolute_join {directory : Path} (absolute : directory.isAbsolute = true) (path : Path) :
    (directory.join path).isAbsolute = true := by
  rcases List.head?_eq_some_iff.mp (eq_of_beq absolute) with ⟨chars, text⟩
  unfold join
  split
  · assumption
  · split <;> simp [isAbsolute, text]

theorem join_of_isAbsolute {path : Path} (absolute : path.isAbsolute = true) (directory : Path) :
    directory.join path = path := by
  simp [join, absolute]

/-- An absolute path without anything to normalize. -/
structure IsNormal (path : Path) : Prop where
  absolute : path.isAbsolute = true
  normalized : path.normalize = path

theorem isNormal_normalize {path : Path} (absolute : path.isAbsolute = true) :
    path.normalize.IsNormal :=
  ⟨isAbsolute_normalize absolute, normalize_normalize path⟩

theorem IsNormal.isTidy {path : Path} (normal : path.IsNormal) : path.IsTidy := by
  rw [← normal.normalized]
  exact isTidy_normalize path

/-- Normal paths that mean the same are written the same. -/
theorem IsNormal.eq_of_same {first second : Path} (first_normal : first.IsNormal)
    (second_normal : second.IsNormal) (same : first.same second = true) : first = second :=
  first_normal.isTidy.eq_of_components second_normal.isTidy (eq_of_beq same)

end CodeFacts.Path
