import CodeFacts.Proofs.Path.Climb

/-!
# What a path names by its text

An absolute path names a place below the root by its text alone: `.` is passed over, and `..`
removes the last name, if there is one. A relative path names a place from any directory, namely the
one that is reached by going up as far as the path climbs and then down by the names that are left.

Normalization keeps the names that are left, but of the climb only whether it is odd. Absolute paths
keep their meaning all the same, since nothing is above the root. Relative paths keep it from every
directory if they climb one directory at most.
-/

namespace CodeFacts.Path

/-- The names to which an absolute path leads from the root: `.` is passed over, and `..` removes
the last name, if there is one. -/
def lexicalNames (path : Path) : List String :=
  namesLeft [] path.components

theorem namesLeft_append_steps (names : List String) (first second : List Component) :
    namesLeft names (first ++ second) = namesLeft (namesLeft names first) second := by
  induction first generalizing names with
  | nil => rfl
  | cons component rest ih =>
      cases component with
      | root => exact ih names
      | current => exact ih names
      | parent => exact ih names.dropLast
      | name text => exact ih (names ++ [text])

/-- From a directory, a path leads up as far as it climbs, and down by the names that are left. -/
theorem namesLeft_append (base names : List String) (steps : List Component) :
    namesLeft (base ++ names) steps =
      base.take (base.length - climbFrom names.length steps) ++ namesLeft names steps := by
  induction steps generalizing base names with
  | nil => simp [namesLeft, climbFrom]
  | cons step rest ih =>
      cases step with
      | root => exact ih base names
      | current => exact ih base names
      | name text =>
          have down : names.length + 1 = (names ++ [text]).length := by simp
          simp only [namesLeft, climbFrom]
          rw [List.append_assoc, ih, down]
      | parent =>
          rcases List.eq_nil_or_concat names with rfl | ⟨front, last, rfl⟩
          · have up := ih base.dropLast []
            simp only [List.append_nil, List.length_nil, List.length_dropLast] at up
            simp only [List.append_nil, List.length_nil, namesLeft, climbFrom, up,
              List.dropLast_nil]
            rw [List.dropLast_eq_take, List.take_take]
            congr 2
            omega
          · rw [List.concat_eq_append, ← List.append_assoc]
            simp only [namesLeft, List.length_append, List.length_singleton, climbFrom,
              List.dropLast_concat]
            exact ih base front

theorem namesLeft_names (base names : List String) :
    namesLeft base (names.map .name) = base ++ names := by
  induction names generalizing base with
  | nil => simp [namesLeft]
  | cons name names ih => simp [namesLeft, ih]

theorem namesLeft_replicate_names (height : Nat) (names : List String) :
    namesLeft [] (List.replicate height .parent ++ names.map .name) = names := by
  have top : namesLeft [] (List.replicate height .parent) = [] := by
    induction height with
    | zero => rfl
    | succ height ih => exact ih
  rw [namesLeft_append_steps, top, namesLeft_names, List.nil_append]

section Join

variable {directory path : Path}

/-- A relative path below a directory takes its steps after those of the directory. -/
theorem steps_join (relative : path.isAbsolute = false) :
    (directory.join path).steps = directory.steps ++ path.steps := by
  rw [← filterMap_segments, ← filterMap_segments, ← filterMap_segments, ← List.filterMap_append,
    join, if_neg (by simp [relative])]
  split
  · rename_i ends
    rw [Bool.or_eq_true, String.isEmpty_iff, beq_iff_eq] at ends
    rw [segments, segments, segments, String.toList_append]
    rcases ends with empty | slash
    · rw [empty]
      rfl
    · rcases List.getLast?_eq_some_iff.mp slash with ⟨front, written⟩
      rw [written, List.append_assoc, List.singleton_append, splitSlashes_append_slash,
        splitSlashes_append_slash]
      simp [splitSlashes, segmentComponent?, isIdle]
  · rw [segments, String.toList_append, String.toList_append, List.append_assoc]
    exact congrArg _ (splitSlashes_append_slash _ _)

theorem components_of_absolute (absolute : path.isAbsolute = true) :
    path.components = .root :: path.steps := by
  rcases components_of_isAbsolute absolute with ⟨steps, rooted⟩
  have divided : path.components = path.parts.lead.toList ++ path.steps := rfl
  rcases path.lead_cases with lead | lead | lead
  · rw [lead] at divided
    have root_mem : .root ∈ path.components := rooted ▸ List.mem_cons_self
    rw [divided] at root_mem
    exact absurd root_mem path.root_notMem_steps
  · rw [divided, lead]
    rfl
  · rw [divided, lead] at rooted
    simp at rooted

theorem lexicalNames_of_absolute (absolute : path.isAbsolute = true) :
    path.lexicalNames = namesLeft [] path.steps := by
  rw [lexicalNames, components_of_absolute absolute]
  rfl

theorem lexicalNames_join (absolute : directory.isAbsolute = true)
    (relative : path.isAbsolute = false) :
    (directory.join path).lexicalNames =
      directory.lexicalNames.take (directory.lexicalNames.length - path.climb) ++
        namesLeft [] path.steps := by
  have base := namesLeft_append directory.lexicalNames [] path.steps
  rw [List.append_nil, List.length_nil, ← climb_eq_of_relative relative] at base
  rw [lexicalNames_of_absolute (isAbsolute_join absolute path), steps_join relative,
    namesLeft_append_steps, ← lexicalNames_of_absolute absolute, base]

end Join

theorem normalizeComponents_of_absolute {path : Path} (absolute : path.isAbsolute = true) :
    normalizeComponents path.components =
      .root :: (List.replicate (climbFrom 0 path.steps % 2) .parent ++
        (namesLeft [] path.steps).map .name) := by
  have root : normalizeComponents [.root] = [.root] := rfl
  have normal := normalizeComponents_append_steps root path.root_notMem_steps
  rw [raise_top (Or.inr rfl)] at normal
  rw [components_of_absolute absolute]
  exact normal

theorem lexicalNames_normalize {path : Path} (absolute : path.isAbsolute = true) :
    path.normalize.lexicalNames = path.lexicalNames := by
  have kept := normalizeComponents_of_absolute absolute
  have meaning := (isPlain_normalizeComponents path).components_ofComponents (by simp [kept])
  rw [lexicalNames, normalize, meaning, kept, lexicalNames_of_absolute absolute]
  exact namesLeft_replicate_names _ _

/-- A relative path stays relative: the names that are left, below a `..` if its climb is odd. -/
theorem normalize_of_relative {path : Path} (relative : path.isAbsolute = false) :
    path.normalize.isAbsolute = false ∧
      path.normalize.steps =
        List.replicate (path.climb % 2) .parent ++ (namesLeft [] path.steps).map .name := by
  have kept := normalizeComponents_of_relative relative
  have isStep : ∀ component ∈ normalizeComponents path.components, IsStep component := by
    rw [kept]
    refine List.forall_mem_append.mpr ⟨?_, List.forall_mem_map.mpr ?_⟩
    · intro component component_mem
      rw [List.eq_of_mem_replicate component_mem]
      trivial
    · exact isName_of_mem_namesLeft (by simp) path
  rw [← kept, normalize]
  cases written : normalizeComponents path.components with
  | nil => decide
  | cons first rest =>
      rw [written] at isStep
      have stays := isAbsolute_of_isStep isStep
      have meaning := (IsPlain.relative isStep).components_ofComponents (List.cons_ne_nil _ _)
      refine ⟨stays, ?_⟩
      rcases components_of_relative stays with same | same
      · rw [← same, meaning]
      · rw [meaning] at same
        have step := isStep first List.mem_cons_self
        rw [(List.cons.inj same).1] at step
        exact step.elim

theorem climb_normalize {path : Path} (relative : path.isAbsolute = false) :
    path.normalize.climb = path.climb % 2 := by
  rcases normalize_of_relative relative with ⟨stays, steps⟩
  have climbed := climbFrom_replicate_append (path.climb % 2) (namesLeft [] path.steps) []
  rw [List.append_nil] at climbed
  rw [climb_eq_of_relative stays, steps, climbed, climbFrom, Nat.add_zero]

theorem lexicalNames_join_normalize {directory path : Path}
    (absolute : directory.isAbsolute = true) (relative : path.isAbsolute = false) :
    (directory.join path.normalize).lexicalNames =
      directory.lexicalNames.take (directory.lexicalNames.length - path.climb % 2) ++
        namesLeft [] path.steps := by
  rcases normalize_of_relative relative with ⟨stays, steps⟩
  rw [lexicalNames_join absolute stays, climb_normalize relative, steps, namesLeft_replicate_names]

/-- Normalization keeps what a path names from an absolute directory exactly if the path is
absolute, or climbs one directory at most, or the directory is too near to the root for the
difference to be seen. Of the climb of a relative path it keeps whether it is odd. -/
theorem normalize_keeps_lexicalNames_iff (path : Path) :
    (∀ directory : Path, directory.isAbsolute = true →
      ((directory.join path.normalize).lexicalNames = (directory.join path).lexicalNames ↔
        path.isAbsolute = true ∨ path.climb ≤ 1 ∨
          directory.lexicalNames.length ≤ path.climb % 2)) ∧
      (path.isAbsolute = false →
        path.normalize.isAbsolute = false ∧ path.normalize.climb = path.climb % 2) := by
  refine ⟨?_, fun relative => ⟨(normalize_of_relative relative).1, climb_normalize relative⟩⟩
  intro directory absolute
  cases lead : path.isAbsolute with
  | true =>
      rw [join_of_isAbsolute lead, join_of_isAbsolute (isAbsolute_normalize lead),
        lexicalNames_normalize lead]
      simp
  | false =>
      rw [lexicalNames_join_normalize absolute lead, lexicalNames_join absolute lead,
        List.append_cancel_right_eq]
      have halved : path.climb % 2 ≤ path.climb := Nat.mod_le _ _
      have bounded : path.climb % 2 < 2 := Nat.mod_lt _ (by decide)
      constructor
      · intro same
        have lengths := congrArg List.length same
        simp only [List.length_take] at lengths
        right
        omega
      · intro near
        congr 1
        simp only [Bool.false_eq_true, false_or] at near
        omega

theorem normalize_keeps_lexicalNames_of_one_climb :
    (⟨"/p/q"⟩ : Path).isAbsolute = true ∧ (⟨"a/../../b"⟩ : Path).isAbsolute = false ∧
      (⟨"a/../../b"⟩ : Path).climb = 1 ∧
      (Path.join ⟨"/p/q"⟩ (Path.normalize ⟨"a/../../b"⟩)).lexicalNames =
        (Path.join ⟨"/p/q"⟩ ⟨"a/../../b"⟩).lexicalNames ∧
      (Path.normalize ⟨"a/../../b"⟩).climb = 1 := by
  have kept := normalize_keeps_lexicalNames_iff ⟨"a/../../b"⟩
  have low : (⟨"a/../../b"⟩ : Path).climb = 1 := by decide
  refine ⟨by decide, by decide, low, ?_, (kept.2 (by decide)).2⟩
  exact (kept.1 ⟨"/p/q"⟩ (by decide)).mpr (Or.inr (Or.inl (Nat.le_of_eq low)))

/-- A path that climbs two directories is normalized to one that does not climb. -/
theorem normalize_loses_two_climbs :
    (⟨"/a/b"⟩ : Path).isAbsolute = true ∧ (⟨"../.."⟩ : Path).isAbsolute = false ∧
      (⟨"../.."⟩ : Path).climb = 2 ∧ (Path.normalize ⟨"../.."⟩).climb = 0 ∧
      (Path.join ⟨"/a/b"⟩ ⟨"../.."⟩).lexicalNames = [] ∧
      (Path.join ⟨"/a/b"⟩ (Path.normalize ⟨"../.."⟩)).lexicalNames = ["a", "b"] := by
  decide

end CodeFacts.Path
