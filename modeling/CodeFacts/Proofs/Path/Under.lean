import CodeFacts.Path.Order
import CodeFacts.Path.Relative
import CodeFacts.Proofs.OrderedList
import CodeFacts.Proofs.Path.Climb

/-!
# Paths under a base

A base is what normalization can leave of a path. What is written under a base by names is tidy and
normal, and all that is asked about such a path, apart from the text itself, depends on the names
only: its parent, its name, its place among others in the order of paths, and what it looks like
from a directory above it. So a path can be moved from one base to another.
-/

namespace CodeFacts.Path

/-- The path that goes down from given components by names. -/
def under (base : List Component) (names : List String) : Path :=
  ofComponents (base ++ names.map .name)

/-- The path that a path below one directory becomes if the directory is written as another. -/
def rebase (path old new : Path) : Path :=
  ofComponents (new.components ++ path.components.drop old.components.length)

/-- Components that normalization leaves alone. -/
structure IsBase (base : List Component) : Prop where
  plain : IsPlain base
  fixed : normalizeComponents base = base

/-- A base with at least one component; the empty one is written as a component that it has not. -/
structure IsStart (base : List Component) : Prop extends IsBase base where
  nonempty : base ≠ []

theorem isBase_normalizeComponents (path : Path) : IsBase (normalizeComponents path.components) :=
  ⟨isPlain_normalizeComponents path, normalizeComponents_normalizeComponents _⟩

theorem IsBase.raise {base : List Component} (isBase : IsBase base) (height : Nat) :
    IsBase (raise base height) := by
  refine ⟨?_, normalizeComponents_normalizeComponents _⟩
  have start : List.foldl normalizeStep [] base = base := isBase.fixed
  rw [Path.raise, normalizeComponents, List.foldl_append, start]
  refine isPlain_foldl_normalizeStep isBase.plain ?_
  intro component component_mem
  rw [List.eq_of_mem_replicate component_mem]
  trivial

theorem IsPlain.append_names {base : List Component} (plain : IsPlain base) {names : List String}
    (isName : ∀ name ∈ names, IsName name) : IsPlain (base ++ names.map .name) := by
  induction names using List.reverseRecOn with
  | nil => simpa using plain
  | append_singleton names name ih =>
      rw [List.forall_mem_append, List.forall_mem_singleton] at isName
      rw [List.map_append, ← List.append_assoc]
      exact (ih isName.1).append isName.2

theorem IsBase.append_names {base : List Component} (isBase : IsBase base) {names : List String}
    (isName : ∀ name ∈ names, IsName name) : IsBase (base ++ names.map .name) :=
  ⟨isBase.plain.append_names isName, normalizeComponents_append_names isBase.fixed names⟩

theorem under_append (base : List Component) (names more : List String) :
    under (base ++ names.map .name) more = under base (names ++ more) := by
  simp [under]

/-- A base ends in a name, unless it is one of four. -/
theorem IsBase.cases {base : List Component} (isBase : IsBase base) :
    base = [] ∨ base = [.parent] ∨ base = [.root] ∨ base = [.root, .parent] ∨
      ∃ front name, base = front ++ [.name name] ∧ IsBase front ∧ IsName name := by
  rcases List.eq_nil_or_concat base with rfl | ⟨front, last, rfl⟩
  · exact Or.inl rfl
  rcases isBase with ⟨plain, fixed⟩
  rw [List.concat_eq_append] at *
  have front_plain : IsPlain front := by simpa using plain.dropLast
  have front_fixed : normalizeComponents front = front := by
    simpa using normalizeComponents_dropLast fixed
  have last_step : IsStep last ∨ front = [] ∧ last = .root := by
    generalize base_eq : front ++ [last] = base at plain
    cases plain with
    | relative isStep => exact Or.inl (isStep last (base_eq ▸ by simp))
    | rooted isStep =>
        cases front with
        | nil => exact Or.inr ⟨rfl, (List.cons.inj base_eq).1⟩
        | cons first rest => exact Or.inl (isStep last ((List.cons.inj base_eq).2 ▸ by simp))
  rcases last_step with step | ⟨rfl, rfl⟩
  · cases last with
    | root => exact step.elim
    | current => exact step.elim
    | name text =>
        have isBase : IsBase front := ⟨front_plain, front_fixed⟩
        exact Or.inr (Or.inr (Or.inr (Or.inr ⟨front, text, rfl, isBase, step⟩)))
    | parent =>
        rw [normalizeComponents_concat, front_fixed, normalizeStep] at fixed
        split at fixed
        · rename_i top
          rcases top with rfl | rfl
          · exact Or.inr (Or.inl rfl)
          · exact Or.inr (Or.inr (Or.inr (Or.inl rfl)))
        · have lengths := congrArg List.length fixed
          simp at lengths
  · exact Or.inr (Or.inr (Or.inl rfl))

theorem parent?_of_parts {path : Path} {lead : Option Component} {body : List (List Char)}
    {last : List Char} (parts : path.parts = ⟨lead, body ++ [last]⟩)
    (busy : ∀ segment ∈ body ++ [last], isIdle segment = false) :
    path.parent? = some (ofParts ⟨lead, body⟩) := by
  have front := fun segment segment_mem => busy segment (List.mem_append_left [last] segment_mem)
  unfold parent?
  simp only [parts, trimEnd_of_busy busy]
  split
  · rename_i empty
    exact absurd empty (by simp)
  · rw [List.dropLast_concat, trimEnd_of_busy front]

/-- The parent of what is written below a tidy path is the path. -/
theorem IsTidy.parent?_join {path : Path} (tidy : path.IsTidy) {name : String}
    (isName : IsName name) : (path.join ⟨name⟩).parent? = some path := by
  have named : ∀ segment ∈ [name.toList], isIdle segment = false :=
    List.forall_mem_singleton.mpr isName.isIdle_eq_false
  rcases tidy.segments_join isName with ⟨root, joined⟩ | ⟨notRoot, joined⟩
  · cases path
    subst root
    have parts : (Path.join ⟨"/"⟩ ⟨name⟩).parts = ⟨some .root, [] ++ [name.toList]⟩ :=
      parts_of_slash (by simp) joined
    exact parent?_of_parts parts named
  rcases tidy.parts_cases with root | ⟨body, busy, ⟨some, split, -⟩ | ⟨split, -⟩ |
    ⟨some, split, -⟩⟩
  · exact absurd root notRoot
  all_goals
    have all_busy := List.forall_mem_append.mpr ⟨busy, named⟩
    rw [split] at joined
  · rw [parent?_of_parts (parts_of_slash (by simp) joined) all_busy, path.text_eq_joinSlashes,
      split, joinSlashes_cons [] some]
    rfl
  · rw [parent?_of_parts (parts_of_dot joined) all_busy, path.text_eq_joinSlashes, split]
    cases body <;> rfl
  · rw [parent?_of_parts (parts_of_busy (by simp) all_busy joined) all_busy,
      path.text_eq_joinSlashes, split]
    rfl

theorem dropComponents_of_busy (count : Nat) {segments : List (List Char)}
    (busy : ∀ segment ∈ segments, isIdle segment = false) :
    dropComponents count segments = segments.drop count := by
  induction count generalizing segments with
  | zero =>
      cases segments with
      | nil => rfl
      | cons segment rest =>
          have first := busy segment List.mem_cons_self
          rw [dropComponents, List.dropWhile_cons_of_neg (by simp [first]), List.drop_zero]
  | succ count ih =>
      cases segments with
      | nil => rfl
      | cons segment rest =>
          have first := busy segment List.mem_cons_self
          rw [dropComponents, if_neg (by simp [first]), List.drop_succ_cons]
          exact ih fun other other_mem => busy other (List.mem_cons_of_mem _ other_mem)

theorem trimEnd_dropComponents {segments : List (List Char)} {above below : List Component}
    (busy : ∀ segment ∈ segments, isIdle segment = false)
    (means : segments.filterMap segmentComponent? = above ++ below) :
    trimEnd (dropComponents above.length segments) = texts below := by
  have written : segments = texts above ++ texts below := by
    rw [← texts_filterMap busy, means, texts, List.map_append]
    rfl
  have length : (texts above).length = above.length := List.length_map _
  have rest : segments.drop above.length = texts below := by
    rw [written, ← length, List.drop_left]
  have rest_busy : ∀ segment ∈ segments.drop above.length, isIdle segment = false :=
    fun segment segment_mem => busy segment (List.drop_subset _ _ segment_mem)
  rw [dropComponents_of_busy _ busy, trimEnd_of_busy rest_busy, rest]

/-- From a directory above it, a tidy path looks like the rest of its components. -/
theorem IsTidy.stripDirectory?_eq {path directory : Path} (tidy : path.IsTidy)
    {below : List Component} (nonempty : directory.components ≠ [])
    (means : path.components = directory.components ++ below) :
    path.stripDirectory? directory = some (ofParts ⟨none, texts below⟩) := by
  unfold stripDirectory?
  cases place : directory.components with
  | nil => exact absurd place nonempty
  | cons first others =>
      rw [place] at means
      have begins : (first :: others).isPrefixOf path.components = true := by
        simp [means]
      rw [if_pos begins]
      rcases tidy.parts_cases with root | ⟨body, busy, ⟨-, -, parts⟩ | ⟨-, parts⟩ | ⟨-, -, parts⟩⟩
      · cases path
        subst root
        have top : components ⟨"/"⟩ = [.root] := by decide
        rw [top, List.cons_append, List.cons.injEq, List.nil_eq_append_iff] at means
        rw [means.2.1, means.2.2]
        rfl
      all_goals
        rw [components, Parts.components, parts] at means
        simp only [parts]
      · rw [trimEnd_dropComponents busy (List.cons.inj means).2]
      · rw [trimEnd_dropComponents busy (List.cons.inj means).2]
      · rw [trimEnd_dropComponents busy means]

section Base

variable {base : List Component} (isBase : IsBase base) {names : List String}
  (isName : ∀ name ∈ names, IsName name) (nonempty : base ++ names.map .name ≠ [])

include isBase isName

theorem isTidy_under : (under base names).IsTidy :=
  (isBase.plain.append_names isName).isTidy_ofComponents

include nonempty

theorem components_under : (under base names).components = base ++ names.map .name :=
  (isBase.plain.append_names isName).components_ofComponents nonempty

theorem normalize_under : (under base names).normalize = under base names := by
  rw [normalize, components_under isBase isName nonempty,
    normalizeComponents_append_names isBase.fixed names]
  rfl

theorem join_under {name : String} (named : IsName name) :
    (under base names).join ⟨name⟩ = under base (names ++ [name]) := by
  have tidy := isTidy_under isBase isName
  have all_named : ∀ other ∈ names ++ [name], IsName other :=
    List.forall_mem_append.mpr ⟨isName, List.forall_mem_singleton.mpr named⟩
  refine (tidy.join named).eq_of_components (isTidy_under isBase all_named) ?_
  rw [tidy.components_join named, components_under isBase isName nonempty,
    components_under isBase all_named (by simp), List.map_append, List.append_assoc]
  rfl

theorem parent?_under {name : String} (named : IsName name) :
    (under base (names ++ [name])).parent? = some (under base names) := by
  rw [← join_under isBase isName nonempty named]
  exact (isTidy_under isBase isName).parent?_join named

end Base

theorem fileName?_under {base : List Component} (isBase : IsBase base) {names : List String}
    {name : String} (isName : ∀ other ∈ names ++ [name], IsName other) :
    (under base (names ++ [name])).fileName? = some name := by
  rw [fileName?, components_under isBase isName (by simp), List.map_append, ← List.append_assoc,
    List.map_singleton, List.getLast?_concat]

theorem compareComponents_append (front first second : List Component) :
    compareComponents (front ++ first) (front ++ second) = compareComponents first second := by
  induction front with
  | nil => rfl
  | cons component front ih =>
      have same : component.compare component = .eq := Std.ReflCmp.compare_self
      rw [List.cons_append, List.cons_append, compareComponents, same]
      exact ih

namespace IsStart

variable {base : List Component} (start : IsStart base)

include start

theorem append_ne_nil (steps : List Component) : base ++ steps ≠ [] :=
  List.append_ne_nil_of_left_ne_nil start.nonempty steps

theorem components_under {names : List String} (isName : ∀ name ∈ names, IsName name) :
    (under base names).components = base ++ names.map .name :=
  Path.components_under start.toIsBase isName (start.append_ne_nil _)

theorem components_under_nil : (under base []).components = base := by
  rw [start.components_under (by simp), List.map_nil, List.append_nil]

theorem join_under {names : List String} {name : String}
    (isName : ∀ other ∈ names ++ [name], IsName other) :
    (under base names).join ⟨name⟩ = under base (names ++ [name]) := by
  rcases List.forall_mem_append.mp isName with ⟨names_named, named⟩
  exact Path.join_under start.toIsBase names_named (start.append_ne_nil _)
    (List.forall_mem_singleton.mp named)

/-- What a path looks like from a base depends on the names only. -/
theorem stripDirectory?_under {names : List String} (isName : ∀ name ∈ names, IsName name) :
    (under base names).stripDirectory? (under base []) =
      some (ofParts ⟨none, texts (names.map .name)⟩) := by
  have top := start.components_under_nil
  have nonempty : (under base []).components ≠ [] := by
    rw [top]
    exact start.nonempty
  refine (isTidy_under start.toIsBase isName).stripDirectory?_eq nonempty ?_
  rw [top, start.components_under isName]

theorem compare_under {first second : List String} (first_names : ∀ name ∈ first, IsName name)
    (second_names : ∀ name ∈ second, IsName name) :
    (under base first).compare (under base second) =
      compareComponents (first.map .name) (second.map .name) := by
  rw [compare, start.components_under first_names, start.components_under second_names,
    compareComponents_append]

theorem rebase_under {new : List Component} (newStart : IsStart new) {names : List String}
    (isName : ∀ name ∈ names, IsName name) :
    (under base names).rebase (under base []) (under new []) = under new names := by
  rw [rebase, start.components_under_nil, newStart.components_under_nil,
    start.components_under isName, List.drop_left, under]

end IsStart

theorem IsNormal.isStart {path : Path} (normal : path.IsNormal) : IsStart path.components := by
  rcases components_of_isAbsolute normal.absolute with ⟨steps, rooted⟩
  rcases normalizeComponents_root steps with ⟨kept, fold⟩
  have some : normalizeComponents path.components ≠ [] := by simp [rooted, fold]
  have fixed : path.components = normalizeComponents path.components := by
    have written := (isPlain_normalizeComponents path).components_ofComponents some
    rwa [← normalize, normal.normalized] at written
  exact ⟨fixed ▸ isBase_normalizeComponents path, by simp [rooted]⟩

/-- A normal path is one of two at the top, or a name in a directory that is written normally. -/
theorem IsNormal.cases {path : Path} (normal : path.IsNormal) :
    path = ⟨"/"⟩ ∨ path = ⟨"/.."⟩ ∨
      ∃ directory name, IsNormal directory ∧ IsName name ∧ path = directory.join ⟨name⟩ := by
  rcases components_of_isAbsolute normal.absolute with ⟨steps, rooted⟩
  have written := normal.isTidy.ofComponents_components
  rcases normal.isStart.toIsBase.cases with top | top | top | top |
    ⟨front, name, means, isBase, isName⟩
  · simp [rooted] at top
  · simp [rooted] at top
  · rw [← written, top]
    exact Or.inl (by decide)
  · rw [← written, top]
    exact Or.inr (Or.inl (by decide))
  · have starts : ∃ rest, front = .root :: rest := by
      cases front with
      | nil => simp [rooted] at means
      | cons first rest =>
          rw [rooted, List.cons_append] at means
          exact ⟨rest, by rw [(List.cons.inj means).1]⟩
    rcases starts with ⟨rest, rfl⟩
    have named : ∀ other ∈ ([] : List String), IsName other := by simp
    refine Or.inr (Or.inr ⟨under (.root :: rest) [], name, ⟨?_, ?_⟩, isName, ?_⟩)
    · simp [under, ofComponents_root, isAbsolute, ofParts]
    · exact normalize_under isBase named (by simp)
    · rw [join_under isBase named (by simp) isName, under, ← written, means]
      rfl

end CodeFacts.Path
