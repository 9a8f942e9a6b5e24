import CodeFacts.Path.Basic
import Mathlib.Data.List.Basic

/-!
# Segments of paths

Splitting a text at its slashes and joining segments with slashes undo each other. What is written
after a text only continues its last segment, up to the next slash. A path is taken apart by its
first segment, and all that comes after its lead are steps: parents and proper names.
-/

namespace CodeFacts.Path

theorem splitSlashes_ne_nil (text : List Char) : splitSlashes text ≠ [] := by
  cases text with
  | nil => simp [splitSlashes]
  | cons char rest =>
      unfold splitSlashes
      split
      · simp
      · split <;> simp

theorem splitSlashes_slash (rest : List Char) :
    splitSlashes ('/' :: rest) = [] :: splitSlashes rest := by
  rw [splitSlashes]
  split
  · rename_i empty
    exact absurd empty (splitSlashes_ne_nil rest)
  · rename_i split
    rw [if_pos rfl, split]

theorem splitSlashes_cons {char : Char} (other : char ≠ '/') (rest : List Char) :
    splitSlashes (char :: rest) = (splitSlashes rest).modifyHead (char :: ·) := by
  rw [splitSlashes]
  split
  · rename_i empty
    exact absurd empty (splitSlashes_ne_nil rest)
  · rename_i split
    rw [if_neg other, split, List.modifyHead_cons]

/-- A text without slashes is a single segment. -/
theorem splitSlashes_of_notMem {text : List Char} (noSlash : '/' ∉ text) :
    splitSlashes text = [text] := by
  induction text with
  | nil => rfl
  | cons char rest ih =>
      rw [List.mem_cons, not_or] at noSlash
      rw [splitSlashes_cons (Ne.symm noSlash.1), ih noSlash.2, List.modifyHead_cons]

/-- A slash ends a segment. -/
theorem splitSlashes_append_slash (first rest : List Char) :
    splitSlashes (first ++ '/' :: rest) = splitSlashes first ++ splitSlashes rest := by
  induction first with
  | nil => exact splitSlashes_slash rest
  | cons char first ih =>
      rw [List.cons_append]
      by_cases slash : char = '/'
      · subst slash
        rw [splitSlashes_slash, splitSlashes_slash, ih, List.cons_append]
      · rw [splitSlashes_cons slash, splitSlashes_cons slash, ih]
        cases segments : splitSlashes first with
        | nil => exact absurd segments (splitSlashes_ne_nil first)
        | cons segment rest => rfl

/-- Without a slash, what is written after a text continues its last segment. -/
theorem splitSlashes_append {suffix : List Char} (noSlash : '/' ∉ suffix) (text : List Char) :
    ∃ init last, splitSlashes text = init ++ [last] ∧
      splitSlashes (text ++ suffix) = init ++ [last ++ suffix] := by
  induction text with
  | nil => exact ⟨[], [], rfl, splitSlashes_of_notMem noSlash⟩
  | cons char text ih =>
      rcases ih with ⟨init, last, before, after⟩
      rw [List.cons_append]
      by_cases slash : char = '/'
      · subst slash
        refine ⟨[] :: init, last, ?_, ?_⟩
        · rw [splitSlashes_slash, before, List.cons_append]
        · rw [splitSlashes_slash, after, List.cons_append]
      · rw [splitSlashes_cons slash, splitSlashes_cons slash, before, after]
        cases init with
        | nil => exact ⟨[], char :: last, rfl, rfl⟩
        | cons segment init => exact ⟨(char :: segment) :: init, last, rfl, rfl⟩

theorem joinSlashes_cons (segment : List Char) {rest : List (List Char)} (some : rest ≠ []) :
    joinSlashes (segment :: rest) = segment ++ '/' :: joinSlashes rest := by
  cases rest with
  | nil => exact absurd rfl some
  | cons next rest => rfl

theorem joinSlashes_eq_intercalate (segments : List (List Char)) :
    joinSlashes segments = ['/'].intercalate segments := by
  induction segments with
  | nil => rfl
  | cons segment rest ih =>
      cases rest with
      | nil => simp [joinSlashes]
      | cons next others => simp [joinSlashes_cons, ih]

theorem joinSlashes_splitSlashes (text : List Char) : joinSlashes (splitSlashes text) = text := by
  induction text with
  | nil => rfl
  | cons char rest ih =>
      by_cases slash : char = '/'
      · subst slash
        rw [splitSlashes_slash, joinSlashes_cons [] (splitSlashes_ne_nil rest), ih, List.nil_append]
      · rw [splitSlashes_cons slash]
        cases segments : splitSlashes rest with
        | nil => exact absurd segments (splitSlashes_ne_nil rest)
        | cons segment others =>
            rw [segments] at ih
            rw [List.modifyHead_cons, ← ih]
            cases others <;> rfl

/-- Segments without slashes are found again. -/
theorem splitSlashes_joinSlashes {segments : List (List Char)} (some : segments ≠ [])
    (noSlash : ∀ segment ∈ segments, '/' ∉ segment) :
    splitSlashes (joinSlashes segments) = segments := by
  induction segments with
  | nil => exact absurd rfl some
  | cons segment rest ih =>
      have first := splitSlashes_of_notMem (noSlash segment List.mem_cons_self)
      by_cases last : rest = []
      · rw [last]
        exact first
      · rw [joinSlashes_cons segment last, splitSlashes_append_slash, first,
          ih last fun other other_mem => noSlash other (List.mem_cons_of_mem segment other_mem)]
        rfl

theorem notMem_of_mem_splitSlashes {text segment : List Char}
    (segment_mem : segment ∈ splitSlashes text) : '/' ∉ segment := by
  induction text generalizing segment with
  | nil =>
      rw [List.mem_singleton.mp segment_mem]
      exact List.not_mem_nil
  | cons char rest ih =>
      by_cases slash : char = '/'
      · subst slash
        rw [splitSlashes_slash] at segment_mem
        rcases List.mem_cons.mp segment_mem with rfl | later
        · exact List.not_mem_nil
        · exact ih later
      · rw [splitSlashes_cons slash] at segment_mem
        cases segments : splitSlashes rest with
        | nil => exact absurd segments (splitSlashes_ne_nil rest)
        | cons head others =>
            rw [segments, List.modifyHead_cons] at segment_mem
            rw [segments] at ih
            rcases List.mem_cons.mp segment_mem with rfl | later
            · rw [List.mem_cons, not_or]
              exact ⟨Ne.symm slash, ih List.mem_cons_self⟩
            · exact ih (List.mem_cons_of_mem head later)

/-- A component that a segment can mean. -/
def IsStep : Component → Prop
  | .root | .current => False
  | .parent => True
  | .name text => IsName text

theorem text_of_segmentComponent? {segment : List Char} {component : Component}
    (means : segmentComponent? segment = some component) : component.text.toList = segment := by
  unfold segmentComponent? at means
  split at means
  · simp at means
  · split at means
    · rename_i parent
      rw [← Option.some.inj means, eq_of_beq parent]
      rfl
    · rw [← Option.some.inj means]
      exact String.toList_ofList

theorem isSome_segmentComponent? {segment : List Char} (busy : isIdle segment = false) :
    ∃ component, segmentComponent? segment = some component := by
  rw [segmentComponent?, if_neg (by simp [busy])]
  split
  · exact ⟨_, rfl⟩
  · exact ⟨_, rfl⟩

theorem IsName.isIdle_eq_false {text : String} (isName : IsName text) :
    isIdle text.toList = false := by
  have notEmpty : text.toList ≠ [] := fun empty => isName.1 (String.toList_inj.mp empty)
  have notDot : text.toList ≠ ['.'] := fun dot => isName.2.1 (String.toList_inj.mp dot)
  simp [isIdle, notEmpty, notDot]

theorem IsName.segmentComponent?_eq {text : String} (isName : IsName text) :
    segmentComponent? text.toList = some (.name text) := by
  have notDots : text.toList ≠ ['.', '.'] := fun dots => isName.2.2.1 (String.toList_inj.mp dots)
  rw [segmentComponent?, if_neg (by simp [isName.isIdle_eq_false]), if_neg (by simpa using notDots),
    String.ofList_toList]

theorem isStep_of_segmentComponent? {segment : List Char} {component : Component}
    (noSlash : '/' ∉ segment) (means : segmentComponent? segment = some component) :
    IsStep component := by
  unfold segmentComponent? at means
  split at means
  · simp at means
  · rename_i busy
    split at means
    · rw [← Option.some.inj means]
      trivial
    · rename_i notParent
      rw [← Option.some.inj means]
      simp only [isIdle, Bool.or_eq_true, beq_iff_eq, not_or] at busy notParent
      refine ⟨?_, ?_, ?_, ?_⟩
      · exact fun empty => busy.1 (by simpa using congrArg String.toList empty)
      · exact fun dot => busy.2 (by simpa using congrArg String.toList dot)
      · exact fun dots => notParent (by simpa using congrArg String.toList dots)
      · rwa [String.toList_ofList]

theorem IsStep.isIdle_eq_false {component : Component} (step : IsStep component) :
    isIdle component.text.toList = false := by
  cases component with
  | root => exact step.elim
  | current => exact step.elim
  | parent => rfl
  | name text => exact IsName.isIdle_eq_false step

theorem IsStep.noSlash {component : Component} (step : IsStep component) :
    '/' ∉ component.text.toList := by
  cases component with
  | root => exact step.elim
  | current => exact step.elim
  | parent => decide
  | name text => exact step.2.2.2

theorem parts_of_slash {path : Path} {rest : List (List Char)} (some : rest ≠ [])
    (split : path.segments = [] :: rest) : path.parts = ⟨Option.some .root, rest⟩ := by
  cases rest with
  | nil => exact absurd rfl some
  | cons next rest => rw [parts, split]

theorem parts_of_dot {path : Path} {rest : List (List Char)}
    (split : path.segments = ['.'] :: rest) : path.parts = ⟨some .current, rest⟩ := by
  rw [parts, split]
  rfl

theorem parts_of_other {path : Path} {first : List Char} {rest : List (List Char)}
    (notSlash : first = [] → rest = []) (notDot : first ≠ ['.'])
    (split : path.segments = first :: rest) : path.parts = ⟨none, first :: rest⟩ := by
  rw [parts, split]
  split
  · rename_i same
    rw [(List.cons.inj same).2] at notSlash
    exact absurd (notSlash (List.cons.inj same).1) (List.cons_ne_nil _ _)
  · rename_i same
    exact absurd (List.cons.inj same).1 notDot
  · rfl

theorem parts_of_busy {path : Path} {body : List (List Char)} (some : body ≠ [])
    (busy : ∀ segment ∈ body, isIdle segment = false) (split : path.segments = body) :
    path.parts = ⟨none, body⟩ := by
  cases body with
  | nil => exact absurd rfl some
  | cons first rest =>
      have first_busy := busy first List.mem_cons_self
      simp only [isIdle, Bool.or_eq_false_iff, beq_eq_false_iff_ne] at first_busy
      exact parts_of_other (fun empty => absurd empty first_busy.1) first_busy.2 split

/-- How a path is taken apart, by its first segment. -/
theorem parts_cases (path : Path) :
    (∃ rest, rest ≠ [] ∧ path.segments = [] :: rest ∧ path.parts = ⟨some .root, rest⟩) ∨
    (∃ rest, path.segments = ['.'] :: rest ∧ path.parts = ⟨some .current, rest⟩) ∨
    (∃ first rest, (first = [] → rest = []) ∧ first ≠ ['.'] ∧ path.segments = first :: rest ∧
      path.parts = ⟨none, first :: rest⟩) := by
  cases split : path.segments with
  | nil => exact absurd split (splitSlashes_ne_nil _)
  | cons first rest =>
      by_cases dot : first = ['.']
      · subst dot
        exact Or.inr (Or.inl ⟨rest, rfl, parts_of_dot split⟩)
      · by_cases slash : first = [] ∧ rest ≠ []
        · rcases slash with ⟨rfl, some⟩
          exact Or.inl ⟨rest, some, rfl, parts_of_slash some split⟩
        · have notSlash : first = [] → rest = [] := fun empty =>
            not_not.mp fun some => slash ⟨empty, some⟩
          exact Or.inr (Or.inr ⟨first, rest, notSlash, dot, rfl, parts_of_other notSlash dot split⟩)

theorem lead_cases (path : Path) :
    path.parts.lead = none ∨ path.parts.lead = some .root ∨ path.parts.lead = some .current := by
  rcases path.parts_cases with ⟨rest, -, -, parts⟩ | ⟨rest, -, parts⟩ | ⟨first, rest, -, -, -, parts⟩
  · exact Or.inr (Or.inl (by rw [parts]))
  · exact Or.inr (Or.inr (by rw [parts]))
  · exact Or.inl (by rw [parts])

theorem noSlash_of_mem_body {path : Path} {segment : List Char}
    (segment_mem : segment ∈ path.parts.body) : '/' ∉ segment := by
  have part : path.parts.body ⊆ path.segments := by
    rcases path.parts_cases with ⟨rest, -, split, parts⟩ | ⟨rest, split, parts⟩ |
      ⟨first, rest, -, -, split, parts⟩
    · simp [split, parts]
    · simp [split, parts]
    · simp [split, parts]
  exact notMem_of_mem_splitSlashes (part segment_mem)

/-- After the lead of a path there are only steps. -/
theorem isStep_of_mem_body (path : Path) :
    ∀ component ∈ path.parts.body.filterMap segmentComponent?, IsStep component := by
  intro component component_mem
  rcases List.mem_filterMap.mp component_mem with ⟨segment, segment_mem, means⟩
  exact isStep_of_segmentComponent? (noSlash_of_mem_body segment_mem) means

theorem text_eq_joinSlashes (path : Path) : path = ⟨String.ofList (joinSlashes path.segments)⟩ := by
  rw [segments, joinSlashes_splitSlashes, String.ofList_toList]

/-- The components of a path after the root or the `.` with which it starts. -/
def steps (path : Path) : List Component :=
  path.parts.body.filterMap segmentComponent?

theorem filterMap_segments (path : Path) :
    path.segments.filterMap segmentComponent? = path.steps := by
  have idle : segmentComponent? [] = none ∧ segmentComponent? ['.'] = none := by decide
  rcases path.parts_cases with ⟨rest, -, split, parts⟩ | ⟨rest, split, parts⟩ |
    ⟨first, rest, -, -, split, parts⟩
  · rw [steps, parts, split, List.filterMap_cons_none idle.1]
  · rw [steps, parts, split, List.filterMap_cons_none idle.2]
  · rw [steps, parts, split]

theorem root_notMem_steps (path : Path) : .root ∉ path.steps := by
  intro root_mem
  exact path.isStep_of_mem_body _ root_mem

theorem components_of_relative {path : Path} (relative : path.isAbsolute = false) :
    path.components = path.steps ∨ path.components = .current :: path.steps := by
  rcases path.parts_cases with ⟨rest, some, split, -⟩ | ⟨rest, -, parts⟩ |
    ⟨first, rest, -, -, -, parts⟩
  · rw [path.text_eq_joinSlashes, split, joinSlashes_cons [] some] at relative
    simp [isAbsolute] at relative
  · right
    rw [components, Parts.components, steps, parts]
    rfl
  · left
    rw [components, Parts.components, steps, parts]
    rfl

theorem isName_of_mem_components {path : Path} {text : String}
    (text_mem : Component.name text ∈ path.components) : IsName text := by
  rcases List.mem_append.mp text_mem with lead_mem | body_mem
  · rcases path.lead_cases with lead | lead | lead <;> simp [lead] at lead_mem
  · exact path.isStep_of_mem_body _ body_mem

theorem isName_of_fileName? {path : Path} {name : String} (named : path.fileName? = some name) :
    IsName name := by
  unfold fileName? at named
  split at named
  · rename_i text last
    rw [← Option.some.inj named]
    exact isName_of_mem_components (List.mem_of_getLast? last)
  · simp at named

section Written

variable {body : List (List Char)}

theorem segments_ofParts_none (some : body ≠ []) (noSlash : ∀ segment ∈ body, '/' ∉ segment) :
    (ofParts ⟨none, body⟩).segments = body := by
  change splitSlashes (String.ofList (joinSlashes body)).toList = body
  rw [String.toList_ofList, splitSlashes_joinSlashes some noSlash]

theorem segments_ofParts_root (some : body ≠ []) (noSlash : ∀ segment ∈ body, '/' ∉ segment) :
    (ofParts ⟨Option.some .root, body⟩).segments = [] :: body := by
  change splitSlashes (String.ofList ('/' :: joinSlashes body)).toList = [] :: body
  rw [String.toList_ofList, splitSlashes_slash, splitSlashes_joinSlashes some noSlash]

theorem segments_ofParts_current (some : body ≠ []) (noSlash : ∀ segment ∈ body, '/' ∉ segment) :
    (ofParts ⟨Option.some .current, body⟩).segments = ['.'] :: body := by
  have written : ofParts ⟨Option.some .current, body⟩ =
      ⟨String.ofList ('.' :: '/' :: joinSlashes body)⟩ := by
    cases body with
    | nil => exact absurd rfl some
    | cons first rest => rfl
  rw [written, segments, String.toList_ofList, splitSlashes_cons (by decide), splitSlashes_slash,
    splitSlashes_joinSlashes some noSlash, List.modifyHead_cons]

end Written

end CodeFacts.Path
