import CodeFacts.Imports.Graph
import CodeFacts.Proofs.Path.Under
import Mathlib.Data.List.Find

/-!
# What specifiers may name, by names alone

From a file under a base, a specifier that does not climb above the base leads to a path under the
base, and so do all paths that it may name. Which of them is found among files under the base
depends on the names only, so it is the same under every base.
-/

namespace CodeFacts

namespace Path

theorem joinSlashes_concat (segments : List (List Char)) (last suffix : List Char) :
    joinSlashes (segments ++ [last]) ++ suffix = joinSlashes (segments ++ [last ++ suffix]) := by
  induction segments with
  | nil => rfl
  | cons segment rest ih =>
      rw [List.cons_append, List.cons_append, joinSlashes_cons segment (by simp),
        joinSlashes_cons segment (by simp), List.append_assoc, List.cons_append, ih]

/-- What is written after a path continues its last segment. -/
theorem append_ofParts {lead : Option Component} (noDot : lead ≠ some .current)
    (segments : List (List Char)) (last : List Char) (suffix : String) :
    (ofParts ⟨lead, segments ++ [last]⟩).append suffix =
      ofParts ⟨lead, segments ++ [last ++ suffix.toList]⟩ := by
  have text : ∀ chars : List Char, String.ofList chars ++ suffix =
      String.ofList (chars ++ suffix.toList) := by
    intro chars
    rw [String.ofList_append, String.ofList_toList]
  rcases lead with _ | lead
  · simp only [ofParts, append, text, joinSlashes_concat]
  · cases lead with
    | root => simp only [ofParts, append, text, List.cons_append, joinSlashes_concat]
    | current => exact absurd rfl noDot
    | parent => simp only [ofParts, append, text, joinSlashes_concat]
    | name => simp only [ofParts, append, text, joinSlashes_concat]

theorem texts_concat (steps : List Component) (text : String) :
    texts (steps ++ [.name text]) = texts steps ++ [text.toList] := by
  simp [texts, Component.text]

/-- How a path that ends in a name is taken apart. -/
theorem IsPlain.parts_concat {base : List Component} (plain : IsPlain base) :
    ∃ lead segments, lead ≠ some .current ∧ (∀ segment ∈ segments, isIdle segment = false) ∧
      ∀ text, IsName text →
        ofComponents (base ++ [.name text]) = ofParts ⟨lead, segments ++ [text.toList]⟩ ∧
        (ofComponents (base ++ [.name text])).parts = ⟨lead, segments ++ [text.toList]⟩ := by
  cases plain with
  | relative isStep =>
      refine ⟨none, texts base, by simp, busy_of_mem_texts isStep, ?_⟩
      intro text isName
      have all_steps : ∀ component ∈ base ++ [.name text], IsStep component :=
        List.forall_mem_append.mpr ⟨isStep, List.forall_mem_singleton.mpr isName⟩
      have written : ofComponents (base ++ [.name text]) =
          ofParts ⟨none, texts (base ++ [.name text])⟩ := by
        cases base with
        | nil => rfl
        | cons first rest => exact ofComponents_cons (isStep first List.mem_cons_self) _
      have nonempty : texts (base ++ [.name text]) ≠ [] := by simp [texts]
      have split := segments_ofParts_none nonempty (noSlash_of_mem_texts all_steps)
      rw [written, parts_of_busy nonempty (busy_of_mem_texts all_steps) split, texts_concat]
      exact ⟨rfl, rfl⟩
  | @rooted steps isStep =>
      refine ⟨some .root, texts steps, by simp, busy_of_mem_texts isStep, ?_⟩
      intro text isName
      have all_steps : ∀ component ∈ steps ++ [.name text], IsStep component :=
        List.forall_mem_append.mpr ⟨isStep, List.forall_mem_singleton.mpr isName⟩
      have nonempty : texts (steps ++ [.name text]) ≠ [] := by simp [texts]
      have split := segments_ofParts_root nonempty (noSlash_of_mem_texts all_steps)
      rw [List.cons_append, ofComponents_root, parts_of_slash nonempty split, texts_concat]
      exact ⟨rfl, rfl⟩

end Path

namespace Imports.Graph

open CodeFacts.Path (under IsBase IsName namesLeft climbFrom)

/-- A file name with the module extension that it has cut off. -/
def stemName (name : String) : String :=
  match Path.splitExtension? name.toList with
  | none => name
  | some (stem, extension) =>
    if moduleExtensions.contains (String.ofList extension) then String.ofList stem else name

theorem mem_of_mem_stemName {name : String} {char : Char}
    (char_mem : char ∈ (stemName name).toList) : char ∈ name.toList := by
  unfold stemName at char_mem
  split at char_mem
  · exact char_mem
  · rename_i divided
    split at char_mem
    · rw [String.toList_ofList] at char_mem
      exact Path.mem_of_mem_stem divided char_mem
    · exact char_mem

theorem isName_stemName_append {name : String} (isName : IsName name) {extension : String}
    (extension_mem : extension ∈ moduleExtensions) :
    IsName (stemName name ++ ("." ++ extension)) := by
  have suffixes : ∀ extension ∈ moduleExtensions,
      '/' ∉ ("." ++ extension).toList ∧ 3 ≤ ("." ++ extension).toList.length := by decide
  rcases suffixes extension extension_mem with ⟨noSlash, long⟩
  have length : 3 ≤ (stemName name ++ ("." ++ extension)).toList.length := by
    rw [String.toList_append, List.length_append]
    omega
  refine ⟨?_, ?_, ?_, ?_⟩
  · intro short
    simp [short] at length
  · intro short
    rw [short] at length
    exact absurd length (by decide)
  · intro short
    rw [short] at length
    exact absurd length (by decide)
  · rw [String.toList_append, List.mem_append, not_or]
    exact ⟨fun slash => isName.2.2.2 (mem_of_mem_stemName slash), noSlash⟩

theorem under_concat (base : List Component) (names : List String) (name : String) :
    under base (names ++ [name]) = Path.ofComponents (base ++ names.map .name ++ [.name name]) := by
  simp [under]

/-- Exchanging the extension of a path exchanges that of its last name. -/
theorem stem_append_under {base : List Component} (isBase : IsBase base) {names : List String}
    {name : String} (isName : ∀ other ∈ names ++ [name], IsName other) {extension : String}
    (extension_mem : extension ∈ moduleExtensions) :
    (stem (under base (names ++ [name]))).append ("." ++ extension) =
      under base (names ++ [stemName name ++ ("." ++ extension)]) := by
  rcases List.forall_mem_append.mp isName with ⟨names_named, named⟩
  rw [List.forall_mem_singleton] at named
  have last := Path.fileName?_under isBase isName
  rcases (isBase.plain.append_names names_named).parts_concat with
    ⟨lead, segments, noDot, busy, apart⟩
  rw [under_concat] at last ⊢
  rcases apart name named with ⟨written, parts⟩
  rcases apart _ (isName_stemName_append named extension_mem) with ⟨renamed, -⟩
  rw [under_concat, renamed, String.toList_append, ← Path.append_ofParts noDot]
  refine congrArg (Path.append · ("." ++ extension)) ?_
  unfold stem Path.extension? Path.withoutExtension stemName
  simp only [last]
  cases divided : Path.splitExtension? name.toList with
  | none => simp only [Option.map_none, written]
  | some halves =>
      rcases halves with ⟨front, ending⟩
      simp only [Option.map_some]
      by_cases known : moduleExtensions.contains (String.ofList ending) = true
      · have all_busy : ∀ segment ∈ segments ++ [name.toList], Path.isIdle segment = false :=
          List.forall_mem_append.mpr ⟨busy, List.forall_mem_singleton.mpr named.isIdle_eq_false⟩
        simp only [known, if_true, parts, Path.trimEnd_of_busy all_busy, List.dropLast_concat,
          String.toList_ofList]
      · simp only [known, if_false, written, Bool.false_eq_true]

/-- The names of the paths that a specifier may name, if it leads to a path by given names. -/
def candidateNames (names : List String) : List (List String) :=
  match names.getLast? with
  | none => moduleExtensions.map fun extension => ["index." ++ extension]
  | some last =>
    names ::
      (moduleExtensions.map fun extension =>
        names.dropLast ++ [stemName last ++ ("." ++ extension)]) ++
      (moduleExtensions.map fun extension => names ++ ["index." ++ extension])

theorem isName_index : ∀ extension ∈ moduleExtensions, IsName ("index." ++ extension) := by
  decide

theorem isName_of_mem_candidateNames {left : List String} (isName : ∀ name ∈ left, IsName name)
    {names : List String} (names_mem : names ∈ candidateNames left) :
    names ≠ [] ∧ ∀ name ∈ names, IsName name := by
  unfold candidateNames at names_mem
  split at names_mem
  · rcases List.mem_map.mp names_mem with ⟨extension, extension_mem, rfl⟩
    exact ⟨by simp, by simpa using isName_index extension extension_mem⟩
  · rename_i last last_eq
    have last_named := isName last (List.mem_of_getLast? last_eq)
    rw [List.cons_append, List.mem_cons, List.mem_append, List.mem_map, List.mem_map] at names_mem
    rcases names_mem with rfl | ⟨extension, extension_mem, rfl⟩ | ⟨extension, extension_mem, rfl⟩
    · exact ⟨List.ne_nil_of_mem (List.mem_of_getLast? last_eq), isName⟩
    · refine ⟨by simp, List.forall_mem_append.mpr ⟨?_, ?_⟩⟩
      · exact fun name name_mem => isName name (List.dropLast_subset _ name_mem)
      · exact List.forall_mem_singleton.mpr (isName_stemName_append last_named extension_mem)
    · refine ⟨by simp, List.forall_mem_append.mpr ⟨isName, ?_⟩⟩
      exact List.forall_mem_singleton.mpr (isName_index extension extension_mem)

/-- Where a specifier leads from a directory under a base. -/
theorem normalize_join_under {base : List Component} (isBase : IsBase base) {names : List String}
    (isName : ∀ name ∈ names, IsName name) (nonempty : base ++ names.map .name ≠ [])
    {specifier : Path} (relative : specifier.isAbsolute = false)
    (level : climbFrom names.length specifier.steps = 0) :
    ((under base names).join specifier).normalize =
      under base (namesLeft names specifier.steps) := by
  rw [Path.normalize, (Path.isTidy_under isBase isName).components_join_relative relative,
    Path.components_under isBase isName nonempty,
    Path.normalizeComponents_append_names_steps isBase.fixed names specifier.root_notMem_steps,
    level, Path.raise_zero isBase.fixed, under]

/-- Files by names under a base: all have an extension, and under the empty base none stands at the
top. -/
structure AreFiles (base : List Component) (files : List (List String)) : Prop where
  isName : ∀ names ∈ files, ∀ name ∈ names, IsName name
  extension : ∀ names ∈ files, ∃ front last, names = front ++ [last] ∧
    (Path.splitExtension? last.toList).isSome = true
  deep : base = [] → ∀ names ∈ files, 2 ≤ names.length

/-- What the paths of files under a base mean. -/
def locationsUnder (base : List Component) (files : List (List String)) : List (List Component) :=
  files.map fun names => base ++ names.map .name

section Among

variable {base : List Component} (isBase : IsBase base) {files : List (List String)}
  (areFiles : AreFiles base files)

theorem contains_locationsUnder {names : List String} :
    (locationsUnder base files).contains (base ++ names.map .name) = files.contains names := by
  have injective : Function.Injective (List.map Component.name) :=
    List.map_injective_iff.mpr fun _ _ same => Component.name.inj same
  rw [Bool.eq_iff_iff, List.contains_iff_mem, List.contains_iff_mem, locationsUnder, List.mem_map]
  constructor
  · rintro ⟨other, other_mem, same⟩
    rwa [← injective (List.append_cancel_left same)]
  · intro names_mem
    exact ⟨names, names_mem, rfl⟩

include areFiles

/-- No file has as few components as the base has. -/
theorem notMem_locationsUnder {location : List Component}
    (short : location.length ≤ base.length ∨ base = [] ∧ location.length ≤ 1) :
    location ∉ locationsUnder base files := by
  intro location_mem
  rcases List.mem_map.mp location_mem with ⟨names, names_mem, rfl⟩
  rcases areFiles.extension names names_mem with ⟨front, last, rfl, -⟩
  rcases short with short | ⟨rfl, short⟩
  · simp only [List.length_append, List.length_map, List.length_singleton] at short
    omega
  · have deep := areFiles.deep rfl _ names_mem
    simp only [List.nil_append, List.length_map, List.length_append, List.length_singleton]
      at short deep
    omega

include isBase

/-- A base with an extension is no file. -/
theorem stem_append_base_notMem {extension : String}
    (extension_mem : extension ∈ moduleExtensions) :
    ((stem (under base [])).append ("." ++ extension)).components ∉ locationsUnder base files := by
  rcases isBase.cases with rfl | rfl | rfl | rfl | ⟨front, name, rfl, frontBase, isName⟩
  · have lengths : ∀ extension ∈ moduleExtensions,
        ((stem (under [] [])).append ("." ++ extension)).components.length ≤ 1 := by decide
    exact notMem_locationsUnder areFiles (Or.inr ⟨rfl, lengths extension extension_mem⟩)
  · have lengths : ∀ extension ∈ moduleExtensions,
        ((stem (under [.parent] [])).append ("." ++ extension)).components.length ≤ 1 := by decide
    exact notMem_locationsUnder areFiles (Or.inl (lengths extension extension_mem))
  · have means : ∀ extension ∈ moduleExtensions,
        ((stem (under [.root] [])).append ("." ++ extension)).components =
          [.root] ++ ["." ++ extension].map .name ∧
        Path.splitExtension? ("." ++ extension).toList = none := by decide
    rcases means extension extension_mem with ⟨means, hidden⟩
    rw [means, ← List.contains_iff_mem, contains_locationsUnder, List.contains_iff_mem]
    intro file_mem
    rcases areFiles.extension _ file_mem with ⟨front, last, same, visible⟩
    have last_eq : "." ++ extension = last := by simpa using congrArg List.getLast? same
    rw [← last_eq, hidden] at visible
    exact Bool.noConfusion visible
  · have lengths : ∀ extension ∈ moduleExtensions,
        ((stem (under [.root, .parent] [])).append ("." ++ extension)).components.length ≤ 2 := by
      decide
    exact notMem_locationsUnder areFiles (Or.inl (lengths extension extension_mem))
  · have named : ∀ other ∈ [] ++ [name], IsName other := by simpa using isName
    have written : under (front ++ [.name name]) [] = under front ([] ++ [name]) := by simp [under]
    have renamed : ∀ other ∈ [] ++ [stemName name ++ ("." ++ extension)], IsName other := by
      simpa using isName_stemName_append isName extension_mem
    rw [written, stem_append_under frontBase named extension_mem,
      Path.components_under frontBase renamed (by simp)]
    exact notMem_locationsUnder areFiles (Or.inl (by simp))

/-- From a base itself a specifier can only name an index file. -/
theorem find?_candidates_of_base :
    ((under base [] :: (moduleExtensions.map fun extension =>
          (stem (under base [])).append ("." ++ extension)) ++
        (moduleExtensions.map fun extension => (under base []).join ⟨"index." ++ extension⟩)).find?
      fun path => (locationsUnder base files).contains path.components) =
      ((candidateNames []).map (under base)).find?
        fun path => (locationsUnder base files).contains path.components := by
  have itself : (under base []).components ∉ locationsUnder base files := by
    refine notMem_locationsUnder areFiles ?_
    by_cases empty : base = []
    · subst empty
      exact Or.inr ⟨rfl, by decide⟩
    · rw [(Path.IsStart.mk isBase empty).components_under_nil]
      exact Or.inl (Nat.le_refl _)
  have others : ∀ path ∈ under base [] :: moduleExtensions.map fun extension =>
      (stem (under base [])).append ("." ++ extension),
      ¬(locationsUnder base files).contains path.components = true := by
    simp only [List.contains_iff_mem]
    refine List.forall_mem_cons.mpr ⟨itself, List.forall_mem_map.mpr ?_⟩
    exact fun extension extension_mem => stem_append_base_notMem isBase areFiles extension_mem
  rw [List.find?_append, List.find?_eq_none.mpr others, Option.none_or]
  by_cases empty : base = []
  · -- A path that starts with `.` means no file, and no file stands at the top.
    subst empty
    have dotted : ∀ extension ∈ moduleExtensions,
        ((under [] []).join ⟨"index." ++ extension⟩).components =
          [.current, .name ("index." ++ extension)] := by decide
    have short : ∀ extension ∈ moduleExtensions,
        (under [] ["index." ++ extension]).components.length ≤ 1 := by decide
    rw [List.find?_eq_none.mpr, List.find?_eq_none.mpr]
    · simp only [candidateNames, List.getLast?_nil, List.map_map, List.contains_iff_mem]
      refine List.forall_mem_map.mpr fun extension extension_mem => ?_
      exact notMem_locationsUnder areFiles (Or.inr ⟨rfl, short extension extension_mem⟩)
    · simp only [List.contains_iff_mem]
      refine List.forall_mem_map.mpr fun extension extension_mem => ?_
      rw [dotted extension extension_mem]
      intro location_mem
      rcases List.mem_map.mp location_mem with ⟨names, -, same⟩
      cases names <;> simp at same
  · have indexed : (moduleExtensions.map fun extension =>
        (under base []).join ⟨"index." ++ extension⟩) = (candidateNames []).map (under base) := by
      simp only [candidateNames, List.getLast?_nil, List.map_map]
      refine List.map_congr_left fun extension extension_mem => ?_
      have named : ∀ other ∈ [] ++ ["index." ++ extension], IsName other := by
        simpa using isName_index extension extension_mem
      exact (Path.IsStart.mk isBase empty).join_under named
    rw [indexed]

end Among

section Specifier

variable {base : List Component} (isBase : IsBase base) {directory : List String} {file : String}
  (isName : ∀ name ∈ directory ++ [file], IsName name)
  (nonempty : base ++ directory.map .name ≠ []) {specifier : String}
  (relative : Path.isAbsolute ⟨specifier⟩ = false)
  (level : climbFrom directory.length (Path.steps ⟨specifier⟩) = 0)

include isBase isName nonempty relative level

theorem candidates_under :
    candidates (under base (directory ++ [file])) specifier =
      let written := under base (namesLeft directory (Path.steps ⟨specifier⟩))
      written ::
        (moduleExtensions.map fun extension => (stem written).append ("." ++ extension)) ++
        (moduleExtensions.map fun extension => written.join ⟨"index." ++ extension⟩) := by
  rcases List.forall_mem_append.mp isName with ⟨directory_named, named⟩
  rw [List.forall_mem_singleton] at named
  unfold candidates
  rw [Path.parent?_under isBase directory_named nonempty named]
  simp only [Option.getD_some, normalize_join_under isBase directory_named nonempty relative level]

/-- A specifier that leads below the base may name paths under the base. -/
theorem candidates_eq_map (below : namesLeft directory (Path.steps ⟨specifier⟩) ≠ []) :
    candidates (under base (directory ++ [file])) specifier =
      (candidateNames (namesLeft directory (Path.steps ⟨specifier⟩))).map (under base) := by
  have left_named : ∀ name ∈ namesLeft directory (Path.steps ⟨specifier⟩), IsName name :=
    Path.isName_of_mem_namesLeft (List.forall_mem_append.mp isName).1 ⟨specifier⟩
  rw [candidates_under isBase isName nonempty relative level]
  generalize namesLeft directory (Path.steps ⟨specifier⟩) = left at below left_named
  rcases List.eq_nil_or_concat left with rfl | ⟨front, last, rfl⟩
  · exact absurd rfl below
  rw [List.concat_eq_append] at left_named ⊢
  simp only [candidateNames, List.getLast?_concat, List.dropLast_concat, List.map_cons,
    List.map_append, List.map_map]
  refine congrArg₂ (· ++ ·) (congrArg _ (List.map_congr_left ?_)) (List.map_congr_left ?_)
  · intro extension extension_mem
    exact stem_append_under isBase left_named extension_mem
  · intro extension extension_mem
    exact Path.join_under isBase left_named (by simp) (isName_index extension extension_mem)

/-- Which file a specifier names depends on the names only. -/
theorem resolveAmong?_under {files : List (List String)} (areFiles : AreFiles base files) :
    resolveAmong? (locationsUnder base files) (under base (directory ++ [file])) specifier =
      if isFileSpecifier specifier then
        ((candidateNames (namesLeft directory (Path.steps ⟨specifier⟩))).find? fun names =>
          files.contains names).map (under base)
      else none := by
  have left_named : ∀ name ∈ namesLeft directory (Path.steps ⟨specifier⟩), IsName name :=
    Path.isName_of_mem_namesLeft (List.forall_mem_append.mp isName).1 ⟨specifier⟩
  have found : ((candidates (under base (directory ++ [file])) specifier).find? fun path =>
      (locationsUnder base files).contains path.components) =
      ((candidateNames (namesLeft directory (Path.steps ⟨specifier⟩))).map (under base)).find?
        fun path => (locationsUnder base files).contains path.components := by
    by_cases below : namesLeft directory (Path.steps ⟨specifier⟩) = []
    · rw [candidates_under isBase isName nonempty relative level, below]
      exact find?_candidates_of_base isBase areFiles
    · rw [candidates_eq_map isBase isName nonempty relative level below]
  unfold resolveAmong?
  rw [found, List.find?_map]
  refine if_congr Iff.rfl (congrArg (Option.map (under base)) (List.find?_congr ?_)) rfl
  intro names names_mem
  rcases isName_of_mem_candidateNames left_named names_mem with ⟨some, names_named⟩
  rw [Function.comp_apply, Path.components_under isBase names_named (by simp [some]),
    contains_locationsUnder]

end Specifier

end Imports.Graph

end CodeFacts
