import CodeFacts.Proofs.FileSystem.Respelling
import Mathlib.Tactic.IntervalCases

/-!
# Paths from the working directory

A program runs in a directory that it names from the root, through directories and no links. From
there a relative path leads to the same place as the absolute path that goes on by the same names,
and so does one that starts with a step up.
-/

namespace CodeFacts.FileSystem

open CodeFacts.Path (under IsStart IsName)

/-- The program runs at a location: the names on the way to it are those of directories. -/
structure WorksIn (files : FileSystem) (place : Location) : Prop where
  written : files.workingDirectory = under [.root] place
  directories : ∀ front, front <+: place → files.isDirectoryAt front = true
  names : ∀ name ∈ place, IsName name ∧ name.utf8ByteSize ≤ nameLimit

theorem follow_eq (files : FileSystem) (fresh : Bool) (links : Nat) :
    ∃ expand, files.follow fresh links = files.followSegments fresh expand := by
  cases links with
  | zero => exact ⟨_, rfl⟩
  | succ links => exact ⟨_, rfl⟩

variable {files : FileSystem} {expand : Location → List String → Except FileFault Location}

theorem followSegments_root_idle (rest : List String) :
    files.followSegments false expand [] ("" :: rest) = files.followSegments false expand [] rest :=
  rfl

/-- Names of directories are followed one by one. -/
theorem followSegments_descend {location place : Location}
    (directories : ∀ front, front <+: place → files.isDirectoryAt (location ++ front) = true)
    (names : ∀ name ∈ place, IsName name ∧ name.utf8ByteSize ≤ nameLimit) (rest : List String) :
    files.followSegments false expand location (place ++ rest) =
      files.followSegments false expand (location ++ place) rest := by
  induction place generalizing location with
  | nil => simp
  | cons name place ih =>
      rcases List.forall_mem_cons.mp names with ⟨⟨isName, short⟩, others⟩
      have here : files.isDirectoryAt location = true := by
        simpa using directories [] List.nil_prefix
      have directories_below : ∀ front, front <+: place →
          files.isDirectoryAt (location ++ [name] ++ front) = true := by
        intro front isPrefix
        have deeper := directories (name :: front) (List.cons_prefix_cons.mpr ⟨rfl, isPrefix⟩)
        simpa using deeper
      have next := directories [name] (by simp)
      unfold isDirectoryAt at next
      split at next
      · rename_i entry
        rw [List.cons_append, followSegments]
        simp only [here, entry, isName.1, isName.2.1, isName.2.2.1, Nat.not_lt.mpr short,
          beq_iff_eq, Bool.not_true, Bool.false_eq_true, Bool.or_eq_true, or_self, if_false,
          ih directories_below others]
        simp
      · simp at next

/-- From the root an absolute path is followed by its steps. -/
theorem followSegments_rooted {steps : List Component}
    (isStep : ∀ component ∈ steps, Path.IsStep component) :
    files.followSegments false expand [] (Path.ofComponents (.root :: steps)).segmentTexts =
      files.followSegments false expand [] (steps.map Component.text) := by
  cases steps with
  | nil => rfl
  | cons first rest =>
      rw [Path.segmentTexts_rooted isStep]
      exact followSegments_root_idle _

theorem locate_rooted {steps : List Component}
    (isStep : ∀ component ∈ steps, Path.IsStep component)
    (fits : pathFault? (Path.ofComponents (.root :: steps)) = none) :
    files.locate (Path.ofComponents (.root :: steps)) =
      files.follow false linkLimit [] (steps.map Component.text) := by
  have absolute : (Path.ofComponents (.root :: steps)).isAbsolute = true := by
    simp [Path.isAbsolute, Path.ofComponents_root, Path.ofParts]
  rcases files.follow_eq false linkLimit with ⟨expand, follow⟩
  unfold locate
  rw [fits, Path.join_of_isAbsolute absolute, follow]
  exact followSegments_rooted isStep

section Works

variable {place : Location} (works : files.WorksIn place)

include works

/-- A relative path is followed by its steps from the working directory. -/
theorem WorksIn.locate_relative {steps : List Component} (nonempty : steps ≠ [])
    (isStep : ∀ component ∈ steps, Path.IsStep component)
    (fits : pathFault? (Path.ofComponents steps) = none) :
    files.locate (Path.ofComponents steps) =
      files.follow false linkLimit [] (place ++ steps.map Component.text) := by
  rcases List.exists_cons_of_ne_nil nonempty with ⟨first, rest, rfl⟩
  rcases files.follow_eq false linkLimit with ⟨expand, follow⟩
  have relative := Path.isAbsolute_of_isStep isStep
  have place_steps : ∀ component ∈ place.map Component.name, Path.IsStep component :=
    List.forall_mem_map.mpr fun name name_mem => (works.names name name_mem).1
  have plain := Path.IsPlain.rooted place_steps
  have joined := plain.isTidy_ofComponents.segments_join_relative relative
  unfold locate
  rw [fits, works.written, follow, under, List.singleton_append,
    ← Path.segmentTexts_relative isStep]
  dsimp only
  rw [Path.segmentTexts]
  cases place with
  | nil =>
      have root : (Path.ofComponents [.root]).text = "/" := by decide
      rw [(joined.resolve_right fun other => other.1 root).2]
      exact followSegments_root_idle _
  | cons name place =>
      have notRoot : (Path.ofComponents (.root :: (name :: place).map .name)).text ≠ "/" := by
        intro root
        have top : Path.components ⟨"/"⟩ = [.root] := by decide
        have means := plain.components_ofComponents (by simp)
        rw [show Path.ofComponents (.root :: (name :: place).map .name) = ⟨"/"⟩ from
          congrArg Path.mk root, top] at means
        simp at means
      have front := Path.segmentTexts_rooted place_steps
      rw [(joined.resolve_left fun other => notRoot other.1).2, List.map_append]
      change files.followSegments false expand [] (Path.segmentTexts _ ++ _) = _
      rw [List.map_cons, front, ← List.map_cons, Path.map_text_names]
      exact followSegments_root_idle _

/-- A step up from the working directory leads to the directory above it. -/
theorem WorksIn.follow_parent {front : Location} {last : String} (at_last : place = front ++ [last])
    (rest : List String) :
    files.follow false linkLimit [] (place ++ ".." :: rest) =
      files.follow false linkLimit [] (front ++ rest) := by
  rcases files.follow_eq false linkLimit with ⟨expand, follow⟩
  have to_front : ∀ other, other <+: front → files.isDirectoryAt ([] ++ other) = true := by
    intro other isPrefix
    exact works.directories other (isPrefix.trans (at_last ▸ List.prefix_append _ _))
  have front_names : ∀ name ∈ front, IsName name ∧ name.utf8ByteSize ≤ nameLimit :=
    fun name name_mem => works.names name (at_last ▸ List.mem_append_left _ name_mem)
  have there := works.directories place (List.prefix_refl _)
  rw [follow, followSegments_descend (by simpa using works.directories) works.names,
    followSegments_descend to_front front_names, List.nil_append, followSegments, there]
  simp [at_last]

theorem WorksIn.isName {name : String} (name_mem : name ∈ place) : IsName name :=
  (works.names name name_mem).1

/-- What is above the working directory by at most one step, and how it is reached. -/
theorem WorksIn.exists_raise {height : Nat} (low : height ≤ 1) :
    ∃ steps, (∀ component ∈ steps, Path.IsStep component) ∧
      Path.raise (.root :: place.map .name) height = .root :: steps ∧
      ∀ rest, files.follow false linkLimit []
          (place ++ ((List.replicate height Component.parent).map Component.text ++ rest)) =
        files.follow false linkLimit [] (steps.map Component.text ++ rest) := by
  have fixed := Path.normalizeComponents_rooted place
  have place_steps : ∀ component ∈ place.map Component.name, Path.IsStep component :=
    List.forall_mem_map.mpr fun name name_mem => works.isName name_mem
  interval_cases height
  · refine ⟨place.map .name, place_steps, Path.raise_zero fixed, ?_⟩
    intro rest
    rw [Path.map_text_names]
    rfl
  · rw [Path.raise_one fixed]
    rcases List.eq_nil_or_concat place with rfl | ⟨front, last, concat⟩
    · exact ⟨[.parent], by simp [Path.IsStep], rfl, fun rest => rfl⟩
    · rw [List.concat_eq_append] at concat
      refine ⟨front.map .name, ?_, ?_, ?_⟩
      · intro component component_mem
        refine place_steps component ?_
        rw [concat, List.map_append]
        exact List.mem_append_left _ component_mem
      · rw [concat, List.map_append, ← List.cons_append]
        exact Path.normalizeStep_parent_of_name _ last
      · intro rest
        rw [Path.map_text_names]
        exact works.follow_parent concat rest

/-- Paths that start with a step up at most once lead to where they lead from the root. -/
theorem WorksIn.samePlaces {height : Nat} (low : height ≤ 1) {names : List String}
    (isName : ∀ name ∈ names, IsName name)
    (start : IsStart (List.replicate height .parent ++ names.map .name)) :
    files.SamePlaces (List.replicate height .parent ++ names.map .name)
      (Path.raise (.root :: place.map .name) height ++ names.map .name) := by
  intro more more_named fits fits_too
  rcases works.exists_raise low with ⟨up, up_steps, raised, reaches⟩
  have end_steps : ∀ component ∈ (names ++ more).map Component.name, Path.IsStep component :=
    List.forall_mem_map.mpr (List.forall_mem_append.mpr ⟨isName, more_named⟩)
  have parents : ∀ component ∈ List.replicate height Component.parent, Path.IsStep component := by
    intro component component_mem
    rw [List.eq_of_mem_replicate component_mem]
    trivial
  have here_eq : under (List.replicate height .parent ++ names.map .name) more =
      Path.ofComponents (List.replicate height .parent ++ (names ++ more).map .name) := by
    simp [under]
  have there_eq : under (Path.raise (.root :: place.map .name) height ++ names.map .name) more =
      Path.ofComponents (.root :: (up ++ (names ++ more).map .name)) := by
    simp [under, raised]
  have nonempty : List.replicate height Component.parent ++ (names ++ more).map .name ≠ [] := by
    simpa using start.append_ne_nil (more.map .name)
  rw [here_eq] at fits ⊢
  rw [there_eq] at fits_too ⊢
  rw [works.locate_relative nonempty (List.forall_mem_append.mpr ⟨parents, end_steps⟩) fits,
    locate_rooted (List.forall_mem_append.mpr ⟨up_steps, end_steps⟩) fits_too]
  simp only [List.map_append, reaches]

end Works

end CodeFacts.FileSystem
