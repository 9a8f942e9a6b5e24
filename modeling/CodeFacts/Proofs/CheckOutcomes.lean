import CodeFacts.Proofs.Glob.Excludes
import CodeFacts.Proofs.Imports.Check
import CodeFacts.Proofs.Unused.Directory

/-!
# When checks fail

A check for cycles succeeds if the target is there, its directory can be listed and every exclude
pattern can be used. A file is checked with its directory, which is there if the file is. A check
for unused symbols needs neither the directory nor the patterns for a file, and then does not look
at them: with a bad pattern it succeeds on a file where the other check fails. On everything else
the two succeed and fail together. Either check says why it failed, and then reports nothing else.
-/

namespace CodeFacts

/-- A report names an error exactly if the check failed, and then it has no issues and counts no
files. -/
structure FailsCleanly {Issue : Type} (success : Bool) (issues : List Issue) (filesAnalyzed : Nat)
    (error : Option String) : Prop where
  error : error.isSome = !success
  issues : success = false → issues = []
  filesAnalyzed : success = false → filesAnalyzed = 0

theorem failsCleanly_failed {Issue : Type} (message : String) :
    FailsCleanly false ([] : List Issue) 0 (some message) :=
  ⟨rfl, fun _ => rfl, fun _ => rfl⟩

theorem failsCleanly_succeeded {Issue : Type} (issues : List Issue) (filesAnalyzed : Nat) :
    FailsCleanly true issues filesAnalyzed none :=
  ⟨rfl, nofun, nofun⟩

section Target

variable (files : FileSystem) {target root : Path} (normal : root.IsNormal)

namespace Imports

include normal

omit normal in
theorem checkedDirectory_of_not_isFile (noFile : files.isFile root = false) :
    checkedDirectory files root = root := by
  unfold checkedDirectory
  rw [noFile]
  cases root.parent? <;> rfl

/-- What is checked for a target is a directory if the target is there at all. -/
theorem isDirectory_checkedDirectory :
    (checkedDirectory files root).IsNormal ∧ files.isDirectory (checkedDirectory files root) =
      (files.isFile root || files.isDirectory root) := by
  cases isFile : files.isFile root with
  | true =>
      rcases FileSystem.exists_isDirectory_parent? normal isFile with
        ⟨directory, parent, directory_normal, isDirectory⟩
      simp [checkedDirectory, isFile, parent, directory_normal, isDirectory]
  | false => simp [checkedDirectory_of_not_isFile files isFile, normal]

theorem success_checkCycles_iff (absolute : Path.absolute files.workingDirectory target = root)
    {limits : CycleLimits} {patterns : List String} {report : CycleReport}
    (returned : checkCycles files limits patterns target = .ok report) :
    report.success = true ↔
      files.canList (checkedDirectory files root) = true ∧
        ∀ pattern ∈ patterns, Glob.IsUsable pattern := by
  rcases isDirectory_checkedDirectory files normal with ⟨checked_normal, -⟩
  rw [← Glob.Excludes.exists_compile_iff]
  constructor
  · intro success
    rcases exists_graph_of_success returned success with ⟨directory, graph, built, -⟩
    rcases exists_of_buildGraph built with ⟨excluded, collected, compiled, collects, -⟩
    refine ⟨?_, excluded, compiled⟩
    rw [absolute] at directory collects
    by_contra unlistable
    rw [Bool.not_eq_true] at unlistable
    rw [← checked_normal.normalized] at directory unlistable
    rw [FileSystem.sourceFiles_of_not_canList directory unlistable] at collects
    simp at collects
  · rintro ⟨listable, excluded, compiled⟩
    have directory := FileSystem.isDirectory_of_canList listable
    rw [← checked_normal.normalized] at listable
    rcases FileSystem.exists_sourceFiles_of_canList listable excluded.excludes
      Language.isEcmaScript with ⟨collected, collects⟩
    have built := buildGraph_eq_ok compiled collects
    rw [checkCycles_eq_ofGraph (congrArg _ absolute) directory built] at returned
    rw [← ((CycleReport.ofGraph_eq_ok_iff _ limits report).mp returned).2]
    rfl

omit normal in
/-- A check is aborted for no limit but the largest. -/
theorem exists_checkCycles_eq_ok {limits : CycleLimits}
    (representable : limits.maxLength.toNat + 1 < UInt64.size) (patterns : List String)
    (target : Path) : ∃ report, checkCycles files limits patterns target = .ok report := by
  rcases checkCycles_cases files limits patterns target with
    ⟨message, fails⟩ | ⟨-, graph, -, reports⟩
  · exact ⟨_, fails⟩
  · rw [reports]
    exact ⟨_, (CycleReport.ofGraph_eq_ok_iff graph limits _).mpr ⟨Or.inl representable, rfl⟩⟩

end Imports

namespace Unused

include normal

theorem success_check_iff (absolute : Path.absolute files.workingDirectory target = root)
    (options : Options) (patterns : List String) :
    (check files options patterns target).success = true ↔
      files.isFile root = true ∨
        files.canList root = true ∧ ∀ pattern ∈ patterns, Glob.IsUsable pattern := by
  rw [← Glob.Excludes.exists_compile_iff]
  cases compiled : Glob.Excludes.compile patterns with
  | ok excluded => simp [success_check absolute compiled normal options]
  | error failure =>
      unfold check targetFiles
      rw [absolute, compiled]
      cases files.isFile root with
      | true => simp [Report.ofOutcomes]
      | false => cases files.isDirectory root <;> simp [Report.failed]

end Unused

end Target

theorem Imports.failsCleanly_checkCycles {files : FileSystem} {limits : CycleLimits}
    {patterns : List String} {target : Path} {report : CycleReport}
    (returned : checkCycles files limits patterns target = .ok report) :
    FailsCleanly report.success report.issues report.filesAnalyzed report.error := by
  rcases checkCycles_cases files limits patterns target with
    ⟨message, fails⟩ | ⟨-, graph, -, reports⟩
  · obtain rfl := Except.ok.inj (fails.symm.trans returned)
    exact failsCleanly_failed message
  · rcases (CycleReport.ofGraph_eq_ok_iff graph limits report).mp (reports.symm.trans returned) with
      ⟨-, rfl⟩
    exact failsCleanly_succeeded _ _

theorem Unused.failsCleanly_check (files : FileSystem) (options : Options)
    (patterns : List String) (target : Path) :
    let report := check files options patterns target
    FailsCleanly report.success report.issues report.filesAnalyzed report.error := by
  unfold check
  split
  · exact failsCleanly_failed _
  · exact failsCleanly_succeeded _ _

/-- A check for cycles returns a report for all limits but the largest, and it succeeds exactly if
the target is there, its directory can be listed and every pattern can be used. A check for unused
symbols does so too, except that for a file neither its directory nor the patterns matter. So the
two succeed together unless a file is checked with a pattern that cannot be used or in a directory
that cannot be listed. A check that fails says why and reports nothing else. -/
theorem checks_succeed_together_iff (files : FileSystem) (limits : Imports.CycleLimits)
    (options : Unused.Options) (patterns : List String) (target : Path) :
    let root := Path.absolute files.workingDirectory target
    let directory := Imports.checkedDirectory files root
    let usable := ∀ pattern ∈ patterns, Glob.IsUsable pattern
    let unused := Unused.check files options patterns target
    (limits.maxLength.toNat + 1 < UInt64.size →
      ∃ cycles, Imports.checkCycles files limits patterns target = .ok cycles) ∧
    (unused.success = true ↔
      files.isFile root = true ∨
        files.isDirectory root = true ∧ files.canList root = true ∧ usable) ∧
    FailsCleanly unused.success unused.issues unused.filesAnalyzed unused.error ∧
    ∀ cycles, Imports.checkCycles files limits patterns target = .ok cycles →
      (cycles.success = true ↔
        (files.isFile root = true ∨ files.isDirectory root = true) ∧
          files.canList directory = true ∧ usable) ∧
      (cycles.success = unused.success ↔
        ¬(files.isFile root = true ∧ ¬(files.canList directory = true ∧ usable))) ∧
      FailsCleanly cycles.success cycles.issues cycles.filesAnalyzed cycles.error := by
  intro root directory usable unused
  have normal : root.IsNormal :=
    Path.isNormal_normalize (Path.isAbsolute_join files.absolute target)
  have unused_iff : unused.success = true ↔
      files.isFile root = true ∨
        files.isDirectory root = true ∧ files.canList root = true ∧ usable := by
    rw [Unused.success_check_iff files normal rfl options patterns, ← and_assoc,
      and_iff_right_of_imp FileSystem.isDirectory_of_canList]
  refine ⟨fun representable => Imports.exists_checkCycles_eq_ok files representable patterns target,
    unused_iff, Unused.failsCleanly_check files options patterns target, ?_⟩
  intro cycles returned
  have there : files.canList directory = true →
      files.isFile root = true ∨ files.isDirectory root = true := by
    intro listable
    rw [← Bool.or_eq_true, ← (Imports.isDirectory_checkedDirectory files normal).2]
    exact FileSystem.isDirectory_of_canList listable
  have cycles_iff : cycles.success = true ↔
      (files.isFile root = true ∨ files.isDirectory root = true) ∧
        files.canList directory = true ∧ usable := by
    rw [Imports.success_checkCycles_iff files normal rfl returned, ← and_assoc,
      and_iff_right_of_imp there]
  refine ⟨cycles_iff, ?_, Imports.failsCleanly_checkCycles returned⟩
  rw [Bool.eq_iff_iff, cycles_iff, unused_iff]
  cases isFile : files.isFile root with
  | true => simp
  | false =>
      have same : directory = root := Imports.checkedDirectory_of_not_isFile files isFile
      simp [same]

/-- With a pattern that can be used, both checks succeed on a directory; without anything at the
target, both fail and say why. -/
theorem checks_succeed_together_on_idleFiles :
    let files := Unused.idleFiles
    Glob.IsUsable "b*" ∧
      (∃ cycles, Imports.checkCycles files {} ["b*"] ⟨"."⟩ = .ok cycles ∧
        cycles.success = true) ∧
      (Unused.check files {} ["b*"] ⟨"."⟩).success = true ∧
      (∃ cycles, Imports.checkCycles files {} ["b*"] ⟨"d"⟩ = .ok cycles ∧
        cycles.error.isSome = true) ∧
      (Unused.check files {} ["b*"] ⟨"d"⟩).error.isSome = true := by
  intro files
  have usable : ∀ pattern ∈ ["b*"], Glob.IsUsable pattern := by decide +kernel
  rcases checks_succeed_together_iff files {} {} ["b*"] ⟨"."⟩ with
    ⟨returns, unused_iff, -, checked⟩
  rcases returns (by decide) with ⟨cycles, returned⟩
  have directory : files.isDirectory (Path.absolute files.workingDirectory ⟨"."⟩) = true := by
    decide
  rcases checks_succeed_together_iff files {} {} ["b*"] ⟨"d"⟩ with
    ⟨missing_returns, missing_iff, cleanly, missing_checked⟩
  rcases missing_returns (by decide) with ⟨failed, missing_returned⟩
  rcases missing_checked failed missing_returned with ⟨failed_iff, -, failed_cleanly⟩
  have noFile : ¬files.isFile (Path.absolute files.workingDirectory ⟨"d"⟩) = true := by decide
  have noDirectory : ¬files.isDirectory (Path.absolute files.workingDirectory ⟨"d"⟩) = true := by
    decide
  refine ⟨usable _ (by simp), ⟨cycles, returned, ?_⟩, ?_, ⟨failed, missing_returned, ?_⟩, ?_⟩
  · exact (checked cycles returned).1.mpr ⟨Or.inr directory, by decide, usable⟩
  · exact unused_iff.mpr (Or.inr ⟨directory, by decide, usable⟩)
  · rw [failed_cleanly.error, Bool.not_eq_true', Bool.eq_false_iff, Ne, failed_iff]
    exact fun found => found.1.elim noFile noDirectory
  · rw [cleanly.error, Bool.not_eq_true', Bool.eq_false_iff, Ne, missing_iff]
    exact fun found => found.elim noFile fun inside => noDirectory inside.1

/-- On a file, a pattern that cannot be used makes one check fail and goes unnoticed in the
other. -/
theorem bad_pattern_unnoticed_for_file :
    let files := Unused.idleFiles
    files.isFile (Path.absolute files.workingDirectory ⟨"a.py"⟩) = true ∧ ¬Glob.IsUsable "[" ∧
      (Imports.checkCycles files {} ["["] ⟨"a.py"⟩).map Imports.CycleReport.success = .ok false ∧
      (Unused.check files {} ["["] ⟨"a.py"⟩).success = true := by
  decide +kernel

end CodeFacts
