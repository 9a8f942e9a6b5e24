import CodeFacts.FileSystem.Basic
import Mathlib.Data.List.Basic

/-!
# File systems that agree

Two file systems have the same directories if the same paths lead to directories, links followed.
A file that is put where nothing stood changes no directory: a path that goes on below it could not
be located before and cannot be located now.
-/

namespace CodeFacts.FileSystem

/-- The same paths lead to directories, and the program runs in the same one. -/
structure SameDirectories (first second : FileSystem) : Prop where
  workingDirectory : first.workingDirectory = second.workingDirectory
  isDirectory : ∀ path, first.isDirectory path = second.isDirectory path

/-- Whether a path leads to a file that can be read. -/
def canRead (files : FileSystem) (path : Path) : Bool :=
  (files.read path).isOk

theorem canRead_iff (files : FileSystem) (path : Path) :
    files.canRead path = true ↔ ∃ source, files.read path = .ok source := by
  unfold canRead
  cases files.read path <;> simp [Except.isOk, Except.toBool]

/-- A path is read if it leads to a file that may be read. -/
theorem read_eq_ok_iff (files : FileSystem) (path : Path) (source : SourceFile) :
    files.read path = .ok source ↔
      ∃ location, files.locate path = .ok location ∧
        files.entry? location = some (.file source) ∧ files.isUnreadable location = false := by
  unfold read readAt
  cases files.locate path with
  | error fault => simp
  | ok location =>
      simp only [Except.ok.injEq, exists_eq_left']
      cases files.entry? location with
      | none => simp
      | some entry => cases files.isUnreadable location <;> cases entry <;> simp

theorem isFile_of_read {files : FileSystem} {path : Path} {source : SourceFile}
    (read : files.read path = .ok source) : files.isFile path = true := by
  rcases (files.read_eq_ok_iff path source).mp read with ⟨location, located, stands, -⟩
  simp [isFile, lookup, located, stands]

/-- A path leads to the same source in both, or in neither of them to one that can be read. -/
def AgreeAt (first second : FileSystem) (path : Path) : Prop :=
  (first.read path).toOption = (second.read path).toOption

theorem isDirectory_iff (files : FileSystem) (path : Path) : files.isDirectory path = true ↔
    ∃ location, files.locate path = .ok location ∧ files.isDirectoryAt location = true := by
  unfold isDirectory lookup isDirectoryAt
  cases files.locate path with
  | error fault => simp
  | ok location =>
      simp only [Except.ok.injEq, exists_eq_left']
      cases files.entry? location with
      | none => simp
      | some entry => cases entry <;> simp

theorem isFile_of_isDirectory {files : FileSystem} {path : Path}
    (directory : files.isDirectory path = true) : files.isFile path = false := by
  unfold isDirectory at directory
  unfold isFile
  split at directory
  · rename_i found
    rw [found]
  · contradiction

section NewFile

variable {files : FileSystem} {place : Location} (proper : ∀ name ∈ place, Path.IsName name)

include proper

theorem put_entries (entry : Entry) :
    (files.put place entry).entries = (place, entry) :: files.entriesBut place := by
  rw [put, dif_pos proper]

omit proper in
theorem put_workingDirectory (files : FileSystem) (place : Location) (entry : Entry) :
    (files.put place entry).workingDirectory = files.workingDirectory := by
  unfold put
  split <;> rfl

omit proper in
theorem isUnreadable_put (files : FileSystem) (place : Location) (entry : Entry) :
    (files.put place entry).isUnreadable = files.isUnreadable := by
  unfold put
  split <;> rfl

theorem entry?_put_of_fresh (fresh : files.entry? place = none) (entry : Entry)
    (location : Location) :
    entry? (files.put place entry) location =
      if location = place then some entry else files.entry? location := by
  unfold entry? at *
  rw [put_entries proper]
  cases location with
  | nil =>
      cases place with
      | nil => simp at fresh
      | cons name names => simp
  | cons name names =>
      by_cases here : name :: names = place
      · simp [← here]
      · have others : (fun other : Location × Entry =>
            decide ((other.1 != place) = true ∧ (other.1 == name :: names) = true)) =
              fun other => other.1 == name :: names := by
          funext other
          by_cases same : other.1 = name :: names <;> simp [same, here]
        simp only [List.isEmpty_cons, List.find?_cons, entriesBut, List.find?_filter, others, here,
          if_false, beq_eq_false_iff_ne.mpr (Ne.symm here), Bool.false_eq_true]

variable (fresh : files.entry? place = none) (source : SourceFile)

include fresh

theorem isDirectoryAt_put_file (location : Location) :
    (files.put place (.file source)).isDirectoryAt location = files.isDirectoryAt location := by
  unfold isDirectoryAt
  rw [entry?_put_of_fresh proper fresh]
  by_cases here : location = place
  · simp [here, fresh]
  · simp [here]

/-- Any place but that of the new file is reached as before. -/
theorem followSegments_put_file
    {expand expands : Location → List String → Except FileFault Location} {final : Location} (elsewhere : final ≠ place)
    (expansions : ∀ start segments, expand start segments = .ok final ↔
      expands start segments = .ok final) (location : Location) (segments : List String) :
    files.followSegments false expand location segments = .ok final ↔
      (files.put place (.file source)).followSegments false expands location segments =
        .ok final := by
  induction segments generalizing location with
  | nil => rfl
  | cons segment rest ih =>
      unfold followSegments
      rw [isDirectoryAt_put_file proper fresh, entry?_put_of_fresh proper fresh]
      by_cases here : location ++ [segment] = place
      · -- From the new file no segment leads on.
        have stuck : (files.put place (.file source)).followSegments false expands place rest ≠
            .ok final := by
          intro arrives
          cases rest with
          | nil =>
              cases arrives
              exact elsewhere rfl
          | cons next others =>
              have closed : files.isDirectoryAt place = false := by simp [isDirectoryAt, fresh]
              unfold followSegments at arrives
              simp [isDirectoryAt_put_file proper fresh, closed] at arrives
        simp only [here, fresh, if_true]
        split_ifs <;> simp_all
      · simp only [here, if_false, Bool.false_and, Bool.false_eq_true]
        split_ifs
        · rfl
        · exact ih _
        · exact ih _
        · rfl
        · cases files.entry? (location ++ [segment]) with
          | none => rfl
          | some entry =>
              cases entry with
              | link target => exact expansions _ _
              | _ => exact ih _

theorem follow_put_file {final : Location} (elsewhere : final ≠ place)
    (links : Nat) (location : Location) (segments : List String) :
    files.follow false links location segments = .ok final ↔
      (files.put place (.file source)).follow false links location segments = .ok final := by
  induction links generalizing location segments with
  | zero => exact followSegments_put_file proper fresh source elsewhere (fun _ _ => Iff.rfl) _ _
  | succ links ih => exact followSegments_put_file proper fresh source elsewhere ih _ _

theorem locate_put_file {final : Location} (elsewhere : final ≠ place) (path : Path) :
    files.locate path = .ok final ↔
      (files.put place (.file source)).locate path = .ok final := by
  unfold locate
  rw [put_workingDirectory]
  cases pathFault? path with
  | some fault => simp
  | none => exact follow_put_file proper fresh source elsewhere _ _ _

/-- A file where nothing stood makes and hides no directory. -/
theorem sameDirectories_put_file : files.SameDirectories (files.put place (.file source)) := by
  refine ⟨(files.put_workingDirectory place _).symm, ?_⟩
  intro path
  rw [Bool.eq_iff_iff, isDirectory_iff, isDirectory_iff]
  refine exists_congr fun location => ?_
  rw [isDirectoryAt_put_file proper fresh]
  refine and_congr_left fun directory => ?_
  refine locate_put_file proper fresh source ?_ path
  rintro rfl
  simp [isDirectoryAt, fresh] at directory

theorem agreeAt_put_file {path : Path} {location : Location}
    (located : files.locate path = .ok location) (elsewhere : location ≠ place) :
    files.AgreeAt (files.put place (.file source)) path := by
  have located_too := (locate_put_file proper fresh source elsewhere path).mp located
  unfold AgreeAt read readAt
  rw [located, located_too, isUnreadable_put]
  simp only [entry?_put_of_fresh proper fresh, elsewhere, if_false]

end NewFile
end CodeFacts.FileSystem
