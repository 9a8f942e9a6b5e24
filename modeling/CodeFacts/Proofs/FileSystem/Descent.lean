import CodeFacts.Proofs.FileSystem.Walk

/-!
# Files deep below a directory

A walk goes down through directories that are not skipped as long as they can be listed, and it finds
the files in the last of them by their names alone. The path of such a file may be too long to be
located, and then the file cannot be read.
-/

namespace CodeFacts

namespace Path

theorem mem_text_join {directory path : Path} {char : Char}
    (char_mem : char ∈ (directory.join path).text.toList) :
    char ∈ directory.text.toList ∨ char = '/' ∨ char ∈ path.text.toList := by
  unfold join at char_mem
  split at char_mem
  · exact Or.inr (Or.inr char_mem)
  split at char_mem
  · rw [String.toList_append, List.mem_append] at char_mem
    exact char_mem.imp id Or.inr
  · rw [String.toList_append, String.toList_append, List.mem_append, List.mem_append,
      or_assoc] at char_mem
    exact char_mem.imp id (Or.imp (by simp) id)

theorem null_notMem_join {directory path : Path} (directory_noNull : '\x00' ∉ directory.text.toList)
    (path_noNull : '\x00' ∉ path.text.toList) : '\x00' ∉ (directory.join path).text.toList := by
  intro null
  rcases mem_text_join null with before | slash | after
  · exact directory_noNull before
  · exact absurd slash (by decide)
  · exact path_noNull after

theorem size_join_le (directory path : Path) :
    (directory.join path).text.utf8ByteSize ≤
      directory.text.utf8ByteSize + 1 + path.text.utf8ByteSize := by
  have slash : "/".utf8ByteSize = 1 := by decide
  unfold join
  split
  · omega
  split
  · simp only [String.utf8ByteSize_append]
    omega
  · simp only [String.utf8ByteSize_append]
    omega

theorem le_size_join (directory : Path) {name : String} (isName : IsName name) :
    directory.text.utf8ByteSize + name.utf8ByteSize ≤
      (directory.join ⟨name⟩).text.utf8ByteSize := by
  unfold join
  rw [if_neg isName.not_isAbsolute]
  split
  · simp only [String.utf8ByteSize_append]
    omega
  · simp only [String.utf8ByteSize_append]
    omega

/-- The path that goes down from another by names. -/
def descend (path : Path) (names : List String) : Path :=
  names.foldl (fun path name => path.join ⟨name⟩) path

theorem IsTidy.descend {path : Path} (tidy : path.IsTidy) {names : List String}
    (isName : ∀ name ∈ names, IsName name) : (path.descend names).IsTidy := by
  induction names generalizing path with
  | nil => exact tidy
  | cons name names ih =>
      rw [List.forall_mem_cons] at isName
      exact ih (tidy.join isName.1) isName.2

theorem le_size_descend (path : Path) {names : List String} {least : Nat}
    (isName : ∀ name ∈ names, IsName name ∧ least ≤ name.utf8ByteSize) :
    path.text.utf8ByteSize + names.length * least ≤ (path.descend names).text.utf8ByteSize := by
  induction names generalizing path with
  | nil => simp [descend]
  | cons name names ih =>
      rw [List.forall_mem_cons] at isName
      have first := path.le_size_join isName.1.1
      have long := isName.1.2
      have others := ih (path.join ⟨name⟩) isName.2
      rw [List.length_cons, Nat.succ_mul]
      change _ ≤ ((path.join ⟨name⟩).descend names).text.utf8ByteSize
      omega

theorem size_replicate (count : Nat) {letter : Char} (ascii : letter.utf8Size = 1) :
    (String.ofList (List.replicate count letter)).utf8ByteSize = count := by
  induction count with
  | zero => rfl
  | succ count ih =>
      rw [List.replicate_succ, String.ofList_cons, String.utf8ByteSize_append,
        String.utf8ByteSize_singleton, ascii, ih, Nat.add_comm]

theorem eq_of_mem_replicate {count : Nat} {letter char : Char}
    (char_mem : char ∈ (String.ofList (List.replicate count letter)).toList) : char = letter := by
  rw [String.toList_ofList] at char_mem
  exact List.eq_of_mem_replicate char_mem

end Path

namespace FileSystem

theorem pathFault?_eq_none {path : Path} (noNull : '\x00' ∉ path.text.toList)
    (some : path.text ≠ "") (short : path.text.utf8ByteSize ≤ pathLimit) :
    pathFault? path = none := by
  unfold pathFault?
  rw [if_neg (by simpa using noNull), if_neg (by simpa using some), if_neg (by omega)]

/-- Nothing can be read by a path that is too long. -/
theorem canRead_of_pathLimit_lt {path : Path} (long : pathLimit < path.text.utf8ByteSize)
    (files : FileSystem) : files.canRead path = false := by
  have faulty : pathFault? path ≠ none := by
    unfold pathFault?
    rw [if_pos long]
    split
    · simp
    · split <;> simp
  rcases Option.ne_none_iff_exists'.mp faulty with ⟨fault, faulty⟩
  unfold canRead read locate
  rw [faulty]
  rfl

variable {files : FileSystem}

/-- Directories lead down from a location, none of them is skipped, and all can be listed by their
paths. -/
inductive LeadsDown (files : FileSystem) : Location → Path → List String → Prop where
  | here {location : Location} {path : Path} (listable : files.IsListable path location) :
      LeadsDown files location path []
  | down {location : Location} {path : Path} {name : String} {names : List String}
      (listable : files.IsListable path location)
      (directory : (location ++ [name], Entry.directory) ∈ files.entries)
      (kept : name ∉ skippedDirectories)
      (below : LeadsDown files (location ++ [name]) (path.join ⟨name⟩) names) :
      LeadsDown files location path (name :: names)

/-- A way down by directories that are there, if the path stays short enough. -/
theorem leadsDown_of_directories (readable : files.unreadable = []) {location : Location}
    {path : Path} {names : List String} (tidy : path.IsTidy) (noNull : '\x00' ∉ path.text.toList)
    {most : Nat} (short : path.text.utf8ByteSize + names.length * (most + 1) ≤ pathLimit)
    (isName : ∀ name ∈ names, Path.IsName name ∧ name.utf8ByteSize ≤ most ∧
      '\x00' ∉ name.toList ∧ name ∉ skippedDirectories)
    (directories : ∀ front, front ≠ [] → front <+: names →
      (location ++ front, Entry.directory) ∈ files.entries) :
    files.LeadsDown location path names := by
  have readable : ∀ location, files.isUnreadable location = false := by
    simp [isUnreadable, readable]
  induction names generalizing location path with
  | nil =>
      have fits := pathFault?_eq_none noNull tidy.text_ne_empty (by simpa using short)
      exact .here ⟨fits, readable location⟩
  | cons name names ih =>
      rw [List.length_cons, Nat.succ_mul] at short
      rcases List.forall_mem_cons.mp isName with ⟨⟨named, nameShort, nameNoNull, kept⟩, others⟩
      have longer := path.size_join_le ⟨name⟩
      have fits := pathFault?_eq_none noNull tidy.text_ne_empty (by omega)
      refine .down ⟨fits, readable location⟩ ?_ kept ?_
      · exact directories [name] (by simp) (by simp)
      · refine ih (tidy.join named) (Path.null_notMem_join noNull nameNoNull) ?_ others ?_
        · dsimp only at longer
          omega
        · intro front _ isPrefix
          rw [List.append_assoc, List.singleton_append]
          exact directories (name :: front) (by simp) (List.cons_prefix_cons.mpr ⟨rfl, isPrefix⟩)

theorem filesThrough_subset {entered : List Location} {location : Location} {path : Path}
    {fuel : Nat} (listable : files.IsListable path location) {found : String × Entry}
    (found_mem : found ∈ files.list location) :
    files.filesThrough entered location path fuel found ⊆
      files.filesBelow entered location path (fuel + 1) := by
  intro inner inner_mem
  rw [listable.filesBelow_succ]
  exact List.mem_flatMap.mpr ⟨found, found_mem, inner_mem⟩

/-- A walk finds the files of every directory that it can go down to. -/
theorem LeadsDown.mem_filesBelow {location : Location} {path : Path} {names : List String}
    (leads : files.LeadsDown location path names) {file : String} {source : SourceFile}
    (file_mem : (location ++ names ++ [file], Entry.file source) ∈ files.entries)
    {fuel : Nat} (enough : names.length < fuel) (entered : List Location) :
    (path.descend names).join ⟨file⟩ ∈ files.filesBelow entered location path fuel := by
  induction leads generalizing fuel entered with
  | here listable =>
      cases fuel with
      | zero => simp at enough
      | succ fuel =>
          rw [List.append_nil] at file_mem
          refine filesThrough_subset listable (mem_list_of_mem_entries file_mem) ?_
          exact List.mem_singleton.mpr rfl
  | @down location path name names listable directory kept below ih =>
      cases fuel with
      | zero => simp at enough
      | succ fuel =>
          refine filesThrough_subset listable (mem_list_of_mem_entries directory) ?_
          have entersBelow : files.filesThrough entered location path fuel (name, .directory) =
              files.filesBelow (location :: entered) (location ++ [name]) (path.join ⟨name⟩)
                fuel :=
            if_neg (by simpa using kept)
          rw [entersBelow]
          refine ih ?_ ?_ _
          · rwa [List.append_assoc location, List.singleton_append]
          · simpa using enough

theorem locate_root (files : FileSystem) : files.locate ⟨"/"⟩ = .ok [] := by
  have fault : pathFault? ⟨"/"⟩ = none := by decide
  have segments : (files.workingDirectory.join ⟨"/"⟩).segmentTexts = ["", ""] := by
    rw [Path.join, if_pos (by decide)]
    decide
  unfold locate
  rw [fault, segments]
  rfl

theorem isDirectory_root (files : FileSystem) : files.isDirectory ⟨"/"⟩ = true := by
  unfold isDirectory lookup
  rw [locate_root]
  rfl

theorem walk_root (readable : files.isUnreadable [] = false) :
    files.walk ⟨"/"⟩ = .ok (files.filesBelow [] [] ⟨"/"⟩ files.walkFuel) := by
  unfold walk
  rw [locate_root]
  change (if files.isUnreadable [] = true then _ else _) = _
  rw [readable]
  rfl

theorem sourceFiles_root (readable : files.isUnreadable [] = false) (excluded : Path → Bool)
    (accept : Language → Bool) :
    files.sourceFiles ⟨"/"⟩ excluded accept =
      .ok (((files.filesBelow [] [] ⟨"/"⟩ files.walkFuel).filter
        (isWanted ⟨"/"⟩ excluded accept)).mergeSort Path.le) := by
  have normal : Path.normalize ⟨"/"⟩ = ⟨"/"⟩ := by decide
  have walked : files.walk (Path.normalize ⟨"/"⟩) = .ok _ := normal ▸ walk_root readable
  rw [sourceFiles_of_walk walked, normal]

/-- A file name with the extension of a module. -/
def deepFileName : String :=
  "module_behind_a_path_that_is_too_long.ts"

/-- A name that is one byte shorter than a name may be. -/
def longName : String :=
  String.ofList (List.replicate 254 'd')

theorem size_longName : longName.utf8ByteSize = 254 :=
  Path.size_replicate 254 (by decide)

theorem eq_of_mem_longName {char : Char} (char_mem : char ∈ longName.toList) : char = 'd' :=
  Path.eq_of_mem_replicate char_mem

theorem isName_longName : Path.IsName longName := by
  refine ⟨?_, ?_, ?_, fun slash => absurd (eq_of_mem_longName slash) (by decide)⟩
  all_goals
    intro short
    have size := size_longName
    rw [short] at size
    exact absurd size (by decide)

theorem longName_notMem_skippedDirectories : longName ∉ skippedDirectories := by
  have short : ∀ text ∈ skippedDirectories, text.utf8ByteSize ≠ 254 := by decide
  exact fun skipped => short longName skipped size_longName

/-- Sixteen directories of one long name in each other, and a module in the last. -/
def deepEntries : List (Location × Entry) :=
  (List.range 16).map (fun depth => (List.replicate (depth + 1) longName, .directory)) ++
    [(List.replicate 16 longName ++ [deepFileName], .file ⟨ByteArray.empty, Node.empty⟩)]

theorem nodup_deepEntries : (deepEntries.map Prod.fst).Nodup := by
  have lengths : ((deepEntries.map Prod.fst).map List.length).Nodup := by
    have counted : (deepEntries.map Prod.fst).map List.length =
        (List.range 16).map (· + 1) ++ [17] := by
      simp [deepEntries, Function.comp_def]
    rw [counted]
    decide
  exact lengths.of_map _

theorem names_deepEntries : ∀ entry ∈ deepEntries, ∀ name ∈ entry.1, Path.IsName name := by
  intro entry entry_mem name name_mem
  rcases List.mem_append.mp entry_mem with directory | file
  · rcases List.mem_map.mp directory with ⟨depth, -, rfl⟩
    rw [List.eq_of_mem_replicate name_mem]
    exact isName_longName
  · rw [List.mem_singleton.mp file] at name_mem
    rcases List.mem_append.mp name_mem with above | last
    · rw [List.eq_of_mem_replicate above]
      exact isName_longName
    · rw [List.mem_singleton.mp last]
      decide

/-- The file system of the directories and the module. -/
def deepTree : FileSystem where
  entries := deepEntries
  workingDirectory := ⟨"/"⟩
  distinct := nodup_deepEntries
  names := names_deepEntries

/-- The path of the module. -/
def deepFile : Path :=
  (Path.descend ⟨"/"⟩ (List.replicate 16 longName)).join ⟨deepFileName⟩

/-- The module is wanted for its name. -/
theorem isWanted_deepFile :
    isWanted ⟨"/"⟩ (fun _ => false) Language.isEcmaScript deepFile = true := by
  have names : ∀ other ∈ List.replicate 16 longName, Path.IsName other :=
    List.forall_mem_replicate.mpr (Or.inr isName_longName)
  have tidy : (Path.descend ⟨"/"⟩ (List.replicate 16 longName)).IsTidy :=
    Path.IsTidy.descend (by decide) names
  have named : deepFile.fileName? = some deepFileName := by
    rw [Path.fileName?, deepFile, tidy.components_join (by decide), List.getLast?_concat]
  have known : Language.ofPath? deepFile = some .typeScript := by
    rw [Language.ofPath?, Path.extension?, named]
    decide
  unfold isWanted
  rw [known]
  rfl

/-- The module cannot be read by its path. -/
theorem canRead_deepFile (files : FileSystem) : files.canRead deepFile = false := by
  have names : ∀ other ∈ List.replicate 16 longName,
      Path.IsName other ∧ 254 ≤ other.utf8ByteSize :=
    List.forall_mem_replicate.mpr (Or.inr ⟨isName_longName, Nat.le_of_eq size_longName.symm⟩)
  have directory_size := Path.le_size_descend ⟨"/"⟩ names
  have file_size := (Path.descend ⟨"/"⟩ (List.replicate 16 longName)).le_size_join
    (show Path.IsName deepFileName by decide)
  have last : deepFileName.utf8ByteSize = 40 := by decide
  refine canRead_of_pathLimit_lt ?_ files
  rw [List.length_replicate] at directory_size
  rw [last] at file_size
  unfold pathLimit deepFile
  omega

/-- A walk from the root goes down to the module. -/
theorem deepFile_mem_filesBelow :
    deepFile ∈ deepTree.filesBelow [] [] ⟨"/"⟩ deepTree.walkFuel := by
  have noNull : '\x00' ∉ longName.toList :=
    fun null => absurd (eq_of_mem_longName null) (by decide)
  have names : ∀ other ∈ List.replicate 16 longName,
      Path.IsName other ∧ other.utf8ByteSize ≤ 254 ∧ '\x00' ∉ other.toList ∧
        other ∉ skippedDirectories :=
    List.forall_mem_replicate.mpr (Or.inr ⟨isName_longName, Nat.le_of_eq size_longName, noNull,
      longName_notMem_skippedDirectories⟩)
  have leads : deepTree.LeadsDown [] ⟨"/"⟩ (List.replicate 16 longName) := by
    refine leadsDown_of_directories rfl (by decide) (by decide) ?_ names ?_
    · rw [List.length_replicate]
      decide
    · intro front some isPrefix
      rcases List.prefix_replicate_iff.mp isPrefix with ⟨bounded, same⟩
      have positive := List.length_pos_of_ne_nil some
      refine List.mem_append_left _ (List.mem_map.mpr ⟨front.length - 1, ?_, ?_⟩)
      · exact List.mem_range.mpr (by omega)
      · rw [Nat.sub_add_cancel positive, ← same]
        rfl
  have file_mem : ([] ++ List.replicate 16 longName ++ [deepFileName],
      Entry.file ⟨ByteArray.empty, Node.empty⟩) ∈ deepTree.entries :=
    List.mem_append_right _ (List.mem_singleton.mpr rfl)
  exact leads.mem_filesBelow file_mem (by simp [walkFuel, deepTree, deepEntries]) []

end FileSystem

end CodeFacts
