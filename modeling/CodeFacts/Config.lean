import CodeFacts.Failure
import CodeFacts.FileSystem.Basic
import CodeFacts.Glob.Excludes
import CodeFacts.Imports.Cycle
import CodeFacts.Text.Unicode
import CodeFacts.Unused.Analysis
import CodeFacts.Yaml.Value

/-!
# Configuration

What a project may set for all checks: the limits of the search for cycles, the patterns of files
to leave out, and the kinds of unused symbols to report. Everything is optional. The settings are
read from a file in the working directory or from one that is named.
-/

namespace CodeFacts

/-- The settings of a project. -/
structure Config where
  cycles : Imports.CycleLimits := {}
  exclude : List String := []
  unused : Unused.Options := {}
deriving DecidableEq, Repr, Inhabited

/-- Why there is no usable configuration. -/
inductive ConfigFault where
  | zeroCycleLength
  | zeroCycles
  | invalidPattern (pattern : String) (fault : Glob.PatternError)
  | unreadable (path : Path) (fault : FileFault)
  | malformed (path : Path) (fault : Yaml.Fault)
deriving DecidableEq, Repr, Inhabited

/-- The cause in words. -/
def ConfigFault.message : ConfigFault → String
  | zeroCycleLength => "circular.max_cycle_length must be at least 1"
  | zeroCycles => "circular.max_cycles must be at least 1"
  | invalidPattern pattern fault => Failure.patternMessage pattern fault
  | unreadable path fault => "failed to load " ++ path.text ++ ": " ++ fault.message
  | malformed path fault => "failed to load " ++ path.text ++ ": " ++ fault.message

namespace Config

open Yaml (Document readField)

/-- Reads the limits of the search for cycles. Other keys are passed over. -/
def readCycles (document : Document) (node : Yaml.Node) :
    Except Yaml.Fault Imports.CycleLimits := do
  let defaults : Imports.CycleLimits := {}
  let entries ← document.readEntries node
  let maxLength ← readField entries "max_cycle_length" defaults.maxLength document.readNumber
  let maxCycles ← readField entries "max_cycles" defaults.maxCycles document.readNumber
  return ⟨maxLength, maxCycles⟩

/-- Reads the kinds of unused symbols to report. Other keys are passed over. -/
def readUnused (document : Document) (node : Yaml.Node) :
    Except Yaml.Fault Unused.Options := do
  let defaults : Unused.Options := {}
  let entries ← document.readEntries node
  let parameters ←
    readField entries "unused_parameters" defaults.unusedParameters document.readFlag
  let locals ← readField entries "unused_locals" defaults.unusedLocals document.readFlag
  let privateFields ←
    readField entries "unused_private_fields" defaults.unusedPrivateFields document.readFlag
  return ⟨parameters, locals, privateFields⟩

/-- The sections of a configuration. -/
def sections : List String :=
  ["circular", "exclude", "dead_code"]

/-- The configuration that a document gives. A section that does not exist is refused. -/
def ofDocument (document : Document) : Except Yaml.Fault Config := do
  let defaults : Config := {}
  let entries ← document.readEntries document.root
  match entries.find? fun (key, _) => !sections.contains key with
  | some (key, _) => throw (.unknownKey key)
  | none =>
    let cycles ← readField entries "circular" defaults.cycles (readCycles document)
    let exclude ← readField entries "exclude" defaults.exclude document.readTexts
    let unused ← readField entries "dead_code" defaults.unused (readUnused document)
    return ⟨cycles, exclude, unused⟩

/-- The configuration that a text gives; a blank text sets nothing. -/
def ofText (text : String) : Except Yaml.Fault Config :=
  if (Text.trim text).isEmpty then .ok {}
  else do ofDocument (← Document.ofString text)

/-- The first exclude pattern that cannot be used. -/
def badPattern? (patterns : List String) : Option (String × Glob.PatternError) :=
  patterns.findSome? fun pattern =>
    match Glob.parse pattern with
    | .ok _ => none
    | .error fault => some (pattern, fault)

/-- What makes a configuration unusable, if anything does: a limit of zero or a bad pattern. -/
def problem? (config : Config) : Option ConfigFault :=
  if config.cycles.maxLength = 0 then some .zeroCycleLength
  else if config.cycles.maxCycles = 0 then some .zeroCycles
  else (badPattern? config.exclude).map fun (pattern, fault) => .invalidPattern pattern fault

/-- The names that a configuration file may have, in the order in which they are tried. -/
def fileNames : List String :=
  ["codelens.yaml", ".codelens.yaml"]

/-- The configuration file of a directory. -/
def discover? (files : FileSystem) (directory : Path) : Option Path :=
  (fileNames.map fun name => directory.join ⟨name⟩).find? files.isFile

/-- The configuration in a file. -/
def ofFile (files : FileSystem) (path : Path) : Except ConfigFault Config :=
  match files.readText path with
  | .error fault => .error (.unreadable path fault)
  | .ok text => (ofText text).mapError (.malformed path)

/-- The configuration of a named file, else of the file of a directory, else the default. It is
usable. -/
def load (files : FileSystem) (named : Option Path) (directory : Path) :
    Except ConfigFault Config := do
  let config ←
    match named.or (discover? files directory) with
    | some path => ofFile files path
    | none => pure {}
  match config.problem? with
  | some fault => throw fault
  | none => return config

end Config

end CodeFacts
