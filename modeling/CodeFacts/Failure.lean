import CodeFacts.Glob.Expression
import CodeFacts.Glob.Pattern
import CodeFacts.Path.Basic
import CodeFacts.Text.Quoted

/-!
# Failures

Why a file cannot be reached, and why an analysis cannot be carried out. The wording of every
cause stands here.
-/

namespace CodeFacts

/-- Why the file system refuses a request. -/
inductive FileFault where
  | noSuchEntry
  | notDirectory
  | isDirectory
  /-- A file may not be read, or a directory may not be listed. -/
  | permissionDenied
  | tooManyLinks
  /-- A name is longer than a file system allows. -/
  | nameTooLong
  /-- A path holds a null character. -/
  | nullInPath
  /-- A text file holds bytes that are not UTF-8. -/
  | notText
  /-- The target of a check does not exist. -/
  | noSuchTarget
  /-- The root of a session is not a directory. -/
  | rootNotDirectory
deriving DecidableEq, Repr, Inhabited

/-- The cause in words. -/
def FileFault.message : FileFault → String
  | noSuchEntry => "No such file or directory (os error 2)"
  | notDirectory => "Not a directory (os error 20)"
  | isDirectory => "Is a directory (os error 21)"
  | permissionDenied => "Permission denied (os error 13)"
  | tooManyLinks => "Too many levels of symbolic links (os error 40)"
  | nameTooLong => "File name too long (os error 36)"
  | nullInPath => "file name contained an unexpected NUL byte"
  | notText => "stream did not contain valid UTF-8"
  | noSuchTarget => "no such file or directory"
  | rootNotDirectory => "not a directory"

/-- Why an analysis cannot be carried out. -/
inductive Failure where
  | io (path : Path) (fault : FileFault)
  | unsupportedFile (path : Path)
  | unknownLanguage (name : String)
  | invalidPattern (pattern : String) (fault : Glob.PatternError)
  /-- One pattern of a list is nested too deep. -/
  | nestedPatterns (patterns : List String) (fault : Glob.NestingFault)
  | notInitialized
deriving DecidableEq, Repr, Inhabited

namespace Failure

/-- Where the text of an exclude pattern is wrong. -/
def patternFault (pattern : String) (fault : Glob.PatternError) : String :=
  "error parsing glob '" ++ pattern ++ "': " ++ fault.message

/-- What is wrong with an exclude pattern. -/
def patternMessage (pattern : String) (fault : Glob.PatternError) : String :=
  "invalid exclude pattern " ++ Text.quote pattern ++ ": " ++ patternFault pattern fault

/-- The cause in words. -/
def message : Failure → String
  | io path fault => "I/O error at " ++ path.text ++ ": " ++ fault.message
  | unsupportedFile path => "no analyzer handles " ++ path.text
  | unknownLanguage name => "unknown language: " ++ name
  | invalidPattern pattern fault => patternMessage pattern fault
  | nestedPatterns patterns fault =>
    "invalid exclude pattern " ++ Text.quote (", ".intercalate patterns) ++ ": " ++ fault.message
  | notInitialized => "call graph adapter used before initialize()"

theorem message_io (path : Path) (fault : FileFault) :
    (io path fault).message = "I/O error at " ++ path.text ++ ": " ++ fault.message :=
  rfl

/-- The cause in words as shown at the end of a failed run, with what lies beneath it. -/
def fullMessage (failure : Failure) : String :=
  match failure with
  | io _ fault => failure.message ++ ": " ++ fault.message
  | invalidPattern pattern fault => failure.message ++ ": " ++ patternFault pattern fault
  | nestedPatterns _ fault => failure.message ++ ": " ++ fault.message
  | _ => failure.message

end Failure

end CodeFacts
