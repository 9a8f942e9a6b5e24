import CodeFacts.CommandLine.Invocation
import CodeFacts.Config
import CodeFacts.Path.Normal
import CodeFacts.Report.Page
import CodeFacts.Report.Record

/-!
# Running an invocation

An invocation is run on a file system and gives what is printed and the exit code: 0 if nothing is
wrong, 1 if a check found something, 2 if it could not be carried out. A run that is aborted leaves
none of this behind.
-/

namespace CodeFacts.CommandLine

/-- What a run leaves behind. -/
structure Outcome where
  exitCode : Nat
  output : String
  errors : String
deriving DecidableEq, Repr, Inhabited

namespace Outcome

/-- A run that could not be carried out. -/
def failed (message : String) : Outcome :=
  ⟨2, "", "Error: " ++ message ++ "\n"⟩

/-- The exit code of a check. -/
def checkCode (success clean : Bool) : Nat :=
  if !success then 2 else if clean then 0 else 1

end Outcome

/-- Where and for whom an invocation runs. -/
structure Setting where
  files : FileSystem
  terminal : Report.Terminal
  format : Format
deriving Inhabited

namespace Setting

/-- A result in the form that is asked for. -/
def present (setting : Setting) (command target : String) (record : Report.Json) (page : String) :
    String :=
  match setting.format with
  | .json => (Report.envelope command target record).render ++ "\n"
  | .pretty => page

/-- A path from the root of the file system. -/
def absolute (setting : Setting) (path : Path) : Path :=
  Path.absolute setting.files.workingDirectory path

/-- Runs a check for import cycles. What the arguments say goes before the configuration, whose
exclude patterns stay in force. -/
def runCycles (setting : Setting) (config : Config) (request : CyclesRequest) :
    Except Imports.Abort Outcome :=
  let limits : Imports.CycleLimits :=
    ⟨request.maxLength.getD config.cycles.maxLength, request.maxCycles.getD config.cycles.maxCycles⟩
  let effective := { config with cycles := limits, exclude := config.exclude ++ request.exclude }
  match effective.problem? with
  | some fault => .ok (.failed fault.message)
  | none => do
    let report ← Imports.checkCycles setting.files limits effective.exclude request.target
    let target := request.target.text
    return ⟨Outcome.checkCode report.success report.issues.isEmpty,
      setting.present "circular" target (Report.cycleReportRecord report)
        (Report.cyclePage setting.terminal target report), ""⟩

/-- Runs a check for unused symbols. A kind is reported if neither the configuration nor the
arguments rule it out. -/
def runUnused (setting : Setting) (config : Config) (request : UnusedRequest) : Outcome :=
  let options : Unused.Options :=
    ⟨config.unused.unusedParameters && !request.noParameters,
      config.unused.unusedLocals && !request.noLocals,
      config.unused.unusedPrivateFields && !request.noFields⟩
  let report :=
    Unused.check setting.files options (config.exclude ++ request.exclude) request.target
  let target := request.target.text
  ⟨Outcome.checkCode report.success report.issues.isEmpty,
    setting.present "dead-code" target (Report.unusedReportRecord report)
      (Report.unusedPage setting.terminal target (setting.absolute request.target) report), ""⟩

/-- The root of a project: the one given, else the directory of a file. -/
def projectRoot? (setting : Setting) (file : Path) (root : Option Path) : Option Path :=
  match root with
  | some root => some (setting.absolute root)
  | none => file.parent?

/-- Opens a session at the root of a file's project and asks it something. The file is shown as it
was given where it cannot be handled. -/
def withSession (setting : Setting) (given : Path) (root : Option Path)
    (ask : Path → Path → Calls.Session → Except Failure Outcome) : Outcome :=
  let file := setting.absolute given
  match setting.projectRoot? file root with
  | none => .failed (file.text ++ " has no parent directory")
  | some root =>
    if Calls.Session.supports file then
      match Calls.Session.new.openAt setting.files root with
      | (.error failure, _) => .failed failure.fullMessage
      | (.ok _, session) =>
        match ask file root session with
        | .ok outcome => outcome
        | .error failure => .failed failure.fullMessage
    else .failed ("no call-graph adapter handles " ++ given.text)

/-- Lists the symbols of a file. -/
def runSymbols (setting : Setting) (request : SymbolsRequest) : Outcome :=
  setting.withSession request.file request.root fun file _ session => do
    let symbols ← (session.symbols setting.files file).1
    let target := request.file.text
    return ⟨0, setting.present "symbols" target (.list (symbols.map Report.symbolRecord))
      (Report.symbolsPage setting.terminal target symbols), ""⟩

/-- Loads the files below a root, if that is wanted. -/
def prepare (setting : Setting) (config : Config) (request : CallsRequest) (root : Path)
    (session : Calls.Session) : Except Failure Calls.Session :=
  if request.preload then
    match session.preload setting.files root config.exclude with
    | (.ok _, session) => .ok session
    | (.error failure, _) => .error failure
  else .ok session

/-- Answers a question about calls. -/
def runCalls (setting : Setting) (config : Config) (request : CallsRequest) : Outcome :=
  if request.position.line == 0 || request.position.column == 0 then
    .failed "line and column are 1-based"
  else
    setting.withSession request.file request.root fun file root session => do
      let session ← setting.prepare config request root session
      let answer ← (session.ask setting.files request.direction ⟨file, request.position⟩).1
      let target := request.file.text ++ ":" ++ request.position.label
      return ⟨0, setting.present "calls" target (Report.answerRecord answer)
        (Report.answerPage setting.terminal target root answer), ""⟩

end Setting

/-- Runs an invocation with the configuration that holds in the working directory. -/
def Invocation.run (invocation : Invocation) (files : FileSystem) (terminal : Report.Terminal) :
    Except Imports.Abort Outcome :=
  match Config.load files invocation.config files.workingDirectory with
  | .error fault => .ok (.failed ("invalid configuration: " ++ fault.message))
  | .ok config =>
    let setting : Setting := ⟨files, terminal, invocation.format⟩
    match invocation.request with
    | .cycles request => setting.runCycles config request
    | .unused request => .ok (setting.runUnused config request)
    | .symbols request => .ok (setting.runSymbols request)
    | .calls request => .ok (setting.runCalls config request)

end CodeFacts.CommandLine
