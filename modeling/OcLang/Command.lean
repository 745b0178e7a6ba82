import OcLang.Path
import OcLang.Files
import OcLang.Settings

namespace OcLang

/-! ## Commands

`check` compiles a tree and reports what is wrong with it; `build` also writes
the outputs. Both give a report of what to print and how to exit. -/

/-- What the command line asks of a build; it goes before the settings file. -/
structure BuildRequest where
  path : String
  outputDirectory : Option String := none
  emit : List OutputKind := []
  settingsFile : Option String := none
  warningsAsErrors : Bool := false
deriving DecidableEq, Repr

inductive Command where
  | build (request : BuildRequest)
  | check (path : String) (warningsAsErrors : Bool)
deriving DecidableEq, Repr

structure Report where
  code : UInt32
  stdout : String
  stderr : String
  tellsTime : Bool := false
deriving DecidableEq, Repr

/-! ### Failures -/

/-- A failed step: what it was and what caused it, the outermost first. -/
structure Failure where
  summary : String
  causes : List String := []
deriving DecidableEq, Repr

namespace Failure

private def numbered (number : Nat) : List String → List String
  | [] => []
  | cause :: rest => ("\n    " ++ number.repr ++ ": " ++ cause) :: numbered (number + 1) rest

def render (failure : Failure) : String :=
  "Error: " ++ failure.summary ++
    (match failure.causes with
      | [] => ""
      | [cause] => "\n\nCaused by:\n    " ++ cause
      | causes => "\n\nCaused by:" ++ String.join (numbered 0 causes)) ++ "\n"

end Failure

namespace Report

def failed (stdout : String) (failure : Failure) : Report :=
  { code := 1, stdout, stderr := failure.render }

/-- List the diagnostics and sum them up. Errors make the command fail. -/
def ofDiagnostics (stdout : String) (diagnostics : Diagnostics) : Report :=
  let errors := diagnostics.errors.length
  let warnings := diagnostics.warnings.length
  let listed := diagnostics.render ++
    (if warnings > 0 then "Warning: " ++ warnings.repr ++ " warnings found\n" else "")
  if errors > 0 then
    let failure : Failure := { summary := "Check failed with " ++ errors.repr ++ " errors" }
    { code := 1
      stdout
      stderr := listed ++ "Failed: " ++ errors.repr ++ " errors found\n" ++ failure.render }
  else
    { code := 0, stdout := stdout ++ "Success: No errors found\n", stderr := listed }

def output (report : Report) (time : String) : String :=
  report.stdout ++ (if report.tellsTime then "  Finished in " ++ time ++ "\n" else "")

end Report

namespace Command

variable {m : Type → Type} [Monad m] [Files m]

/-! ### Compiling a file -/

def compileFile (warningsAsErrors : Bool) (path : String) : m (Except Failure Outputs) := do
  match ← Files.read path with
  | .error error =>
      return .error { summary := "Failed to read " ++ path, causes := [error.message] }
  | .ok text =>
      match Tree.load text with
      | .error error =>
          return .error {
            summary := "In " ++ path
            causes := ["Failed to load tree", error.message] }
      | .ok tree => return .ok (compile warningsAsErrors tree)

def checkFile (path : String) (warningsAsErrors : Bool) : m Report := do
  let heading := "Checking " ++ path ++ "\n"
  match ← compileFile warningsAsErrors path with
  | .error failure => return .failed heading failure
  | .ok outputs => return .ofDiagnostics heading outputs.diagnostics

/-! ### Building -/

def settingsFileName : String := "occ.toml"

/-- The settings file to read: the one asked for, or the one beside the input. -/
def settingsFile (request : BuildRequest) : m (Option String) := do
  match request.settingsFile, Path.parent? request.path with
  | some file, _ => return some file
  | none, none => return none
  | none, some directory =>
      let candidate := Path.join directory settingsFileName
      if ← Files.isFile candidate then return some candidate else return none

/-- Read settings from a file. What is wrong with a file that is not understood
is not told. -/
def readSettings (path : String) : m (Except Failure Settings) := do
  match ← Files.read path with
  | .error error =>
      return .error { summary := "Failed to read config: " ++ path, causes := [error.message] }
  | .ok text =>
      match Settings.parse? text with
      | none => return .error { summary := "Failed to parse config: " ++ path }
      | some settings => return .ok settings

def applyRequest (request : BuildRequest) (settings : Settings) : Settings :=
  { emit := if request.emit.isEmpty then settings.emit else request.emit
    outputDirectory := request.outputDirectory.or settings.outputDirectory
    warningsAsErrors := settings.warningsAsErrors || request.warningsAsErrors }

def resolveSettings (request : BuildRequest) : m (Except Failure Settings) := do
  match ← settingsFile request with
  | none => return .ok (applyRequest request {})
  | some file =>
      match ← readSettings file with
      | .error failure => return .error failure
      | .ok settings => return .ok (applyRequest request settings)

def outputDirectory (path : String) (settings : Settings) : String :=
  match settings.outputDirectory with
  | some directory => directory
  | none => (Path.parent? path).getD "."

def writeOutputs (directory stem : String) (outputs : Outputs) :
    List OutputKind → m (Except Failure (List String))
  | [] => return .ok []
  | kind :: rest => do
      match outputs.get? kind with
      | none => writeOutputs directory stem outputs rest
      | some text =>
          let path := Path.join directory (stem ++ "." ++ kind.name)
          match ← Files.write path text with
          | .error error =>
              return .error { summary := "Failed to write " ++ path, causes := [error.message] }
          | .ok () =>
              match ← writeOutputs directory stem outputs rest with
              | .error failure => return .error failure
              | .ok written => return .ok (path :: written)

def makeOutputs (directory stem : String) (outputs : Outputs) (emit : List OutputKind) :
    m (Except Failure (List String)) := do
  match ← Files.makeDirectories directory with
  | .error error =>
      return .error {
        summary := "Failed to create output directory: " ++ directory
        causes := [error.message] }
  | .ok () => writeOutputs directory stem outputs emit

def outputLines (settings : Settings) (outputs : Outputs) (written : List String) : String :=
  String.join (written.map fun path => "  Wrote: " ++ path ++ "\n") ++
    (if !outputs.succeeded && settings.emits .oil then "  Skipped: oil not generated\n" else "")

def buildFile (request : BuildRequest) : m Report := do
  let heading := "Compiling " ++ request.path ++ "\n"
  match ← resolveSettings request with
  | .error failure => return .failed heading failure
  | .ok settings =>
      match Path.fileStem? request.path with
      | none =>
          return .failed heading { summary := "Input has no usable file name: " ++ request.path }
      | some stem =>
          match ← compileFile settings.warningsAsErrors request.path with
          | .error failure => return .failed heading failure
          | .ok outputs =>
              let directory := outputDirectory request.path settings
              match ← makeOutputs directory stem outputs settings.emit with
              | .error failure => return .failed heading failure
              | .ok written =>
                  let report := Report.ofDiagnostics
                    (heading ++ outputLines settings outputs written) outputs.diagnostics
                  return { report with tellsTime := report.code == 0 }

def run : Command → m Report
  | .build request => buildFile request
  | .check path warningsAsErrors => checkFile path warningsAsErrors

end Command

end OcLang
