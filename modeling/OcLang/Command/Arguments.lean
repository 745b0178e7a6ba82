import OcLang.Command

namespace OcLang.Command

/-! ## Command-line arguments

Options and the path of the input may come in any order after the name of the
command. After two dashes everything is a path. Arguments that make no sense
are refused as a whole. -/

structure Arguments where
  path : Option String := none
  outputDirectory : Option String := none
  emit : List OutputKind := []
  settingsFile : Option String := none
  warningsAsErrors : Bool := false
deriving Inhabited

inductive CommandName where
  | build
  | check
deriving DecidableEq

/-- Options that take a value; only builds have them. -/
inductive ValueOption where
  | outputDirectory
  | emit
  | settingsFile

def valueOption? : String → Option ValueOption
  | "out-dir" => some .outputDirectory
  | "emit" => some .emit
  | "config" => some .settingsFile
  | _ => none

def commaSeparated : List Char → List (List Char)
  | [] => [[]]
  | ',' :: rest => [] :: commaSeparated rest
  | c :: rest =>
      match commaSeparated rest with
      | [] => [[c]]
      | first :: others => (c :: first) :: others

/-- Paths must not be empty and are given at most once; outputs may be asked for
again and again. -/
def setOption (arguments : Arguments) (value : String) : ValueOption → Option Arguments
  | .outputDirectory =>
      if value.isEmpty || arguments.outputDirectory.isSome then none
      else some { arguments with outputDirectory := some value }
  | .settingsFile =>
      if value.isEmpty || arguments.settingsFile.isSome then none
      else some { arguments with settingsFile := some value }
  | .emit => do
      let kinds ← (commaSeparated value.toList).mapM fun name =>
        OutputKind.ofName? (String.ofList name)
      return { arguments with emit := arguments.emit ++ kinds }

def setPath (arguments : Arguments) (value : String) : Option Arguments :=
  if value.isEmpty || arguments.path.isSome then none
  else some { arguments with path := some value }

def setFlag (arguments : Arguments) : Option Arguments :=
  if arguments.warningsAsErrors then none else some { arguments with warningsAsErrors := true }

inductive Shape where
  | endOfOptions
  | long (name : String) (value : Option String)
  | short (letters : List Char)
  | plain (text : String)

def shapeOf (argument : String) : Shape :=
  match argument.toList with
  | ['-', '-'] => .endOfOptions
  | '-' :: '-' :: rest =>
      let (name, value) := rest.span (· != '=')
      .long (String.ofList name) (value.tail?.map String.ofList)
  | '-' :: letter :: letters => .short (letter :: letters)
  | _ => .plain argument

def isVerbose (letters : List Char) : Bool :=
  letters.all (· == 'v')

def readPaths (arguments : Arguments) : List String → Option Arguments
  | [] => some arguments
  | path :: rest => do readPaths (← setPath arguments path) rest

def readArguments (command : CommandName) (arguments : Arguments) : List String → Option Arguments
  | [] => some arguments
  | argument :: rest =>
      match shapeOf argument with
      | .endOfOptions => readPaths arguments rest
      | .short letters => if isVerbose letters then readArguments command arguments rest else none
      | .plain path => do readArguments command (← setPath arguments path) rest
      | .long "verbose" none => readArguments command arguments rest
      | .long "warnings-as-errors" none => do
          readArguments command (← setFlag arguments) rest
      | .long name value => do
          let option ← valueOption? name
          if command = .check then none
          else match value, rest with
            | some value, rest => readArguments command (← setOption arguments value option) rest
            | none, [] => none
            | none, next :: rest =>
                match shapeOf next with
                | .plain value => readArguments command (← setOption arguments value option) rest
                | _ => none

def ofArguments? : List String → Option Command
  | [] => none
  | "build" :: rest => do
      let arguments ← readArguments .build {} rest
      return .build {
        path := ← arguments.path
        outputDirectory := arguments.outputDirectory
        emit := arguments.emit
        settingsFile := arguments.settingsFile
        warningsAsErrors := arguments.warningsAsErrors }
  | "check" :: rest => do
      let arguments ← readArguments .check {} rest
      return .check (← arguments.path) arguments.warningsAsErrors
  | argument :: rest =>
      match shapeOf argument with
      | .short letters => if isVerbose letters then ofArguments? rest else none
      | .long "verbose" none => ofArguments? rest
      | _ => none

example : ofArguments? ["build", "--emit=oil,ast", "x.json", "-v"] =
    some (.build { path := "x.json", emit := [.oil, .ast] }) := by
  decide

end OcLang.Command
