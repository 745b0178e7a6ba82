import OcLang.Location

namespace OcLang

/-! ## Problems found in a tree -/

inductive Problem where
  | unresolvedName (place : Location) (name : String) (suggestions : List String)
  | unnamedStruct (place : Location)
  | malformed (place : Location) (tag : String)
  | unknownStruct (place : Location) (name : String)
  | unknownField (place : Location) (struct field : String)
  | notStruct (place : Location) (found : String)
  | notFunction (place : Location) (name : String)
  | typeMismatch (place : Location) (context expected found : String)
  | argumentCount (place : Location) (name : String) (expected found : Nat)
  | notAssignable (place : Location)
  | invalidReturn (place : Location) (reason : String)
  | redeclared (place : Location) (name : String) (previous : Location)
deriving DecidableEq, Repr

inductive Severity where
  | warning
  | error
deriving DecidableEq, Repr

def Severity.display : Severity → String
  | .warning => "warning"
  | .error => "error"

namespace Problem

private def quoted (text : String) : String :=
  "'" ++ text ++ "'"

def location : Problem → Location
  | .unresolvedName place _ _ | .unnamedStruct place | .malformed place _ | .unknownStruct place _
  | .unknownField place _ _ | .notStruct place _ | .notFunction place _ | .typeMismatch place _ _ _
  | .argumentCount place _ _ _ | .notAssignable place | .invalidReturn place _
  | .redeclared place _ _ => place

def message : Problem → String
  | .unresolvedName _ name _ => "identifier not found: " ++ quoted name
  | .unnamedStruct _ => "malformed struct declaration: missing struct name"
  | .malformed _ tag => "malformed " ++ tag ++ " node"
  | .unknownStruct _ name => "struct not found: " ++ quoted name
  | .unknownField _ struct field => "struct " ++ quoted struct ++ " has no field " ++ quoted field
  | .notStruct _ found => "field selection on a value of type " ++ found
  | .notFunction _ name => quoted name ++ " is not a function"
  | .typeMismatch _ context expected found =>
      "incompatible types in " ++ context ++ ": expected " ++ expected ++ ", found " ++ found
  | .argumentCount _ name expected found =>
      quoted name ++ " expects " ++ expected.repr ++ " argument(s), found " ++ found.repr
  | .notAssignable _ => "left operand of assignment is not assignable"
  | .invalidReturn _ reason => reason
  | .redeclared _ name previous =>
      "redeclaration of " ++ quoted name ++ " (previously declared at " ++ previous.display ++ ")"

/-- Declaring a name twice is allowed with a warning; all else is an error. -/
def severity : Problem → Severity
  | .redeclared _ _ _ => .warning
  | _ => .error

def suggestions : Problem → List String
  | .unresolvedName _ _ suggestions => suggestions
  | _ => []

def hint (problem : Problem) : String :=
  match problem.suggestions with
  | [] => ""
  | names => " (did you mean " ++ " or ".intercalate (names.map quoted) ++ "?)"

end Problem

structure Diagnostic where
  severity : Severity
  problem : Problem
deriving DecidableEq, Repr

namespace Diagnostic

def message (diagnostic : Diagnostic) : String :=
  diagnostic.problem.message ++ diagnostic.problem.hint

def display (diagnostic : Diagnostic) : String :=
  diagnostic.problem.location.display ++ ": " ++ diagnostic.severity.display ++ ": " ++
    diagnostic.message

end Diagnostic

/-! ## Lists of diagnostics, in the order of reporting -/

structure Diagnostics where
  items : List Diagnostic := []
deriving DecidableEq, Repr, Inhabited

namespace Diagnostics

def push (diagnostics : Diagnostics) (problem : Problem) : Diagnostics :=
  { items := diagnostics.items ++ [{ severity := problem.severity, problem }] }

def promoteWarnings (diagnostics : Diagnostics) : Diagnostics :=
  { items := diagnostics.items.map fun diagnostic => { diagnostic with severity := .error } }

def errors (diagnostics : Diagnostics) : List Diagnostic :=
  diagnostics.items.filter (·.severity == .error)

def warnings (diagnostics : Diagnostics) : List Diagnostic :=
  diagnostics.items.filter (·.severity == .warning)

def hasErrors (diagnostics : Diagnostics) : Bool :=
  diagnostics.items.any (·.severity == .error)

def render (diagnostics : Diagnostics) : String :=
  String.join (diagnostics.items.map fun diagnostic => diagnostic.display ++ "\n")

end Diagnostics

end OcLang
