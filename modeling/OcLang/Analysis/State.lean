import OcLang.Tree
import OcLang.Scopes
import OcLang.Typing

namespace OcLang

/-! ## The state of an analysis

Symbols, log and diagnostics only grow. Only the open scopes change in other
ways. -/

inductive LogEntry where
  | symbol (name : String) (id : Nat) (depth : Nat)
  | struct (name : String) (id : Nat)
  | separator
deriving DecidableEq, Repr

structure AnalysisState where
  symbols : Array Symbol := #[]
  scopes : Scopes := {}
  structs : Table := {}
  log : List LogEntry := []
  diagnostics : Diagnostics := {}
  /-- Set when a scope is closed that was never opened. Walks are balanced, so
  this stays empty. -/
  fault : Option ScopeFault := none
deriving Repr, Inhabited

abbrev Check := StateM AnalysisState

namespace AnalysisState

def symbol (state : AnalysisState) (id : Nat) : Symbol :=
  state.symbols[id]?.getD default

end AnalysisState

namespace Check

def report (problem : Problem) : Check Unit :=
  modify fun state => { state with diagnostics := state.diagnostics.push problem }

def malformed (kind : Kind) (place : Location) : Check Unit :=
  report (.malformed place kind.tag)

def record (entry : LogEntry) : Check Unit :=
  modify fun state => { state with log := state.log ++ [entry] }

def allocate (symbol : Symbol) : Check Nat :=
  modifyGet fun state =>
    (state.symbols.size, { state with symbols := state.symbols.push symbol })

def symbol (id : Nat) : Check Symbol := do
  return (← get).symbol id

def recordSymbol (name : String) (id : Nat) : Check Unit := do
  record (.symbol name id (← get).scopes.depth)

def enter : Check Unit :=
  modify fun state => { state with scopes := state.scopes.enter }

def leave : Check Unit :=
  modify fun state =>
    match state.scopes.exit with
    | .ok scopes => { state with scopes }
    | .error fault => { state with fault := some fault }

def replacedVariable (name : String) : Check (Option Nat) := do
  let state ← get
  return (state.scopes.bound? .innermost name).filter fun id => (state.symbol id).isVariable

/-- Bind a name to a symbol. Taking the place of an earlier symbol in the same
table is worth a warning, except for a definition that follows its prototype. -/
def declare (target : DeclarationTarget) (name : String) (id : Nat) : Check Unit := do
  let state ← get
  let previous := state.scopes.bound? target name
  set { state with scopes := state.scopes.bind target name id }
  match previous with
  | none => pure ()
  | some previous =>
      let earlier := state.symbol previous
      let current := state.symbol id
      if earlier.isPrototype && current.isFunction && !current.isPrototype then pure ()
      else report (.redeclared current.location name earlier.location)

/-- The type that a declarator describes, its array mark included. A struct
that is still being declared (`enclosing`) may already be named. -/
def declaredType (enclosing : Option String) (declarator : Tree) : Check ValueType := do
  let base : ValueType ←
    match declarator.kind with
    | .type .void => pure { flags := { void := true } }
    | .type .int | .type .char | .type .bool => pure { flags := { int := true } }
    | .type .string => pure { flags := { string := true } }
    | .type .named => do
        let known := enclosing == some declarator.text ||
          ((← get).structs.find? declarator.text).isSome
        unless known do
          report (.unknownStruct declarator.location declarator.text)
        pure { flags := { struct := true }, structName := some declarator.text }
    | kind => do
        malformed kind declarator.location
        pure {}
  if declarator.hasArrayMark then
    return { base with flags := { base.flags with array := true } }
  else return base

/-- Report a value that does not fit where it goes. Values without a type were
reported before. -/
def requireCompatible (context : String) (expected : ValueType) (value : Tree) : Check Unit :=
  if expected.isTyped && value.note.isTyped && !expected.compatible value.note.type then
    report (.typeMismatch value.location context expected.describe value.note.type.describe)
  else pure ()

def requireInteger (context : String) (value : Tree) : Check Unit :=
  if value.note.isTyped && !value.note.attributes.type.isInteger then
    report (.typeMismatch value.location context "int" value.note.type.describe)
  else pure ()

end Check

end OcLang
