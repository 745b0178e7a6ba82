import OcLang.Symbol
import OcLang.Spelling
import OcLang.Diagnostic

namespace OcLang

/-! ## Open scopes

File scope is always open. The scopes inside it form a stack, innermost first,
and each got its block number when it was opened; numbers are never used twice,
because the count of opened scopes only grows. -/

structure Scope where
  block : Nat
  table : Table := {}
deriving DecidableEq, Repr

structure Scopes where
  globals : Table := {}
  inner : List Scope := []
  opened : Nat := 0
deriving DecidableEq, Repr, Inhabited

inductive DeclarationTarget where
  | file
  | innermost
deriving DecidableEq, Repr

/-- The only way to misuse the scopes: closing one when none is open. -/
inductive ScopeFault where
  | noneOpen
deriving DecidableEq, Repr

def ScopeFault.message : ScopeFault → String
  | .noneOpen => "exit_block called with only the global scope open"

namespace Scopes

def depth (scopes : Scopes) : Nat :=
  scopes.inner.length

def currentBlock (scopes : Scopes) : Nat :=
  match scopes.inner with
  | [] => 0
  | scope :: _ => scope.block

def enter (scopes : Scopes) : Scopes :=
  { scopes with
    inner := { block := scopes.opened + 1 } :: scopes.inner
    opened := scopes.opened + 1 }

def exit (scopes : Scopes) : Except ScopeFault Scopes :=
  match scopes.inner with
  | [] => .error .noneOpen
  | _ :: outer => .ok { scopes with inner := outer }

def bound? (scopes : Scopes) (target : DeclarationTarget) (name : String) : Option Nat :=
  match target, scopes.inner with
  | .innermost, scope :: _ => scope.table.find? name
  | _, _ => scopes.globals.find? name

def bind (scopes : Scopes) (target : DeclarationTarget) (name : String) (symbol : Nat) : Scopes :=
  match target, scopes.inner with
  | .innermost, scope :: outer =>
      { scopes with inner := { scope with table := scope.table.insert name symbol } :: outer }
  | _, _ => { scopes with globals := scopes.globals.insert name symbol }

def find? (scopes : Scopes) (name : String) : Option Nat :=
  (scopes.inner.findSome? fun scope => scope.table.find? name).or (scopes.globals.find? name)

/-- The names of all open scopes; shadowed names occur more than once. -/
def visibleNames (scopes : Scopes) : List String :=
  scopes.globals.names ++ scopes.inner.reverse.flatMap (·.table.names)

private def orUnresolved (found : Option Nat) (name : String) (place : Location)
    (candidates : List String) : Except Problem Nat :=
  match found with
  | some symbol => .ok symbol
  | none => .error (.unresolvedName place name (Spelling.suggestions name candidates))

def lookup (scopes : Scopes) (name : String) (place : Location) : Except Problem Nat :=
  orUnresolved (scopes.find? name) name place scopes.visibleNames

def lookupGlobal (scopes : Scopes) (name : String) (place : Location) : Except Problem Nat :=
  orUnresolved (scopes.globals.find? name) name place scopes.globals.names

section

variable {scopes : Scopes} {name : String}

theorem lookup_of_found {symbol : Nat} (found : scopes.find? name = some symbol)
    (place : Location) : scopes.lookup name place = .ok symbol := by
  simp [lookup, orUnresolved, found]

theorem lookup_of_missing (missing : scopes.find? name = none) (place : Location) :
    scopes.lookup name place = .error (.unresolvedName place name
      (Spelling.suggestions name scopes.visibleNames)) := by
  simp [lookup, orUnresolved, missing]

theorem lookupGlobal_of_found {symbol : Nat} (found : scopes.globals.find? name = some symbol)
    (place : Location) : scopes.lookupGlobal name place = .ok symbol := by
  simp [lookupGlobal, orUnresolved, found]

theorem lookupGlobal_of_missing (missing : scopes.globals.find? name = none) (place : Location) :
    scopes.lookupGlobal name place = .error (.unresolvedName place name
      (Spelling.suggestions name scopes.globals.names)) := by
  simp [lookupGlobal, orUnresolved, missing]

end

end Scopes

end OcLang
