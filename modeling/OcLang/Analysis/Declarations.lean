import OcLang.Analysis.Expressions

namespace OcLang

/-! ## Rules for declarations

Every declared name gets a symbol. The notes of the name, of its declarator and
of the declaring node say what was declared. -/

namespace Declaration

open Check

def annotateName (type : ValueType) (roles : Roles) (id : Nat) (declarator : Tree) : Tree :=
  declarator.mapDeclaredName fun name =>
    name.mapNote fun note => { note.addType type roles with symbol := some id }

/-! ### Structs -/

/-- Declare one field; a repeated name takes the earlier one's place in the
table with a warning. -/
def checkField (structName : String) (table : Table) (declarator : Tree) :
    Check (Table × Tree) := do
  let type ← declaredType (some structName) declarator
  match declarator.declaredName? with
  | none => do
      malformed declarator.kind declarator.location
      return (table, declarator)
  | some name =>
      let id ← allocate { type, role := .field, location := name.location }
      match table.find? name.text with
      | some previous => report (.redeclared name.location name.text (← symbol previous).location)
      | none => pure ()
      let annotated := annotateName type { isField := true } id declarator
      return (table.insert name.text id, annotated.mapNote (·.addType type))

def checkFields (structName : String) (table : Table) : List Tree → Check (Table × List Tree)
  | [] => return (table, [])
  | declarator :: rest => do
      let (table, declarator) ← checkField structName table declarator
      let (table, rest) ← checkFields structName table rest
      return (table, declarator :: rest)

def registerStruct (name : String) (place : Location) (id : Nat) : Check Unit := do
  let state ← get
  set { state with structs := state.structs.insert name id }
  match state.structs.find? name with
  | some previous => report (.redeclared place name (state.symbol previous).location)
  | none => pure ()
  record (.struct name id)
  record .separator

def checkStruct (node : Tree) : Check Tree := do
  match node.children with
  | name :: declarators =>
      if name.kind != .type .named then
        report (.unnamedStruct node.location)
        return node
      else
        let (table, declarators) ← checkFields name.text {} declarators
        let id ← allocate (.ofStruct name.text name.location table)
        registerStruct name.text name.location id
        let type : ValueType := { flags := { struct := true }, structName := some name.text }
        let name := name.mapNote fun note =>
          { note.addType type { isTypeName := true } with symbol := some id }
        return { node with note := node.note.addType type, children := name :: declarators }
  | [] => do
      report (.unnamedStruct node.location)
      return node

/-! ### Variables -/

def checkVariable (node : Tree) : Check Tree := do
  match node.children with
  | [] => do
      malformed node.kind node.location
      return node
  | declarator :: values =>
      let type ← declaredType none declarator
      match declarator.declaredName? with
      | none => do
          malformed node.kind node.location
          return node
      | some name =>
          let replaces ← replacedVariable name.text
          let symbol : Symbol :=
            { type, role := .variable replaces, location := name.location
              block := (← get).scopes.currentBlock }
          let id ← allocate symbol
          let declarator := (annotateName type symbol.role.roles id declarator).mapNote
            (·.addType type symbol.role.roles)
          let (declarator, values) ←
            match values with
            | [] => pure (declarator, [])
            | value :: rest => do
                let value ← Expression.check value
                requireCompatible "initialization" type value
                pure (declarator.mapNote (·.add value.note.attributes), value :: rest)
          declare .innermost name.text id
          recordSymbol name.text id
          return { node with note := node.note.addType type, children := declarator :: values }

/-! ### Functions -/

def checkParameter (declarator : Tree) : Check Tree := do
  let type ← declaredType none declarator
  match declarator.declaredName? with
  | none => do
      malformed declarator.kind declarator.location
      return declarator
  | some name =>
      let replaces ← replacedVariable name.text
      let symbol : Symbol :=
        { type, role := .parameter replaces, location := name.location
          block := (← get).scopes.currentBlock }
      let id ← allocate symbol
      declare .innermost name.text id
      recordSymbol name.text id
      return (annotateName type symbol.role.roles id declarator).mapNote (·.addType type)

def checkParameters : List Tree → Check (List Tree)
  | [] => pure []
  | declarator :: rest => do
      let declarator ← checkParameter declarator
      let rest ← checkParameters rest
      return declarator :: rest

structure Heading where
  type : ValueType
  declarator : Tree
  parameters : Tree

/-- Declare a function or prototype, open its scope and declare the parameters,
whose symbols follow the function's own. The function is registered first, so
that its body can call it. A function without a name is left alone. -/
def openFunction (node declarator parameterList : Tree) : Check (Option Heading) := do
  let type ← declaredType none declarator
  match declarator.declaredName? with
  | none => do
      malformed node.kind declarator.location
      return none
  | some name =>
      let first := (← get).symbols.size + 1
      let count := parameterList.children.countP (·.declaredName?.isSome)
      let role := SymbolRole.function (List.range' first count) (node.kind == .prototype)
      let id ← allocate { type, role, location := name.location }
      recordSymbol name.text id
      declare .file name.text id
      enter
      let children ← checkParameters parameterList.children
      record .separator
      return some {
        type
        declarator := (annotateName type role.roles id declarator).mapNote (·.addType type)
        parameters := { parameterList with children } }

def closeFunction (node : Tree) (heading : Heading) (rest : List Tree) : Tree :=
  { node with
    note := node.note.addType heading.type { isFunction := true }
    children := heading.declarator :: heading.parameters :: rest }

end Declaration

end OcLang
