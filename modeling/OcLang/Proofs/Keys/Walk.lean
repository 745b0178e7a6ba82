import OcLang.Proofs.Keys.Respelling

namespace OcLang

/-! # An analysis of keys

Here is the same analysis on trees that hold keys in place of texts. Tables bind
keys and keys are compared; a key is turned into its text only where a message
shows a name. A key is written as a text itself, which nothing is read off. -/

/-- An order in which tables list names. It may depend on all that the analysis
has stored so far. -/
structure Listing where
  order : AnalysisState → List String → List String
  order_perm : ∀ state names, (order state names).Perm names

instance : Inhabited Listing := ⟨⟨fun _ names => names, fun _ _ => .refl _⟩⟩

/-- A key for every text. Keys lead back to their texts, so that different texts
have different keys. -/
structure Naming extends Listing where
  key : String → String
  text : String → String
  text_key : ∀ name, text (key name) = name

instance : Inhabited Naming where
  default := { toListing := default, key := id, text := id, text_key := fun _ => rfl }

namespace Keyed

open Check Declaration

variable (names : Naming)

/-! ## Names and types -/

/-- A name that is not found. The candidates come in the order of the tables. -/
def unresolved (state : AnalysisState) (name : String) (place : Location)
    (candidates : List String) : Problem :=
  .unresolvedName place (names.text name)
    (Spelling.suggestions (names.text name) ((names.order state candidates).map names.text))

def lookup (state : AnalysisState) (name : String) (place : Location) : Except Problem Nat :=
  match state.scopes.find? name with
  | some id => .ok id
  | none => .error (unresolved names state name place state.scopes.visibleNames)

def lookupGlobal (state : AnalysisState) (name : String) (place : Location) :
    Except Problem Nat :=
  match state.scopes.globals.find? name with
  | some id => .ok id
  | none => .error (unresolved names state name place state.scopes.globals.names)

def describe (type : ValueType) : String :=
  (type.respell names.text).describe

def declare (target : DeclarationTarget) (name : String) (id : Nat) : Check Unit := do
  let state ← get
  let previous := state.scopes.bound? target name
  set { state with scopes := state.scopes.bind target name id }
  match previous with
  | none => pure ()
  | some previous =>
      let earlier := state.symbol previous
      let current := state.symbol id
      if earlier.isPrototype && current.isFunction && !current.isPrototype then pure ()
      else report (.redeclared current.location (names.text name) earlier.location)

def declaredType (enclosing : Option String) (declarator : Tree) : Check ValueType := do
  let base : ValueType ←
    match declarator.kind with
    | .type .void => pure { flags := { void := true } }
    | .type .int | .type .char | .type .bool => pure { flags := { int := true } }
    | .type .string => pure { flags := { string := true } }
    | .type .named => do
        let known := enclosing == some declarator.text ||
          ((← get).structs.find? declarator.text).isSome
        unless known do
          report (.unknownStruct declarator.location (names.text declarator.text))
        pure { flags := { struct := true }, structName := some declarator.text }
    | kind => do
        malformed kind declarator.location
        pure {}
  if declarator.hasArrayMark then
    return { base with flags := { base.flags with array := true } }
  else return base

def requireCompatible (context : String) (expected : ValueType) (value : Tree) : Check Unit :=
  if expected.isTyped && value.note.isTyped && !expected.compatible value.note.type then
    report (.typeMismatch value.location context (describe names expected)
      (describe names value.note.type))
  else pure ()

def requireInteger (context : String) (value : Tree) : Check Unit :=
  if value.note.isTyped && !value.note.attributes.type.isInteger then
    report (.typeMismatch value.location context "int" (describe names value.note.type))
  else pure ()

/-! ## Expressions -/

namespace Expression

open OcLang.Expression (elementAttributes operatorAttributes literalAttributes)

def identifier (node : Tree) : Check Tree := do
  match lookup names (← get) node.text node.location with
  | .error problem => do
      report problem
      return node
  | .ok id =>
      let symbol ← symbol id
      let roles : Roles := { isVariable := true, isLvalue := symbol.role.roles.isLvalue }
      return node.mapNote fun note =>
        { note.addType symbol.type roles with
          declaredAt := some symbol.location, symbol := some id }

def callArguments (name : String) (place : Location) (parameters : List Nat)
    (arguments : List Tree) : Check Unit := do
  if parameters.length != arguments.length then
    report (.argumentCount place (names.text name) parameters.length arguments.length)
  else
    (arguments.zip parameters).forM fun (argument, parameter) => do
      requireCompatible names "argument" (← symbol parameter).type argument

def call (node callee : Tree) (arguments : List Tree) : Check Tree := do
  let unchanged := { node with children := callee :: arguments }
  match lookupGlobal names (← get) callee.text callee.location with
  | .error problem => do
      report problem
      return unchanged
  | .ok id =>
      let function ← symbol id
      if !function.isFunction then
        report (.notFunction callee.location (names.text callee.text))
        return unchanged
      else
        callArguments names callee.text node.location function.parameters arguments
        let callee := callee.mapNote fun note =>
          { note.addType function.type function.role.roles with
            declaredAt := some function.location, symbol := some id }
        return {
          node with
          note := node.note.addType function.type { inRegister := true }
          children := callee :: arguments }

def selectedField (node object field : Tree) : Check (Option Nat) := do
  let type := object.note.type
  match type.structName, type.flags.isPlainStruct with
  | some structName, true =>
      match (← get).structs.find? structName with
      | none => do
          report (.unknownStruct object.location (names.text structName))
          return none
      | some id =>
          match (← symbol id).fields?.bind (·.find? field.text) with
          | none => do
              report (.unknownField field.location (names.text structName)
                (names.text field.text))
              return none
          | some id => return some id
  | _, _ => do
      report (.notStruct node.location (describe names type))
      return none

def select (node object field : Tree) : Check Tree := do
  let unchanged := { node with children := [object, field] }
  if !object.note.isTyped then return unchanged
  else
    match ← selectedField names node object field with
    | none => return unchanged
    | some id =>
        let symbol ← symbol id
        let field := field.mapNote fun note =>
          { note.addType symbol.type symbol.role.roles with
            declaredAt := some symbol.location, symbol := some id }
        return { node with note := node.note.addType symbol.type, children := [object, field] }

def index (node array index : Tree) : Check Tree := do
  requireInteger names "array index" index
  let indexed := { node with children := [array, index] }
  let type := array.note.type
  if !type.isTyped then return indexed
  else if type.flags.array && !type.flags.null then
    return indexed.mapNote (·.addType { type with flags := { type.flags with array := false } })
  else if type.flags.string then
    return indexed.mapNote (·.add { type := { int := true } })
  else
    report (.typeMismatch array.location "indexing" "array or string" (describe names type))
    return indexed

def newStruct (node type : Tree) : Check Tree := do
  let declared ← declaredType names none type
  return {
    node with
    note := node.note.addType declared { inRegister := true }
    children := [type.mapNote (·.addType declared { isTypeName := true })] }

def newArray (node : Tree) (declared : ValueType) (type size : Tree) : Check Tree := do
  requireInteger names "array size" size
  let array := { declared with flags := { declared.flags with array := true } }
  return {
    node with
    note := node.note.addType array { inRegister := true }
    children := [type.mapNote (·.addType declared), size] }

def newString (node size : Tree) : Check Tree := do
  requireInteger names "string size" size
  return {
    node with
    note := node.note.add { type := { string := true }, roles := { inRegister := true } }
    children := [size] }

def assign (node target value : Tree) : Check Tree := do
  if target.note.isTyped && !target.note.attributes.roles.isLvalue then
    report (.notAssignable node.location)
  requireCompatible names "assignment" target.note.type value
  return {
    node with
    note := node.note.addType target.note.type target.note.attributes.roles
    children := [target, value] }

def binary (operator : BinaryOperator) (node left right : Tree) : Check Tree := do
  if operator.isEquality then
    requireCompatible names "comparison" left.note.type right
  else
    let context := if operator.isArithmetic then "arithmetic operand" else "comparison operand"
    requireInteger names context left
    requireInteger names context right
  return { node with children := [left, right] }

def closed (node : Tree) : Check Tree := do
  match node.kind, node.children with
  | .identifier, _ => identifier names node
  | .literal what, _ => return node.mapNote (·.add (literalAttributes what))
  | .allocate .struct, [type] => newStruct names node type
  | .select, _ | .index, _ => do
      malformed node.kind node.location
      return node.mapNote (·.add elementAttributes)
  | .binary _, _ | .unary _, _ => do
      malformed node.kind node.location
      return node.mapNote (·.add operatorAttributes)
  | _, _ => do
      malformed node.kind node.location
      return node

mutual
def check : Tree → Check Tree
  | ⟨.call, location, text, note, callee :: arguments⟩ => do
      let arguments ← checkAll arguments
      call names ⟨.call, location, text, note, []⟩ callee arguments
  | ⟨.select, location, text, note, [object, field]⟩ => do
      let object ← check object
      select names ⟨.select, location, text, note.add elementAttributes, []⟩ object field
  | ⟨.index, location, text, note, [array, position]⟩ => do
      let array ← check array
      let position ← check position
      index names ⟨.index, location, text, note.add elementAttributes, []⟩ array position
  | ⟨.allocate .array, location, text, note, [type, size]⟩ => do
      let declared ← declaredType names none type
      let size ← check size
      newArray names ⟨.allocate .array, location, text, note, []⟩ declared type size
  | ⟨.allocate .string, location, text, note, [size]⟩ => do
      let size ← check size
      newString names ⟨.allocate .string, location, text, note, []⟩ size
  | ⟨.assign, location, text, note, [target, value]⟩ => do
      let target ← check target
      let value ← check value
      assign names ⟨.assign, location, text, note, []⟩ target value
  | ⟨.binary operator, location, text, note, [left, right]⟩ => do
      let left ← check left
      let right ← check right
      binary names operator ⟨.binary operator, location, text, note.add operatorAttributes, []⟩
        left right
  | ⟨.unary operator, location, text, note, operand :: rest⟩ => do
      let operand ← check operand
      requireInteger names "unary operand" operand
      return ⟨.unary operator, location, text, note.add operatorAttributes, operand :: rest⟩
  | other => closed names other

def checkAll : List Tree → Check (List Tree)
  | [] => pure []
  | tree :: rest => do
      let tree ← check tree
      let rest ← checkAll rest
      return tree :: rest
end

end Expression

/-! ## Declarations -/

namespace Declaration

def checkField (structName : String) (table : Table) (declarator : Tree) :
    Check (Table × Tree) := do
  let type ← declaredType names (some structName) declarator
  match declarator.declaredName? with
  | none => do
      malformed declarator.kind declarator.location
      return (table, declarator)
  | some name =>
      let id ← allocate { type, role := .field, location := name.location }
      match table.find? name.text with
      | some previous =>
          report (.redeclared name.location (names.text name.text) (← symbol previous).location)
      | none => pure ()
      let annotated := annotateName type { isField := true } id declarator
      return (table.insert name.text id, annotated.mapNote (·.addType type))

def checkFields (structName : String) (table : Table) : List Tree → Check (Table × List Tree)
  | [] => return (table, [])
  | declarator :: rest => do
      let (table, declarator) ← checkField names structName table declarator
      let (table, rest) ← checkFields structName table rest
      return (table, declarator :: rest)

def registerStruct (name : String) (place : Location) (id : Nat) : Check Unit := do
  let state ← get
  set { state with structs := state.structs.insert name id }
  match state.structs.find? name with
  | some previous =>
      report (.redeclared place (names.text name) (state.symbol previous).location)
  | none => pure ()
  record (.struct name id)
  record .separator

def checkStruct (node : Tree) : Check Tree := do
  match node.children with
  | name :: declarators =>
      if name.kind != .type .named then
        report (.unnamedStruct node.location)
        return node
      else
        let (table, declarators) ← checkFields names name.text {} declarators
        let id ← allocate (.ofStruct name.text name.location table)
        registerStruct names name.text name.location id
        let type : ValueType := { flags := { struct := true }, structName := some name.text }
        let name := name.mapNote fun note =>
          { note.addType type { isTypeName := true } with symbol := some id }
        return { node with note := node.note.addType type, children := name :: declarators }
  | [] => do
      report (.unnamedStruct node.location)
      return node

def checkVariable (node : Tree) : Check Tree := do
  match node.children with
  | [] => do
      malformed node.kind node.location
      return node
  | declarator :: values =>
      let type ← declaredType names none declarator
      match declarator.declaredName? with
      | none => do
          malformed node.kind node.location
          return node
      | some name =>
          let replaces ← replacedVariable name.text
          let symbol : Symbol :=
            { type, role := .variable replaces, location := name.location
              block := (← get).scopes.currentBlock }
          let id ← allocate symbol
          let declarator := (annotateName type symbol.role.roles id declarator).mapNote
            (·.addType type symbol.role.roles)
          let (declarator, values) ←
            match values with
            | [] => pure (declarator, [])
            | value :: rest => do
                let value ← Expression.check names value
                requireCompatible names "initialization" type value
                pure (declarator.mapNote (·.add value.note.attributes), value :: rest)
          declare names .innermost name.text id
          recordSymbol name.text id
          return { node with note := node.note.addType type, children := declarator :: values }

def checkParameter (declarator : Tree) : Check Tree := do
  let type ← declaredType names none declarator
  match declarator.declaredName? with
  | none => do
      malformed declarator.kind declarator.location
      return declarator
  | some name =>
      let replaces ← replacedVariable name.text
      let symbol : Symbol :=
        { type, role := .parameter replaces, location := name.location
          block := (← get).scopes.currentBlock }
      let id ← allocate symbol
      declare names .innermost name.text id
      recordSymbol name.text id
      return (annotateName type symbol.role.roles id declarator).mapNote (·.addType type)

def checkParameters : List Tree → Check (List Tree)
  | [] => pure []
  | declarator :: rest => do
      let declarator ← checkParameter names declarator
      let rest ← checkParameters rest
      return declarator :: rest

def openFunction (node declarator parameterList : Tree) : Check (Option Heading) := do
  let type ← declaredType names none declarator
  match declarator.declaredName? with
  | none => do
      malformed node.kind declarator.location
      return none
  | some name =>
      let first := (← get).symbols.size + 1
      let count := parameterList.children.countP (·.declaredName?.isSome)
      let role := SymbolRole.function (List.range' first count) (node.kind == .prototype)
      let id ← allocate { type, role, location := name.location }
      recordSymbol name.text id
      declare names .file name.text id
      enter
      let children ← checkParameters names parameterList.children
      record .separator
      return some {
        type
        declarator := (annotateName type role.roles id declarator).mapNote (·.addType type)
        parameters := { parameterList with children } }

end Declaration

/-! ## Statements -/

namespace Statement

def returned (result : Option ValueType) (place : Location) (value : Tree) : Check Unit :=
  match result with
  | none => report (.invalidReturn place "return with a value outside of a function")
  | some type =>
      if type.flags.void then
        report (.invalidReturn place "return with a value in a void function")
      else requireCompatible names "return" type value

def simple (result : Option ValueType) (node : Tree) : Check Tree := do
  match node.kind, node.children with
  | .struct, _ => Declaration.checkStruct names node
  | .variable, _ => Declaration.checkVariable names node
  | .returnVoid, _ => do
      if result.any (!·.flags.void) then
        report (.invalidReturn node.location "missing return value in a non-void function")
      return node
  | .returnValue, value :: rest => do
      let value ← Expression.check names value
      returned names result node.location value
      return { node with note := node.note.addType value.note.type, children := value :: rest }
  | .returnValue, [] | .function, _ | .prototype, _
  | .whileLoop, _ | .ifThen, _ | .ifElse, _ => do
      malformed node.kind node.location
      return node
  | .field, _ | .type _, _ | .arrayMark, _ | .declaredName, _ | .parameters, _ => return node
  | _, _ => Expression.check names node

def condition (tree : Tree) : Check Tree := do
  let tree ← Expression.check names tree
  requireInteger names "condition" tree
  return tree

mutual
def check (result : Option ValueType) : Tree → Check Tree
  | ⟨.root, location, text, note, children⟩ => do
      let children ← checkAll result children
      return ⟨.root, location, text, note, children⟩
  | ⟨.block, location, text, note, children⟩ => do
      enter
      let children ← checkAll result children
      leave
      return ⟨.block, location, text, note, children⟩
  | ⟨.function, location, text, note, declarator :: parameters :: rest⟩ => do
      let node : Tree := ⟨.function, location, text, note, declarator :: parameters :: rest⟩
      match ← Declaration.openFunction names node declarator parameters with
      | none => return node
      | some heading =>
          let rest ← checkBody heading.type node rest
          leave
          record .separator
          return closeFunction node heading rest
  | ⟨.prototype, location, text, note, declarator :: parameters :: rest⟩ => do
      let node : Tree := ⟨.prototype, location, text, note, declarator :: parameters :: rest⟩
      match ← Declaration.openFunction names node declarator parameters with
      | none => return node
      | some heading =>
          leave
          return closeFunction node heading rest
  | ⟨.whileLoop, location, text, note, test :: bodies⟩ => do
      let test ← condition names test
      let bodies ← checkAll result bodies
      return ⟨.whileLoop, location, text, note, test :: bodies⟩
  | ⟨.ifThen, location, text, note, test :: bodies⟩ => do
      let test ← condition names test
      let bodies ← checkAll result bodies
      return ⟨.ifThen, location, text, note, test :: bodies⟩
  | ⟨.ifElse, location, text, note, test :: bodies⟩ => do
      let test ← condition names test
      let bodies ← checkAll result bodies
      return ⟨.ifElse, location, text, note, test :: bodies⟩
  | other => simple names result other

def checkBody (type : ValueType) (function : Tree) : List Tree → Check (List Tree)
  | [] => do
      malformed function.kind function.location
      return []
  | ⟨kind, location, text, note, children⟩ :: rest => do
      let children ← checkAll (some type) children
      return ⟨kind, location, text, note, children⟩ :: rest

def checkAll (result : Option ValueType) : List Tree → Check (List Tree)
  | [] => pure []
  | tree :: rest => do
      let tree ← check result tree
      let rest ← checkAll result rest
      return tree :: rest
end

end Statement

def analyze (tree : Tree) : Tree × Analysis :=
  let (annotated, state) := (Statement.check names none (Numbering.number tree)).run {}
  (annotated, Analysis.ofState state)

end Keyed

end OcLang
