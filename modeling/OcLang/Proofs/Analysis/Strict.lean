import OcLang.Analysis

namespace OcLang

/-! # A strict analysis

The analysis finds symbols by their numbers, and closes the scopes that it has
opened. Asked for a number that was never given out, it would go on with a symbol
that does not exist. Here is the same walk in a form that stops at such a number,
at a scope that is not open, and as soon as the table of an open scope names a
symbol of another scope. A function that is being checked is known by its symbol
here, where the analysis keeps the type that it returns. -/

def Table.LiesIn (table : Table) (symbols : Array Symbol) (block : Nat) : Prop :=
  ∀ entry ∈ table.entries, symbols[entry.2]?.map (·.block) = some block

instance (table : Table) (symbols : Array Symbol) (block : Nat) :
    Decidable (table.LiesIn symbols block) :=
  inferInstanceAs (Decidable (∀ entry ∈ table.entries, _))

structure AnalysisState.IsScoped (state : AnalysisState) : Prop where
  globals : state.scopes.globals.LiesIn state.symbols 0
  inner : ∀ scope ∈ state.scopes.inner, scope.table.LiesIn state.symbols scope.block

instance (state : AnalysisState) : Decidable state.IsScoped :=
  decidable_of_iff (state.scopes.globals.LiesIn state.symbols 0 ∧
      ∀ scope ∈ state.scopes.inner, scope.table.LiesIn state.symbols scope.block)
    ⟨fun both => ⟨both.1, both.2⟩, fun state => ⟨state.globals, state.inner⟩⟩

abbrev Strict := StateT AnalysisState Option

namespace Strict

variable {Value : Type}

def step (step : Check Value) : Strict Value := fun state =>
  let (value, after) := step.run state
  if after.IsScoped then some (value, after) else none

instance : MonadLift Check Strict := ⟨step⟩

def symbol (id : Nat) : Strict Symbol := do
  match (← get).symbols[id]? with
  | some symbol => return symbol
  | none => failure

def leave : Strict Unit := do
  if (← get).scopes.inner.isEmpty then failure else Check.leave

def replacedVariable (name : String) : Strict (Option Nat) := do
  match (← get).scopes.bound? .innermost name with
  | none => return none
  | some id => return if (← symbol id).isVariable then some id else none

def declare (target : DeclarationTarget) (name : String) (id : Nat) : Strict Unit := do
  let state ← get
  (set { state with scopes := state.scopes.bind target name id } : Check Unit)
  match state.scopes.bound? target name with
  | none => pure ()
  | some previous =>
      let earlier ← symbol previous
      let current ← symbol id
      if earlier.isPrototype && current.isFunction && !current.isPrototype then pure ()
      else Check.report (.redeclared current.location name earlier.location)

/-! ## Expressions -/

def identifier (node : Tree) : Strict Tree := do
  match (← get).scopes.lookup node.text node.location with
  | .error problem => do
      Check.report problem
      return node
  | .ok id =>
      let symbol ← symbol id
      let roles : Roles := { isVariable := true, isLvalue := symbol.role.roles.isLvalue }
      return node.mapNote fun note =>
        { note.addType symbol.type roles with
          declaredAt := some symbol.location, symbol := some id }

def callArguments (name : String) (place : Location) (parameters : List Nat)
    (arguments : List Tree) : Strict Unit := do
  if parameters.length != arguments.length then
    Check.report (.argumentCount place name parameters.length arguments.length)
  else
    (arguments.zip parameters).forM fun (argument, parameter) => do
      Check.requireCompatible "argument" (← symbol parameter).type argument

def call (node callee : Tree) (arguments : List Tree) : Strict Tree := do
  let unchanged := { node with children := callee :: arguments }
  match (← get).scopes.lookupGlobal callee.text callee.location with
  | .error problem => do
      Check.report problem
      return unchanged
  | .ok id =>
      let function ← symbol id
      if !function.isFunction then
        Check.report (.notFunction callee.location callee.text)
        return unchanged
      else
        callArguments callee.text node.location function.parameters arguments
        let callee := callee.mapNote fun note =>
          { note.addType function.type function.role.roles with
            declaredAt := some function.location, symbol := some id }
        return {
          node with
          note := node.note.addType function.type { inRegister := true }
          children := callee :: arguments }

def selectedField (node object field : Tree) : Strict (Option Nat) := do
  let type := object.note.type
  match type.structName, type.flags.isPlainStruct with
  | some structName, true =>
      match (← get).structs.find? structName with
      | none => do
          Check.report (.unknownStruct object.location structName)
          return none
      | some id =>
          match (← symbol id).fields?.bind (·.find? field.text) with
          | none => do
              Check.report (.unknownField field.location structName field.text)
              return none
          | some id => return some id
  | _, _ => do
      Check.report (.notStruct node.location type.describe)
      return none

def select (node object field : Tree) : Strict Tree := do
  let unchanged := { node with children := [object, field] }
  if !object.note.isTyped then return unchanged
  else
    match ← selectedField node object field with
    | none => return unchanged
    | some id =>
        let symbol ← symbol id
        let field := field.mapNote fun note =>
          { note.addType symbol.type symbol.role.roles with
            declaredAt := some symbol.location, symbol := some id }
        return { node with note := node.note.addType symbol.type, children := [object, field] }

def closed (node : Tree) : Strict Tree :=
  if node.kind = .identifier then identifier node else liftM (Expression.closed node)

mutual
def expression : Tree → Strict Tree
  | ⟨.call, location, text, note, callee :: arguments⟩ => do
      let arguments ← expressions arguments
      call ⟨.call, location, text, note, []⟩ callee arguments
  | ⟨.select, location, text, note, [object, field]⟩ => do
      let object ← expression object
      select ⟨.select, location, text, note.add Expression.elementAttributes, []⟩ object field
  | ⟨.index, location, text, note, [array, position]⟩ => do
      let array ← expression array
      let position ← expression position
      Expression.index ⟨.index, location, text, note.add Expression.elementAttributes, []⟩
        array position
  | ⟨.allocate .array, location, text, note, [type, size]⟩ => do
      let declared ← Check.declaredType none type
      let size ← expression size
      Expression.newArray ⟨.allocate .array, location, text, note, []⟩ declared type size
  | ⟨.allocate .string, location, text, note, [size]⟩ => do
      let size ← expression size
      Expression.newString ⟨.allocate .string, location, text, note, []⟩ size
  | ⟨.assign, location, text, note, [target, value]⟩ => do
      let target ← expression target
      let value ← expression value
      Expression.assign ⟨.assign, location, text, note, []⟩ target value
  | ⟨.binary operator, location, text, note, [left, right]⟩ => do
      let left ← expression left
      let right ← expression right
      Expression.binary operator
        ⟨.binary operator, location, text, note.add Expression.operatorAttributes, []⟩ left right
  | ⟨.unary operator, location, text, note, operand :: rest⟩ => do
      let operand ← expression operand
      Check.requireInteger "unary operand" operand
      return ⟨.unary operator, location, text, note.add Expression.operatorAttributes,
        operand :: rest⟩
  | other => closed other

def expressions : List Tree → Strict (List Tree)
  | [] => pure []
  | tree :: rest => do
      let tree ← expression tree
      let rest ← expressions rest
      return tree :: rest
end

/-! ## Declarations -/

def checkField (structName : String) (table : Table) (declarator : Tree) : Strict (Table × Tree) := do
  let type ← Check.declaredType (some structName) declarator
  match declarator.declaredName? with
  | none => do
      Check.malformed declarator.kind declarator.location
      return (table, declarator)
  | some name =>
      let id ← Check.allocate { type, role := .field, location := name.location }
      match table.find? name.text with
      | some previous =>
          Check.report (.redeclared name.location name.text (← symbol previous).location)
      | none => pure ()
      let annotated := Declaration.annotateName type { isField := true } id declarator
      return (table.insert name.text id, annotated.mapNote (·.addType type))

def checkFields (structName : String) (table : Table) : List Tree → Strict (Table × List Tree)
  | [] => return (table, [])
  | declarator :: rest => do
      let (table, declarator) ← checkField structName table declarator
      let (table, rest) ← checkFields structName table rest
      return (table, declarator :: rest)

def registerStruct (name : String) (place : Location) (id : Nat) : Strict Unit := do
  let state ← get
  (set { state with structs := state.structs.insert name id } : Check Unit)
  match state.structs.find? name with
  | some previous => Check.report (.redeclared place name (← symbol previous).location)
  | none => pure ()
  Check.record (.struct name id)
  Check.record .separator

def checkStruct (node : Tree) : Strict Tree := do
  match node.children with
  | name :: declarators =>
      if name.kind != .type .named then
        Check.report (.unnamedStruct node.location)
        return node
      else
        let (table, declarators) ← checkFields name.text {} declarators
        let id ← Check.allocate (.ofStruct name.text name.location table)
        registerStruct name.text name.location id
        let type : ValueType := { flags := { struct := true }, structName := some name.text }
        let name := name.mapNote fun note =>
          { note.addType type { isTypeName := true } with symbol := some id }
        return { node with note := node.note.addType type, children := name :: declarators }
  | [] => do
      Check.report (.unnamedStruct node.location)
      return node

def checkVariable (node : Tree) : Strict Tree := do
  match node.children with
  | [] => do
      Check.malformed node.kind node.location
      return node
  | declarator :: values =>
      let type ← Check.declaredType none declarator
      match declarator.declaredName? with
      | none => do
          Check.malformed node.kind node.location
          return node
      | some name =>
          let replaces ← replacedVariable name.text
          let symbol : Symbol :=
            { type, role := .variable replaces, location := name.location
              block := (← get).scopes.currentBlock }
          let id ← Check.allocate symbol
          let declarator := (Declaration.annotateName type symbol.role.roles id declarator).mapNote
            (·.addType type symbol.role.roles)
          let (declarator, values) ←
            match values with
            | [] => pure (declarator, [])
            | value :: rest => do
                let value ← expression value
                Check.requireCompatible "initialization" type value
                pure (declarator.mapNote (·.add value.note.attributes), value :: rest)
          declare .innermost name.text id
          Check.recordSymbol name.text id
          return { node with note := node.note.addType type, children := declarator :: values }

def checkParameter (declarator : Tree) : Strict Tree := do
  let type ← Check.declaredType none declarator
  match declarator.declaredName? with
  | none => do
      Check.malformed declarator.kind declarator.location
      return declarator
  | some name =>
      let replaces ← replacedVariable name.text
      let symbol : Symbol :=
        { type, role := .parameter replaces, location := name.location
          block := (← get).scopes.currentBlock }
      let id ← Check.allocate symbol
      declare .innermost name.text id
      Check.recordSymbol name.text id
      return (Declaration.annotateName type symbol.role.roles id declarator).mapNote
        (·.addType type)

def checkParameters : List Tree → Strict (List Tree)
  | [] => pure []
  | declarator :: rest => do
      let declarator ← checkParameter declarator
      let rest ← checkParameters rest
      return declarator :: rest

def openFunction (node declarator parameterList : Tree) : Strict (Option Declaration.Heading) := do
  let type ← Check.declaredType none declarator
  match declarator.declaredName? with
  | none => do
      Check.malformed node.kind declarator.location
      return none
  | some name =>
      let first := (← get).symbols.size + 1
      let count := parameterList.children.countP (·.declaredName?.isSome)
      let role := SymbolRole.function (List.range' first count) (node.kind == .prototype)
      let id ← Check.allocate { type, role, location := name.location }
      Check.recordSymbol name.text id
      declare .file name.text id
      Check.enter
      let children ← checkParameters parameterList.children
      Check.record .separator
      return some {
        type
        declarator :=
          (Declaration.annotateName type role.roles id declarator).mapNote (·.addType type)
        parameters := { parameterList with children } }

/-! ## Statements -/

def result (function : Option Nat) : Strict (Option ValueType) := do
  match function with
  | none => return none
  | some id => return some (← symbol id).type

def simple (function : Option Nat) (node : Tree) : Strict Tree := do
  match node.kind, node.children with
  | .struct, _ => checkStruct node
  | .variable, _ => checkVariable node
  | .returnVoid, _ => do
      let result ← result function
      Statement.simple result node
  | .returnValue, value :: rest => do
      let value ← expression value
      let result ← result function
      Statement.returned result node.location value
      return { node with note := node.note.addType value.note.type, children := value :: rest }
  | .returnValue, [] | .function, _ | .prototype, _
  | .whileLoop, _ | .ifThen, _ | .ifElse, _ => do
      Check.malformed node.kind node.location
      return node
  | .field, _ | .type _, _ | .arrayMark, _ | .declaredName, _ | .parameters, _ => return node
  | _, _ => expression node

def condition (tree : Tree) : Strict Tree := do
  let tree ← expression tree
  Check.requireInteger "condition" tree
  return tree

mutual
def statement (function : Option Nat) : Tree → Strict Tree
  | ⟨.root, location, text, note, children⟩ => do
      let children ← statements function children
      return ⟨.root, location, text, note, children⟩
  | ⟨.block, location, text, note, children⟩ => do
      Check.enter
      let children ← statements function children
      leave
      return ⟨.block, location, text, note, children⟩
  | ⟨.function, location, text, note, declarator :: parameters :: rest⟩ => do
      let node : Tree := ⟨.function, location, text, note, declarator :: parameters :: rest⟩
      -- The function gets the next symbol, before its parameters.
      let own := (← get).symbols.size
      match ← openFunction node declarator parameters with
      | none => return node
      | some heading =>
          let rest ← body own node rest
          leave
          Check.record .separator
          return Declaration.closeFunction node heading rest
  | ⟨.prototype, location, text, note, declarator :: parameters :: rest⟩ => do
      let node : Tree := ⟨.prototype, location, text, note, declarator :: parameters :: rest⟩
      match ← openFunction node declarator parameters with
      | none => return node
      | some heading =>
          leave
          return Declaration.closeFunction node heading rest
  | ⟨.whileLoop, location, text, note, test :: bodies⟩ => do
      let test ← condition test
      let bodies ← statements function bodies
      return ⟨.whileLoop, location, text, note, test :: bodies⟩
  | ⟨.ifThen, location, text, note, test :: bodies⟩ => do
      let test ← condition test
      let bodies ← statements function bodies
      return ⟨.ifThen, location, text, note, test :: bodies⟩
  | ⟨.ifElse, location, text, note, test :: bodies⟩ => do
      let test ← condition test
      let bodies ← statements function bodies
      return ⟨.ifElse, location, text, note, test :: bodies⟩
  | other => simple function other

def body (own : Nat) (function : Tree) : List Tree → Strict (List Tree)
  | [] => do
      Check.malformed function.kind function.location
      return []
  | ⟨kind, location, text, note, children⟩ :: rest => do
      let children ← statements (some own) children
      return ⟨kind, location, text, note, children⟩ :: rest

def statements (function : Option Nat) : List Tree → Strict (List Tree)
  | [] => pure []
  | tree :: rest => do
      let tree ← statement function tree
      let rest ← statements function rest
      return tree :: rest
end

def analyze (tree : Tree) : Option (Tree × Analysis) :=
  ((statement none (Numbering.number tree)).run {}).map fun (annotated, state) =>
    (annotated, Analysis.ofState state)

end Strict

end OcLang
