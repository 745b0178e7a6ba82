import OcLang.Analysis.State

namespace OcLang

/-! ## Rules for expressions

A rule takes a node whose operands have been checked, reports what is wrong with
it and returns the node with what is known about its value. Each rule looks at
one node only; the walk over whole expressions comes last. -/

namespace Expression

open Check

def literalAttributes : Literal → Attributes
  | .int | .char => { type := { int := true }, roles := { isConstant := true } }
  | .string => { type := { string := true }, roles := { isConstant := true } }
  | .null => { type := { null := true }, roles := { isConstant := true } }

def elementAttributes : Attributes :=
  { roles := { isLvalue := true, inMemory := true } }

def operatorAttributes : Attributes :=
  { type := { int := true }, roles := { inRegister := true } }

def identifier (node : Tree) : Check Tree := do
  match (← get).scopes.lookup node.text node.location with
  | .error problem => do
      report problem
      return node
  | .ok id =>
      let symbol ← symbol id
      let roles : Roles := { isVariable := true, isLvalue := symbol.role.roles.isLvalue }
      return node.mapNote fun note =>
        { note.addType symbol.type roles with
          declaredAt := some symbol.location, symbol := some id }

def callArguments (name : String) (place : Location) (parameters : List Nat)
    (arguments : List Tree) : Check Unit := do
  if parameters.length != arguments.length then
    report (.argumentCount place name parameters.length arguments.length)
  else
    (arguments.zip parameters).forM fun (argument, parameter) => do
      requireCompatible "argument" (← symbol parameter).type argument

/-- Functions are found at file scope, whatever is declared inside. -/
def call (node callee : Tree) (arguments : List Tree) : Check Tree := do
  let unchanged := { node with children := callee :: arguments }
  match (← get).scopes.lookupGlobal callee.text callee.location with
  | .error problem => do
      report problem
      return unchanged
  | .ok id =>
      let function ← symbol id
      if !function.isFunction then
        report (.notFunction callee.location callee.text)
        return unchanged
      else
        callArguments callee.text node.location function.parameters arguments
        let callee := callee.mapNote fun note =>
          { note.addType function.type function.role.roles with
            declaredAt := some function.location, symbol := some id }
        return {
          node with
          note := node.note.addType function.type { inRegister := true }
          children := callee :: arguments }

def selectedField (node object field : Tree) : Check (Option Nat) := do
  let type := object.note.type
  match type.structName, type.flags.isPlainStruct with
  | some structName, true =>
      match (← get).structs.find? structName with
      | none => do
          report (.unknownStruct object.location structName)
          return none
      | some id =>
          match (← symbol id).fields?.bind (·.find? field.text) with
          | none => do
              report (.unknownField field.location structName field.text)
              return none
          | some id => return some id
  | _, _ => do
      report (.notStruct node.location type.describe)
      return none

def select (node object field : Tree) : Check Tree := do
  let unchanged := { node with children := [object, field] }
  if !object.note.isTyped then return unchanged
  else
    match ← selectedField node object field with
    | none => return unchanged
    | some id =>
        let symbol ← symbol id
        let field := field.mapNote fun note =>
          { note.addType symbol.type symbol.role.roles with
            declaredAt := some symbol.location, symbol := some id }
        return { node with note := node.note.addType symbol.type, children := [object, field] }

def index (node array index : Tree) : Check Tree := do
  requireInteger "array index" index
  let indexed := { node with children := [array, index] }
  let type := array.note.type
  if !type.isTyped then return indexed
  else if type.flags.array && !type.flags.null then
    return indexed.mapNote (·.addType { type with flags := { type.flags with array := false } })
  else if type.flags.string then
    return indexed.mapNote (·.add { type := { int := true } })
  else
    report (.typeMismatch array.location "indexing" "array or string" type.describe)
    return indexed

def newStruct (node type : Tree) : Check Tree := do
  let declared ← declaredType none type
  return {
    node with
    note := node.note.addType declared { inRegister := true }
    children := [type.mapNote (·.addType declared { isTypeName := true })] }

def newArray (node : Tree) (declared : ValueType) (type size : Tree) : Check Tree := do
  requireInteger "array size" size
  let array := { declared with flags := { declared.flags with array := true } }
  return {
    node with
    note := node.note.addType array { inRegister := true }
    children := [type.mapNote (·.addType declared), size] }

def newString (node size : Tree) : Check Tree := do
  requireInteger "string size" size
  return {
    node with
    note := node.note.add { type := { string := true }, roles := { inRegister := true } }
    children := [size] }

def assign (node target value : Tree) : Check Tree := do
  if target.note.isTyped && !target.note.attributes.roles.isLvalue then
    report (.notAssignable node.location)
  requireCompatible "assignment" target.note.type value
  return {
    node with
    note := node.note.addType target.note.type target.note.attributes.roles
    children := [target, value] }

def binary (operator : BinaryOperator) (node left right : Tree) : Check Tree := do
  if operator.isEquality then
    requireCompatible "comparison" left.note.type right
  else
    let context := if operator.isArithmetic then "arithmetic operand" else "comparison operand"
    requireInteger context left
    requireInteger context right
  return { node with children := [left, right] }

/-- Nodes without operands to check, and nodes whose children do not fit their
kind. -/
def closed (node : Tree) : Check Tree := do
  match node.kind, node.children with
  | .identifier, _ => identifier node
  | .literal what, _ => return node.mapNote (·.add (literalAttributes what))
  | .allocate .struct, [type] => newStruct node type
  | .select, _ | .index, _ => do
      malformed node.kind node.location
      return node.mapNote (·.add elementAttributes)
  | .binary _, _ | .unary _, _ => do
      malformed node.kind node.location
      return node.mapNote (·.add operatorAttributes)
  | _, _ => do
      malformed node.kind node.location
      return node

/-! ## The walk over an expression

Operands are checked from left to right before the rule of the node itself. -/

mutual
def check : Tree → Check Tree
  | ⟨.call, location, text, note, callee :: arguments⟩ => do
      let arguments ← checkAll arguments
      call ⟨.call, location, text, note, []⟩ callee arguments
  | ⟨.select, location, text, note, [object, field]⟩ => do
      let object ← check object
      select ⟨.select, location, text, note.add elementAttributes, []⟩ object field
  | ⟨.index, location, text, note, [array, position]⟩ => do
      let array ← check array
      let position ← check position
      index ⟨.index, location, text, note.add elementAttributes, []⟩ array position
  | ⟨.allocate .array, location, text, note, [type, size]⟩ => do
      let declared ← declaredType none type
      let size ← check size
      newArray ⟨.allocate .array, location, text, note, []⟩ declared type size
  | ⟨.allocate .string, location, text, note, [size]⟩ => do
      let size ← check size
      newString ⟨.allocate .string, location, text, note, []⟩ size
  | ⟨.assign, location, text, note, [target, value]⟩ => do
      let target ← check target
      let value ← check value
      assign ⟨.assign, location, text, note, []⟩ target value
  | ⟨.binary operator, location, text, note, [left, right]⟩ => do
      let left ← check left
      let right ← check right
      binary operator ⟨.binary operator, location, text, note.add operatorAttributes, []⟩ left right
  | ⟨.unary operator, location, text, note, operand :: rest⟩ => do
      let operand ← check operand
      requireInteger "unary operand" operand
      return ⟨.unary operator, location, text, note.add operatorAttributes, operand :: rest⟩
  | other => closed other

def checkAll : List Tree → Check (List Tree)
  | [] => pure []
  | tree :: rest => do
      let tree ← check tree
      let rest ← checkAll rest
      return tree :: rest
end

end Expression

end OcLang
