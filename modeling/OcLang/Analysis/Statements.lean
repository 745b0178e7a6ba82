import OcLang.Analysis.Declarations

namespace OcLang

namespace Statement

open Check

/-! ## The walk over statements

`result` is the type that the enclosing function has to return, if there is an
enclosing function. -/

def returned (result : Option ValueType) (place : Location) (value : Tree) : Check Unit :=
  match result with
  | none => report (.invalidReturn place "return with a value outside of a function")
  | some type =>
      if type.flags.void then
        report (.invalidReturn place "return with a value in a void function")
      else requireCompatible "return" type value

/-- Statements that hold no other statements. Parts of declarations that stand
where a statement belongs mean nothing and are passed over. -/
def simple (result : Option ValueType) (node : Tree) : Check Tree := do
  match node.kind, node.children with
  | .struct, _ => Declaration.checkStruct node
  | .variable, _ => Declaration.checkVariable node
  | .returnVoid, _ => do
      if result.any (!·.flags.void) then
        report (.invalidReturn node.location "missing return value in a non-void function")
      return node
  | .returnValue, value :: rest => do
      let value ← Expression.check value
      returned result node.location value
      return { node with note := node.note.addType value.note.type, children := value :: rest }
  | .returnValue, [] | .function, _ | .prototype, _
  | .whileLoop, _ | .ifThen, _ | .ifElse, _ => do
      malformed node.kind node.location
      return node
  | .field, _ | .type _, _ | .arrayMark, _ | .declaredName, _ | .parameters, _ => return node
  | _, _ => Expression.check node

def condition (tree : Tree) : Check Tree := do
  let tree ← Expression.check tree
  requireInteger "condition" tree
  return tree

mutual
def check (result : Option ValueType) : Tree → Check Tree
  | ⟨.root, location, text, note, children⟩ => do
      let children ← checkAll result children
      return ⟨.root, location, text, note, children⟩
  | ⟨.block, location, text, note, children⟩ => do
      enter
      let children ← checkAll result children
      leave
      return ⟨.block, location, text, note, children⟩
  | ⟨.function, location, text, note, declarator :: parameters :: rest⟩ => do
      let node : Tree := ⟨.function, location, text, note, declarator :: parameters :: rest⟩
      match ← Declaration.openFunction node declarator parameters with
      | none => return node
      | some heading =>
          let rest ← checkBody heading.type node rest
          leave
          record .separator
          return Declaration.closeFunction node heading rest
  | ⟨.prototype, location, text, note, declarator :: parameters :: rest⟩ => do
      let node : Tree := ⟨.prototype, location, text, note, declarator :: parameters :: rest⟩
      match ← Declaration.openFunction node declarator parameters with
      | none => return node
      | some heading =>
          leave
          return Declaration.closeFunction node heading rest
  | ⟨.whileLoop, location, text, note, test :: bodies⟩ => do
      let test ← condition test
      let bodies ← checkAll result bodies
      return ⟨.whileLoop, location, text, note, test :: bodies⟩
  | ⟨.ifThen, location, text, note, test :: bodies⟩ => do
      let test ← condition test
      let bodies ← checkAll result bodies
      return ⟨.ifThen, location, text, note, test :: bodies⟩
  | ⟨.ifElse, location, text, note, test :: bodies⟩ => do
      let test ← condition test
      let bodies ← checkAll result bodies
      return ⟨.ifElse, location, text, note, test :: bodies⟩
  | other => simple result other

def checkBody (type : ValueType) (function : Tree) : List Tree → Check (List Tree)
  | [] => do
      malformed function.kind function.location
      return []
  | ⟨kind, location, text, note, children⟩ :: rest => do
      let children ← checkAll (some type) children
      return ⟨kind, location, text, note, children⟩ :: rest

def checkAll (result : Option ValueType) : List Tree → Check (List Tree)
  | [] => pure []
  | tree :: rest => do
      let tree ← check result tree
      let rest ← checkAll result rest
      return tree :: rest
end

end Statement

end OcLang
