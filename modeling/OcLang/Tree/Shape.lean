import OcLang.Tree

namespace OcLang

/-! ## Well-shaped trees

Each kind allows certain children. A shape check looks at one node and the
kinds of its children; a tree is well shaped when every node passes. -/

inductive ShapeFault where
  | childCount
  | fieldNotDeclarator
  | notDeclaratorBody
  | functionUnnamed
  | parametersMissing
  | bodyNotBlock
  | parameterNotDeclarator
  | notVariable
  | calleeMissing
  | structTypeMissing
  | elementTypeMissing
  | selectorNotField
deriving DecidableEq, Repr

def ShapeFault.reason : ShapeFault → String
  | .childCount => "wrong number of children"
  | .fieldNotDeclarator => "fields must be type nodes naming a field"
  | .notDeclaratorBody => "expected an optional [] marker followed by a name"
  | .functionUnnamed => "first child must declare the function name"
  | .parametersMissing => "second child must be the parameter list"
  | .bodyNotBlock => "body must be a block"
  | .parameterNotDeclarator => "parameters must be type nodes naming a parameter"
  | .notVariable => "expected a declarator and an optional initializer"
  | .calleeMissing => "first child must name the callee"
  | .structTypeMissing => "expected the struct type"
  | .elementTypeMissing => "expected the element type"
  | .selectorNotField => "selector must be a field name"

structure ShapeError where
  kind : Kind
  location : Location
  fault : ShapeFault
deriving DecidableEq, Repr

def ShapeError.message (error : ShapeError) : String :=
  error.location.display ++ ": malformed " ++ error.kind.tag ++ " node: " ++ error.fault.reason

namespace Tree

def declares (nameKind : Kind) (tree : Tree) : Bool :=
  tree.kind.isType && (tree.declaredName?.any (·.kind == nameKind))

def require (fault : ShapeFault) (condition : Bool) : Option ShapeFault :=
  if condition then none else some fault

def isDeclaratorBody : List Kind → Bool
  | [] => true
  | [only] => only == .arrayMark || only.isNaming
  | [mark, name] => mark == .arrayMark && name.isNaming
  | _ => false

def headingFault? (declarator parameters : Tree) : Option ShapeFault :=
  if !declarator.declares .declaredName then some .functionUnnamed
  else if parameters.kind != .parameters then some .parametersMissing
  else none

/-- The fault of one node, whatever lies below its children. A struct without
a name is left to the analysis, which has its own message for it. -/
def shapeFault? (tree : Tree) : Option ShapeFault :=
  match tree.kind, tree.children with
  | .root, _ | .block, _ => none
  | .struct, name :: fields =>
      if name.kind == .type .named then
        require .fieldNotDeclarator (fields.all (·.declares .field))
      else none
  | .struct, [] => none
  | .type _, children => require .notDeclaratorBody (isDeclaratorBody (children.map (·.kind)))
  | .function, [declarator, parameters, body] =>
      (headingFault? declarator parameters).or (require .bodyNotBlock (body.kind == .block))
  | .prototype, [declarator, parameters] => headingFault? declarator parameters
  | .parameters, children =>
      require .parameterNotDeclarator (children.all (·.declares .declaredName))
  | .variable, declarator :: value =>
      require .notVariable (declarator.declares .declaredName && value.length ≤ 1)
  | .variable, [] => some .notVariable
  | .call, callee :: _ => require .calleeMissing (callee.kind == .identifier)
  | .call, [] => some .calleeMissing
  | .allocate .struct, [type] => require .structTypeMissing (type.kind == .type .named)
  | .allocate .struct, _ => some .structTypeMissing
  | .allocate .array, [type, _] => require .elementTypeMissing type.kind.isType
  | .select, [_, field] => require .selectorNotField (field.kind == .field)
  | .whileLoop, [_, _] | .ifThen, [_, _] | .ifElse, [_, _, _] => none
  | .returnValue, [_] | .returnVoid, [] => none
  | .assign, [_, _] | .index, [_, _] | .binary _, [_, _] => none
  | .unary _, [_] | .allocate .string, [_] => none
  | .field, [] | .arrayMark, [] | .declaredName, [] | .identifier, [] | .literal _, [] => none
  | _, _ => some .childCount

mutual
def shapeError? : Tree → Option ShapeError
  | ⟨kind, location, text, note, children⟩ =>
      match shapeFault? ⟨kind, location, text, note, children⟩ with
      | some fault => some { kind, location, fault }
      | none => shapeErrorAmong? children

def shapeErrorAmong? : List Tree → Option ShapeError
  | [] => none
  | tree :: rest =>
      match tree.shapeError? with
      | some error => some error
      | none => shapeErrorAmong? rest
end

end Tree

end OcLang
