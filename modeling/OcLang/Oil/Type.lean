import OcLang.Tree
import OcLang.Oil.Name

namespace OcLang.Oil

/-! ## Types in generated code -/

inductive OilType where
  | void
  | int
  | char
  | struct (name : String)
  | pointer (target : OilType)
deriving DecidableEq, Repr

namespace OilType

def render : OilType → String
  | .void => "void"
  | .int => "int"
  | .char => "char"
  | .struct name => "struct " ++ structTag name
  | .pointer target => target.render ++ "*"

/-- The type that a type keyword stands for. Structs and strings are held by
reference, truth values are characters. -/
def ofKeyword (tree : Tree) : OilType :=
  match tree.kind with
  | .type .int => .int
  | .type .char | .type .bool => .char
  | .type .string => .pointer .char
  | .type .named => .pointer (.struct tree.text)
  | _ => .void

def ofDeclarator (tree : Tree) : OilType :=
  if tree.hasArrayMark then .pointer (ofKeyword tree) else ofKeyword tree

def ofValue (type : ValueType) : OilType :=
  let base? : Option OilType :=
    if type.flags.struct then some (.pointer (.struct (type.structName.getD "")))
    else if type.flags.string then some (.pointer .char)
    else if type.flags.int then some .int
    else if type.flags.null then none
    else some .void
  match base? with
  | some base => if type.flags.array then .pointer base else base
  | none => .pointer .void

example : (ofValue { flags := { struct := true, array := true }, structName := some "s" }).render =
    "struct s_s**" := by
  decide

end OilType

end OcLang.Oil
