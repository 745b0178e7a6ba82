import OcLang.Attributes

namespace OcLang

/-! ## When types fit together

Types are compared by their flags. Two types fit when they share a flag, and
`null` fits whatever is held by reference; structs also have to agree in name. -/

namespace TypeFlags

def isReference (flags : TypeFlags) : Bool :=
  flags.string || flags.struct || flags.array

private def nullFits (first second : TypeFlags) : Bool :=
  first.null && second.isReference

def sameType (first second : TypeFlags) : Bool :=
  nullFits first second || nullFits second first || first.overlaps second

def isInteger (flags : TypeFlags) : Bool :=
  flags.int && !flags.array

private def isNamed (flags : TypeFlags) : Bool :=
  flags.struct && !flags.null

end TypeFlags

namespace ValueType

def isTyped (type : ValueType) : Bool :=
  type.flags.isTyped

def compatible (first second : ValueType) : Bool :=
  first.flags.sameType second.flags &&
    (!(first.flags.isNamed && second.flags.isNamed) || first.structName == second.structName)

private def baseWord? (type : ValueType) : Option String :=
  if type.flags.struct then some ("struct " ++ type.structName.getD "?")
  else if type.flags.string then some "string"
  else if type.flags.int then some "int"
  else if type.flags.void then some "void"
  else none

def describe (type : ValueType) : String :=
  if type.flags.null then "null"
  else match type.baseWord? with
    | none => "untyped"
    | some word => if type.flags.array then word ++ "[]" else word

example : describe { flags := { struct := true, array := true }, structName := some "node" } =
    "struct node[]" := by
  decide

end ValueType

end OcLang
