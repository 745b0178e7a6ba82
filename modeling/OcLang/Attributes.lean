namespace OcLang

/-! ## Attributes

What the analysis knows about a name or a value comes in two parts: flags that
describe its type, and the roles it plays. Both only ever grow by union while a
tree is analysed. -/

/-- Flags that describe a type. A value has at most one base flag, and `array`
beside it for an array of that base. -/
structure TypeFlags where
  void : Bool := false
  int : Bool := false
  null : Bool := false
  string : Bool := false
  struct : Bool := false
  array : Bool := false
deriving DecidableEq, Repr, Inhabited

structure Roles where
  isFunction : Bool := false
  isVariable : Bool := false
  isField : Bool := false
  isTypeName : Bool := false
  isParameter : Bool := false
  isLvalue : Bool := false
  isConstant : Bool := false
  inRegister : Bool := false
  inMemory : Bool := false
deriving DecidableEq, Repr, Inhabited

structure Attributes where
  type : TypeFlags := {}
  roles : Roles := {}
deriving DecidableEq, Repr, Inhabited

namespace TypeFlags

instance : Union TypeFlags where
  union first second :=
    { void := first.void || second.void
      int := first.int || second.int
      null := first.null || second.null
      string := first.string || second.string
      struct := first.struct || second.struct
      array := first.array || second.array }

def isTyped (flags : TypeFlags) : Bool :=
  flags.void || flags.int || flags.null || flags.string || flags.struct || flags.array

def overlaps (first second : TypeFlags) : Bool :=
  (first.void && second.void) || (first.int && second.int) || (first.null && second.null) ||
    (first.string && second.string) || (first.struct && second.struct) ||
    (first.array && second.array)

def isPlainStruct (flags : TypeFlags) : Bool :=
  flags.struct && !(flags.array || flags.null)

end TypeFlags

namespace Roles

instance : Union Roles where
  union first second :=
    { isFunction := first.isFunction || second.isFunction
      isVariable := first.isVariable || second.isVariable
      isField := first.isField || second.isField
      isTypeName := first.isTypeName || second.isTypeName
      isParameter := first.isParameter || second.isParameter
      isLvalue := first.isLvalue || second.isLvalue
      isConstant := first.isConstant || second.isConstant
      inRegister := first.inRegister || second.inRegister
      inMemory := first.inMemory || second.inMemory }

end Roles

namespace Attributes

instance : Union Attributes where
  union first second :=
    { type := first.type ∪ second.type, roles := first.roles ∪ second.roles }

/-- The words for the set attributes, in the order in which they are always
shown. A struct type shows the name of its struct in quotes. -/
def words (attributes : Attributes) (structName : Option String) : List String :=
  let type := attributes.type
  let roles := attributes.roles
  [ (type.void, "void"),
    (type.int, "int"),
    (type.string, "string"),
    (type.struct, "struct \"" ++ structName.getD "" ++ "\""),
    (roles.isTypeName, "typeid"),
    (type.null, "null"),
    (type.array, "[]"),
    (roles.isField, "field"),
    (roles.isVariable, "variable"),
    (roles.isFunction, "function"),
    (roles.isLvalue, "lval"),
    (roles.isParameter, "param"),
    (roles.isConstant, "const"),
    (roles.inRegister, "vreg"),
    (roles.inMemory, "vaddr") ].filterMap fun (present, word) =>
      if present then some word else none

def render (attributes : Attributes) (structName : Option String) : String :=
  " ".intercalate (attributes.words structName)

/-! ## The numeric form

Outside the library a set of attributes is a number whose binary digits, from
the lowest, are the flags in this order. -/

def flags (attributes : Attributes) : List Bool :=
  let type := attributes.type
  let roles := attributes.roles
  [ type.void, type.int, type.null, type.string, type.struct, type.array,
    roles.isFunction, roles.isVariable, roles.isField, roles.isTypeName, roles.isParameter,
    roles.isLvalue, roles.isConstant, roles.inRegister, roles.inMemory ]

def toNat (attributes : Attributes) : Nat :=
  attributes.flags.foldr (fun flag rest => 2 * rest + flag.toNat) 0

def ofNat (number : Nat) : Attributes where
  type :=
    { void := number.testBit 0, int := number.testBit 1, null := number.testBit 2,
      string := number.testBit 3, struct := number.testBit 4, array := number.testBit 5 }
  roles :=
    { isFunction := number.testBit 6, isVariable := number.testBit 7
      isField := number.testBit 8, isTypeName := number.testBit 9
      isParameter := number.testBit 10, isLvalue := number.testBit 11
      isConstant := number.testBit 12, inRegister := number.testBit 13
      inMemory := number.testBit 14 }

end Attributes

/-! A value type is what a declaration says: flags, and the name of the struct
when there is one. -/

structure ValueType where
  flags : TypeFlags := {}
  structName : Option String := none
deriving DecidableEq, Repr, Inhabited

end OcLang
