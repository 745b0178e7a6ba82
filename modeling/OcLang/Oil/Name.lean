import OcLang.Location
import OcLang.Attributes

namespace OcLang.Oil

/-! ## Names in generated code

Source names are put into name spaces of their own: functions, variables,
struct types, fields, labels and bound strings each get another spelling.
Variables also carry the number of their block, so that names which shadow each
other stay apart. -/

def functionName (text : String) : String :=
  "__" ++ text

def structTag (name : String) : String :=
  "s_" ++ name

def fieldName (owner text : String) : String :=
  "f_" ++ owner ++ "_" ++ text

/-- A variable with the block of its declaration; one that was never resolved
has the block of its use. -/
inductive VariableName where
  | declared (block : Nat) (text : String)
  | unresolved (block : Nat) (text : String)
deriving DecidableEq, Repr

def VariableName.spelling : VariableName → String
  | .declared block text => "_" ++ block.repr ++ "_" ++ text
  | .unresolved block text => if block = 0 then "__" ++ text else "_" ++ block.repr ++ "_" ++ text

structure Label where
  stem : String
  location : Location
deriving DecidableEq, Repr

def Label.spelling (label : Label) : String :=
  label.stem ++ "_" ++ label.location.key

def Label.anchor (label : Label) : String :=
  label.spelling ++ ":;"

def stringLabel (location : Location) : Label :=
  { stem := "str", location }

/-- Digits without leading zeros, which would be read as octal. -/
def integerLiteral (text : String) : String :=
  let digits := text.toList.dropWhile (· == '0')
  if digits.isEmpty && !text.isEmpty then "0" else String.ofList digits

example : integerLiteral "007" = "7" ∧ integerLiteral "000" = "0" ∧ integerLiteral "" = "" := by
  decide

/-! ## Temporaries -/

inductive TemporaryKind where
  | pointer | bool | int | char | string
deriving DecidableEq, Repr

namespace TemporaryKind

def letter : TemporaryKind → String
  | .pointer => "p"
  | .bool => "b"
  | .int => "i"
  | .char => "c"
  | .string => "s"

def ofFlags (flags : TypeFlags) : TemporaryKind :=
  if flags.struct || flags.array || flags.null then .pointer
  else if flags.string then .string
  else .int

end TemporaryKind

structure Temporary where
  kind : TemporaryKind
  number : Nat
deriving DecidableEq, Repr

def Temporary.spelling (temporary : Temporary) : String :=
  temporary.kind.letter ++ temporary.number.repr

abbrev Numbered := StateM Nat

def firstTemporary : Nat := 1

def fresh (kind : TemporaryKind) : Numbered Temporary :=
  modifyGet fun number => ({ kind, number }, number + 1)

end OcLang.Oil
