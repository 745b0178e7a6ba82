import OcLang.Kind
import OcLang.Oil.Type

namespace OcLang.Oil

/-! ## Generated programs

A program is data: declarations at file scope and, for every function, the lines
of its body. Its text is made from it in one place only. -/

/-- What may stand where a value is used. Nothing here is computed, except that
a call takes effect where it is written. -/
inductive Operand where
  | literal (text : String)
  | variable (name : VariableName)
  | temporary (temporary : Temporary)
  | boundString (location : Location)
  | cast (type : OilType) (operand : Operand)
  | field (object : Operand) (owner name : String)
  | element (array position : Operand)
  | call (function : String) (arguments : List Operand)
  /-- Left by an expression that has no value to give; it has no text. -/
  | missing

inductive Computation where
  | copy (operand : Operand)
  | binary (operator : BinaryOperator) (left right : Operand)
  | unary (operator : UnaryOperator) (operand : Operand)
  | allocate (count : Operand) (element : OilType)

inductive Line where
  | declare (type : OilType) (name : VariableName) (value : Option Operand)
  | compute (type : OilType) (temporary : Temporary) (value : Computation)
  | store (target source : Operand)
  | perform (call : Operand)
  | jumpUnless (condition : Operand) (label : Label)
  | jump (label : Label)
  | anchor (label : Label)
  | returnValue (value : Operand)
  | returnVoid
  /-- A statement whose children do not fit its kind; it has no text. -/
  | gap (kind : Kind)

structure StructLayout where
  name : String
  fields : List (OilType × String)

structure StringBinding where
  name : Operand
  literal : String

structure Parameter where
  type : OilType
  name : VariableName

structure Function where
  result : OilType
  name : String
  parameters : Option (List Parameter)
  body : List Line

structure Program where
  structs : List StructLayout
  strings : List StringBinding
  globals : List (OilType × VariableName)
  functions : List Function
  main : List Line

end OcLang.Oil
