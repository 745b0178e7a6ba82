import OcLang.Oil.Program

namespace OcLang.Oil

/-! ## The text of a program -/

mutual
def Operand.render : Operand → String
  | .literal text => text
  | .variable name => name.spelling
  | .temporary held => held.spelling
  | .boundString location => (stringLabel location).spelling
  | .cast type operand => "(" ++ type.render ++ ") " ++ operand.render
  | .field object owner name => object.render ++ "->" ++ fieldName owner name
  | .element array position => array.render ++ "[" ++ position.render ++ "]"
  | .call function arguments =>
      functionName function ++ " (" ++ ", ".intercalate (renderAll arguments) ++ ")"
  | .missing => ""

def Operand.renderAll : List Operand → List String
  | [] => []
  | operand :: rest => operand.render :: renderAll rest
end

def Computation.render : Computation → String
  | .copy operand => operand.render
  | .binary operator left right =>
      left.render ++ " " ++ operator.spelling ++ " " ++ right.render
  | .unary operator operand => operator.spelling ++ operand.render
  | .allocate count element =>
      "xcalloc (" ++ count.render ++ ", sizeof (" ++ element.render ++ "))"

def indentation : String := "        "

private def statementLine (text : String) : String :=
  indentation ++ text ++ ";\n"

def Line.render : Line → String
  | .declare type name none => statementLine (type.render ++ " " ++ name.spelling)
  | .declare type name (some value) =>
      statementLine (type.render ++ " " ++ name.spelling ++ " = " ++ value.render)
  | .compute type temporary value =>
      statementLine (type.render ++ " " ++ temporary.spelling ++ " = " ++ value.render)
  | .store target source => statementLine (target.render ++ " = " ++ source.render)
  | .perform call => statementLine call.render
  | .jumpUnless condition label =>
      statementLine ("if (!" ++ condition.render ++ ") goto " ++ label.spelling)
  | .jump label => statementLine ("goto " ++ label.spelling)
  | .anchor label => label.anchor ++ "\n"
  | .returnValue value => statementLine ("return " ++ value.render)
  | .returnVoid => statementLine "return"
  | .gap _ => ""

def renderLines (lines : List Line) : String :=
  String.join (lines.map Line.render)

def StructLayout.render (layout : StructLayout) : String :=
  "struct " ++ structTag layout.name ++ " \x7b\n" ++
    String.join (layout.fields.map fun (type, name) =>
      statementLine (type.render ++ " " ++ fieldName layout.name name)) ++
    "\x7d;\n"

def StringBinding.render (binding : StringBinding) : String :=
  "char* " ++ binding.name.render ++ " = " ++ binding.literal ++ ";\n"

private def renderBody (lines : List Line) : String :=
  "\x7b\n" ++ renderLines lines ++ "\x7d\n"

def Parameter.render (parameter : Parameter) : String :=
  indentation ++ parameter.type.render ++ " " ++ parameter.name.spelling

def Function.render (function : Function) : String :=
  function.result.render ++ " " ++ functionName function.name ++
    (match function.parameters with
      | none => " (void)\n"
      | some parameters =>
          " (\n" ++ ",\n".intercalate (parameters.map Parameter.render) ++ ")\n") ++
    renderBody function.body

def mainName : String := "ocmain"

def Program.render (program : Program) : String :=
  String.join (program.structs.map StructLayout.render) ++
    String.join (program.strings.map StringBinding.render) ++
    String.join (program.globals.map fun (type, name) =>
      type.render ++ " " ++ name.spelling ++ ";\n") ++
    String.join (program.functions.map Function.render) ++
    OilType.void.render ++ " " ++ functionName mainName ++ " (void)\n" ++ renderBody program.main

end OcLang.Oil
