import OcLang.Oil.Lower
import OcLang.Oil.Render

namespace OcLang.Oil

/-! ## The parts of a program

File-scope declarations come first: struct layouts, string literals, variables.
Then come the functions, and last the entry point with the statements of the
file. Temporaries are numbered through all bodies. -/

section

variable (analysis : Analysis)

def declaratorOf? (id : Nat) (declarators : List Tree) : Option (Tree × Tree) :=
  declarators.findSome? fun declarator =>
    declarator.declaredName?.bind fun name =>
      if name.note.symbol = some id then some (declarator, name) else none

/-- The layout of a struct declaration, if it is the last one of its name. The
field declared last comes first; a redeclared field keeps its place. -/
def structLayout? (item : Tree) : Option StructLayout :=
  match item.kind, item.children with
  | .struct, name :: declarators => do
      let id ← name.note.symbol
      if analysis.structs.find? name.text != some id then none
      else
        let table ← (analysis.symbol id).fields?
        return {
          name := name.text
          fields := table.entries.reverse.filterMap fun (_, fieldId) =>
            (declaratorOf? fieldId declarators).map fun (declarator, field) =>
              (.ofDeclarator declarator, field.text) }
  | _, _ => none

/-- A string literal that a node gives to a variable or assigns. It is bound to
the variable that it initializes, or else to a name for the place of the node. -/
def stringBinding? (node : Tree) : Option StringBinding :=
  match node.kind, node.children with
  | .variable, [declarator, value] =>
      if value.kind == .literal .string then
        declarator.declaredName?.map fun name =>
          { name :=
              if replacesVariable analysis name then .boundString node.location
              else .variable (variableName analysis name)
            literal := value.text }
      else none
  | .assign, [_, value] =>
      if value.kind == .literal .string then
        some { name := .boundString node.location, literal := value.text }
      else none
  | _, _ => none

def globalVariable? (item : Tree) : Option (OilType × VariableName) :=
  match item.kind, item.children with
  | .variable, declarator :: values =>
      if values.head?.any (·.kind == .literal .string) then none
      else
        (declarator.declaredName?.filter (!replacesVariable analysis ·)).map fun name =>
          (.ofDeclarator declarator, variableName analysis name)
  | _, _ => none

def definedName? (function : Tree) : Option String :=
  function.children.head?.bind fun declarator => declarator.declaredName?.map (·.text)

def parameter? (declarator : Tree) : Option Parameter :=
  declarator.declaredName?.map fun name =>
    { type := .ofDeclarator declarator, name := variableName analysis name }

/-- A function, unless one of the items after it defines the same name. -/
def lowerFunction (function : Tree) (later : List Tree) : Numbered (Option Function) := do
  match function.children with
  | [declarator, parameters, body] =>
      match declarator.declaredName? with
      | none => return none
      | some name =>
          if later.any (definedName? · == some name.text) then return none
          else
            let lines ← lowerStatements analysis body.children
            return some {
              result := .ofDeclarator declarator
              name := name.text
              parameters :=
                if parameters.children.isEmpty then none
                else some (parameters.children.filterMap (parameter? analysis))
              body := lines }
  | _ => return none

def lowerFunctions : List Tree → Numbered (List Function)
  | [] => pure []
  | function :: later => do
      let first ← lowerFunction analysis function later
      let rest ← lowerFunctions later
      return first.toList ++ rest

def isDefinition : Kind → Bool
  | .struct | .function | .prototype => true
  | _ => false

def lowerItems : List Tree → Numbered (List Line)
  | [] => pure []
  | item :: rest => do
      let first ← if isDefinition item.kind then pure [] else lowerStatement analysis .file item
      let rest ← lowerItems rest
      return first ++ rest

def generateNumbered (root : Tree) : Numbered Program := do
  let functions ← lowerFunctions analysis (root.children.filter (·.kind == .function))
  let main ← lowerItems analysis root.children
  return {
    structs := root.children.filterMap (structLayout? analysis)
    strings := root.preorder.filterMap (stringBinding? analysis)
    globals := root.children.filterMap (globalVariable? analysis)
    functions
    main }

end

def generate (analysis : Analysis) (root : Tree) : Program :=
  ((generateNumbered analysis root).run firstTemporary).1

end OcLang.Oil
