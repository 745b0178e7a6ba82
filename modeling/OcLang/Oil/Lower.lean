import OcLang.Analysis
import OcLang.Oil.Program

namespace OcLang.Oil

/-! ## From trees to lines

Nested expressions become sequences of lines, where every computed value has a
temporary of its own. An expression gives the lines that have to run first and
the operand that then stands for its value. -/

structure Lowered where
  lines : List Line
  operand : Operand

section

variable (analysis : Analysis)

def variableName (node : Tree) : VariableName :=
  match node.note.symbol with
  | some id => .declared (analysis.symbol id).block node.text
  | none => .unresolved node.note.block node.text

def replacesVariable (name : Tree) : Bool :=
  name.note.symbol.any fun id => (analysis.symbol id).replaces?.isSome

def noValue (kind : Kind) : Lowered :=
  { lines := [.gap kind], operand := .missing }

def lowerLeaf (node : Tree) : Lowered :=
  match node.kind with
  | .literal .int => { lines := [], operand := .literal (integerLiteral node.text) }
  | .literal .char | .literal .string => { lines := [], operand := .literal node.text }
  | .literal .null => { lines := [], operand := .literal "0" }
  | .identifier => { lines := [], operand := .variable (variableName analysis node) }
  | kind => noValue kind

def compute (kind : TemporaryKind) (type : OilType) (lines : List Line) (value : Computation) :
    Numbered Lowered := do
  let temporary ← fresh kind
  return { lines := lines ++ [.compute type temporary value], operand := .temporary temporary }

/-! ### Values

Some expressions give operands that may be copied as they are. The others name
a place in memory, which is read into a temporary when its value is wanted. -/

def isDirect (kind : Kind) : Bool :=
  kind.isBinary || kind.isUnary ||
    match kind with
    | .literal _ | .identifier | .call | .allocate _ => true
    | _ => false

/-- An element of a string is a character, whatever type the analysis gave it. -/
def isCharacter (value : Tree) : Bool :=
  value.kind == .index &&
    match value.children with
    | string :: _ => string.note.attributes.type.string && !string.note.attributes.type.array
    | [] => false

def readValue (value : Tree) (lowered : Lowered) : Numbered Lowered :=
  if isDirect value.kind then pure lowered
  else if isCharacter value then compute .char .char lowered.lines (.copy lowered.operand)
  else
    compute (.ofFlags value.note.attributes.type) (.ofValue value.note.type) lowered.lines
      (.copy lowered.operand)

/-- An assignment stores the value and stands for its target. A string literal
was bound at file scope and is stored under that name. -/
def lowerStore (place : Location) (target : Lowered) (value : Tree) (source : Lowered) :
    Numbered Lowered := do
  if value.kind == .literal .string then
    return {
      lines := target.lines ++ [.store target.operand (.boundString place)]
      operand := target.operand }
  else
    let source ← readValue value source
    return {
      lines := target.lines ++ source.lines ++ [.store target.operand source.operand]
      operand := target.operand }

def lowerBinary (operator : BinaryOperator) (left right : Lowered) : Numbered Lowered :=
  let value := Computation.binary operator left.operand right.operand
  if operator.isComparison then compute .bool .char (left.lines ++ right.lines) value
  else compute .int .int (left.lines ++ right.lines) value

def lowerUnary (operator : UnaryOperator) (operand : Lowered) : Numbered Lowered :=
  match operator with
  | .ord => pure { operand with operand := .cast .int operand.operand }
  | .chr => pure { operand with operand := .cast .char operand.operand }
  | .not => compute .bool .char operand.lines (.unary .not operand.operand)
  | .neg | .pos => compute .int .int operand.lines (.unary operator operand.operand)

def lowerAllocation (element : OilType) (count : Lowered) : Numbered Lowered :=
  compute .pointer (.pointer element) count.lines (.allocate count.operand element)

mutual
def lower : Tree → Numbered Lowered
  | ⟨.unary operator, _, _, _, [operand]⟩ => do
      let operand ← lower operand
      lowerUnary operator operand
  | ⟨.binary operator, _, _, _, [left, right]⟩ => do
      let left ← lower left
      let right ← lower right
      lowerBinary operator left right
  | ⟨.call, _, _, _, callee :: arguments⟩ => do
      let (lines, arguments) ← lowerAll arguments
      return { lines, operand := .call callee.text arguments }
  | ⟨.select, _, _, _, [object, field]⟩ => do
      let base ← lower object
      let owner := object.note.structName.getD ""
      return { base with operand := .field base.operand owner field.text }
  | ⟨.index, _, _, _, [array, position]⟩ => do
      let array ← lower array
      let position ← lower position
      return {
        lines := array.lines ++ position.lines
        operand := .element array.operand position.operand }
  | ⟨.assign, location, _, _, [target, value]⟩ => do
      let target ← lower target
      let source ← lower value
      lowerStore location target value source
  | ⟨.allocate .struct, _, _, _, [type]⟩ =>
      lowerAllocation (.struct type.text) { lines := [], operand := .literal "1" }
  | ⟨.allocate .array, _, _, _, [type, size]⟩ => do
      let size ← lower size
      lowerAllocation (.ofKeyword type) size
  | ⟨.allocate .string, _, _, _, [size]⟩ => do
      let size ← lower size
      lowerAllocation .char size
  | other => pure (lowerLeaf analysis other)

def lowerAll : List Tree → Numbered (List Line × List Operand)
  | [] => pure ([], [])
  | tree :: rest => do
      let first ← lower tree
      let (lines, operands) ← lowerAll rest
      return (first.lines ++ lines, first.operand :: operands)
end

def lowerValue (value : Tree) : Numbered Lowered := do
  let lowered ← lower analysis value
  readValue value lowered

/-- A condition is held in a truth value. Comparisons and negations already are. -/
def lowerCondition (condition : Tree) : Numbered Lowered := do
  let lowered ← lower analysis condition
  match condition.kind with
  | .unary .not => pure lowered
  | kind =>
      if kind.isComparison then pure lowered
      else compute .bool .char lowered.lines (.copy lowered.operand)

/-! ### Statements -/

/-- Where a statement stands. Variables declared directly at file scope exist
from the start; others are declared where the statement is. -/
inductive Placement where
  | file
  | nested
deriving DecidableEq, Repr

/-- A string literal that initializes a variable was bound at file scope, to the
variable itself unless an earlier variable keeps the name. -/
def lowerDeclaration (placement : Placement) (node : Tree) : Numbered (List Line) := do
  match node.children with
  | [] => return [.gap .variable]
  | declarator :: values =>
      match declarator.declaredName? with
      | none => return [.gap .variable]
      | some name =>
          let target := variableName analysis name
          let type := OilType.ofDeclarator declarator
          let replaces := replacesVariable analysis name
          let existing := placement == .file || replaces
          match values with
          | [] => return if existing then [] else [.declare type target none]
          | value :: _ =>
              if value.kind == .literal .string then
                return if replaces then [.store (.variable target) (.boundString node.location)]
                  else []
              else
                let value ← lowerValue analysis value
                let line := if existing then Line.store (.variable target) value.operand
                  else .declare type target (some value.operand)
                return value.lines ++ [line]

/-- Statements that hold no other statements. Declarations of structs and
functions leave nothing here. -/
def lowerSimple (placement : Placement) (node : Tree) : Numbered (List Line) := do
  match node.kind, node.children with
  | .variable, _ => lowerDeclaration analysis placement node
  | .returnValue, [] => return [.returnValue .missing]
  | .returnValue, value :: _ => do
      let value ← lowerValue analysis value
      return value.lines ++ [.returnValue value.operand]
  | .returnVoid, _ => return [.returnVoid]
  | .call, _ => do
      let call ← lower analysis node
      return call.lines ++ [.perform call.operand]
  | .whileLoop, _ | .ifThen, _ | .ifElse, _ => return [.gap node.kind]
  | .root, _ | .struct, _ | .function, _ | .prototype, _ | .parameters, _ | .field, _ | .type _, _
  | .arrayMark, _ | .declaredName, _ | .block, _ => return []
  | _, _ => do
      let lowered ← lower analysis node
      return lowered.lines

def loopLabel (location : Location) : Label := { stem := "while", location }

def exitLabel (location : Location) : Label := { stem := "break", location }

def alternativeLabel (location : Location) : Label := { stem := "else", location }

def endLabel (location : Location) : Label := { stem := "fi", location }

def branchLines (kind : Kind) (location : Location) (condition : Lowered) :
    List (List Line) → List Line
  | [consequence] =>
      condition.lines ++ [.jumpUnless condition.operand (endLabel location)] ++ consequence ++
        [.anchor (endLabel location)]
  | [consequence, alternative] =>
      condition.lines ++ [.jumpUnless condition.operand (alternativeLabel location)] ++
        consequence ++
        [.jump (endLabel location), .anchor (alternativeLabel location)] ++ alternative ++
        [.anchor (endLabel location)]
  | _ => condition.lines ++ [.gap kind]

mutual
def lowerStatement (placement : Placement) : Tree → Numbered (List Line)
  | ⟨.block, _, _, _, children⟩ => lowerStatements children
  | ⟨.whileLoop, location, _, _, [condition, body]⟩ => do
      let condition ← lowerCondition analysis condition
      let body ← lowerStatement .nested body
      return [.anchor (loopLabel location)] ++ condition.lines ++
        [.jumpUnless condition.operand (exitLabel location)] ++ body ++
        [.jump (loopLabel location), .anchor (exitLabel location)]
  | ⟨.ifThen, location, _, _, condition :: branches⟩ => do
      let condition ← lowerCondition analysis condition
      let branches ← lowerBranches branches
      return branchLines .ifThen location condition branches
  | ⟨.ifElse, location, _, _, condition :: branches⟩ => do
      let condition ← lowerCondition analysis condition
      let branches ← lowerBranches branches
      return branchLines .ifElse location condition branches
  | other => lowerSimple analysis placement other

def lowerStatements : List Tree → Numbered (List Line)
  | [] => pure []
  | tree :: rest => do
      let first ← lowerStatement .nested tree
      let rest ← lowerStatements rest
      return first ++ rest

/-- One or two branches, each on its own; other numbers of them are left out. -/
def lowerBranches : List Tree → Numbered (List (List Line))
  | [consequence] => do
      let consequence ← lowerStatement .nested consequence
      return [consequence]
  | [consequence, alternative] => do
      let consequence ← lowerStatement .nested consequence
      let alternative ← lowerStatement .nested alternative
      return [consequence, alternative]
  | _ => pure []
end

end

end OcLang.Oil
