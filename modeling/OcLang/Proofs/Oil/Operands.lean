import OcLang.Oil.Generate
import OcLang.Proofs.Oil.Forms
import OcLang.Proofs.Stepwise

namespace OcLang.Oil

/-! # Operands in generated programs

Operands are written inside of each other and on lines. Nothing is computed
where an operand is written, except that a call takes effect there; so it
matters how often one is written. -/

mutual
def Operand.within : Operand → List Operand
  | .cast type operand => .cast type operand :: operand.within
  | .field object owner name => .field object owner name :: object.within
  | .element array position => .element array position :: (array.within ++ position.within)
  | .call function arguments => .call function arguments :: withinAll arguments
  | .literal text => [.literal text]
  | .variable name => [.variable name]
  | .temporary held => [.temporary held]
  | .boundString location => [.boundString location]
  | .missing => [.missing]

def Operand.withinAll : List Operand → List Operand
  | [] => []
  | operand :: rest => operand.within ++ withinAll rest
end

def Computation.operands : Computation → List Operand
  | .copy operand | .unary _ operand => operand.within
  | .binary _ left right => left.within ++ right.within
  | .allocate count _ => count.within

def Line.operands : Line → List Operand
  | .declare _ _ value => value.toList.flatMap Operand.within
  | .compute _ _ value => value.operands
  | .store target source => target.within ++ source.within
  | .perform call => call.within
  | .jumpUnless condition _ => condition.within
  | .returnValue value => value.within
  | .jump _ | .anchor _ | .returnVoid | .gap _ => []

def operandsOf (lines : List Line) : List Operand :=
  lines.flatMap Line.operands

namespace Program

def lines (program : Program) : List Line :=
  program.functions.flatMap (·.body) ++ program.main

def operands (program : Program) : List Operand :=
  operandsOf program.lines

end Program

section

variable {lines more : List Line}

@[simp] theorem operandsOf_nil : operandsOf [] = [] := rfl

@[simp] theorem operandsOf_append :
    operandsOf (lines ++ more) = operandsOf lines ++ operandsOf more :=
  List.flatMap_append ..

theorem operandsOf_line (line : Line) : operandsOf [line] = line.operands := by
  simp [operandsOf]

end

/-! ## Values in temporaries -/

structure Lowered.Holds (lowered : Lowered) (operands : List Operand) : Prop where
  lines : operandsOf lowered.lines = operands
  operand : ∃ held, lowered.operand = .temporary held

theorem compute_holds (kind : TemporaryKind) (type : OilType) (lines : List Line)
    (value : Computation) (number : Nat) :
    Ends (compute kind type lines value) number fun lowered _ =>
      lowered.Holds (operandsOf lines ++ value.operands) := by
  apply Ends.bind
  apply Ends.modifyGet
  apply Ends.pure
  exact ⟨by simp [operandsOf_line, Line.operands], _, rfl⟩

/-- A value that is read stays as it is or is copied to a temporary. -/
theorem readValue_holds (value : Tree) (lowered : Lowered) (number : Nat) :
    Ends (readValue value lowered) number fun result _ =>
      result = lowered ∨ result.Holds (operandsOf lowered.lines ++ lowered.operand.within) := by
  unfold readValue
  split
  · exact .pure (.inl rfl)
  · split
    all_goals
      apply (compute_holds _ _ lowered.lines (.copy lowered.operand) number).imp
      intro result _ holds
      exact .inr holds

end OcLang.Oil
