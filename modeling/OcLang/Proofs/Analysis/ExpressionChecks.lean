import OcLang.Proofs.Analysis.Forms
import OcLang.Proofs.Analysis.Reports

namespace OcLang.Expression

open Check

/-! # Laws of checked expressions

Expressions are checked from the operands up, and checks of expressions only report. A law that
the rule of each form keeps, where the operands obey it, holds of every expression. -/

/-- The law relates expressions, and the state in front of them, to what they are annotated as
and to the problems with them. Lists of arguments and types have laws of their own. -/
structure IsCheckLaw (holds : AnalysisState → Tree → Prop)
    (law : AnalysisState → Tree → Tree → List Problem → Prop)
    (all : AnalysisState → List Tree → List Tree → List Problem → Prop)
    (described : AnalysisState → Tree → ValueType → List Problem → Prop) : Prop where
  operand {state : AnalysisState} {tree operand : Tree} (here : holds state tree)
    (member : operand ∈ tree.operands) (problems : List Problem) :
    holds (state.reporting problems) operand
  nil (state : AnalysisState) : all state [] [] []
  cons {state : AnalysisState} {tree first : Tree} {rest others : List Tree}
    {problems more : List Problem} (obeys : law state tree first problems)
    (obey : all (state.reporting problems) rest others more) :
    all state (tree :: rest) (first :: others) (problems ++ more)
  call {state : AnalysisState} {location : Location} {text : String} {note : Note} {callee : Tree}
    {arguments annotated : List Tree} {problems : List Problem}
    (here : holds state ⟨.call, location, text, note, callee :: arguments⟩)
    (obey : all state arguments annotated problems) :
    Reports (call ⟨.call, location, text, note, []⟩ callee annotated) (state.reporting problems)
      fun result more =>
        law state ⟨.call, location, text, note, callee :: arguments⟩ result (problems ++ more)
  select {state : AnalysisState} {location : Location} {text : String} {note : Note}
    {object field checked : Tree} {problems : List Problem}
    (here : holds state ⟨.select, location, text, note, [object, field]⟩)
    (obeys : law state object checked problems) :
    Reports (select ⟨.select, location, text, note.add elementAttributes, []⟩ checked field)
      (state.reporting problems) fun result more =>
        law state ⟨.select, location, text, note, [object, field]⟩ result (problems ++ more)
  index {state : AnalysisState} {location : Location} {text : String} {note : Note}
    {array position first second : Tree} {problems more : List Problem}
    (here : holds state ⟨.index, location, text, note, [array, position]⟩)
    (obeys : law state array first problems)
    (obeysPosition : law (state.reporting problems) position second more) :
    Reports (index ⟨.index, location, text, note.add elementAttributes, []⟩ first second)
      (state.reporting (problems ++ more)) fun result last =>
        law state ⟨.index, location, text, note, [array, position]⟩ result
          (problems ++ more ++ last)
  declared (state : AnalysisState) (type : Tree) :
    Reports (declaredType none type) state (described state type)
  newArray {state : AnalysisState} {location : Location} {text : String} {note : Note}
    {type size checked : Tree} {declared : ValueType} {problems more : List Problem}
    (here : holds state ⟨.allocate .array, location, text, note, [type, size]⟩)
    (describes : described state type declared problems)
    (obeys : law (state.reporting problems) size checked more) :
    Reports (newArray ⟨.allocate .array, location, text, note, []⟩ declared type checked)
      (state.reporting (problems ++ more)) fun result last =>
        law state ⟨.allocate .array, location, text, note, [type, size]⟩ result
          (problems ++ more ++ last)
  newString {state : AnalysisState} {location : Location} {text : String} {note : Note}
    {size checked : Tree} {problems : List Problem}
    (here : holds state ⟨.allocate .string, location, text, note, [size]⟩)
    (obeys : law state size checked problems) :
    Reports (newString ⟨.allocate .string, location, text, note, []⟩ checked)
      (state.reporting problems) fun result more =>
        law state ⟨.allocate .string, location, text, note, [size]⟩ result (problems ++ more)
  assign {state : AnalysisState} {location : Location} {text : String} {note : Note}
    {target value first second : Tree} {problems more : List Problem}
    (here : holds state ⟨.assign, location, text, note, [target, value]⟩)
    (obeys : law state target first problems)
    (obeysValue : law (state.reporting problems) value second more) :
    Reports (assign ⟨.assign, location, text, note, []⟩ first second)
      (state.reporting (problems ++ more)) fun result last =>
        law state ⟨.assign, location, text, note, [target, value]⟩ result
          (problems ++ more ++ last)
  binary {state : AnalysisState} {operator : BinaryOperator} {location : Location} {text : String}
    {note : Note} {left right first second : Tree} {problems more : List Problem}
    (here : holds state ⟨.binary operator, location, text, note, [left, right]⟩)
    (obeys : law state left first problems)
    (obeysRight : law (state.reporting problems) right second more) :
    Reports (binary operator
        ⟨.binary operator, location, text, note.add operatorAttributes, []⟩ first second)
      (state.reporting (problems ++ more)) fun result last =>
        law state ⟨.binary operator, location, text, note, [left, right]⟩ result
          (problems ++ more ++ last)
  unary {state : AnalysisState} {operator : UnaryOperator} {location : Location} {text : String}
    {note : Note} {operand checked : Tree} {rest : List Tree} {problems : List Problem}
    (here : holds state ⟨.unary operator, location, text, note, operand :: rest⟩)
    (obeys : law state operand checked problems) :
    Reports (requireInteger "unary operand" checked) (state.reporting problems) fun _ more =>
      law state ⟨.unary operator, location, text, note, operand :: rest⟩
        ⟨.unary operator, location, text, note.add operatorAttributes, checked :: rest⟩
        (problems ++ more)
  leaf {state : AnalysisState} {node : Tree} (here : holds state node)
    (leaf : node.hasOperands = false) : Reports (closed node) state (law state node)

namespace IsCheckLaw

variable {holds : AnalysisState → Tree → Prop}
  {law : AnalysisState → Tree → Tree → List Problem → Prop}
  {all : AnalysisState → List Tree → List Tree → List Problem → Prop}
  {described : AnalysisState → Tree → ValueType → List Problem → Prop}
  (lawful : IsCheckLaw holds law all described)

include lawful

theorem arguments {trees : List Tree} {state : AnalysisState}
    (each : ∀ tree ∈ trees, ∀ problems,
      Reports (check tree) (state.reporting problems) (law (state.reporting problems) tree))
    (problems : List Problem) :
    Reports (checkAll trees) (state.reporting problems)
      (all (state.reporting problems) trees) := by
  induction trees generalizing problems with
  | nil => exact .pure (lawful.nil _)
  | cons tree rest induction =>
      rw [List.forall_mem_cons] at each
      simp only [checkAll]
      apply Reports.bind
      apply (each.1 problems).imp
      intro first more obeys
      apply Reports.bind
      have behind := induction each.2 (problems ++ more)
      rw [← AnalysisState.reporting_reporting] at behind
      apply behind.imp
      intro others last obey
      apply Reports.pure
      rw [List.append_nil]
      exact lawful.cons obeys obey

theorem expression {tree : Tree} {state : AnalysisState} (here : holds state tree) :
    Reports (check tree) state (law state tree) := by
  have later {state : AnalysisState} {tree operand : Tree} (here : holds state tree)
      (member : operand ∈ tree.operands) (problems : List Problem) :
      holds (state.reporting problems) operand := lawful.operand here member problems
  have first {state : AnalysisState} {tree operand : Tree} (here : holds state tree)
      (member : operand ∈ tree.operands) : holds state operand := later here member []
  induction tree using Tree.expressionInduction generalizing state with
  | call location text note callee arguments induction =>
      have obey := lawful.arguments (fun argument member problems =>
        induction argument member (later here member problems)) []
      simp only [check]
      apply Reports.bind
      apply obey.imp
      intro annotated problems obey
      exact lawful.call here obey
  | select location text note object field induction =>
      simp only [check]
      apply Reports.bind
      apply (induction (first here (by simp [Tree.operands]))).imp
      intro checked problems obeys
      exact lawful.select here obeys
  | index location text note array position left right =>
      simp only [check]
      apply Reports.bind
      apply (left (first here (by simp [Tree.operands]))).imp
      intro checked problems obeys
      apply Reports.bind
      apply (right (later here (by simp [Tree.operands]) problems)).imp
      intro second more obeysPosition
      simpa using lawful.index here obeys obeysPosition
  | newArray location text note type size induction =>
      simp only [check]
      apply Reports.bind
      apply (lawful.declared state type).imp
      intro declared problems describes
      apply Reports.bind
      apply (induction (later here (by simp [Tree.operands]) problems)).imp
      intro checked more obeys
      simpa using lawful.newArray here describes obeys
  | newString location text note size induction =>
      simp only [check]
      apply Reports.bind
      apply (induction (first here (by simp [Tree.operands]))).imp
      intro checked problems obeys
      exact lawful.newString here obeys
  | assign location text note target value left right =>
      simp only [check]
      apply Reports.bind
      apply (left (first here (by simp [Tree.operands]))).imp
      intro checked problems obeys
      apply Reports.bind
      apply (right (later here (by simp [Tree.operands]) problems)).imp
      intro second more obeysValue
      simpa using lawful.assign here obeys obeysValue
  | binary operator location text note left right onLeft onRight =>
      simp only [check]
      apply Reports.bind
      apply (onLeft (first here (by simp [Tree.operands]))).imp
      intro checked problems obeys
      apply Reports.bind
      apply (onRight (later here (by simp [Tree.operands]) problems)).imp
      intro second more obeysRight
      simpa using lawful.binary here obeys obeysRight
  | unary operator location text note inside rest induction =>
      simp only [check]
      apply Reports.bind
      apply (induction (first here (by simp [Tree.operands]))).imp
      intro checked problems obeys
      apply Reports.bind
      apply (lawful.unary here obeys).imp
      intro _ more obeysWhole
      apply Reports.pure
      rw [List.append_nil]
      exact obeysWhole
  | leaf node leaf =>
      rw [check_leaf leaf]
      exact lawful.leaf here leaf

end IsCheckLaw

end OcLang.Expression
