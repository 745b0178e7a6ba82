import OcLang.Oil.Lower
import OcLang.Proofs.Oil.Forms
import OcLang.Proofs.Stepwise

namespace OcLang.Oil

/-! # Laws of expressions

What its operands are lowered to is put together for an expression in one way for each of its
forms. A law that each of these ways keeps holds of every expression. -/

def LowersTo (analysis : Analysis) (node : Tree) (operand : Operand) : Prop :=
  ∃ number, ((lower analysis node).run number).1.operand = operand

/-- The law relates expressions of a certain form, and the counts of temporaries before and
behind, to what they are lowered to; for arguments there is a law of their own. -/
structure IsExpressionLaw (analysis : Analysis) (holds : Tree → Prop)
    (law : Tree → Nat → Lowered → Nat → Prop)
    (all : List Tree → Nat → List Line → List Operand → Nat → Prop) : Prop where
  operand {tree operand : Tree} (here : holds tree) (member : operand ∈ tree.operands) :
    holds operand
  nil (number : Nat) : all [] number [] [] number
  cons {tree : Tree} {rest : List Tree} {number middle after : Nat} {first : Lowered}
    {lines : List Line} {operands : List Operand} (obeys : law tree number first middle)
    (others : all rest middle lines operands after) :
    all (tree :: rest) number (first.lines ++ lines) (first.operand :: operands) after
  call {location : Location} {text : String} {note : Note} {callee : Tree}
    {arguments : List Tree} {number after : Nat} {lines : List Line} {operands : List Operand}
    (here : holds ⟨.call, location, text, note, callee :: arguments⟩)
    (lowers : LowersTo analysis ⟨.call, location, text, note, callee :: arguments⟩
      (.call callee.text operands))
    (obey : all arguments number lines operands after) :
    law ⟨.call, location, text, note, callee :: arguments⟩ number
      ⟨lines, .call callee.text operands⟩ after
  select {location : Location} {text : String} {note : Note} {object field : Tree}
    {number after : Nat} {base : Lowered}
    (here : holds ⟨.select, location, text, note, [object, field]⟩)
    (lowers : LowersTo analysis ⟨.select, location, text, note, [object, field]⟩
      (.field base.operand (object.note.structName.getD "") field.text))
    (obeys : law object number base after) :
    law ⟨.select, location, text, note, [object, field]⟩ number
      ⟨base.lines, .field base.operand (object.note.structName.getD "") field.text⟩ after
  index {location : Location} {text : String} {note : Note} {array position : Tree}
    {number middle after : Nat} {first second : Lowered}
    (here : holds ⟨.index, location, text, note, [array, position]⟩)
    (obeys : law array number first middle) (obeysPosition : law position middle second after) :
    law ⟨.index, location, text, note, [array, position]⟩ number
      ⟨first.lines ++ second.lines, .element first.operand second.operand⟩ after
  newStruct {location : Location} {text : String} {note : Note} {type : Tree}
    (here : holds ⟨.allocate .struct, location, text, note, [type]⟩) (number : Nat) :
    Ends (lowerAllocation (.struct type.text) ⟨[], .literal "1"⟩) number
      (law ⟨.allocate .struct, location, text, note, [type]⟩ number)
  newArray {location : Location} {text : String} {note : Note} {type size : Tree}
    {number after : Nat} {count : Lowered}
    (here : holds ⟨.allocate .array, location, text, note, [type, size]⟩)
    (obeys : law size number count after) :
    Ends (lowerAllocation (.ofKeyword type) count) after
      (law ⟨.allocate .array, location, text, note, [type, size]⟩ number)
  newString {location : Location} {text : String} {note : Note} {size : Tree}
    {number after : Nat} {count : Lowered}
    (here : holds ⟨.allocate .string, location, text, note, [size]⟩)
    (obeys : law size number count after) :
    Ends (lowerAllocation .char count) after
      (law ⟨.allocate .string, location, text, note, [size]⟩ number)
  assign {location : Location} {text : String} {note : Note} {target value : Tree}
    {number middle after : Nat} {lowered source : Lowered}
    (here : holds ⟨.assign, location, text, note, [target, value]⟩)
    (lowers : LowersTo analysis target lowered.operand) (obeys : law target number lowered middle)
    (obeysValue : law value middle source after) :
    Ends (lowerStore location lowered value source) after
      (law ⟨.assign, location, text, note, [target, value]⟩ number)
  binary {operator : BinaryOperator} {location : Location} {text : String} {note : Note}
    {left right : Tree} {number middle after : Nat} {first second : Lowered}
    (here : holds ⟨.binary operator, location, text, note, [left, right]⟩)
    (obeys : law left number first middle) (obeysRight : law right middle second after) :
    Ends (lowerBinary operator first second) after
      (law ⟨.binary operator, location, text, note, [left, right]⟩ number)
  unary {operator : UnaryOperator} {location : Location} {text : String} {note : Note}
    {operand : Tree} {number after : Nat} {lowered : Lowered}
    (here : holds ⟨.unary operator, location, text, note, [operand]⟩)
    (obeys : law operand number lowered after) :
    Ends (lowerUnary operator lowered) after
      (law ⟨.unary operator, location, text, note, [operand]⟩ number)
  crowded {operator : UnaryOperator} {location : Location} {text : String} {note : Note}
    {operand second : Tree} {rest : List Tree}
    (here : holds ⟨.unary operator, location, text, note, operand :: second :: rest⟩)
    (number : Nat) :
    law ⟨.unary operator, location, text, note, operand :: second :: rest⟩ number
      (noValue (.unary operator)) number
  leaf {node : Tree} (here : holds node) (leaf : node.hasOperands = false)
    (other : ¬∃ location text note type, node = ⟨.allocate .struct, location, text, note, [type]⟩)
    (number : Nat) : law node number (lowerLeaf analysis node) number

namespace IsExpressionLaw

variable {analysis : Analysis} {holds : Tree → Prop} {law : Tree → Nat → Lowered → Nat → Prop}
  {all : List Tree → Nat → List Line → List Operand → Nat → Prop}
  (lawful : IsExpressionLaw analysis holds law all)

include lawful

theorem arguments {trees : List Tree}
    (each : ∀ tree ∈ trees, ∀ number, Ends (lower analysis tree) number (law tree number))
    (number : Nat) :
    Ends (lowerAll analysis trees) number fun lowered after =>
      all trees number lowered.1 lowered.2 after := by
  induction trees generalizing number with
  | nil => exact .pure (lawful.nil number)
  | cons tree rest induction =>
      rw [List.forall_mem_cons] at each
      simp only [lowerAll]
      apply Ends.bind
      apply (each.1 number).imp
      intro first middle obeys
      apply Ends.bind
      apply (induction each.2 middle).imp
      intro others after obeyRest
      exact .pure (lawful.cons obeys obeyRest)

theorem expression {tree : Tree} (here : holds tree) (number : Nat) :
    Ends (lower analysis tree) number (law tree number) := by
  have operand {tree operand : Tree} (here : holds tree) (member : operand ∈ tree.operands) :=
    lawful.operand here member
  induction tree using Tree.expressionInduction generalizing number with
  | call location text note callee arguments induction =>
      have obey := lawful.arguments (fun argument member =>
        induction argument member (operand here member)) number
      have lowers : LowersTo analysis ⟨.call, location, text, note, callee :: arguments⟩
          (.call callee.text ((lowerAll analysis arguments).run number).1.2) :=
        ⟨number, by simp only [lower, run_bind, run_pure]⟩
      simp only [lower]
      apply Ends.bind
      apply Ends.run
      exact .pure (lawful.call here lowers obey)
  | select location text note object field induction =>
      have obeys := induction (operand here (by simp [Tree.operands])) number
      have lowers : LowersTo analysis ⟨.select, location, text, note, [object, field]⟩
          (.field ((lower analysis object).run number).1.operand
            (object.note.structName.getD "") field.text) :=
        ⟨number, by simp only [lower, run_bind, run_pure]⟩
      simp only [lower]
      apply Ends.bind
      apply Ends.run
      exact .pure (lawful.select here lowers obeys)
  | index location text note array position first second =>
      simp only [lower]
      apply Ends.bind
      apply (first (operand here (by simp [Tree.operands])) number).imp
      intro lowered middle obeys
      apply Ends.bind
      apply (second (operand here (by simp [Tree.operands])) middle).imp
      intro other after obeysPosition
      exact .pure (lawful.index here obeys obeysPosition)
  | newArray location text note type size induction =>
      simp only [lower]
      apply Ends.bind
      apply (induction (operand here (by simp [Tree.operands])) number).imp
      intro count after obeys
      exact lawful.newArray here obeys
  | newString location text note size induction =>
      simp only [lower]
      apply Ends.bind
      apply (induction (operand here (by simp [Tree.operands])) number).imp
      intro count after obeys
      exact lawful.newString here obeys
  | assign location text note target value first second =>
      have obeys := first (operand here (by simp [Tree.operands])) number
      simp only [lower]
      apply Ends.bind
      apply Ends.run
      apply Ends.bind
      apply (second (operand here (by simp [Tree.operands])) _).imp
      intro source after obeysValue
      exact lawful.assign here ⟨number, rfl⟩ obeys obeysValue
  | binary operator location text note left right first second =>
      simp only [lower]
      apply Ends.bind
      apply (first (operand here (by simp [Tree.operands])) number).imp
      intro lowered middle obeys
      apply Ends.bind
      apply (second (operand here (by simp [Tree.operands])) middle).imp
      intro other after obeysRight
      exact lawful.binary here obeys obeysRight
  | unary operator location text note inside rest induction =>
      cases rest with
      | nil =>
          simp only [lower]
          apply Ends.bind
          apply (induction (operand here (by simp [Tree.operands])) number).imp
          intro lowered after obeys
          exact lawful.unary here obeys
      | cons second more => exact .pure (lawful.crowded here number)
  | leaf node leaf =>
      by_cases allocates : ∃ location text note type, node =
          ⟨.allocate .struct, location, text, note, [type]⟩
      · rcases allocates with ⟨location, text, note, type, rfl⟩
        exact lawful.newStruct here number
      · rw [lower_leaf leaf allocates]
        exact .pure (lawful.leaf here leaf allocates number)

end IsExpressionLaw

theorem lowerCondition_ends {analysis : Analysis} {test : Tree} {number : Nat}
    {holds : Lowered → Nat → Prop} (lowered : Ends (lower analysis test) number holds)
    (copied : ∀ lowered middle, holds lowered middle →
      Ends (compute .bool .char lowered.lines (.copy lowered.operand)) middle holds) :
    Ends (lowerCondition analysis test) number holds := by
  apply Ends.bind
  apply lowered.imp
  intro lowered middle here
  split
  · exact .pure here
  · split
    · exact .pure here
    · exact copied lowered middle here

end OcLang.Oil
