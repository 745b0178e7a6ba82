import OcLang.Proofs.Oil.Origins
import OcLang.Proofs.Oil.Readiness

namespace OcLang.Oil

open Lexical

/-! # Programs without gaps

A tree whose children do not fit their kinds leaves gaps in the lines that are made
from it, operands without text and names that stand for nothing. Accepted trees leave none. -/

def VariableName.isDeclared : VariableName → Bool
  | .declared _ _ => true
  | .unresolved _ _ => false

def Operand.isFilled : Operand → Bool
  | .missing => false
  | .variable name => name.isDeclared
  | _ => true

def Line.isFilled : Line → Bool
  | .gap _ => false
  | .declare _ name _ => name.isDeclared
  | _ => true

def AllFilled (operands : List Operand) : Prop :=
  ∀ operand ∈ operands, operand.isFilled = true

structure IsFilled (lines : List Line) : Prop where
  each : ∀ line ∈ lines, line.isFilled = true
  operands : AllFilled (operandsOf lines)

def filling : Rules where
  line line := line.isFilled = true ∧ AllFilled line.operands
  operand operand := operand.isFilled = true
  type _ := True

theorem isFilled_of_filling {lines : List Line} (kept : ∀ line ∈ lines, filling.line line) :
    IsFilled lines where
  each line member := (kept line member).1
  operands operand member := by
    rcases List.mem_flatMap.mp member with ⟨line, known, below⟩
    exact (kept line known).2 operand below

/-! ## What is accepted leaves no gaps -/

section

variable {analysis : Analysis} {all : List Event} {context : Context}
  (resolved : Resolved analysis.symbols all) (placed : ¬Refused all)

theorem isDeclared_of_refers {sort : Symbol → Bool} {node : Tree}
    (refers : node.Refers analysis sort) : (variableName analysis node).isDeclared = true := by
  rcases refers with ⟨id, symbol, noted, _⟩
  rw [variableName, noted]
  rfl

include resolved placed

/-- Where a value belongs there is one: other leaves would be misplaced. -/
theorem lowerLeaf_filled {node : Tree} (shaped : node.IsShaped) (leaf : node.hasOperands = false)
    (other : ¬∃ location text note type, node =
      ⟨.allocate .struct, location, text, note, [type]⟩) (used : uses context node ⊆ all) :
    (lowerLeaf analysis node).Keeps filling := by
  rw [uses_leaf context leaf, leafEvents] at used
  split at used
  · rename_i identifier
    have refers := refers_of_use resolved (used (List.mem_singleton_self _))
    simp only [lowerLeaf, identifier]
    exact ⟨by simp, .single (isDeclared_of_refers refers)⟩
  · split at used
    · rename_i constant
      have fine := shaped.fault
      rcases node with ⟨kind, location, text, note, children⟩
      cases kind with
      | literal what => cases what <;> exact ⟨by simp [lowerLeaf], .single rfl⟩
      | allocate what =>
          rcases children with _ | ⟨first, _ | ⟨second, _ | ⟨third, rest⟩⟩⟩ <;> cases what <;>
            simp_all [Tree.shapeFault?, Tree.hasOperands]
      | _ => simp [Kind.isConstant] at constant
    · exact absurd ⟨node, used (List.mem_singleton_self _)⟩ placed

theorem filling_kept : filling.KeptByStatements analysis
    (fun tree => tree.IsShaped ∧ ∃ context, uses context tree ⊆ all)
    (fun tree => tree.IsShaped ∧ ∃ context, events context tree ⊆ all) where
  inner here member := by
    rcases here with ⟨shaped, context, used⟩
    exact ⟨shaped.child (Tree.mem_children_of_mem_operands member), context,
      List.Subset.trans (uses_operand _ member) used⟩
  common {operand} common := by cases operand <;> first | contradiction | rfl
  int := trivial
  char := trivial
  pointer _ := trivial
  value _ := trivial
  struct _ := trivial
  element _ := trivial
  call _ _ := rfl
  select _ _ := rfl
  computes _ _ operands := ⟨rfl, operands⟩
  stores operands := ⟨rfl, operands⟩
  assigns _ _ _ operands := ⟨rfl, operands.append (.single rfl)⟩
  leaf here leaf other := by
    rcases here with ⟨shaped, context, used⟩
    exact lowerLeaf_filled resolved placed shaped leaf other used
  crowded here := by
    have single := here.1.unary
    contradiction
  child here member := by
    rcases here with ⟨shaped, context, inside⟩
    rcases exists_events member context.enter with ⟨place, sub⟩
    exact ⟨shaped.child member, place, List.Subset.trans sub inside⟩
  inside here member := by
    rcases here with ⟨shaped, context, inside⟩
    rcases shaped.function with ⟨_, _, _, _, _, _, name, same, _, declared, _⟩
    cases same
    simp only [events, declared, bodyEvents, List.append_subset] at inside
    rcases exists_events member (context.heading name _) with ⟨place, sub⟩
    exact ⟨(shaped.child (by simp)).child member, place, List.Subset.trans sub inside.2⟩
  body control here member := by
    rcases here with ⟨shaped, context, inside⟩
    rw [events_control _ control, List.append_subset] at inside
    rcases exists_events member context with ⟨place, sub⟩
    exact ⟨shaped.child (List.mem_cons_of_mem _ member), place, List.Subset.trans sub inside.2⟩
  test control here := by
    rcases here with ⟨shaped, context, inside⟩
    rw [events_control _ control, List.append_subset] at inside
    exact ⟨shaped.child List.mem_cons_self, context, inside.1⟩
  initial here := by
    rcases here with ⟨shaped, context, inside⟩
    rcases shaped.variable with ⟨declarator, values, name, same, _, declared, _⟩
    cases same
    simp only [events, simpleEvents, declared, List.head?_cons, Option.toList_some, usesAll,
      List.append_nil, List.append_subset] at inside
    exact ⟨shaped.child (by simp), context, inside.1⟩
  returned here := by
    rcases here with ⟨shaped, context, inside⟩
    exact ⟨shaped.child List.mem_cons_self, context, inside⟩
  whole {tree} here isExpression := by
    rcases here with ⟨shaped, context, inside⟩
    refine ⟨shaped, context, ?_⟩
    rcases tree with ⟨kind, location, text, note, children⟩
    cases kind <;> first | contradiction | (rw [events_simple _ rfl] at inside; exact inside)
  declared here declared := by
    -- The name is in use behind its initializer, so its event is the last one.
    rcases here with ⟨shaped, context, inside⟩
    refine ⟨?_, trivial⟩
    simp only [events, simpleEvents, declared] at inside
    have member := inside (List.mem_append_right _ List.mem_cons_self)
    rw [filling, variableName_declaration (resolved _ member).1]
    rfl
  declares _ target operands := ⟨target, operands⟩
  rebinds _ _ _ _ target := ⟨rfl, Rules.Allow.cons target (.single rfl)⟩
  plain {line} plain operands := ⟨by cases line <;> first | contradiction | rfl, operands⟩
  gap := .inl fun _ here => here.1

end

end OcLang.Oil
