import OcLang.Proofs.Oil.Operands
import OcLang.Proofs.Scoping.Agreement
import OcLang.Proofs.Tree.Renaming

namespace OcLang

open Lexical

/-! # The expressions of a program

Lines are made for the expressions in the statements of a file and of those
functions that are kept. -/

namespace Oil

structure Evaluation where
  expression : Tree
  isWanted : Bool

mutual
def evaluations : Tree → List Evaluation
  | ⟨.block, _, _, _, children⟩ => evaluationsAll children
  | ⟨.whileLoop, _, _, _, test :: bodies⟩ => ⟨test, true⟩ :: evaluationsAll bodies
  | ⟨.ifThen, _, _, _, test :: bodies⟩ => ⟨test, true⟩ :: evaluationsAll bodies
  | ⟨.ifElse, _, _, _, test :: bodies⟩ => ⟨test, true⟩ :: evaluationsAll bodies
  | ⟨.variable, _, _, _, _ :: value :: _⟩ => [⟨value, true⟩]
  | ⟨.returnValue, _, _, _, value :: _⟩ => [⟨value, true⟩]
  | node =>
      if node.kind.isStatementPart || node.kind.isTypePart then []
      else [⟨node, node.kind == .call⟩]

def evaluationsAll : List Tree → List Evaluation
  | [] => []
  | tree :: rest => evaluations tree ++ evaluationsAll rest
end

def keptBody (function : Tree) (later : List Tree) : List Tree :=
  match function.children with
  | [declarator, _, body] =>
      match declarator.declaredName? with
      | none => []
      | some name => if later.any (definedName? · == some name.text) then [] else body.children
  | _ => []

def keptBodies : List Tree → List Tree
  | [] => []
  | function :: later => keptBody function later ++ keptBodies later

def loweredStatements (root : Tree) : List Tree :=
  keptBodies (root.children.filter (·.kind == .function)) ++
    root.children.filter (!isDefinition ·.kind)

def programEvaluations (root : Tree) : List Evaluation :=
  (loweredStatements root).flatMap evaluations

namespace Evaluation

def lostNames (evaluation : Evaluation) : List String :=
  if evaluation.isWanted then [] else evaluation.expression.looseNames

def settles (evaluation : Evaluation) : Bool :=
  if evaluation.isWanted then evaluation.expression.repeatedNames.isEmpty
  else evaluation.expression.settlesCalls

end Evaluation

theorem evaluationsAll_eq_flatMap (trees : List Tree) :
    evaluationsAll trees = trees.flatMap evaluations := by
  induction trees with
  | nil => rfl
  | cons tree rest induction => simp [evaluationsAll, induction]

theorem evaluations_control {kind : Kind} (control : kind.isControl = true) (location : Location)
    (text : String) (note : Note) (test : Tree) (bodies : List Tree) :
    evaluations ⟨kind, location, text, note, test :: bodies⟩ =
      ⟨test, true⟩ :: bodies.flatMap evaluations := by
  rw [← evaluationsAll_eq_flatMap]
  cases kind <;> simp [Kind.isControl] at control <;> rfl

theorem evaluations_heading {tree : Tree} (heading : tree.kind = .root ∨ tree.kind = .function ∨
    tree.kind = .prototype) : evaluations tree = [] := by
  rcases tree with ⟨kind, location, text, note, children⟩
  rcases heading with rfl | rfl | rfl <;> simp [evaluations, Kind.isStatementPart]

theorem evaluations_expression {node : Tree} (noStatement : node.kind.isStatementPart = false)
    (noType : node.kind.isTypePart = false) :
    evaluations node = [⟨node, node.kind == .call⟩] := by
  unfold evaluations
  split <;> simp_all [Kind.isStatementPart]

/-- Parts of declarations are no statements, and an incomplete one has no expression. -/
theorem evaluations_nothing {node : Tree} (simple : node.isCompound = false)
    (noVariable : node.kind ≠ .variable) (noReturn : node.kind ≠ .returnValue)
    (part : node.kind.isStatementPart = true ∨ node.kind.isTypePart = true) :
    evaluations node = [] := by
  unfold evaluations
  split <;> simp_all [Tree.isCompound]

/-! ## Accepted expressions

A node without a value is refused where a value belongs, so that nothing but
expressions is left there. -/

section

variable {context : Context}

theorem isExpression_of_uses {tree : Tree} (shaped : tree.IsShaped)
    (placed : ¬Refused (uses context tree)) : tree.IsExpression := by
  induction tree using Tree.operandInduction with
  | node tree induction =>
      have expression : tree.kind.isStatementPart = false := by
        cases form : tree.hasOperands with
        | true =>
            unfold Tree.hasOperands at form
            split at form <;> first | rfl | contradiction
        | false =>
            rw [uses_leaf context form, leafEvents] at placed
            split at placed
            · rename_i identifier
              simp [identifier, Kind.isStatementPart]
            · split at placed
              · rename_i constant
                cases kind : tree.kind <;> simp_all [Kind.isConstant, Kind.isStatementPart]
              · exact absurd ⟨tree, List.mem_singleton_self _⟩ placed
      apply Tree.IsExpression.of_operands shaped expression
      intro operand member
      apply induction operand member (shaped.child (Tree.mem_children_of_mem_operands member))
      intro refused
      rcases refused with ⟨node, misplaced⟩
      exact placed ⟨node, uses_operand _ member misplaced⟩

theorem exists_events {tree : Tree} {trees : List Tree} (member : tree ∈ trees)
    (context : Context) : ∃ place, events place tree ⊆ eventsAll context trees := by
  induction trees generalizing context with
  | nil => simp at member
  | cons first rest induction =>
      rcases List.mem_cons.mp member with rfl | later
      · exact ⟨context, List.subset_append_left _ _⟩
      · rcases induction later (after context first) with ⟨place, sub⟩
        exact ⟨place, fun event inside => List.mem_append_right _ (sub inside)⟩

theorem not_refused_of_subset {events more : List Event} (sub : events ⊆ more)
    (placed : ¬Refused more) : ¬Refused events := by
  intro refused
  rcases refused with ⟨node, misplaced⟩
  exact placed ⟨node, sub misplaced⟩

theorem isExpression_of_events {tree : Tree} (shaped : tree.IsShaped)
    (placed : ¬Refused (events context tree)) :
    ∀ evaluation ∈ evaluations tree, evaluation.expression.IsExpression := by
  induction tree using Tree.statementInduction generalizing context with
  | block location text note children induction =>
      simp only [evaluations, evaluationsAll_eq_flatMap, List.mem_flatMap]
      intro evaluation inside
      rcases inside with ⟨child, member, inside⟩
      rcases exists_events member context.enter with ⟨place, sub⟩
      exact induction child member (shaped.child member) (not_refused_of_subset sub placed)
        evaluation inside
  | control kind location text note test bodies control induction =>
      rw [events_control _ control] at placed
      rw [evaluations_control control]
      intro evaluation inside
      rcases List.mem_cons.mp inside with rfl | below
      · exact isExpression_of_uses (shaped.child List.mem_cons_self)
          (not_refused_of_subset (List.subset_append_left _ _) placed)
      · rcases List.mem_flatMap.mp below with ⟨body, member, inside⟩
        rcases exists_events member context with ⟨place, sub⟩
        exact induction body member (shaped.child (List.mem_cons_of_mem _ member))
          (not_refused_of_subset (fun event here => List.mem_append_right _ (sub here)) placed)
          evaluation inside
  | simple tree simple =>
      rw [events_simple _ simple] at placed
      intro evaluation inside
      by_cases part : tree.kind.isStatementPart = true ∨ tree.kind.isTypePart = true
      · by_cases isVariable : tree.kind = .variable
        · rcases tree with ⟨kind, location, text, note, children⟩
          subst isVariable
          rcases shaped.variable with ⟨declarator, values, name, rfl, _, declared, single⟩
          cases values with
          | nil => simp [evaluations, Kind.isStatementPart] at inside
          | cons value rest =>
              simp only [simpleEvents, declared, List.head?_cons, Option.toList_some, usesAll,
                List.append_nil] at placed
              rw [List.mem_singleton.mp inside]
              exact isExpression_of_uses (shaped.child (by simp))
                (not_refused_of_subset (List.subset_append_left _ _) placed)
        · by_cases isReturn : tree.kind = .returnValue
          · rcases tree with ⟨kind, location, text, note, children⟩
            subst isReturn
            cases children with
            | nil => simp [evaluations, Kind.isStatementPart] at inside
            | cons value rest =>
                rw [List.mem_singleton.mp inside]
                exact isExpression_of_uses (shaped.child List.mem_cons_self) placed
          · rw [evaluations_nothing simple isVariable isReturn part] at inside
            contradiction
      · simp only [not_or, Bool.not_eq_true] at part
        rw [evaluations_expression part.1 part.2] at inside
        rw [List.mem_singleton.mp inside]
        have speaks : simpleEvents context tree = uses context tree := by
          unfold simpleEvents
          cases kind : tree.kind <;> simp_all [Kind.isStatementPart, Kind.isTypePart, Kind.isSilent]
        rw [speaks] at placed
        exact isExpression_of_uses shaped placed
  | _ => simp [evaluations, Kind.isStatementPart]

end

/-! ## The statements of a file -/

theorem exists_of_mem_keptBodies {functions : List Tree} {statement : Tree}
    (member : statement ∈ keptBodies functions) :
    ∃ function ∈ functions, ∃ declarator parameters body,
      function.children = [declarator, parameters, body] ∧ statement ∈ body.children := by
  induction functions with
  | nil => simp [keptBodies] at member
  | cons function later induction =>
      rcases List.mem_append.mp member with here | there
      · unfold keptBody at here
        split at here
        · rename_i declarator parameters body children
          refine ⟨function, List.mem_cons_self, declarator, parameters, body, children, ?_⟩
          split at here
          · simp at here
          · split at here
            · simp at here
            · exact here
        · simp at here
      · rcases induction there with ⟨function, known, rest⟩
        exact ⟨function, List.mem_cons_of_mem _ known, rest⟩

theorem mem_loweredStatements {root statement : Tree}
    (member : statement ∈ loweredStatements root) :
    statement ∈ root.children ∨ ∃ function ∈ root.children, function.kind = .function ∧
      ∃ declarator parameters body, function.children = [declarator, parameters, body] ∧
        statement ∈ body.children := by
  rcases List.mem_append.mp member with inside | item
  · rcases exists_of_mem_keptBodies inside with ⟨function, known, rest⟩
    have both := List.mem_filter.mp known
    exact .inr ⟨function, both.1, by simpa using both.2, rest⟩
  · exact .inl (List.mem_filter.mp item).1

theorem isShaped_of_lowered {root : Tree} (shaped : root.IsShaped) :
    ∀ statement ∈ loweredStatements root, statement.IsShaped := by
  intro statement member
  rcases mem_loweredStatements member with item |
    ⟨function, known, _, declarator, parameters, body, children, inside⟩
  · exact shaped.child item
  · have member : body ∈ function.children := by simp [children]
    exact ((shaped.child known).child member).child inside

theorem isExpression_of_root {root : Tree} (shaped : root.IsShaped) (isRoot : root.kind = .root)
    (placed : ¬Refused (events {} root)) :
    ∀ evaluation ∈ programEvaluations root, evaluation.expression.IsExpression := by
  rcases root with ⟨kind, location, text, note, children⟩
  subst isRoot
  intro evaluation member
  rcases List.mem_flatMap.mp member with ⟨statement, lowered, inside⟩
  have fine := isShaped_of_lowered shaped statement lowered
  suffices ∃ place, ¬Refused (events place statement) by
    rcases this with ⟨place, placed⟩
    exact isExpression_of_events fine placed evaluation inside
  rcases mem_loweredStatements lowered with item |
    ⟨function, known, isFunction, declarator, parameters, body, parts, below⟩
  · rcases exists_events item {} with ⟨place, sub⟩
    exact ⟨place, not_refused_of_subset sub placed⟩
  · rcases exists_events known {} with ⟨place, sub⟩
    have placedFunction := not_refused_of_subset sub placed
    have shapedFunction := shaped.child known
    rcases function with ⟨_, place', text', note', others⟩
    subst isFunction
    simp only at parts
    subst parts
    rcases shapedFunction.function with
      ⟨_, _, bodyPlace, word, bodyNote, statements, name, same, _, declared, _⟩
    simp only [List.cons.injEq, and_true] at same
    rcases same with ⟨rfl, rfl, rfl⟩
    simp only [events, declared] at placedFunction
    rcases exists_events below (place.heading name parameters) with ⟨inner, subBody⟩
    exact ⟨inner, not_refused_of_subset (fun event here => List.mem_append_right _ (subBody here))
      placedFunction⟩

/-! ## Renamed calls -/

def Evaluation.skeleton (evaluation : Evaluation) : Evaluation :=
  { evaluation with expression := evaluation.expression.skeleton }

theorem settles_skeleton (evaluation : Evaluation) :
    evaluation.skeleton.settles = evaluation.settles := by
  simp only [Evaluation.settles, Evaluation.skeleton, Tree.isEmpty_repeatedNames_skeleton,
    Tree.settlesCalls_skeleton]

theorem evaluations_skeleton (tree : Tree) :
    evaluations tree.skeleton = (evaluations tree).map Evaluation.skeleton := by
  induction tree using Tree.statementInduction with
  | block location text note children induction =>
      simp only [Tree.skeleton_mk, evaluations, evaluationsAll_eq_flatMap, List.flatMap_map,
        List.map_flatMap]
      rw [List.flatMap_def, List.map_congr_left induction, List.flatMap_def]
  | control kind location text note test bodies control induction =>
      rw [Tree.skeleton_mk, List.map_cons, evaluations_control control,
        evaluations_control control, List.map_cons, List.map_flatMap, List.flatMap_map,
        List.flatMap_def, List.map_congr_left induction, List.flatMap_def]
      rfl
  | simple tree simple =>
      rcases tree with ⟨kind, location, text, note, children⟩
      rcases children with _ | ⟨first, _ | ⟨second, rest⟩⟩ <;> cases kind <;>
        simp_all [evaluations, Tree.isCompound, Evaluation.skeleton, Kind.isStatementPart,
          Kind.isTypePart]
  | _ => simp [evaluations, Kind.isStatementPart]

section

variable {change : Tree → Tree} (keeps : Tree.KeepsNames change) {function : Tree}

include keeps

theorem definedName?_change (shaped : function.IsShaped) (isFunction : function.kind = .function) :
    definedName? (change function) = definedName? function := by
  have children := keeps.children function (by simp [isFunction])
  rcases function with ⟨_, location, text, note, others⟩
  subst isFunction
  rcases shaped.function with
    ⟨declarator, parameters, place, word, bodyNote, statements, name, rfl, type, declared, _⟩
  have noCall : declarator.kind ≠ .call := by
    intro call
    simp [call, Kind.isType] at type
  simp [definedName?, children, keeps.declaredName? noCall, declared, keeps.text]

theorem keptBody_change (shaped : function.IsShaped) (isFunction : function.kind = .function)
    {later : List Tree} (others : ∀ other ∈ later, other.IsShaped ∧ other.kind = .function) :
    keptBody (change function) (later.map change) = (keptBody function later).map change := by
  have children := keeps.children function (by simp [isFunction])
  rcases function with ⟨_, location, text, note, parts⟩
  subst isFunction
  rcases shaped.function with
    ⟨declarator, parameters, place, word, bodyNote, statements, name, rfl, type, declared, _⟩
  have noCall : declarator.kind ≠ .call := by
    intro call
    simp [call, Kind.isType] at type
  have sameLater : (later.map change).any (definedName? · == some name.text) =
      later.any (definedName? · == some name.text) := by
    rw [List.any_map, Bool.eq_iff_iff, List.any_eq_true, List.any_eq_true]
    constructor
    all_goals
      intro found
      rcases found with ⟨other, member, same⟩
      have fine := others other member
      refine ⟨other, member, ?_⟩
      simpa [Function.comp_def, definedName?_change keeps fine.1 fine.2] using same
  have body := keeps.children ⟨.block, place, word, bodyNote, statements⟩ (by simp)
  simp only [keptBody, children, List.map_cons, List.map_nil, keeps.declaredName? noCall, declared,
    Option.map_some, keeps.text, sameLater, body]
  split <;> rfl

theorem keptBodies_change {functions : List Tree}
    (each : ∀ function ∈ functions, function.IsShaped ∧ function.kind = .function) :
    keptBodies (functions.map change) = (keptBodies functions).map change := by
  induction functions with
  | nil => rfl
  | cons function later induction =>
      have first := each function List.mem_cons_self
      have others := fun other member => each other (List.mem_cons_of_mem _ member)
      rw [List.map_cons, keptBodies, keptBodies, List.map_append, induction others,
        keptBody_change keeps first.1 first.2 others]

theorem loweredStatements_change {root : Tree} (shaped : root.IsShaped)
    (isRoot : root.kind = .root) :
    loweredStatements (change root) = (loweredStatements root).map change := by
  have filter (keep : Kind → Bool) : (root.children.map change).filter (keep ·.kind) =
      (root.children.filter (keep ·.kind)).map change := by
    rw [List.filter_map]
    congr 2
    funext tree
    simp [keeps.kind]
  have each : ∀ function ∈ root.children.filter (·.kind == .function),
      function.IsShaped ∧ function.kind = .function := by
    intro function member
    have both := List.mem_filter.mp member
    exact ⟨shaped.child both.1, by simpa using both.2⟩
  have functions := keptBodies_change keeps each
  unfold loweredStatements
  rw [keeps.children root (by simp [isRoot]), List.map_append, ← functions,
    filter (· == .function), filter (!isDefinition ·)]

theorem programEvaluations_change {root : Tree} (shaped : root.IsShaped)
    (isRoot : root.kind = .root) :
    (programEvaluations (change root)).map Evaluation.skeleton =
      (programEvaluations root).map Evaluation.skeleton := by
  rw [programEvaluations, loweredStatements_change keeps shaped isRoot, programEvaluations,
    List.map_flatMap, List.map_flatMap, List.flatMap_map]
  congr 1
  funext statement
  rw [← evaluations_skeleton, keeps.skeleton, evaluations_skeleton]

end

/-- Files that differ in called names alone evaluate expressions of the same kinds. -/
theorem programEvaluations_skeleton {root other : Tree} (shaped : root.IsShaped)
    (isRoot : root.kind = .root) (same : other.withoutCallees = root.withoutCallees) :
    (programEvaluations other).map Evaluation.skeleton =
      (programEvaluations root).map Evaluation.skeleton := by
  have sameSkeleton := Tree.skeleton_of_withoutCallees same
  have shapedOther : other.IsShaped := by
    rw [← Tree.isShaped_skeleton, sameSkeleton, Tree.isShaped_skeleton]
    exact shaped
  have isRootOther : other.kind = .root := by
    rw [← Tree.kind_skeleton, sameSkeleton, Tree.kind_skeleton, isRoot]
  rw [← programEvaluations_change .withoutCallees shaped isRoot, ← same,
    programEvaluations_change .withoutCallees shapedOther isRootOther]

end Oil

end OcLang
