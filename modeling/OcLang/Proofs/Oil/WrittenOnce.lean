import Mathlib.Data.List.Flatten
import Mathlib.Data.List.Perm.Basic
import OcLang.Proofs.Oil.Calls
import OcLang.Proofs.Oil.Output

namespace OcLang

open Lexical

/-! # Calls that are written once

A call that a program makes must be written on one line. It is lost if it stands
loose in an operand that no line writes, and repeated if it stands loose in the
target of an assignment whose value is used. -/

namespace Oil

section

variable {analysis : Analysis}

/-! ## Whole programs -/

theorem lowerFunction_balances {function : Tree} {later : List Tree}
    (each : ∀ statement ∈ keptBody function later, IsEvaluated statement) (number : Nat) :
    Ends (lowerFunction analysis function later) number fun result _ =>
      Balances (result.toList.flatMap (·.body)) ((keptBody function later).flatMap evaluations) := by
  have nothing (none : keptBody function later = []) :
      Balances ((Option.none : Option Function).toList.flatMap (·.body))
        ((keptBody function later).flatMap evaluations) := by
    rw [none]
    exact .nil rfl
  unfold lowerFunction
  split
  · rename_i declarator parameters body children
    split
    · rename_i unnamed
      exact .pure (nothing (by simp [keptBody, children, unnamed]))
    · rename_i name declared
      split
      · rename_i replaced
        exact .pure (nothing (by simp [keptBody, children, declared, replaced]))
      · rename_i kept
        have same : keptBody function later = body.children := by
          simp [keptBody, children, declared, kept]
        rw [same] at each ⊢
        apply Ends.bind
        apply (isStatementLaw_balances.body_lines each number).imp
        intro lines _ balances
        apply Ends.pure
        simpa using balances
  · rename_i other
    exact .pure (nothing (by
      unfold keptBody
      split
      · rename_i declarator parameters body children
        exact absurd children (other declarator parameters body)
      · rfl))

theorem lowerFunctions_balances {functions : List Tree}
    (each : ∀ statement ∈ keptBodies functions, IsEvaluated statement) (number : Nat) :
    Ends (lowerFunctions analysis functions) number fun result _ =>
      Balances (result.flatMap (·.body)) ((keptBodies functions).flatMap evaluations) := by
  induction functions generalizing number with
  | nil => exact .pure (.nil rfl)
  | cons function later induction =>
      simp only [keptBodies, List.flatMap_append, List.forall_mem_append] at each ⊢
      simp only [lowerFunctions]
      apply Ends.bind
      apply (lowerFunction_balances each.1 number).imp
      intro first middle balances
      apply Ends.bind
      apply (induction each.2 middle).imp
      intro others _ balancesRest
      apply Ends.pure
      rw [List.flatMap_append]
      exact balances.append balancesRest

/-- A program makes the calls of the statements that it is made for, but for those
that are lost, and some of them again. -/
theorem generate_balances {root : Tree} (shaped : root.IsShaped)
    (each : ∀ evaluation ∈ programEvaluations root, evaluation.expression.IsExpression) :
    Balances (generate analysis root).lines (programEvaluations root) := by
  have evaluated : ∀ statement ∈ loweredStatements root, IsEvaluated statement :=
    fun statement member => ⟨isShaped_of_lowered shaped statement member,
      fun evaluation inside => each evaluation (List.mem_flatMap.mpr ⟨statement, member, inside⟩)⟩
  rw [loweredStatements, List.forall_mem_append] at evaluated
  have ends : Ends (generateNumbered analysis root) firstTemporary fun program _ =>
      Balances program.lines (programEvaluations root) := by
    apply Ends.bind
    apply (lowerFunctions_balances evaluated.1 firstTemporary).imp
    intro functions middle balances
    apply Ends.bind
    apply (isStatementLaw_balances.main_lines evaluated.2 middle).imp
    intro main _ balancesMain
    apply Ends.pure
    rw [programEvaluations, loweredStatements, List.flatMap_append]
    exact balances.append balancesMain
  exact ends

end

/-- The names that a program calls, as often as it writes a call. -/
def Program.calledNames (program : Program) : List String :=
  calledIn program.operands

def programCalls (root : Tree) : List String :=
  (programEvaluations root).flatMap (·.expression.calledNames)

/-- Every call is written once. Calls are told apart by giving them other names: however
they are named, the program calls these names. -/
def WritesCallsOnce (analysis : Analysis) (root : Tree) : Prop :=
  ∀ other : Tree, other.withoutCallees = root.withoutCallees →
    (generate analysis other).calledNames.Perm (programCalls other)

/-- No call stands loose in a value that is not used, or in a target that is used again. -/
def SettlesCalls (root : Tree) : Prop :=
  ∀ evaluation ∈ programEvaluations root, evaluation.settles = true

instance (root : Tree) : Decidable (SettlesCalls root) :=
  inferInstanceAs (Decidable (∀ evaluation ∈ programEvaluations root, _))

namespace Evaluation

variable {evaluation : Evaluation} (expression : evaluation.expression.IsExpression)

include expression

theorem lost_subset : evaluation.lostNames ⊆ evaluation.expression.calledNames := by
  unfold lostNames
  split
  · exact List.nil_subset _
  · exact expression.loose_subset

/-- What is lost was written before, if the calls are settled. -/
theorem perm_of_settles (settles : evaluation.settles = true) :
    evaluation.lostNames.Perm evaluation.expression.repeatedNames := by
  unfold Evaluation.settles at settles
  unfold lostNames
  split at settles
  · rename_i wanted
    rw [if_pos wanted, List.isEmpty_iff.mp settles]
  · rename_i unwanted
    rw [if_neg unwanted]
    exact expression.perm_of_settles settles

theorem settles_of_perm (apart : evaluation.expression.calledNames.Nodup)
    (perm : evaluation.lostNames.Perm evaluation.expression.repeatedNames) :
    evaluation.settles = true := by
  unfold lostNames at perm
  unfold Evaluation.settles
  split
  · rename_i wanted
    rw [if_pos wanted] at perm
    simpa using perm.symm
  · rename_i unwanted
    rw [if_neg unwanted] at perm
    exact expression.settles_of_perm apart perm

end Evaluation

theorem flatMap_perm {evaluations : List Evaluation}
    (each : ∀ evaluation ∈ evaluations, evaluation.expression.IsExpression)
    (settles : ∀ evaluation ∈ evaluations, evaluation.settles = true) :
    (evaluations.flatMap Evaluation.lostNames).Perm
      (evaluations.flatMap (·.expression.repeatedNames)) := by
  induction evaluations with
  | nil => exact .refl _
  | cons first rest induction =>
      simp only [List.forall_mem_cons] at each settles
      simp only [List.flatMap_cons]
      exact (Evaluation.perm_of_settles each.1 settles.1).append (induction each.2 settles.2)

/-- If no two calls have the same name, calls of different expressions do not balance. -/
theorem settles_of_flatMap_perm {evaluations : List Evaluation}
    (each : ∀ evaluation ∈ evaluations, evaluation.expression.IsExpression)
    (apart : (evaluations.flatMap (·.expression.calledNames)).Nodup)
    (perm : (evaluations.flatMap Evaluation.lostNames).Perm
      (evaluations.flatMap (·.expression.repeatedNames))) :
    ∀ evaluation ∈ evaluations, evaluation.settles = true := by
  induction evaluations with
  | nil => simp
  | cons first rest induction =>
      simp only [List.forall_mem_cons] at each ⊢
      simp only [List.flatMap_cons, List.nodup_append] at apart perm
      have lost : rest.flatMap Evaluation.lostNames ⊆
          rest.flatMap (·.expression.calledNames) := by
        intro name member
        rcases List.mem_flatMap.mp member with ⟨evaluation, known, inside⟩
        exact List.mem_flatMap.mpr
          ⟨evaluation, known, Evaluation.lost_subset (each.2 evaluation known) inside⟩
      have repeated : rest.flatMap (·.expression.repeatedNames) ⊆
          rest.flatMap (·.expression.calledNames) := by
        intro name member
        rcases List.mem_flatMap.mp member with ⟨evaluation, known, inside⟩
        exact List.mem_flatMap.mpr
          ⟨evaluation, known, (each.2 evaluation known).repeated_subset inside⟩
      have both := Tree.perm_of_disjoint (Evaluation.lost_subset each.1) each.1.repeated_subset
        lost repeated (fun name known other => apart.2.2 name known name other rfl) perm
      exact ⟨Evaluation.settles_of_perm each.1 apart.1 both.1, induction each.2 apart.2.1 both.2⟩

/-! ## Calls of different expressions are different calls -/

theorem children_sublist (tree : Tree) :
    (tree.children.flatMap Tree.calledNames).Sublist tree.calledNames := by
  rcases tree with ⟨kind, location, text, note, children⟩
  rw [Tree.calledNames_mk]
  exact List.sublist_append_right _ _

theorem child_sublist {tree child : Tree} (member : child ∈ tree.children) :
    child.calledNames.Sublist tree.calledNames := by
  have single := (List.singleton_sublist.mpr member).flatMap Tree.calledNames
  rw [List.flatMap_singleton] at single
  exact single.trans (children_sublist tree)

theorem evaluations_sublist (tree : Tree) :
    ((evaluations tree).flatMap (·.expression.calledNames)).Sublist tree.calledNames := by
  induction tree using Tree.statementInduction with
  | block location text note children induction =>
      rw [evaluations, evaluationsAll_eq_flatMap, List.flatMap_assoc]
      exact (List.Sublist.flatMap_right children induction).trans
        (children_sublist ⟨.block, location, text, note, children⟩)
  | control kind location text note test bodies control induction =>
      rw [evaluations_control control, List.flatMap_cons, List.flatMap_assoc]
      have below := (List.Sublist.refl test.calledNames).append
        (List.Sublist.flatMap_right bodies induction)
      exact below.trans (children_sublist ⟨kind, location, text, note, test :: bodies⟩)
  | simple tree simple =>
      have among {child : Tree} (member : child ∈ tree.children) :
          (([⟨child, true⟩] : List Evaluation).flatMap (·.expression.calledNames)).Sublist
            tree.calledNames := by
        simpa using child_sublist member
      unfold evaluations
      split
      case h_5 => exact among (by simp)
      case h_6 => exact among (by simp)
      case h_7 =>
        split
        · exact List.nil_sublist _
        · simp
      all_goals simp [Tree.isCompound] at simple
  | _ => simp [evaluations, Kind.isStatementPart]

theorem keptBodies_sublist (functions : List Tree) :
    ((keptBodies functions).flatMap Tree.calledNames).Sublist
      (functions.flatMap Tree.calledNames) := by
  induction functions with
  | nil => exact List.Sublist.refl _
  | cons function later induction =>
      rw [keptBodies, List.flatMap_append, List.flatMap_cons]
      apply List.Sublist.append _ induction
      unfold keptBody
      split
      · rename_i declarator parameters body children
        have member : body ∈ function.children := by simp [children]
        have below := (children_sublist body).trans (child_sublist member)
        split
        · exact List.nil_sublist _
        · split
          · exact List.nil_sublist _
          · exact below
      · exact List.nil_sublist _

/-- A function is no other item, so that its calls are apart from theirs. -/
theorem programCalls_nodup {root : Tree} (apart : root.calledNames.Nodup) :
    (programCalls root).Nodup := by
  have items := (children_sublist root).nodup apart
  have parted := (List.filter_append_perm (·.kind == .function) root.children).flatMap_right
    Tree.calledNames
  have both := parted.nodup_iff.mpr items
  apply List.Sublist.nodup _ both
  rw [programCalls, programEvaluations, List.flatMap_assoc]
  apply (List.Sublist.flatMap_right _ fun statement _ => evaluations_sublist statement).trans
  rw [loweredStatements, List.flatMap_append, List.flatMap_append]
  apply (keptBodies_sublist _).append
  apply List.Sublist.flatMap
  apply List.monotone_filter_right
  intro item
  cases item.kind <;> simp [isDefinition]

/-! ## The exact condition -/

/-- Whether calls are settled depends on the kinds of the expressions. -/
theorem settlesCalls_congr {root other : Tree}
    (same : (programEvaluations other).map Evaluation.skeleton =
      (programEvaluations root).map Evaluation.skeleton) :
    SettlesCalls other ↔ SettlesCalls root := by
  have skeletons (tree : Tree) : SettlesCalls tree ↔
      ∀ evaluation ∈ (programEvaluations tree).map Evaluation.skeleton,
        evaluation.settles = true := by
    simp only [SettlesCalls, List.forall_mem_map, settles_skeleton]
  rw [skeletons, skeletons, same]

section

variable {analysis : Analysis} {root other : Tree} (shaped : root.IsShaped)
  (isRoot : root.kind = .root)
  (each : ∀ evaluation ∈ programEvaluations root, evaluation.expression.IsExpression)

include shaped isRoot

theorem isExpression_congr (same : other.withoutCallees = root.withoutCallees)
    (each : ∀ evaluation ∈ programEvaluations root, evaluation.expression.IsExpression) :
    ∀ evaluation ∈ programEvaluations other, evaluation.expression.IsExpression := by
  have skeletons (tree : Tree) :
      (∀ evaluation ∈ programEvaluations tree, evaluation.expression.IsExpression) ↔
        ∀ evaluation ∈ (programEvaluations tree).map Evaluation.skeleton,
          evaluation.expression.IsExpression := by
    simp only [List.forall_mem_map, Evaluation.skeleton, Tree.isExpression_skeleton]
  rw [skeletons, programEvaluations_skeleton shaped isRoot same, ← skeletons]
  exact each

include each

theorem writesCallsOnce_iff : WritesCallsOnce analysis root ↔ SettlesCalls root := by
  have balances {other : Tree} (same : other.withoutCallees = root.withoutCallees) :
      ((generate analysis other).calledNames ++
          (programEvaluations other).flatMap Evaluation.lostNames).Perm
        (programCalls other ++
          (programEvaluations other).flatMap (·.expression.repeatedNames)) := by
    have shapedOther : other.IsShaped := by
      rw [← Tree.isShaped_skeleton, Tree.skeleton_of_withoutCallees same, Tree.isShaped_skeleton]
      exact shaped
    rw [List.perm_iff_count]
    intro name
    rw [List.count_append, List.count_append]
    exact generate_balances shapedOther (isExpression_congr shaped isRoot same each) name
  constructor
  · intro once
    -- Every call gets a name of its own.
    have same := Tree.withoutCallees_numberCalls 0 root
    have expressions := isExpression_congr shaped isRoot same each
    rw [← settlesCalls_congr (programEvaluations_skeleton shaped isRoot same)]
    apply settles_of_flatMap_perm expressions
    · exact programCalls_nodup (Tree.calledNames_numberCalls_nodup 0 root)
    · have whole := (once _ same).symm.append_right _ |>.trans (balances same)
      exact (List.perm_append_left_iff _).mp whole
  · intro settles other same
    have expressions := isExpression_congr shaped isRoot same each
    have settlesOther :=
      (settlesCalls_congr (programEvaluations_skeleton shaped isRoot same)).mpr settles
    have lost := flatMap_perm expressions settlesOther
    have whole := (balances same).trans (lost.symm.append_left _)
    exact (List.perm_append_right_iff _).mp whole

end

end Oil

/-- The generated text writes every call once just when no call stands loose in a value
that is not used, or in the target of an assignment whose value is used. -/
theorem compile_writesCallsOnce_iff {source text : String} {root : Tree} {warningsAsErrors : Bool}
    (loaded : Tree.load source = .ok root) (isRoot : root.kind = .root)
    (generated : (compile warningsAsErrors root).oil = some text) :
    text = root.program.render ∧
      (Oil.WritesCallsOnce (analyze root).2 (analyze root).1 ↔ Oil.SettlesCalls root) := by
  have accepted := accepted_of_oil (Option.isSome_iff_exists.mpr ⟨text, generated⟩)
  have same := (analyze_follows False root False.elim).1
  have shaped := Tree.isShaped_of_load loaded
  have shapedAnnotated := shaped.congr same
  have isRootAnnotated : (analyze root).1.kind = .root := by
    rw [((Tree.bare_eq_iff _ _).mp same).1, isRoot]
  have each := Oil.isExpression_of_root shapedAnnotated isRootAnnotated
    (events_of_accepted accepted).2
  have skeletons : (Oil.programEvaluations (analyze root).1).map Oil.Evaluation.skeleton =
      (Oil.programEvaluations root).map Oil.Evaluation.skeleton := by
    rw [← Oil.programEvaluations_change .bare shapedAnnotated isRootAnnotated, same,
      Oil.programEvaluations_change .bare shaped isRoot]
  refine ⟨oil_eq generated, ?_⟩
  rw [Oil.writesCallsOnce_iff shapedAnnotated isRootAnnotated each, Oil.settlesCalls_congr skeletons]

/-- Calls in a condition, in an argument, in an index and in an assigned value, and
calls that are statements. -/
def callingTwice : String :=
  "[\"root\",[0,0,0],\"t\",[
    [\"function\",[0,1,0],\"\",[
      [\"int\",[0,1,0],\"int\",[[\"declid\",[0,1,4],\"f\"]]],
      [\"paramlist\",[0,1,6],\"\",[[\"int\",[0,1,6],\"int\",[[\"declid\",[0,1,10],\"a\"]]]]],
      [\"block\",[0,1,13],\"\",[[\"return\",[0,1,15],\"\",[[\"ident\",[0,1,22],\"a\"]]]]]]],
    [\"vardecl\",[0,2,0],\"\",[
      [\"int\",[0,2,0],\"int\",[[\"array\",[0,2,4]],[\"declid\",[0,2,6],\"x\"]]],
      [\"newarray\",[0,2,10],\"\",[[\"int\",[0,2,14],\"int\"],[\"intcon\",[0,2,18],\"4\"]]]]],
    [\"while\",[0,3,0],\"\",[
      [\"call\",[0,3,7],\"\",[[\"ident\",[0,3,7],\"f\"],[\"intcon\",[0,3,9],\"1\"]]],
      [\"assign\",[0,4,2],\"\",[
        [\"index\",[0,4,2],\"\",[[\"ident\",[0,4,2],\"x\"],
          [\"call\",[0,4,4],\"\",[[\"ident\",[0,4,4],\"f\"],[\"intcon\",[0,4,6],\"1\"]]]]],
        [\"call\",[0,4,11],\"\",[[\"ident\",[0,4,11],\"f\"],
          [\"call\",[0,4,13],\"\",[[\"ident\",[0,4,13],\"f\"],[\"intcon\",[0,4,15],\"2\"]]]]]]]]],
    [\"call\",[0,5,0],\"\",[[\"ident\",[0,5,0],\"f\"],[\"intcon\",[0,5,2],\"3\"]]]]]"

set_option maxRecDepth 8192 in
theorem callingTwice_writesOnce : ∃ root text, Tree.load callingTwice = .ok root ∧
    root.kind = .root ∧ (compile false root).oil = some text ∧
    Oil.WritesCallsOnce (analyze root).2 (analyze root).1 := by
  have accepted : ((Tree.load callingTwice).toOption.any fun root => root.kind == .root &&
      (compile false root).oil.isSome && decide (Oil.SettlesCalls root)) = true := by
    rw [show callingTwice = String.ofList _ from rfl, Tree.load_ofList]
    decide +kernel
  rcases exists_compiled accepted with ⟨root, text, loaded, isRoot, generated, settles⟩
  exact ⟨root, text, loaded, isRoot, generated,
    (compile_writesCallsOnce_iff loaded isRoot generated).2.mpr (of_decide_eq_true settles)⟩

/-- The statement converts what a call returns, and nothing uses it. -/
def convertedCall : String :=
  "[\"root\",[0,0,0],\"t\",[
    [\"function\",[0,1,0],\"\",[
      [\"int\",[0,1,0],\"int\",[[\"declid\",[0,1,4],\"f\"]]],[\"paramlist\",[0,1,5]],
      [\"block\",[0,1,8],\"\",[[\"return\",[0,1,10],\"\",[[\"intcon\",[0,1,17],\"1\"]]]]]]],
    [\"ord\",[0,2,0],\"\",[[\"call\",[0,2,4],\"\",[[\"ident\",[0,2,4],\"f\"]]]]]]]"

set_option maxRecDepth 4096 in
/-- No line makes the call. -/
theorem convertedCall_lost : ∃ root text, Tree.load convertedCall = .ok root ∧
    root.kind = .root ∧ (compile false root).oil = some text ∧
    ¬Oil.WritesCallsOnce (analyze root).2 (analyze root).1 := by
  have accepted : ((Tree.load convertedCall).toOption.any fun root => root.kind == .root &&
      (compile false root).oil.isSome &&
      decide (¬root.program.calledNames.Perm (Oil.programCalls (analyze root).1))) = true := by
    rw [show convertedCall = String.ofList _ from rfl, Tree.load_ofList]
    decide +kernel
  rcases exists_compiled accepted with ⟨root, text, loaded, isRoot, generated, differs⟩
  refine ⟨root, text, loaded, isRoot, generated, ?_⟩
  intro once
  exact of_decide_eq_true differs (once _ rfl)

end OcLang
