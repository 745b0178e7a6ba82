import OcLang.Proofs.Tree.Parts
import OcLang.Proofs.Typing.Passed
import OcLang.Tree.Build

namespace OcLang

open Check

/-! # Expressions that are visited

The walks go from expression to expression. A visit is a node together with the
state that its check begins in. What a visit leaves behind is part of the
annotated tree. -/

structure IsPart (part whole : Tree × AnalysisState) : Prop where
  inner : part.1 ∈ whole.1.inner
  extends_ : Extends part.2 whole.2

structure Survives (visited whole : Tree × AnalysisState) : Prop where
  walked : visited.1 ∈ whole.1.walked
  extends_ : Extends visited.2 whole.2

theorem Survives.refl (visited : Tree × AnalysisState) : Survives visited visited :=
  ⟨Tree.mem_walked_self _, .refl _⟩

theorem Survives.of_part {visited part whole : Tree × AnalysisState}
    (survives : Survives visited part) (isPart : IsPart part whole) : Survives visited whole :=
  ⟨Tree.mem_walked_of_inner isPart.inner survives.walked,
    survives.extends_.trans isPart.extends_⟩

theorem IsPart.of_ends {step : Check Tree} {state : AnalysisState} {part : Tree × AnalysisState}
    (ends : Ends step state fun annotated after => IsPart part (annotated, after)) :
    IsPart part (step.run state) := ends

theorem Check.Reports.extends_ {Value : Type} {step : Check Value} {state : AnalysisState}
    {holds : Value → List Problem → Prop} (reports : Reports step state holds) :
    Ends step state fun _ after => Extends state after :=
  reports.ends fun _ problems _ => .reporting state problems

namespace Expression

/-- The type of a new array is looked at before its operand. -/
def operandsState (tree : Tree) (state : AnalysisState) : AnalysisState :=
  match tree.kind, tree.children with
  | .allocate .array, [type, _] => ((declaredType none type).run state).2
  | _, _ => state

inductive Visits : Tree → AnalysisState → Tree → AnalysisState → Prop where
  | here (tree : Tree) (state : AnalysisState) : Visits tree state tree state
  | operand {tree operand node : Tree} {state there : AnalysisState} {earlier later : List Tree}
      (among : tree.operands = earlier ++ operand :: later)
      (below : Visits operand ((checkAll earlier).run (operandsState tree state)).2 node there) :
      Visits tree state node there

variable {state there : AnalysisState} {tree node : Tree}

theorem operandsState_settled (tree : Tree) (settled : state.IsSettled) :
    (operandsState tree state).IsSettled := by
  unfold operandsState
  split
  · rename_i type size _ _
    have typed : Ends (declaredType none type) state fun _ after => after.IsSettled :=
      (declaredType_reports none type state).ends fun _ problems _ => settled.reporting problems
    exact typed
  · exact settled

theorem Visits.settled (visits : Visits tree state node there) (settled : state.IsSettled) :
    there.IsSettled := by
  induction visits with
  | here => exact settled
  | @operand tree _ _ _ _ earlier _ _ _ induction =>
      exact induction (checkAll_settles earlier (operandsState_settled tree settled)).settled

theorem checkAll_extends (trees : List Tree) (state : AnalysisState) :
    Extends state ((checkAll trees).run state).2 :=
  (basing.expressions_kept _ state).extends_

theorem checkAll_part (earlier later : List Tree) (tree : Tree) (state : AnalysisState) :
    Ends (checkAll (earlier ++ tree :: later)) state fun annotated after =>
      ((check tree).run ((checkAll earlier).run state).2).1 ∈ annotated ∧
        Extends ((check tree).run ((checkAll earlier).run state).2).2 after := by
  induction earlier generalizing state with
  | nil => exact ⟨List.mem_cons_self, checkAll_extends later _⟩
  | cons first rest induction =>
      have below := induction ((check first).run state).2
      exact ⟨List.mem_cons_of_mem _ below.1, below.2⟩

/-- The rule of a node is applied to the checked operands, which it keeps. -/
theorem check_rule (tree : Tree) (has : tree.hasOperands = true) (state : AnalysisState) :
    Ends (check tree) state fun annotated after =>
      annotated.inner = ((checkAll tree.operands).run (operandsState tree state)).1 ∧
        Extends ((checkAll tree.operands).run (operandsState tree state)).2 after := by
  induction tree using Tree.expressionInduction with
  | call location text note callee arguments =>
      rcases callee with ⟨calleeKind, calleeLocation, name, calleeNote, others⟩
      rw [check]
      apply Ends.bind
      apply Ends.run
      apply ((call_annotates location text _ ⟨calleeKind, calleeLocation, name, calleeNote, others⟩
        _).ends note calleeNote |>.and (basing.call_kept _ _ _ _)).imp
      rintro _ after ⟨⟨newNote, newCallee, rfl, _⟩, kept⟩
      exact ⟨rfl, kept.extends_⟩
  | select location text note object field =>
      rcases field with ⟨fieldKind, fieldLocation, name, fieldNote, others⟩
      rw [check]
      apply Ends.bind
      apply Ends.run
      apply ((select_annotates location text _ _ ⟨fieldKind, fieldLocation, name, fieldNote, others⟩
        ).ends note fieldNote |>.and (select_reports _ _ _ _).extends_).imp
      rintro _ after ⟨⟨newNote, newField, rfl, _⟩, extends_⟩
      exact ⟨rfl, extends_⟩
  | index location text note array position =>
      rw [check]
      apply Ends.bind
      apply Ends.run
      apply Ends.bind
      apply Ends.run
      apply ((index_annotates location text _ _ _).ends note {} |>.and
        (index_reports _ _ _ _).extends_).imp
      rintro _ after ⟨⟨newNote, _, rfl, _⟩, extends_⟩
      exact ⟨rfl, extends_⟩
  | newArray location text note type size =>
      rw [check]
      apply Ends.bind
      apply Ends.run
      apply Ends.bind
      apply Ends.run
      apply ((newArray_annotates location text _ _ type _).ends note type.note |>.and
        (newArray_reports _ _ _ _ _).extends_).imp
      rintro _ after ⟨⟨newNote, newType, rfl, _⟩, extends_⟩
      exact ⟨rfl, extends_⟩
  | newString location text note size =>
      rw [check]
      apply Ends.bind
      apply Ends.run
      apply ((newString_annotates location text _ _).ends note {} |>.and
        (newString_reports _ _ _).extends_).imp
      rintro _ after ⟨⟨newNote, _, rfl, _⟩, extends_⟩
      exact ⟨rfl, extends_⟩
  | assign location text note target value =>
      rw [check]
      apply Ends.bind
      apply Ends.run
      apply Ends.bind
      apply Ends.run
      apply ((assign_annotates location text _ _ _).ends note {} |>.and
        (assign_reports _ _ _ _).extends_).imp
      rintro _ after ⟨⟨newNote, _, rfl, _⟩, extends_⟩
      exact ⟨rfl, extends_⟩
  | binary operator location text note left right =>
      rw [check]
      apply Ends.bind
      apply Ends.run
      apply Ends.bind
      apply Ends.run
      apply ((binary_annotates location text _ operator _ _).ends note {} |>.and
        (binary_reports _ _ _ _ _).extends_).imp
      rintro _ after ⟨⟨newNote, _, rfl, _⟩, extends_⟩
      exact ⟨rfl, extends_⟩
  | unary operator location text note operand rest =>
      rw [check]
      apply Ends.bind
      apply Ends.run
      apply Ends.bind
      apply (requireInteger_reports _ _ _).extends_.imp
      intro _ after extends_
      exact .pure ⟨rfl, extends_⟩
  | leaf node leaf =>
      rw [leaf] at has
      contradiction

theorem Visits.survives (visits : Visits tree state node there) :
    Survives ((check node).run there) ((check tree).run state) := by
  induction visits with
  | here => exact .refl _
  | @operand tree operand _ state _ earlier later among _ induction =>
      have has : tree.hasOperands = true := by
        cases leaf : tree.hasOperands with
        | true => rfl
        | false => simp [Tree.operands_leaf leaf] at among
      have rule := check_rule tree has state
      have part := checkAll_part earlier later operand (operandsState tree state)
      rw [among] at rule
      refine induction.of_part ⟨?_, part.2.trans rule.2⟩
      rw [rule.1]
      exact part.1

end Expression

namespace Declaration

def initialState (declarator name : Tree) (state : AnalysisState) : AnalysisState :=
  ((do storeVariable (← declaredType none declarator) name).run state).2

theorem initialState_settled (declarator name : Tree) {state : AnalysisState}
    (settled : state.IsSettled) : (initialState declarator name state).IsSettled := by
  have stored : Ends (do storeVariable (← declaredType none declarator) name) state
      fun _ after => after.IsSettled := by
    apply Ends.bind
    apply (declaredType_achieves none declarator state).ends
    intro type problems base
    exact (storeVariable_settles name base (settled.reporting problems)).imp
      fun _ _ settles => settles.settled
  exact stored

theorem checkVariable_part (location : Location) (text : String) (note : Note)
    {declarator name : Tree} (declared : declarator.declaredName? = some name) (value : Tree)
    (rest : List Tree) (state : AnalysisState) :
    Ends (checkVariable ⟨.variable, location, text, note, declarator :: value :: rest⟩) state
      fun annotated after => IsPart
        ((Expression.check value).run (initialState declarator name state)) (annotated, after) := by
  unfold checkVariable
  apply Ends.bind
  apply Ends.run
  rw [declared]
  apply Ends.bind
  apply Ends.run
  apply Ends.bind
  apply Ends.run
  apply Ends.bind
  apply Ends.run
  apply Ends.bind
  apply Ends.run
  apply Ends.bind
  apply (requireCompatible_reports _ _ _ _).extends_.imp
  intro _ compared comparing
  apply Ends.bind
  apply Ends.pure
  apply Ends.bind
  apply (basing.declare_kept _ _ _ compared).imp
  intro _ bound binding
  apply Ends.bind
  apply (basing.recordSymbol_kept _ _ bound).imp
  intro _ after recording
  apply Ends.pure
  exact ⟨List.mem_singleton_self _,
    comparing.trans (binding.extends_.trans recording.extends_)⟩

end Declaration

namespace Statement

/-- When the statement `tree` is checked from `state` inside of a function that has
to return `result`, then the expression `node` is checked from `there`. -/
inductive Visits : Option ValueType → Tree → AnalysisState → Tree → AnalysisState → Prop where
  | root {result : Option ValueType} {location : Location} {text : String} {note : Note}
      {children earlier later : List Tree} {child node : Tree} {state there : AnalysisState}
      (among : children = earlier ++ child :: later)
      (below : Visits result child ((checkAll result earlier).run state).2 node there) :
      Visits result ⟨.root, location, text, note, children⟩ state node there
  | block {result : Option ValueType} {location : Location} {text : String} {note : Note}
      {children earlier later : List Tree} {child node : Tree} {state there : AnalysisState}
      (among : children = earlier ++ child :: later)
      (below : Visits result child
        ((checkAll result earlier).run (enter.run state).2).2 node there) :
      Visits result ⟨.block, location, text, note, children⟩ state node there
  | function {result : Option ValueType} {location : Location} {text : String} {note : Note}
      {declarator parameters body child node : Tree} {rest earlier later : List Tree}
      {heading : Declaration.Heading} {state inside there : AnalysisState}
      (opened : (Declaration.openFunction
        ⟨.function, location, text, note, declarator :: parameters :: body :: rest⟩
          declarator parameters).run state = (some heading, inside))
      (among : body.children = earlier ++ child :: later)
      (below : Visits (some heading.type) child
        ((checkAll (some heading.type) earlier).run inside).2 node there) :
      Visits result ⟨.function, location, text, note, declarator :: parameters :: body :: rest⟩
        state node there
  | condition {result : Option ValueType} {kind : Kind} {location : Location} {text : String}
      {note : Note} {test node : Tree} {bodies : List Tree} {state there : AnalysisState}
      (control : kind.isControl = true) (below : Expression.Visits test state node there) :
      Visits result ⟨kind, location, text, note, test :: bodies⟩ state node there
  | body {result : Option ValueType} {kind : Kind} {location : Location} {text : String}
      {note : Note} {test body node : Tree} {bodies earlier later : List Tree}
      {state there : AnalysisState} (control : kind.isControl = true)
      (among : bodies = earlier ++ body :: later)
      (below : Visits result body
        ((checkAll result earlier).run ((condition test).run state).2).2 node there) :
      Visits result ⟨kind, location, text, note, test :: bodies⟩ state node there
  | initial {result : Option ValueType} {location : Location} {text : String} {note : Note}
      {declarator name value node : Tree} {rest : List Tree} {state there : AnalysisState}
      (declared : declarator.declaredName? = some name)
      (below : Expression.Visits value (Declaration.initialState declarator name state)
        node there) :
      Visits result ⟨.variable, location, text, note, declarator :: value :: rest⟩ state node there
  | returned {result : Option ValueType} {location : Location} {text : String} {note : Note}
      {value node : Tree} {rest : List Tree} {state there : AnalysisState}
      (below : Expression.Visits value state node there) :
      Visits result ⟨.returnValue, location, text, note, value :: rest⟩ state node there
  | expression {result : Option ValueType} {tree node : Tree} {state there : AnalysisState}
      (isExpression : tree.kind.isExpression = true)
      (below : Expression.Visits tree state node there) : Visits result tree state node there

variable {result : Option ValueType} {tree node : Tree} {state there : AnalysisState}

theorem Visits.settled (visits : Visits result tree state node there)
    (settled : IsSettledIn result state) : there.IsSettled := by
  induction visits with
  | @root _ _ _ _ _ earlier _ _ _ _ _ _ _ induction =>
      exact induction (settled.later (checkAll_settles earlier settled))
  | @block _ _ _ _ _ earlier _ _ _ _ _ _ _ induction =>
      have entered := settled.later (enter_settles settled.toIsSettled)
      exact induction (entered.later (checkAll_settles earlier entered))
  | @function _ location text note declarator parameters body _ _ rest earlier _ heading _ inside _
      opened _ _ induction =>
      have opening := openFunction_settles
        ⟨.function, location, text, note, declarator :: parameters :: body :: rest⟩
        declarator parameters settled.toIsSettled
      rw [Ends, opened] at opening
      have settledBody : IsSettledIn (some heading.type) inside :=
        ⟨opening.1.settled, some _, .inside (opening.2 heading rfl)⟩
      exact induction (settledBody.later (checkAll_settles earlier settledBody))
  | condition _ below => exact below.settled settled.toIsSettled
  | @body _ _ _ _ _ test _ _ _ earlier _ _ _ _ _ _ induction =>
      have tested := settled.later (condition_settles test settled.toIsSettled)
      exact induction (tested.later (checkAll_settles earlier tested))
  | initial _ below =>
      exact below.settled (Declaration.initialState_settled _ _ settled.toIsSettled)
  | returned below => exact below.settled settled.toIsSettled
  | expression _ below => exact below.settled settled.toIsSettled

theorem statements_extend (result : Option ValueType) (trees : List Tree)
    (state : AnalysisState) : Ends (checkAll result trees) state fun _ after =>
      Extends state after :=
  (basing.isStepLaw.checkAll trees result state).extends_

theorem checkAll_part (result : Option ValueType) (earlier later : List Tree) (tree : Tree)
    (state : AnalysisState) :
    Ends (checkAll result (earlier ++ tree :: later)) state fun annotated after =>
      ((check result tree).run ((checkAll result earlier).run state).2).1 ∈ annotated ∧
        Extends ((check result tree).run ((checkAll result earlier).run state).2).2 after := by
  induction earlier generalizing state with
  | nil => exact ⟨List.mem_cons_self, statements_extend result later _⟩
  | cons first rest induction =>
      have below := induction ((check result first).run state).2
      exact ⟨List.mem_cons_of_mem _ below.1, below.2⟩

theorem check_expression (isExpression : tree.kind.isExpression = true) :
    check result tree = Expression.check tree := by
  rcases tree with ⟨kind, location, text, note, children⟩
  cases kind <;> simp [Kind.isExpression] at isExpression <;> rfl

theorem Visits.survives (visits : Visits result tree state node there) :
    Survives ((Expression.check node).run there) ((check result tree).run state) := by
  induction visits with
  | root among _ induction =>
      subst among
      apply induction.of_part
      apply IsPart.of_ends
      simp only [check]
      apply Ends.bind
      apply (checkAll_part _ _ _ _ _).imp
      intro children after part
      exact .pure ⟨part.1, part.2⟩
  | block among _ induction =>
      subst among
      apply induction.of_part
      apply IsPart.of_ends
      simp only [check]
      apply Ends.bind
      apply Ends.run
      apply Ends.bind
      apply (checkAll_part _ _ _ _ _).imp
      intro children middle part
      apply Ends.bind
      apply (basing.leave_kept middle).imp
      intro _ after leaving
      exact .pure ⟨part.1, part.2.trans leaving.extends_⟩
  | @function _ _ _ _ _ _ body _ _ _ _ _ _ _ _ _ opened among _ induction =>
      rcases body with ⟨bodyKind, bodyLocation, bodyText, bodyNote, children⟩
      simp only at among
      subst among
      apply induction.of_part
      apply IsPart.of_ends
      simp only [check]
      apply Ends.bind_of_run opened
      apply Ends.bind
      apply Ends.bind
      apply (checkAll_part _ _ _ _ _).imp
      intro children checked part
      apply Ends.pure
      apply Ends.bind
      apply (basing.leave_kept checked).imp
      intro _ left leaving
      apply Ends.bind
      apply (basing.record_kept .separator left).imp
      intro _ after separating
      exact .pure ⟨part.1, part.2.trans (leaving.extends_.trans separating.extends_)⟩
  | condition control below =>
      apply below.survives.of_part
      apply IsPart.of_ends
      rw [check_control control]
      apply Ends.bind
      apply Ends.bind
      apply Ends.run
      apply Ends.bind
      apply (requireInteger_reports _ _ _).extends_.imp
      intro _ tested testing
      apply Ends.pure
      apply Ends.bind
      apply (statements_extend _ _ tested).imp
      intro bodies after extends_
      apply Ends.pure
      refine ⟨?_, testing.trans extends_⟩
      rw [Tree.inner_control control]
      exact List.mem_cons_self
  | body control among _ induction =>
      subst among
      apply induction.of_part
      apply IsPart.of_ends
      rw [check_control control]
      apply Ends.bind
      apply Ends.run
      apply Ends.bind
      apply (checkAll_part _ _ _ _ _).imp
      intro bodies after part
      apply Ends.pure
      refine ⟨?_, part.2⟩
      rw [Tree.inner_control control]
      exact List.mem_cons_of_mem _ part.1
  | @initial _ location text note declarator name value _ rest state _ declared below =>
      apply below.survives.of_part
      apply IsPart.of_ends
      exact Declaration.checkVariable_part location text note declared value rest state
  | returned below =>
      apply below.survives.of_part
      apply IsPart.of_ends
      apply Ends.bind
      apply Ends.run
      apply Ends.bind
      apply (returned_reports _ _ _ _).extends_.imp
      intro _ after returning
      exact .pure ⟨List.mem_cons_self, returning⟩
  | expression isExpression below =>
      rw [check_expression isExpression]
      exact below.survives

end Statement

/-- Wherever an expression is left without a type, an error has been reported by
then. Without errors, every expression that is visited is part of the annotated
tree and has a type, and no check has been skipped anywhere. -/
theorem analyze_untyped_reported (tree : Tree) :
    (∀ node there, Statement.Visits none (Numbering.number tree) {} node there →
      ((Expression.check node).run there).1.note.isTyped = false →
        ((Expression.check node).run there).2.diagnostics.hasErrors = true) ∧
      ((analyze tree).2.diagnostics.hasErrors = false →
        (∀ node there, Statement.Visits none (Numbering.number tree) {} node there →
          ((Expression.check node).run there).1 ∈ (analyze tree).1.walked ∧
            ((Expression.check node).run there).1.note.isTyped = true) ∧
          (analyze tree).1.Passes (analyze tree).2.symbols none) := by
  have typed {node : Tree} {there : AnalysisState}
      (visits : Statement.Visits none (Numbering.number tree) {} node there) :
      Ends (Expression.check node) there fun annotated after =>
        after.Accepted → annotated.note.isTyped = true :=
    (Expression.check_safe node (visits.settled .start)).ends
      fun _ _ safe accepted => (safe accepted).isTyped
  constructor
  · intro node there visits untyped
    cases errors : ((Expression.check node).run there).2.diagnostics.hasErrors with
    | true => rfl
    | false =>
        rw [typed visits errors] at untyped
        contradiction
  · intro accepted
    have passes : (analyze tree).1.Passes (analyze tree).2.symbols none :=
      Statement.check_passes (Numbering.number tree) .start accepted
    refine ⟨?_, passes⟩
    intro node there visits
    have survives := visits.survives
    exact ⟨survives.walked, typed visits (survives.extends_.accepted accepted)⟩

def assignment (value : Tree) : Tree :=
  let b : TreeBuilder := {}
  b.root "assignment" [
    b.declaration ⟨1, 1⟩ (b.declarator .declaredName false "int" ⟨1, 1⟩ ⟨1, 5⟩ "count")
      (some (b.int ⟨1, 13⟩ 1)),
    b.assign ⟨2, 7⟩ (b.identifier ⟨2, 1⟩ "count") value]

def ghost : Tree :=
  TreeBuilder.identifier {} ⟨2, 9⟩ "ghost"

def two : Tree :=
  TreeBuilder.int {} ⟨2, 9⟩ 2

theorem ghost_reported :
    (∃ there, Statement.Visits none (Numbering.number (assignment ghost)) {} ghost there ∧
      ((Expression.check ghost).run there).1.note.isTyped = false ∧
        ((Expression.check ghost).run there).2.diagnostics.hasErrors = true) ∧
      ∃ there, Statement.Visits none (Numbering.number (assignment two)) {} two there ∧
        (analyze (assignment two)).2.diagnostics.hasErrors = false ∧
        ((Expression.check two).run there).1.note.isTyped = true ∧
        (analyze (assignment two)).1.Passes (analyze (assignment two)).2.symbols none := by
  have visited : ∃ there,
      Statement.Visits none (Numbering.number (assignment ghost)) {} ghost there ∧
        ((Expression.check ghost).run there).1.note.isTyped = false :=
    ⟨_, .root (show _ = [_] ++ _ :: [] from rfl) (.expression rfl
      (.operand (show _ = [_] ++ ghost :: [] from rfl) (.here _ _))), by decide +kernel⟩
  have visitedTwo : ∃ there,
      Statement.Visits none (Numbering.number (assignment two)) {} two there :=
    ⟨_, .root (show _ = [_] ++ _ :: [] from rfl) (.expression rfl
      (.operand (show _ = [_] ++ two :: [] from rfl) (.here _ _)))⟩
  have accepted : (analyze (assignment two)).2.diagnostics.hasErrors = false := by
    decide +kernel
  rcases visited with ⟨there, visits, untyped⟩
  rcases visitedTwo with ⟨later, visitsTwo⟩
  have checked := (analyze_untyped_reported (assignment two)).2 accepted
  exact ⟨⟨there, visits, untyped, (analyze_untyped_reported _).1 ghost there visits untyped⟩,
    later, visitsTwo, accepted, (checked.1 two later visitsTwo).2, checked.2⟩

end OcLang
