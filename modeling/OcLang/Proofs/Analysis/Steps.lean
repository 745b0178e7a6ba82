import OcLang.Proofs.Analysis.Forms
import OcLang.Proofs.Scoping.Statements

namespace OcLang

/-! # Laws that the steps of the analysis obey

Most steps only report. What else the walk over statements does is to store symbols, to bind and
log names, and to open and close scopes. A law that each of these steps obeys, and that steps
one after another obey if each of them does, is obeyed by the whole walk. -/

namespace Check

variable {Value Result : Type}

/-- Wherever the step is run, it changes nothing but the list of problems. -/
def OnlyReports (step : Check Value) : Prop :=
  ∀ state : AnalysisState, ∃ problems, (step.run state).2 = state.reporting problems

namespace OnlyReports

theorem of_reports {step : Check Value} {holds : AnalysisState → Value → List Problem → Prop}
    (reports : ∀ state, Reports step state (holds state)) : OnlyReports step := by
  intro state
  rcases reports state with ⟨problems, after, _⟩
  exact ⟨problems, after⟩

theorem reports {step : Check Value} (only : OnlyReports step) {state : AnalysisState}
    {holds : Value → Prop} (ends : Ends step state fun value _ => holds value) :
    Reports step state fun value _ => holds value := by
  rcases only state with ⟨problems, after⟩
  exact ⟨problems, after, ends⟩

theorem pure (value : Value) : OnlyReports (pure value) :=
  fun _ => ⟨[], rfl⟩

theorem bind {step : Check Value} {next : Value → Check Result} (first : OnlyReports step)
    (rest : ∀ value, OnlyReports (next value)) : OnlyReports (step >>= next) := by
  intro state
  obtain ⟨problems, reported⟩ := first state
  obtain ⟨more, reportedMore⟩ := rest (step.run state).1 (state.reporting problems)
  refine ⟨problems ++ more, ?_⟩
  rw [run_bind, reported, reportedMore, AnalysisState.reporting_reporting]

theorem get {next : AnalysisState → Check Result} (rest : ∀ state, OnlyReports (next state)) :
    OnlyReports (MonadState.get >>= next) :=
  fun state => rest state state

theorem report (problem : Problem) : OnlyReports (report problem) :=
  fun _ => ⟨[problem], rfl⟩

theorem symbol (id : Nat) : OnlyReports (symbol id) :=
  fun _ => ⟨[], rfl⟩

theorem malformed (node : Tree) (kind : Kind) (place : Location) :
    OnlyReports (do malformed kind place; return node) :=
  .bind (report _) fun _ => .pure _

theorem replacedVariable (name : String) : OnlyReports (replacedVariable name) :=
  .get fun _ => .pure _

end OnlyReports

theorem declaredType_onlyReports (enclosing : Option String) (declarator : Tree) :
    OnlyReports (declaredType enclosing declarator) :=
  .of_reports (declaredType_reports enclosing declarator)

theorem requireInteger_onlyReports (context : String) (value : Tree) :
    OnlyReports (requireInteger context value) :=
  .of_reports (requireInteger_reports context value)

theorem requireCompatible_onlyReports (context : String) (expected : ValueType) (value : Tree) :
    OnlyReports (requireCompatible context expected value) :=
  .of_reports (requireCompatible_reports context expected value)

end Check

open Check

/-! ## Expressions

An expression declares nothing. -/

namespace Expression

theorem identifier_onlyReports (node : Tree) : OnlyReports (identifier node) := by
  refine .get fun state => ?_
  split
  · exact .bind (.report _) fun _ => .pure _
  · exact .bind (.symbol _) fun _ => .pure _

theorem call_onlyReports (node callee : Tree) (arguments : List Tree) :
    OnlyReports (call node callee arguments) := by
  refine .get fun state => ?_
  split
  · exact .bind (.report _) fun _ => .pure _
  · refine .bind (.symbol _) fun function => ?_
    split
    · exact .bind (.report _) fun _ => .pure _
    · exact .bind (.of_reports (callArguments_reports _ _ _ _)) fun _ => .pure _

theorem select_onlyReports (node object field : Tree) : OnlyReports (select node object field) :=
  .of_reports (select_reports node object field)

theorem closed_onlyReports (node : Tree) : OnlyReports (closed node) := by
  unfold closed
  split
  · exact identifier_onlyReports node
  · exact .pure _
  · exact .of_reports (newStruct_reports node _)
  all_goals exact .malformed _ _ _

theorem isCheckLaw_onlyReports : IsCheckLaw (fun _ _ => True) (fun _ _ _ _ => True)
    (fun _ _ _ _ => True) (fun _ _ _ _ => True) where
  operand _ _ _ := trivial
  nil _ := trivial
  cons _ _ := trivial
  call _ _ := (call_onlyReports _ _ _).reports trivial
  select _ _ := (select_onlyReports _ _ _).reports trivial
  index _ _ _ := (index_reports _ _ _ _).imp fun _ _ _ => trivial
  declared _ _ := (declaredType_onlyReports _ _).reports trivial
  newArray _ _ _ := (newArray_reports _ _ _ _ _).imp fun _ _ _ => trivial
  newString _ _ := (newString_reports _ _ _).imp fun _ _ _ => trivial
  assign _ _ _ := (assign_reports _ _ _ _).imp fun _ _ _ => trivial
  binary _ _ _ := (binary_reports _ _ _ _ _).imp fun _ _ _ => trivial
  unary _ _ := (requireInteger_onlyReports _ _).reports trivial
  leaf {_ node} _ _ := (closed_onlyReports node).reports trivial

theorem check_onlyReports (tree : Tree) : OnlyReports (check tree) :=
  .of_reports fun _ => isCheckLaw_onlyReports.expression trivial

theorem checkAll_onlyReports (trees : List Tree) : OnlyReports (checkAll trees) :=
  .of_reports fun _ => isCheckLaw_onlyReports.arguments
    (fun _ _ _ => isCheckLaw_onlyReports.expression trivial) []

end Expression

namespace Statement

theorem condition_onlyReports (test : Tree) : OnlyReports (condition test) :=
  .bind (Expression.check_onlyReports _) fun _ => .bind (requireInteger_onlyReports _ _) fun _ =>
    .pure _

end Statement

/-! ## Statements -/

structure IsStepLaw (holds : (Value : Type) → Check Value → Prop) : Prop where
  reports {Value : Type} {step : Check Value} (only : OnlyReports step) : holds Value step
  bind {Value Result : Type} {step : Check Value} {next : Value → Check Result}
    (first : holds Value step) (rest : ∀ value, holds Result (next value)) :
    holds Result (step >>= next)
  struct (node : Tree) : holds Tree (Declaration.checkStruct node)
  «variable» (node : Tree) : holds Tree (Declaration.checkVariable node)
  opened (node declarator parameters : Tree) :
    holds (Option Declaration.Heading) (Declaration.openFunction node declarator parameters)
  enter : holds Unit enter
  leave : holds Unit leave
  separate : holds Unit (record .separator)

namespace IsStepLaw

variable {holds : (Value : Type) → Check Value → Prop} (law : IsStepLaw holds)

include law

theorem pure {Value : Type} (value : Value) : holds Value (pure value) :=
  law.reports (.pure value)

theorem simple (result : Option ValueType) (node : Tree) :
    holds Tree (Statement.simple result node) := by
  unfold Statement.simple
  split
  case h_1 => exact law.struct node
  case h_2 => exact law.variable node
  case h_3 =>
    dsimp only
    split
    · exact law.reports (.bind (.report _) fun _ => .pure _)
    · exact law.pure _
  case h_4 =>
    exact law.reports (.bind (Expression.check_onlyReports _) fun _ =>
      .bind (.of_reports (Statement.returned_reports _ _ _)) fun _ => .pure _)
  case h_16 => exact law.reports (Expression.check_onlyReports node)
  all_goals first
    | exact law.reports (.malformed _ _ _)
    | exact law.pure _

private theorem statements {result : Option ValueType} {trees : List Tree}
    (each : ∀ tree ∈ trees, ∀ result, holds Tree (Statement.check result tree)) :
    holds (List Tree) (Statement.checkAll result trees) := by
  induction trees with
  | nil => exact law.pure _
  | cons tree rest induction =>
      rw [List.forall_mem_cons] at each
      exact law.bind (each.1 _) fun _ => law.bind (induction each.2) fun _ => law.pure _

private theorem statementsOf (type : ValueType) (function : Tree) {rest : List Tree}
    (each : ∀ body ∈ rest, ∀ tree ∈ body.children, ∀ result,
      holds Tree (Statement.check result tree)) :
    holds (List Tree) (Statement.checkBody type function rest) := by
  cases rest with
  | nil => exact law.reports (.bind (.report _) fun _ => .pure _)
  | cons body rest =>
      rcases body with ⟨kind, location, text, note, children⟩
      exact law.bind (law.statements (each _ List.mem_cons_self)) fun _ => law.pure _

theorem check (tree : Tree) (result : Option ValueType) :
    holds Tree (Statement.check result tree) := by
  induction tree using Tree.statementInduction generalizing result with
  | root location text note children induction =>
      simp only [Statement.check]
      exact law.bind (law.statements induction) fun _ => law.pure _
  | block location text note children induction =>
      simp only [Statement.check]
      exact law.bind law.enter fun _ => law.bind (law.statements induction) fun _ =>
        law.bind law.leave fun _ => law.pure _
  | function location text note declarator parameters rest induction =>
      simp only [Statement.check]
      apply law.bind (law.opened _ _ _)
      rintro (_ | heading)
      · exact law.pure _
      · exact law.bind (law.statementsOf _ _ induction) fun _ => law.bind law.leave fun _ =>
          law.bind law.separate fun _ => law.pure _
  | prototype location text note declarator parameters rest =>
      simp only [Statement.check]
      apply law.bind (law.opened _ _ _)
      rintro (_ | heading)
      · exact law.pure _
      · exact law.bind law.leave fun _ => law.pure _
  | control kind location text note test bodies control induction =>
      rw [Statement.check_control control]
      exact law.bind (law.reports (Statement.condition_onlyReports _)) fun _ =>
        law.bind (law.statements induction) fun _ => law.pure _
  | simple tree simple =>
      rw [Statement.check_simple simple]
      exact law.simple result tree

theorem checkAll (trees : List Tree) (result : Option ValueType) :
    holds (List Tree) (Statement.checkAll result trees) :=
  law.statements fun tree _ => law.check tree

theorem checkBody (type : ValueType) (function : Tree) (rest : List Tree) :
    holds (List Tree) (Statement.checkBody type function rest) :=
  law.statementsOf type function fun _ _ tree _ => law.check tree

end IsStepLaw

/-! ## Declarations -/

structure IsStorageLaw (holds : (Value : Type) → Check Value → Prop) : Prop where
  reports {Value : Type} {step : Check Value} (only : OnlyReports step) : holds Value step
  bind {Value Result : Type} {step : Check Value} {next : Value → Check Result}
    (first : holds Value step) (rest : ∀ value, holds Result (next value)) :
    holds Result (step >>= next)
  get {Result : Type} {next : AnalysisState → Check Result}
    (rest : ∀ state, holds Result (next state)) : holds Result (MonadState.get >>= next)
  allocate (symbol : Symbol) : holds Nat (allocate symbol)
  declare (target : DeclarationTarget) (name : String) (id : Nat) :
    holds Unit (declare target name id)
  recordSymbol (name : String) (id : Nat) : holds Unit (recordSymbol name id)
  register (name : String) (place : Location) (id : Nat) :
    holds Unit (Declaration.registerStruct name place id)
  enter : holds Unit enter
  leave : holds Unit leave
  separate : holds Unit (record .separator)

namespace IsStorageLaw

variable {holds : (Value : Type) → Check Value → Prop} (law : IsStorageLaw holds)

include law

theorem pure {Value : Type} (value : Value) : holds Value (pure value) :=
  law.reports (.pure value)

theorem checkField (structName : String) (table : Table) (declarator : Tree) :
    holds (Table × Tree) (Declaration.checkField structName table declarator) := by
  apply law.bind (law.reports (declaredType_onlyReports _ _))
  intro type
  split
  · exact law.reports (.bind (.report _) fun _ => .pure _)
  · apply law.bind (law.allocate _)
    intro id
    dsimp only
    split
    · exact law.reports (.bind (.symbol _) fun _ => .bind (.report _) fun _ => .pure _)
    · exact law.reports (.bind (.pure _) fun _ => .pure _)

theorem checkFields (structName : String) (table : Table) (declarators : List Tree) :
    holds (Table × List Tree) (Declaration.checkFields structName table declarators) := by
  induction declarators generalizing table with
  | nil => exact law.pure _
  | cons declarator rest induction =>
      exact law.bind (law.checkField _ _ _) fun _ => law.bind (induction _) fun _ => law.pure _

theorem checkStruct (node : Tree) : holds Tree (Declaration.checkStruct node) := by
  have unnamed : holds Tree (do report (.unnamedStruct node.location); return node) :=
    law.reports (.bind (.report _) fun _ => .pure _)
  unfold Declaration.checkStruct
  split
  · split
    · exact unnamed
    · exact law.bind (law.checkFields _ _ _) fun _ => law.bind (law.allocate _) fun _ =>
        law.bind (law.register _ _ _) fun _ => law.pure _
  · exact unnamed

theorem checkVariable (node : Tree) : holds Tree (Declaration.checkVariable node) := by
  have declared (name : String) (id : Nat) (node : Tree) : holds Tree (do
      Check.declare .innermost name id
      Check.recordSymbol name id
      return node) :=
    law.bind (law.declare _ _ _) fun _ => law.bind (law.recordSymbol _ _) fun _ => law.pure _
  unfold Declaration.checkVariable
  split
  · exact law.reports (.malformed _ _ _)
  · apply law.bind (law.reports (declaredType_onlyReports _ _))
    intro type
    split
    · exact law.reports (.malformed _ _ _)
    · refine law.bind (law.reports (.replacedVariable _)) fun replaces => law.get fun state => ?_
      refine law.bind (law.allocate _) fun id => ?_
      dsimp only
      split
      · exact law.bind (law.pure _) fun _ => declared _ _ _
      · exact law.bind (law.reports (Expression.check_onlyReports _)) fun _ =>
          law.bind (law.reports (requireCompatible_onlyReports _ _ _)) fun _ =>
          law.bind (law.pure _) fun _ => declared _ _ _

theorem checkParameter (declarator : Tree) :
    holds Tree (Declaration.checkParameter declarator) := by
  apply law.bind (law.reports (declaredType_onlyReports _ _))
  intro type
  split
  · exact law.reports (.malformed _ _ _)
  · exact law.bind (law.reports (.replacedVariable _)) fun _ => law.get fun _ =>
      law.bind (law.allocate _) fun _ => law.bind (law.declare _ _ _) fun _ =>
      law.bind (law.recordSymbol _ _) fun _ => law.pure _

theorem checkParameters (declarators : List Tree) :
    holds (List Tree) (Declaration.checkParameters declarators) := by
  induction declarators with
  | nil => exact law.pure _
  | cons declarator rest induction =>
      exact law.bind (law.checkParameter _) fun _ => law.bind induction fun _ => law.pure _

theorem openFunction (node declarator parameters : Tree) :
    holds (Option Declaration.Heading)
      (Declaration.openFunction node declarator parameters) := by
  apply law.bind (law.reports (declaredType_onlyReports _ _))
  intro type
  split
  · exact law.reports (.bind (.report _) fun _ => .pure _)
  · exact law.get fun _ => law.bind (law.allocate _) fun _ =>
      law.bind (law.recordSymbol _ _) fun _ => law.bind (law.declare _ _ _) fun _ =>
      law.bind law.enter fun _ => law.bind (law.checkParameters _) fun _ =>
      law.bind law.separate fun _ => law.pure _

theorem isStepLaw : IsStepLaw holds where
  reports := law.reports
  bind := law.bind
  struct := law.checkStruct
  «variable» := law.checkVariable
  opened := law.openFunction
  enter := law.enter
  leave := law.leave
  separate := law.separate

end IsStorageLaw

end OcLang
