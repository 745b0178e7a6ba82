import OcLang.Proofs.Analysis.Forms
import OcLang.Proofs.Analysis.Numbering
import OcLang.Proofs.Scoping.Resolution
import OcLang.Proofs.Tree.Complaints

namespace OcLang

/-! # Nodes that the analysis calls malformed

The analysis calls a node malformed where it does not find the parts of the node that it
needs, and where a node has no value that it needs. Which nodes these are does not depend
on names and types. In a tree that has passed the shape check no parts are missing. -/

def Problem.isMalformed : Problem → Bool
  | .malformed _ _ => true
  | _ => false

def Complaint.problem (complaint : Complaint) : Problem :=
  .malformed complaint.place complaint.kind.tag

def Diagnostics.malformed (diagnostics : Diagnostics) : List Problem :=
  (diagnostics.items.map (·.problem)).filter Problem.isMalformed

namespace Check

variable {Value Result : Type}

def Complains (step : Check Value) (complaints : List Complaint) : Prop :=
  ∀ state, (step.run state).2.diagnostics.malformed =
    state.diagnostics.malformed ++ complaints.map Complaint.problem

abbrev IsQuiet (step : Check Value) : Prop :=
  Complains step []

namespace Complains

theorem unchanged {step : Check Value}
    (same : ∀ state, (step.run state).2.diagnostics = state.diagnostics) : IsQuiet step := by
  intro state
  rw [same, List.map_nil, List.append_nil]

theorem pure (value : Value) : IsQuiet (pure value) :=
  unchanged fun _ => rfl

theorem bind {step : Check Value} {next : Value → Check Result} {complaints more : List Complaint}
    (first : Complains step complaints) (rest : ∀ value, Complains (next value) more) :
    Complains (step >>= next) (complaints ++ more) := by
  intro state
  rw [run_bind, rest, first, List.map_append, List.append_assoc]

theorem quiet_bind {step : Check Value} {next : Value → Check Result} {more : List Complaint}
    (first : IsQuiet step) (rest : ∀ value, Complains (next value) more) :
    Complains (step >>= next) more :=
  first.bind rest

theorem bind_quiet {step : Check Value} {next : Value → Check Result} {complaints : List Complaint}
    (first : Complains step complaints) (rest : ∀ value, IsQuiet (next value)) :
    Complains (step >>= next) complaints := by
  simpa using first.bind rest

theorem get {next : AnalysisState → Check Result} {complaints : List Complaint}
    (rest : ∀ state, Complains (next state) complaints) :
    Complains (MonadState.get >>= next) complaints :=
  fun state => rest state state

theorem modify {change : AnalysisState → AnalysisState}
    (same : ∀ state, (change state).diagnostics = state.diagnostics) : IsQuiet (modify change) :=
  unchanged same

theorem update {change : AnalysisState → AnalysisState} {next : AnalysisState → Check Result}
    {complaints : List Complaint}
    (same : ∀ state, (change state).diagnostics = state.diagnostics)
    (rest : ∀ state, Complains (next state) complaints) :
    Complains (do
      let state ← MonadState.get
      MonadState.set (change state)
      next state) complaints := by
  intro state
  have here := rest state (change state)
  rw [same] at here
  exact here

end Complains

/-! ## The steps -/

theorem report_complains (problem : Problem) (state : AnalysisState) :
    ((report problem).run state).2.diagnostics.malformed =
      state.diagnostics.malformed ++ [problem].filter Problem.isMalformed := by
  have reported : ((report problem).run state).2 =
      { state with diagnostics := state.diagnostics.push problem } := rfl
  simp [reported, Diagnostics.malformed, Diagnostics.push]

theorem report_isQuiet {problem : Problem} (other : problem.isMalformed = false) :
    IsQuiet (report problem) := by
  intro state
  rw [report_complains]
  simp [other]

theorem malformed_complains (lack : Lack) (kind : Kind) (place : Location) :
    Complains (malformed kind place) [{ lack, kind, place }] :=
  fun state => report_complains (.malformed place kind.tag) state

theorem declare_isQuiet (target : DeclarationTarget) (name : String) (id : Nat) :
    IsQuiet (declare target name id) := by
  refine .update (fun _ => rfl) fun state => ?_
  split
  · exact .pure _
  · dsimp only
    split
    · exact .pure _
    · exact report_isQuiet rfl

theorem symbol_isQuiet (id : Nat) : IsQuiet (symbol id) :=
  .unchanged fun _ => rfl

theorem allocate_isQuiet (symbol : Symbol) : IsQuiet (allocate symbol) :=
  .unchanged fun _ => rfl

theorem record_isQuiet (entry : LogEntry) : IsQuiet (record entry) :=
  .unchanged fun _ => rfl

theorem recordSymbol_isQuiet (name : String) (id : Nat) : IsQuiet (recordSymbol name id) :=
  .unchanged fun _ => rfl

theorem replacedVariable_isQuiet (name : String) : IsQuiet (replacedVariable name) :=
  .unchanged fun _ => rfl

theorem enter_isQuiet : IsQuiet enter :=
  .unchanged fun _ => rfl

theorem leave_isQuiet : IsQuiet leave := by
  refine .modify fun state => ?_
  split <;> rfl

/-- A declarator that is no type is called malformed. -/
theorem declaredType_complains (enclosing : Option String) (declarator : Tree) :
    Complains (declaredType enclosing declarator) declarator.typeComplaints := by
  have marked (base : ValueType) : IsQuiet (if declarator.hasArrayMark = true then
      Pure.pure { base with flags := { base.flags with array := true } }
    else Pure.pure base : Check ValueType) := by
    split <;> exact .pure _
  unfold declaredType
  dsimp only
  split
  case h_6 named =>
    rw [Tree.typeComplaints, named, if_pos (by rfl)]
    refine .get fun state => ?_
    split
    · exact .quiet_bind (.pure _) marked
    · exact .quiet_bind (report_isQuiet rfl) fun _ => .quiet_bind (.pure _) marked
  case h_7 kind isVoid isInt isChar isBool isString named =>
    have other : declarator.kind.isType = false := by
      cases form : declarator.kind with
      | type name => cases name <;> simp_all
      | _ => rfl
    rw [Tree.typeComplaints, if_neg (by simp [other])]
    exact .bind_quiet (malformed_complains .type _ _) fun _ => .quiet_bind (.pure _) marked
  all_goals
    rename_i keyword
    rw [Tree.typeComplaints, keyword, if_pos (by rfl)]
    exact .quiet_bind (.pure _) marked

theorem requireInteger_isQuiet (context : String) (value : Tree) :
    IsQuiet (requireInteger context value) := by
  unfold requireInteger
  split
  · exact report_isQuiet rfl
  · exact .pure _

theorem requireCompatible_isQuiet (context : String) (expected : ValueType) (value : Tree) :
    IsQuiet (requireCompatible context expected value) := by
  unfold requireCompatible
  split
  · exact report_isQuiet rfl
  · exact .pure _

end Check

open Check

/-! ## Expressions -/

section

variable {scopes : Scopes} {name : String} {place : Location} {problem : Problem}

theorem isMalformed_of_lookup (missing : scopes.lookup name place = .error problem) :
    problem.isMalformed = false := by
  cases found : scopes.find? name with
  | none =>
      rw [Scopes.lookup_of_missing found] at missing
      cases missing
      rfl
  | some id => simp [Scopes.lookup_of_found found] at missing

theorem isMalformed_of_lookupGlobal (missing : scopes.lookupGlobal name place = .error problem) :
    problem.isMalformed = false := by
  cases found : scopes.globals.find? name with
  | none =>
      rw [Scopes.lookupGlobal_of_missing found] at missing
      cases missing
      rfl
  | some id => simp [Scopes.lookupGlobal_of_found found] at missing

end

namespace Expression

theorem identifier_isQuiet (node : Tree) : IsQuiet (identifier node) := by
  refine .get fun state => ?_
  split
  · rename_i missing
    exact .quiet_bind (report_isQuiet (isMalformed_of_lookup missing)) fun _ => .pure _
  · exact .quiet_bind (symbol_isQuiet _) fun _ => .pure _

theorem callArguments_isQuiet (name : String) (place : Location) (parameters : List Nat)
    (arguments : List Tree) : IsQuiet (callArguments name place parameters arguments) := by
  have each (pairs : List (Tree × Nat)) : IsQuiet (pairs.forM fun pair => do
      requireCompatible "argument" (← symbol pair.2).type pair.1) := by
    induction pairs with
    | nil => exact .pure _
    | cons pair rest induction =>
        exact .quiet_bind (.quiet_bind (symbol_isQuiet _) fun _ => requireCompatible_isQuiet _ _ _)
          fun _ => induction
  unfold callArguments
  split
  · exact report_isQuiet rfl
  · exact each _

theorem call_isQuiet (node callee : Tree) (arguments : List Tree) :
    IsQuiet (call node callee arguments) := by
  refine .get fun state => ?_
  split
  · rename_i missing
    exact .quiet_bind (report_isQuiet (isMalformed_of_lookupGlobal missing)) fun _ => .pure _
  · refine .quiet_bind (symbol_isQuiet _) fun function => ?_
    split
    · exact .quiet_bind (report_isQuiet rfl) fun _ => .pure _
    · exact .quiet_bind (callArguments_isQuiet _ _ _ _) fun _ => .pure _

theorem selectedField_isQuiet (node object field : Tree) :
    IsQuiet (selectedField node object field) := by
  unfold selectedField
  dsimp only
  split
  · refine .get fun state => ?_
    split
    · exact .quiet_bind (report_isQuiet rfl) fun _ => .pure _
    · refine .quiet_bind (symbol_isQuiet _) fun record => ?_
      split
      · exact .quiet_bind (report_isQuiet rfl) fun _ => .pure _
      · exact .pure _
  · exact .quiet_bind (report_isQuiet rfl) fun _ => .pure _

theorem select_isQuiet (node object field : Tree) : IsQuiet (select node object field) := by
  unfold select
  dsimp only
  split
  · exact .pure _
  · refine .quiet_bind (selectedField_isQuiet _ _ _) fun found => ?_
    cases found with
    | none => exact .pure _
    | some id => exact .quiet_bind (symbol_isQuiet _) fun _ => .pure _

theorem index_isQuiet (node array position : Tree) : IsQuiet (index node array position) := by
  refine .quiet_bind (requireInteger_isQuiet _ _) fun _ => ?_
  dsimp only
  split
  · exact .pure _
  · split
    · exact .pure _
    · split
      · exact .pure _
      · exact .quiet_bind (report_isQuiet rfl) fun _ => .pure _

theorem assign_isQuiet (node target value : Tree) : IsQuiet (assign node target value) := by
  unfold assign
  dsimp only
  split
  · exact .quiet_bind (report_isQuiet rfl) fun _ =>
      .quiet_bind (requireCompatible_isQuiet _ _ _) fun _ => .pure _
  · exact .quiet_bind (requireCompatible_isQuiet _ _ _) fun _ => .pure _

theorem binary_isQuiet (operator : BinaryOperator) (node left right : Tree) :
    IsQuiet (binary operator node left right) := by
  unfold binary
  dsimp only
  split
  · exact .quiet_bind (requireCompatible_isQuiet _ _ _) fun _ => .pure _
  · exact .quiet_bind (requireInteger_isQuiet _ _) fun _ =>
      .quiet_bind (requireInteger_isQuiet _ _) fun _ => .pure _

/-- A node without operands is called malformed if it lacks them or has no value. -/
theorem closed_complains (node : Tree) : Complains (closed node) node.leafComplaints := by
  have lacking (lack : Lack) (change : Note → Note) :
      Complains (do malformed node.kind node.location; return node.mapNote change)
        [node.lacks lack] :=
    .bind_quiet (malformed_complains lack _ _) fun _ => .pure _
  have plain (lack : Lack) :
      Complains (do malformed node.kind node.location; return node) [node.lacks lack] :=
    .bind_quiet (malformed_complains lack _ _) fun _ => .pure _
  rcases node with ⟨kind, location, text, note, children⟩
  cases kind with
  | identifier => exact identifier_isQuiet _
  | literal what => exact .pure _
  | select | index | binary | unary => exact lacking .part _
  | call | assign => exact plain .part
  | allocate what =>
      rcases children with _ | ⟨type, _ | ⟨second, rest⟩⟩ <;> cases what <;>
        first
          | exact plain .part
          | exact .bind_quiet (declaredType_complains none _) fun _ => .pure _
  | _ => exact plain .value

private theorem checkAll_complains {trees : List Tree}
    (each : ∀ tree ∈ trees, Complains (check tree) tree.valueComplaints) :
    Complains (checkAll trees) (Tree.valueComplaintsAll trees) := by
  induction trees with
  | nil => exact .pure _
  | cons tree rest induction =>
      rw [List.forall_mem_cons] at each
      exact each.1.bind fun _ => (induction each.2).bind_quiet fun _ => .pure _

theorem check_complains (tree : Tree) : Complains (check tree) tree.valueComplaints := by
  induction tree using Tree.expressionInduction with
  | call location text note callee arguments induction =>
      simp only [check]
      exact (checkAll_complains induction).bind_quiet fun _ => call_isQuiet _ _ _
  | select location text note object field induction =>
      simp only [check]
      exact induction.bind_quiet fun _ => select_isQuiet _ _ _
  | index location text note array position first second =>
      simp only [check]
      exact first.bind fun _ => second.bind_quiet fun _ => index_isQuiet _ _ _
  | newArray location text note type size induction =>
      simp only [check]
      exact (declaredType_complains none type).bind fun _ => induction.bind_quiet fun _ =>
        .quiet_bind (requireInteger_isQuiet _ _) fun _ => .pure _
  | newString location text note size induction =>
      simp only [check]
      exact induction.bind_quiet fun _ => .quiet_bind (requireInteger_isQuiet _ _) fun _ => .pure _
  | assign location text note target value first second =>
      simp only [check]
      exact first.bind fun _ => second.bind_quiet fun _ => assign_isQuiet _ _ _
  | binary operator location text note left right first second =>
      simp only [check]
      exact first.bind fun _ => second.bind_quiet fun _ => binary_isQuiet _ _ _ _
  | unary operator location text note operand rest induction =>
      simp only [check]
      exact induction.bind_quiet fun _ => .quiet_bind (requireInteger_isQuiet _ _) fun _ => .pure _
  | leaf node leaf =>
      rw [check_leaf leaf, Tree.valueComplaints_leaf leaf]
      exact closed_complains node

end Expression

/-! ## Declarations -/

namespace Declaration

theorem checkField_complains (structName : String) (table : Table) (declarator : Tree) :
    Complains (checkField structName table declarator) declarator.declaratorComplaints := by
  refine (declaredType_complains _ _).bind fun type => ?_
  cases declared : declarator.declaredName? with
  | none => exact (malformed_complains .part _ _).bind_quiet fun _ => .pure _
  | some name =>
      refine .quiet_bind (allocate_isQuiet _) fun id => ?_
      dsimp only
      split
      · exact .quiet_bind (symbol_isQuiet _) fun _ => .quiet_bind (report_isQuiet rfl) fun _ =>
          .pure _
      · exact .quiet_bind (.pure _) fun _ => .pure _

theorem checkFields_complains (structName : String) (table : Table) (declarators : List Tree) :
    Complains (checkFields structName table declarators)
      (declarators.flatMap Tree.declaratorComplaints) := by
  induction declarators generalizing table with
  | nil => exact .pure _
  | cons declarator rest induction =>
      exact (checkField_complains _ _ _).bind fun _ => (induction _).bind_quiet fun _ => .pure _

theorem registerStruct_isQuiet (name : String) (place : Location) (id : Nat) :
    IsQuiet (registerStruct name place id) := by
  have logged : IsQuiet (do record (.struct name id); record .separator) :=
    .quiet_bind (record_isQuiet _) fun _ => record_isQuiet _
  refine .update (fun _ => rfl) fun state => ?_
  split
  · exact .quiet_bind (report_isQuiet rfl) fun _ => logged
  · exact logged

theorem checkStruct_complains (node : Tree) :
    Complains (checkStruct node) (Tree.structComplaints node.children) := by
  unfold checkStruct
  rcases node.children with _ | ⟨name, declarators⟩
  · exact .quiet_bind (report_isQuiet rfl) fun _ => .pure _
  · by_cases named : name.kind = .type .named
    · simp only [Tree.structComplaints, named, bne_self_eq_false, Bool.false_eq_true, if_false,
        if_true]
      exact (checkFields_complains _ _ _).bind_quiet fun _ =>
        .quiet_bind (allocate_isQuiet _) fun _ =>
          .quiet_bind (registerStruct_isQuiet _ _ _) fun _ => .pure _
    · simp only [Tree.structComplaints, named, bne_iff_ne, ne_eq, not_false_eq_true, if_true,
        if_false]
      exact .quiet_bind (report_isQuiet rfl) fun _ => .pure _

theorem checkVariable_complains (node : Tree) :
    Complains (checkVariable node) node.variableComplaints := by
  have declared (name : String) (id : Nat) (node : Tree) : IsQuiet (do
      declare .innermost name id
      recordSymbol name id
      return node) :=
    .quiet_bind (declare_isQuiet _ _ _) fun _ => .quiet_bind (recordSymbol_isQuiet _ _) fun _ =>
      .pure _
  unfold checkVariable Tree.variableComplaints
  rcases node.children with _ | ⟨declarator, values⟩
  · exact (malformed_complains .part _ _).bind_quiet fun _ => .pure _
  · refine (declaredType_complains _ _).bind fun type => ?_
    cases named : declarator.declaredName? with
    | none => exact (malformed_complains .part _ _).bind_quiet fun _ => .pure _
    | some name =>
        refine .quiet_bind (replacedVariable_isQuiet _) fun replaces => .get fun state => ?_
        refine .quiet_bind (allocate_isQuiet _) fun id => ?_
        dsimp only
        rcases values with _ | ⟨value, rest⟩
        · exact .quiet_bind (.pure _) fun _ => declared _ _ _
        · exact (Expression.check_complains _).bind fun _ =>
            .quiet_bind (requireCompatible_isQuiet _ _ _) fun _ =>
              .quiet_bind (.pure _) fun _ => declared _ _ _

theorem checkParameter_complains (declarator : Tree) :
    Complains (checkParameter declarator) declarator.declaratorComplaints := by
  refine (declaredType_complains _ _).bind fun type => ?_
  cases declared : declarator.declaredName? with
  | none => exact (malformed_complains .part _ _).bind_quiet fun _ => .pure _
  | some name =>
      exact .quiet_bind (replacedVariable_isQuiet _) fun _ => .get fun _ =>
        .quiet_bind (allocate_isQuiet _) fun _ => .quiet_bind (declare_isQuiet _ _ _) fun _ =>
        .quiet_bind (recordSymbol_isQuiet _ _) fun _ => .pure _

theorem checkParameters_complains (declarators : List Tree) :
    Complains (checkParameters declarators) (declarators.flatMap Tree.declaratorComplaints) := by
  induction declarators with
  | nil => exact .pure _
  | cons declarator rest induction =>
      exact (checkParameter_complains _).bind fun _ => induction.bind_quiet fun _ => .pure _

/-- What follows the heading of a function is looked at if the function has a name. -/
theorem openFunction_complains {Result : Type} (node declarator parameters : Tree)
    {next : Option Heading → Check Result} {complaints : List Complaint}
    (nameless : IsQuiet (next none))
    (named : ∀ heading, Complains (next (some heading)) complaints) :
    Complains (openFunction node declarator parameters >>= next)
      (Tree.headingComplaints node.kind declarator parameters complaints) := by
  unfold openFunction
  rw [bind_assoc]
  refine (declaredType_complains _ _).bind fun type => ?_
  cases declared : declarator.declaredName? with
  | none =>
      simp only [bind_assoc, pure_bind]
      exact (malformed_complains .part _ _).bind_quiet fun _ => nameless
  | some name =>
      simp only [bind_assoc, pure_bind]
      exact .get fun state => .quiet_bind (allocate_isQuiet _) fun _ =>
        .quiet_bind (recordSymbol_isQuiet _ _) fun _ =>
        .quiet_bind (declare_isQuiet _ _ _) fun _ =>
        .quiet_bind enter_isQuiet fun _ =>
        (checkParameters_complains _).bind fun _ =>
        .quiet_bind (record_isQuiet _) fun _ => named _

end Declaration

/-! ## Statements -/

namespace Statement

theorem returned_isQuiet (result : Option ValueType) (place : Location) (value : Tree) :
    IsQuiet (returned result place value) := by
  unfold returned
  split
  · exact report_isQuiet rfl
  · split
    · exact report_isQuiet rfl
    · exact requireCompatible_isQuiet _ _ _

theorem simple_complains (result : Option ValueType) (node : Tree)
    (simple : node.isCompound = false) :
    Complains (Statement.simple result node) node.simpleComplaints := by
  have ofExpression := Expression.check_complains node
  have lacking : Complains (do malformed node.kind node.location; return node) [node.lacks .part] :=
    (malformed_complains .part _ _).bind_quiet fun _ => .pure _
  rcases node with ⟨kind, location, text, note, children⟩
  cases kind with
  | struct => exact Declaration.checkStruct_complains _
  | «variable» => exact Declaration.checkVariable_complains _
  | returnVoid =>
      unfold Statement.simple
      dsimp only
      split
      · exact .quiet_bind (report_isQuiet rfl) fun _ => .pure _
      · exact .pure _
  | returnValue =>
      rcases children with _ | ⟨value, rest⟩
      · exact lacking
      · exact (Expression.check_complains value).bind_quiet fun _ =>
          .quiet_bind (returned_isQuiet _ _ _) fun _ => .pure _
  | root | block => simp [Tree.isCompound] at simple
  | function | prototype | whileLoop | ifThen | ifElse => exact lacking
  | field | type | arrayMark | declaredName | parameters => exact .pure _
  | _ => exact ofExpression

theorem condition_complains (test : Tree) : Complains (condition test) test.valueComplaints :=
  (Expression.check_complains test).bind_quiet fun _ =>
    .quiet_bind (requireInteger_isQuiet _ _) fun _ => .pure _

private theorem checkAll_complains {trees : List Tree}
    (each : ∀ tree ∈ trees, ∀ result, Complains (check result tree) tree.complaints)
    (result : Option ValueType) : Complains (checkAll result trees) (Tree.complaintsAll trees) := by
  induction trees with
  | nil => exact .pure _
  | cons tree rest induction =>
      rw [List.forall_mem_cons] at each
      exact (each.1 _).bind fun _ => (induction each.2).bind_quiet fun _ => .pure _

private theorem checkBody_complains {rest : List Tree}
    (each : ∀ body ∈ rest, ∀ tree ∈ body.children, ∀ result,
      Complains (check result tree) tree.complaints) (type : ValueType) (function : Tree)
    (isFunction : function.kind = .function) :
    Complains (checkBody type function rest) (Tree.bodyComplaints function.location rest) := by
  rcases rest with _ | ⟨⟨kind, location, text, note, children⟩, rest⟩
  · rw [Tree.bodyComplaints, ← isFunction]
    exact (malformed_complains .part _ _).bind_quiet fun _ => .pure _
  · exact (checkAll_complains (each _ List.mem_cons_self) _).bind_quiet fun _ => .pure _

/-- The analysis of a statement complains of what is wrong with its form. -/
theorem check_complains (tree : Tree) (result : Option ValueType) :
    Complains (check result tree) tree.complaints := by
  induction tree using Tree.statementInduction generalizing result with
  | root location text note children induction =>
      simp only [check]
      exact (checkAll_complains induction result).bind_quiet fun _ => .pure _
  | block location text note children induction =>
      simp only [check]
      exact .quiet_bind enter_isQuiet fun _ => (checkAll_complains induction result).bind_quiet
        fun _ => .quiet_bind leave_isQuiet fun _ => .pure _
  | function location text note declarator parameters rest induction =>
      simp only [check]
      refine Declaration.openFunction_complains _ _ _ (.pure _) fun heading => ?_
      exact (checkBody_complains induction _ _ rfl).bind_quiet fun _ =>
        .quiet_bind leave_isQuiet fun _ => .quiet_bind (record_isQuiet _) fun _ => .pure _
  | prototype location text note declarator parameters rest =>
      simp only [check]
      refine Declaration.openFunction_complains _ _ _ (.pure _) fun heading => ?_
      exact .quiet_bind leave_isQuiet fun _ => .pure _
  | control kind location text note test bodies control induction =>
      rw [check_control control, Tree.complaints_control control]
      exact (condition_complains test).bind fun _ =>
        (checkAll_complains induction result).bind_quiet fun _ => .pure _
  | simple tree simple =>
      rw [check_simple simple, Tree.complaints_simple simple]
      exact simple_complains result tree simple

end Statement

/-- The analysis calls just those nodes malformed that are found without names and types. -/
theorem analyze_complains (tree : Tree) :
    (analyze tree).2.diagnostics.malformed = tree.complaints.map Complaint.problem := by
  have same : (Numbering.number tree).complaints = tree.complaints := by
    rw [← Tree.complaints_bare, Numbering.bare_number, Tree.complaints_bare]
  rw [← same]
  exact Statement.check_complains (Numbering.number tree) none {}

/-- Nodes are called malformed for want of a value only. -/
structure WantsValues (tree : Tree) : Prop where
  reports : (analyze tree).2.diagnostics.malformed = tree.complaints.map Complaint.problem
  /-- No child or name is missing anywhere, and types are types. -/
  values : tree.complaints = (tree.placedValues.filter (·.kind.isValueless)).map (Tree.lacks .value)
  inside : tree.placedValues ⊆ tree.preorder

/-- In a well-shaped tree a node is called malformed just when it has no value and stands in
a place for a value. -/
theorem analyze_wantsValues {tree : Tree} (shaped : tree.IsShaped) : WantsValues tree where
  reports := analyze_complains tree
  values := shaped.complaints
  inside := tree.placedValues_subset_preorder

/-- A block is given to a variable, a return statement is a condition, and a type is added
to a number that is passed to a function. -/
def misplacedNodes : String :=
  "[\"root\",[0,0,0],\"t\",[
    [\"vardecl\",[0,1,0],\"\",[
      [\"int\",[0,1,0],\"int\",[[\"declid\",[0,1,4],\"x\"]]],[\"block\",[0,1,8]]]],
    [\"while\",[0,2,0],\"\",[
      [\"returnvoid\",[0,2,6]],
      [\"call\",[0,3,3],\"\",[[\"ident\",[0,3,2],\"f\"],
        [\"add\",[0,3,6],\"\",[[\"intcon\",[0,3,4],\"1\"],[\"int\",[0,3,8],\"int\"]]]]]]]]]"

set_option maxRecDepth 8192 in
theorem misplacedNodes_wantsValues : ∃ tree, Tree.load misplacedNodes = .ok tree ∧ tree.IsShaped ∧
    WantsValues tree ∧ (analyze tree).2.diagnostics.malformed =
      [.malformed ⟨0, 1, 8⟩ "BLOCK", .malformed ⟨0, 2, 6⟩ "RETURNVOID",
        .malformed ⟨0, 3, 8⟩ "INT"] := by
  have reported : ((Tree.load misplacedNodes).toOption.any fun tree =>
      decide ((analyze tree).2.diagnostics.malformed =
        [.malformed ⟨0, 1, 8⟩ "BLOCK", .malformed ⟨0, 2, 6⟩ "RETURNVOID",
          .malformed ⟨0, 3, 8⟩ "INT"])) = true := by
    rw [show misplacedNodes = String.ofList _ from rfl, Tree.load_ofList]
    decide +kernel
  obtain ⟨tree, loaded, _, shaped, facts⟩ := Tree.exists_loaded reported
  exact ⟨tree, loaded, shaped, analyze_wantsValues shaped, of_decide_eq_true facts⟩

end OcLang
